import ChainedSdk.Proofs.Operations
/-!
# Operations read one by one

What an operation is read as does not depend on the operations around it: these only decide where it
is counted and whether its name is new. So the operations of some documents are collected exactly
where each of them can be read alone and their names are distinct.
-/

namespace ChainedSdk

open Names

/-- An operation as it is read wherever it stands. -/
def Context.readDefinition (context : Context) (models : Table Model)
    (definition : OperationDefinition) : Except Error Operation :=
  match definition.name? with
  | none => .error (.anonymousOperation definition.kind)
  | some name => do
    let (result, _) ← resultFields models name definition.kind
    let inputs ← definition.variableDefinitions.mapM (context.readVariable name)
    return {
      name
      kind := definition.kind
      inputs
      fieldName := result.name
      resultType := result.type.name
      isList := result.isList
      isOptional := result.isOptional
      model? := result.model?
      location? := none
      index := 0 }

variable {context : Context} {models others : Table Model} {before after : List Operation}
  {location? : Option String} {definition : OperationDefinition} {operation : Operation}
  {documents : List DocumentFile} {operations : List Operation}

theorem unplaced_of_readDefinition
    (read : context.readDefinition models definition = .ok operation) :
    operation.unplaced = operation := by
  unfold Context.readDefinition at read
  split at read
  · cases read
  · obtain ⟨_, _, onward⟩ := Outcome.bind_eq_ok_iff.mp read
    obtain ⟨_, _, same⟩ := Outcome.bind_eq_ok_iff.mp onward
    cases same
    rfl

theorem kind_of_readDefinition
    (read : context.readDefinition models definition = .ok operation) :
    operation.kind = definition.kind := by
  unfold Context.readDefinition at read
  split at read
  · cases read
  · obtain ⟨_, _, onward⟩ := Outcome.bind_eq_ok_iff.mp read
    obtain ⟨_, _, same⟩ := Outcome.bind_eq_ok_iff.mp onward
    cases same
    rfl

theorem readDefinition_congr (same : ∀ name, definition.name? = some name →
      others.get? (operationModel name definition.kind) =
        models.get? (operationModel name definition.kind)) :
    context.readDefinition others definition = context.readDefinition models definition := by
  unfold Context.readDefinition
  cases isName : definition.name? with
  | none => rfl
  | some name =>
    have sameFields : resultFields others name definition.kind =
        resultFields models name definition.kind := by
      unfold resultFields
      rw [same name isName]
    dsimp only
    rw [sameFields]

theorem readOperation_eq_ok_iff :
    (readOperation context models before location? definition).outcome = .ok after ↔
      ∃ operation, after = before ++ [operation] ∧
        context.readDefinition models definition = .ok operation.unplaced ∧
        operation.location? = location? ∧ operation.index = before.length ∧
        operation.name ∉ before.map (·.name) := by
  have known {name : String} : (before.any fun operation => operation.name = name) = true ↔
      name ∈ before.map (·.name) := by
    simp [List.any_eq_true, List.mem_map]
  rw [outcome_readOperation]
  unfold Context.readDefinition
  cases definition.name? with
  | none =>
    constructor
    · intro impossible
      cases impossible
    · rintro ⟨_, _, impossible, _⟩
      cases impossible
  | some name =>
    dsimp only
    constructor
    · intro read
      split at read
      · cases read
      · next fresh =>
        obtain ⟨found, isResult, onward⟩ := Outcome.bind_eq_ok_iff.mp read
        obtain ⟨inputs, every, same⟩ := Outcome.bind_eq_ok_iff.mp onward
        cases same
        refine ⟨_, rfl, ?_, rfl, rfl, fun again => fresh (known.mpr again)⟩
        exact Outcome.bind_eq_ok_iff.mpr
          ⟨found, isResult, Outcome.bind_eq_ok_iff.mpr ⟨inputs, every, rfl⟩⟩
    · rintro ⟨operation, rfl, read, rfl, isNext, fresh⟩
      obtain ⟨found, isResult, onward⟩ := Outcome.bind_eq_ok_iff.mp read
      obtain ⟨inputs, every, same⟩ := Outcome.bind_eq_ok_iff.mp onward
      have isRead := Except.ok.inj same
      have sameName : operation.name = name := (congrArg Operation.name isRead).symm
      rw [if_neg fun again => fresh (sameName ▸ known.mp again)]
      refine Outcome.bind_eq_ok_iff.mpr
        ⟨found, isResult, Outcome.bind_eq_ok_iff.mpr ⟨inputs, every, ?_⟩⟩
      refine congrArg (fun last => Except.ok (before ++ [last])) ?_
      exact Operation.eq_of_unplaced isRead rfl isNext.symm

/-- An operation is read from its entry, and knows where it stands. -/
def Operation.ReadFrom (operation : Operation) (context : Context) (models : Table Model)
    (entry : Option String × OperationDefinition) : Prop :=
  context.readDefinition models entry.2 = .ok operation.unplaced ∧ operation.location? = entry.1

private theorem readFrom_of_foldlM {entries : List (Option String × OperationDefinition)}
    (read : entries.foldlM (fun state entry =>
      (readOperation context models state entry.1 entry.2).outcome) before = .ok after) :
    ∃ new, after = before ++ new ∧
      List.Forall₂ (fun entry operation => operation.ReadFrom context models entry)
        entries new := by
  induction entries generalizing before with
  | nil =>
    cases read
    exact ⟨[], (List.append_nil _).symm, .nil⟩
  | cons entry rest ih =>
    rw [List.foldlM_cons] at read
    obtain ⟨next, first, later⟩ := Outcome.bind_eq_ok_iff.mp read
    obtain ⟨operation, rfl, isRead, isPlaced, _⟩ := readOperation_eq_ok_iff.mp first
    obtain ⟨new, rfl, every⟩ := ih later
    exact ⟨operation :: new, by simp, .cons ⟨isRead, isPlaced⟩ every⟩

private theorem foldlM_of_readings {entries : List (Option String × OperationDefinition)}
    {readings : List Operation}
    (each : List.Forall₂ (fun entry reading =>
      context.readDefinition models entry.2 = .ok reading) entries readings)
    (distinct : (before.map (·.name) ++ readings.map (·.name)).Nodup) :
    ∃ after, entries.foldlM (fun state entry =>
      (readOperation context models state entry.1 entry.2).outcome) before = .ok after := by
  induction each generalizing before with
  | nil => exact ⟨before, rfl⟩
  | @cons entry reading rest later isRead _ ih =>
    have isWhole := unplaced_of_readDefinition isRead
    let operation : Operation := { reading with location? := entry.1, index := before.length }
    have fresh : operation.name ∉ before.map (·.name) := fun again =>
      (List.nodup_middle.mp distinct).notMem (List.mem_append_left _ again)
    have first : (readOperation context models before entry.1 entry.2).outcome =
        .ok (before ++ [operation]) := by
      refine readOperation_eq_ok_iff.mpr ⟨operation, rfl, ?_, rfl, rfl, fresh⟩
      rw [isRead, ← isWhole]
      rfl
    obtain ⟨after, further⟩ := @ih (before ++ [operation]) (by
      rw [List.map_append, List.append_assoc]
      exact distinct)
    refine ⟨after, ?_⟩
    rw [List.foldlM_cons, first]
    exact further

theorem readFrom_of_collectOperations
    (collected : (collectOperations context models documents).outcome = .ok operations) :
    List.Forall₂ (fun entry operation => operation.ReadFrom context models entry)
      (entriesOf documents) operations := by
  rw [outcome_collectOperations] at collected
  obtain ⟨new, rfl, every⟩ := readFrom_of_foldlM collected
  exact every

/-- Collected operations are what the documents' operations are read as wherever they stand. -/
theorem readings_of_collectOperations
    (collected : (collectOperations context models documents).outcome = .ok operations) :
    (operationsOf documents).mapM (context.readDefinition models) =
      .ok (operations.map (·.unplaced)) := by
  rw [Outcome.mapM_eq_ok_iff, List.forall₂_map_right_iff, ← map_snd_entriesOf,
    List.forall₂_map_left_iff]
  exact (readFrom_of_collectOperations collected).imp fun _ _ isRead => isRead.1

theorem numbered_of_collectOperations
    (collected : (collectOperations context models documents).outcome = .ok operations) :
    operations.map (·.index) = List.range operations.length := by
  rw [outcome_collectOperations] at collected
  refine Outcome.foldlM_keeps (fun state => state.map (·.index) = List.range state.length)
    rfl ?_ collected
  intro before entry after _ numbered read
  obtain ⟨operation, rfl, _, _, isNext, _⟩ := readOperation_eq_ok_iff.mp read
  rw [List.map_append, numbered, List.length_append, List.length_singleton, List.range_succ,
    List.map_singleton, isNext]

/-- Operations are collected where each of them can be read and all names are distinct. -/
theorem exists_collectOperations {readings : List Operation}
    (read : (operationsOf documents).mapM (context.readDefinition models) = .ok readings)
    (distinct : (readings.map (·.name)).Nodup) :
    ∃ operations, (collectOperations context models documents).outcome = .ok operations := by
  rw [Outcome.mapM_eq_ok_iff, ← map_snd_entriesOf, List.forall₂_map_left_iff] at read
  rw [outcome_collectOperations]
  exact foldlM_of_readings read distinct

end ChainedSdk
