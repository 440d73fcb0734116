import ChainedSdk.Operation.Collect
import ChainedSdk.Proofs.Outcomes
import ChainedSdk.Proofs.TypeShapes
import Mathlib.Data.List.Nodup
/-!
# Collected operations

What an operation is read as, and why it is not read. The operations of some documents come out in
their order under distinct names; once all of them have names and models, only a repeated name, an
unknown variable type or a selection without data stops the reading, or a variable whose type comes
down to no name, because a mark of non-null stands on another one.
-/

namespace ChainedSdk

open Names

/-- The operations of some documents, as they are written. -/
def operationsOf (documents : List DocumentFile) : List OperationDefinition :=
  documents.flatMap fun file => file.document.operations

/-- The operations of some documents with the places of the documents. -/
def entriesOf (documents : List DocumentFile) : List (Option String × OperationDefinition) :=
  documents.flatMap fun file =>
    file.document.operations.map fun definition => (file.location?, definition)

theorem map_snd_entriesOf (documents : List DocumentFile) :
    (entriesOf documents).map Prod.snd = operationsOf documents := by
  rw [operationsOf, entriesOf, List.map_flatMap]
  congr 1
  funext file
  rw [List.map_map]
  exact List.map_id _

/-- An operation without the document and the position that it was read at. -/
def Operation.unplaced (operation : Operation) : Operation :=
  { operation with location? := none, index := 0 }

theorem Operation.name_of_unplaced {first second : Operation}
    (same : first.unplaced = second.unplaced) : first.name = second.name := by
  show first.unplaced.name = second.unplaced.name
  rw [same]

theorem Operation.eq_of_unplaced {first second : Operation}
    (same : first.unplaced = second.unplaced) (sameLocation : first.location? = second.location?)
    (sameIndex : first.index = second.index) : first = second := by
  cases first
  cases second
  simp_all [unplaced]

/-- What an operation is read as. -/
structure Operation.Reads (operation : Operation) (context : Context) (models : Table Model)
    (definition : OperationDefinition) : Prop where
  name_eq : definition.name? = some operation.name
  kind_eq : definition.kind = operation.kind
  inputs : List.Forall₂ (fun declared input =>
    context.readVariable operation.name declared = .ok input)
      definition.variableDefinitions operation.inputs
  result : ∃ root field, models.get? (operationModel operation.name operation.kind) = some root ∧
    field ∈ root.fields ∧ operation.fieldName = field.name ∧
    operation.resultType = field.type.name ∧ operation.model? = field.model?

/-- Some variable of an operation has a type in which a mark stands directly on a mark. -/
def OperationDefinition.HasDoubleMark (definition : OperationDefinition) : Prop :=
  ∃ declared ∈ definition.variableDefinitions, declared.type.HasDoubleMark

/-- Why the operations of some documents cannot be read although they have names and models, and the
types of their variables have shapes. -/
inductive Unreadable (context : Context) (models : Table Model)
    (definitions : List OperationDefinition) : Error → Prop
  | repeated {first second : OperationDefinition} {name : String}
      (both : [first, second].Sublist definitions) (firstName : first.name? = some name)
      (secondName : second.name? = some name) :
      Unreadable context models definitions (.duplicateOperation name)
  | noResult {definition : OperationDefinition} {name : String} {root : Model}
      (isOperation : definition ∈ definitions) (isName : definition.name? = some name)
      (isRoot : models.get? (operationModel name definition.kind) = some root)
      (noData : ∀ field ∈ root.fields, field.fieldName = typenameField) :
      Unreadable context models definitions (.unresolved name (.resultField root.typeName))
  | unknownVariable {definition : OperationDefinition} {name : String}
      {declared : VariableDefinition} {shape : TypeShape}
      (isOperation : definition ∈ definitions) (isName : definition.name? = some name)
      (isVariable : declared ∈ definition.variableDefinitions)
      (hasShape : declared.type.unwrap? = some shape)
      (unknown : context.type? shape.name = none) :
      Unreadable context models definitions (.unresolved name (.variable declared.name shape.name))

variable {context : Context} {models : Table Model} {before after : List Operation}
  {location? : Option String} {definition : OperationDefinition} {error : Error}

theorem outcome_readOperation (context : Context) (models : Table Model)
    (before : List Operation) (location? : Option String) (definition : OperationDefinition) :
    (readOperation context models before location? definition).outcome =
      match definition.name? with
      | none => .error (.anonymousOperation definition.kind)
      | some name =>
        if before.any fun operation => operation.name = name then .error (.duplicateOperation name)
        else do
          let (result, _) ← resultFields models name definition.kind
          let inputs ← definition.variableDefinitions.mapM (context.readVariable name)
          return before ++ [{
            name
            kind := definition.kind
            inputs
            fieldName := result.name
            resultType := result.type.name
            isList := result.isList
            isOptional := result.isOptional
            model? := result.model?
            location?
            index := before.length }] := by
  unfold readOperation
  cases definition.name? with
  | none => rfl
  | some name =>
    dsimp only
    split
    · rfl
    · cases resultFields models name definition.kind with
      | error error => rfl
      | ok found =>
        obtain ⟨result, others⟩ := found
        cases others with
        | nil =>
          cases definition.variableDefinitions.mapM (context.readVariable name) with
          | error error => rfl
          | ok inputs => rfl
        | cons other more =>
          cases definition.variableDefinitions.mapM (context.readVariable name) with
          | error error => rfl
          | ok inputs => rfl

theorem outcome_collectOperations (context : Context) (models : Table Model)
    (documents : List DocumentFile) : (collectOperations context models documents).outcome =
      (entriesOf documents).foldlM (fun before entry =>
        (readOperation context models before entry.1 entry.2).outcome) [] :=
  Reported.outcome_foldlM _ _ _

theorem resultFields_eq_ok {name : String} {kind : OperationKind} {result : ModelField}
    {others : List ModelField} (found : resultFields models name kind = .ok (result, others)) :
    ∃ root, models.get? (operationModel name kind) = some root ∧ result ∈ root.fields := by
  unfold resultFields at found
  split at found
  · cases found
  · next root isRoot =>
    split at found
    · cases found
    · next first rest dataFields =>
      cases found
      have kept : result ∈ root.fields.filter fun field => field.fieldName ≠ typenameField := by
        rw [dataFields]
        exact List.mem_cons_self
      exact ⟨root, isRoot, List.mem_of_mem_filter kept⟩

theorem resultFields_eq_error {name : String} {kind : OperationKind} {root : Model}
    (isRoot : models.get? (operationModel name kind) = some root)
    (failed : resultFields models name kind = .error error) :
    error = .unresolved name (.resultField root.typeName) ∧
      ∀ field ∈ root.fields, field.fieldName = typenameField := by
  unfold resultFields at failed
  rw [isRoot] at failed
  dsimp only at failed
  split at failed
  · next noData =>
    cases failed
    refine ⟨rfl, fun field member => ?_⟩
    have dropped := List.filter_eq_nil_iff.mp noData field member
    exact not_not.mp fun differs => dropped (decide_eq_true differs)
  · cases failed

theorem readVariable_eq_error {operation : String} {declared : VariableDefinition}
    (failed : context.readVariable operation declared = .error error) :
    (∃ shape, declared.type.unwrap? = some shape ∧ context.type? shape.name = none ∧
      error = .unresolved operation (.variable declared.name shape.name)) ∨
    (declared.type.HasDoubleMark ∧ error = .doubleNonNull) := by
  unfold Context.readVariable at failed
  split at failed
  · next shapeless =>
    cases failed
    exact Or.inr ⟨TypeRef.unwrap?_eq_none_iff.mp shapeless, rfl⟩
  · next shape hasShape =>
    split at failed
    · next unknown =>
      cases failed
      exact Or.inl ⟨shape, hasShape, unknown, rfl⟩
    · cases failed

theorem readVariable_eq_ok {operation : String} {declared : VariableDefinition} {input : Variable}
    (read : context.readVariable operation declared = .ok input) :
    input.name = declared.name ∧ ∃ type, context.type? input.typeName = some type := by
  unfold Context.readVariable at read
  split at read
  · cases read
  · split at read
    · cases read
    · next type known =>
      cases read
      exact ⟨rfl, type, known⟩

theorem readOperation_eq_ok
    (read : (readOperation context models before location? definition).outcome = .ok after) :
    ∃ operation, after = before ++ [operation] ∧ operation.Reads context models definition ∧
      operation.name ∉ before.map (·.name) := by
  rw [outcome_readOperation] at read
  split at read
  · cases read
  · next name isName =>
    split at read
    · cases read
    · next fresh =>
      obtain ⟨⟨result, others⟩, found, onward⟩ := Outcome.bind_eq_ok_iff.mp read
      obtain ⟨inputs, every, same⟩ := Outcome.bind_eq_ok_iff.mp onward
      cases same
      obtain ⟨root, isRoot, isField⟩ := resultFields_eq_ok found
      refine ⟨_, rfl, ⟨isName, rfl, Outcome.mapM_eq_ok_iff.mp every,
        root, result, isRoot, isField, rfl, rfl, rfl⟩, fun again => fresh ?_⟩
      obtain ⟨earlier, member, same⟩ := List.mem_map.mp again
      exact List.any_eq_true.mpr ⟨earlier, member, decide_eq_true same⟩

theorem readOperation_eq_error {name : String} {root : Model}
    (isName : definition.name? = some name)
    (isRoot : models.get? (operationModel name definition.kind) = some root)
    (failed : (readOperation context models before location? definition).outcome = .error error) :
    (error = .duplicateOperation name ∧ ∃ earlier ∈ before, earlier.name = name) ∨
      (error = .doubleNonNull ∧ definition.HasDoubleMark) ∨
      ∀ definitions, definition ∈ definitions → Unreadable context models definitions error := by
  rw [outcome_readOperation, isName] at failed
  dsimp only at failed
  split at failed
  · next known =>
    cases failed
    obtain ⟨earlier, member, same⟩ := List.any_eq_true.mp known
    exact Or.inl ⟨rfl, earlier, member, of_decide_eq_true same⟩
  · right
    rcases Outcome.bind_eq_error_iff.mp failed with lacking | ⟨_, _, onward⟩
    · obtain ⟨rfl, noData⟩ := resultFields_eq_error isRoot lacking
      exact Or.inr fun _ member => .noResult member isName isRoot noData
    · rcases Outcome.bind_eq_error_iff.mp onward with unread | ⟨_, _, impossible⟩
      · obtain ⟨declared, isVariable, variableFailed⟩ := Outcome.exists_of_mapM_eq_error unread
        rcases readVariable_eq_error variableFailed with
          ⟨shape, hasShape, unknown, rfl⟩ | ⟨double, rfl⟩
        · exact Or.inr fun _ member => .unknownVariable member isName isVariable hasShape unknown
        · exact Or.inl ⟨rfl, declared, isVariable, double⟩
      · cases impossible

private theorem foldlM_readOperation {entries : List (Option String × OperationDefinition)}
    (read : entries.foldlM (fun state entry =>
      (readOperation context models state entry.1 entry.2).outcome) before = .ok after) :
    ∃ new, after = before ++ new ∧
      List.Forall₂ (fun entry operation => operation.Reads context models entry.2) entries new ∧
      ((before.map (·.name)).Nodup → (after.map (·.name)).Nodup) := by
  induction entries generalizing before with
  | nil =>
    cases read
    exact ⟨[], (List.append_nil _).symm, .nil, id⟩
  | cons entry rest ih =>
    rw [List.foldlM_cons] at read
    obtain ⟨next, first, later⟩ := Outcome.bind_eq_ok_iff.mp read
    obtain ⟨operation, rfl, reads, fresh⟩ := readOperation_eq_ok first
    obtain ⟨new, rfl, every, distinct⟩ := ih later
    refine ⟨operation :: new, by simp, .cons reads every, fun distinctBefore => distinct ?_⟩
    rw [List.map_append]
    exact List.Nodup.append distinctBefore (List.nodup_singleton _)
      (List.disjoint_singleton.mpr fresh)

/-- Collected operations are what the documents' operations are read as, under distinct names. -/
theorem collectOperations_eq_ok {documents : List DocumentFile} {operations : List Operation}
    (collected : (collectOperations context models documents).outcome = .ok operations) :
    List.Forall₂ (fun definition operation => operation.Reads context models definition)
      (operationsOf documents) operations ∧ (operations.map (·.name)).Nodup := by
  rw [outcome_collectOperations] at collected
  obtain ⟨new, rfl, every, distinct⟩ := foldlM_readOperation collected
  refine ⟨?_, distinct List.nodup_nil⟩
  rw [← map_snd_entriesOf, List.forall₂_map_left_iff]
  exact every

/-- Why operations with names and models are not collected. -/
theorem unreadable_of_collectOperations {documents : List DocumentFile}
    (modelled : ∀ definition ∈ operationsOf documents, ∃ name root,
      definition.name? = some name ∧
        models.get? (operationModel name definition.kind) = some root)
    (failed : (collectOperations context models documents).outcome = .error error) :
    Unreadable context models (operationsOf documents) error ∨
      error = .doubleNonNull ∧ ∃ definition ∈ operationsOf documents, definition.HasDoubleMark := by
  rw [outcome_collectOperations] at failed
  obtain ⟨before, entry, after, state, isParted, folded, atEntry⟩ :=
    Outcome.exists_of_foldlM_eq_error failed
  have parted : operationsOf documents =
      before.map Prod.snd ++ entry.2 :: after.map Prod.snd := by
    rw [← map_snd_entriesOf, isParted, List.map_append, List.map_cons]
  have member : entry.2 ∈ operationsOf documents := by
    rw [parted]
    exact List.mem_append_right _ List.mem_cons_self
  obtain ⟨name, root, isName, isRoot⟩ := modelled entry.2 member
  rcases readOperation_eq_error isName isRoot atEntry with
    ⟨rfl, earlier, isEarlier, same⟩ | ⟨rfl, double⟩ | unread
  · obtain ⟨new, rfl, every, _⟩ := foldlM_readOperation folded
    obtain ⟨first, isFirst, reads⟩ := Outcome.exists_of_forall₂ every isEarlier
    refine Or.inl (.repeated ?_ (reads.name_eq.trans (congrArg some same)) isName)
    rw [parted]
    exact (List.singleton_sublist.mpr (List.mem_map_of_mem isFirst)).append
      (List.singleton_sublist.mpr List.mem_cons_self)
  · exact Or.inr ⟨rfl, entry.2, member, double⟩
  · exact Or.inl (unread _ member)

end ChainedSdk
