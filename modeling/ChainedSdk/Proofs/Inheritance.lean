import ChainedSdk.Chain.Inherit
import ChainedSdk.Proofs.Tables
/-!
# Where variables come from

An inherited variable is supplied by a key field of one of the models above, and the depth says by
which. The variables of an operation are split in two: those that are inherited, and the arguments.
-/

namespace ChainedSdk

variable {config : Config}

theorem Model.keyField?_eq_some {model : Model} {name : String} {field : ModelField}
    (found : model.keyField? config name = some field) :
    field ∈ model.keyFields config ∧ field.name = name := by
  rcases Table.get?_insertAll_mem _ found with isEntry | impossible
  · obtain ⟨held, isKey, same⟩ := List.mem_map.mp isEntry
    cases same
    exact ⟨isKey, rfl⟩
  · cases impossible

theorem Model.mem_fields_of_mem_keyFields {model : Model} {field : ModelField}
    (member : field ∈ model.keyFields config) : field ∈ model.fields :=
  (List.mem_filter.mp member).1

theorem Model.supply?_eq_some_iff {model : Model} {depth : Nat} {input : Variable}
    {entry : Inherited} :
    model.supply? config depth input = some entry ↔
      ∃ field, model.keyField? config input.name = some field ∧ field.supplies input ∧
        entry = ⟨input, model.name, field.name, depth⟩ := by
  unfold supply?
  cases model.keyField? config input.name with
  | none => simp
  | some field =>
    by_cases fits : field.supplies input
    · simpa [fits] using eq_comm
    · simp [fits]

theorem Model.supply?_eq_some {model : Model} {depth : Nat} {input : Variable} {entry : Inherited}
    (supplied : model.supply? config depth input = some entry) :
    ∃ field ∈ model.keyFields config, field.supplies input ∧ field.name = input.name ∧
      entry = ⟨input, model.name, field.name, depth⟩ := by
  obtain ⟨field, isKey, fits, same⟩ := supply?_eq_some_iff.mp supplied
  obtain ⟨member, isNamed⟩ := keyField?_eq_some isKey
  exact ⟨field, member, fits, isNamed, same⟩

/-- The search stops at the first model that supplies the variable, counted from some depth. -/
theorem Variable.supplier?_eq_some {input : Variable} {above : List Model} {depth : Nat}
    {entry : Inherited} (found : input.supplier? config depth above = some entry) :
    ∃ index model, above[index]? = some model ∧
      model.supply? config (depth + index) input = some entry ∧
      ∀ nearer ∈ above.take index, ∃ other, nearer.supply? config other input = none := by
  induction above generalizing depth with
  | nil => cases found
  | cons model further ih =>
    rw [supplier?] at found
    cases supplied : model.supply? config depth input with
    | some first =>
      rw [supplied] at found
      cases found
      exact ⟨0, model, rfl, supplied, fun _ impossible => nomatch impossible⟩
    | none =>
      rw [supplied] at found
      obtain ⟨index, other, isAbove, suppliedThere, passed⟩ := ih found
      rw [Nat.add_assoc, Nat.add_comm 1 index] at suppliedThere
      refine ⟨index + 1, other, isAbove, suppliedThere, ?_⟩
      rw [List.take_succ_cons, List.forall_mem_cons]
      exact ⟨⟨depth, supplied⟩, passed⟩

theorem Variable.inherited?_eq_some {input : Variable} {above : List Model} {entry : Inherited}
    (found : input.inherited? config above = some entry) :
    input.isRequired ∧ ∃ (model : Model) (field : ModelField),
      above[entry.depth]? = some model ∧ field ∈ model.keyFields config ∧ field.supplies input ∧
      entry.input = input ∧ entry.model = model.name ∧ entry.field = field.name ∧
      field.name = input.name := by
  unfold inherited? at found
  split at found
  · next required =>
    obtain ⟨index, model, isAbove, supplied, _⟩ := supplier?_eq_some found
    obtain ⟨field, isKey, fits, same, rfl⟩ := Model.supply?_eq_some supplied
    rw [Nat.zero_add]
    exact ⟨required, model, field, isAbove, isKey, fits, rfl, rfl, rfl, same⟩
  · cases found

namespace Operation

variable {operation : Operation} {above : List Model}

theorem mem_arguments {input : Variable} :
    input ∈ operation.arguments config above ↔
      input ∈ operation.inputs ∧ input.inherited? config above = none := by
  rw [arguments, List.mem_filter, Option.isNone_iff_eq_none]

theorem mem_inherited {entry : Inherited} :
    entry ∈ operation.inherited config above ↔
      entry.input ∈ operation.inputs ∧ entry.input.inherited? config above = some entry := by
  rw [inherited, List.mem_filterMap]
  constructor
  · rintro ⟨input, member, found⟩
    obtain ⟨_, _, _, _, _, _, rfl, _⟩ := Variable.inherited?_eq_some found
    exact ⟨member, found⟩
  · rintro ⟨member, found⟩
    exact ⟨entry.input, member, found⟩

end Operation

end ChainedSdk
