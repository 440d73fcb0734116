import ChainedSdk.Proofs.Resolution
import Mathlib
/-!
# Which variables are inherited

The variables of an operation are looked for in the models above it, nearest first. Below, the
search is told apart from what it is for: a variable is inherited exactly where it is required and
some model above supplies it, and then from the nearest such model. The path of a node, which is put
down on the way from the root, names the same models in the opposite order.
-/

namespace ChainedSdk

variable {config : Config}

/-- Some key field of a model stands in for a variable. -/
def Model.Supplies (config : Config) (model : Model) (input : Variable) : Prop :=
  ∃ name field, model.keyField? config name = some field ∧ field.supplies input

/-- Where an inherited value comes from: a key field of the nearest of some models that supplies its
variable. -/
structure Inherited.ComesFrom (config : Config) (above : List Model) (value : Inherited)
    (model : Model) (field : ModelField) : Prop where
  model_at : above[value.depth]? = some model
  nearest : ∀ nearer ∈ above.take value.depth, ¬nearer.Supplies config value.input
  model_eq : value.model = model.name
  field_eq : value.field = field.name
  isKey : model.keyField? config value.field = some field
  supplies : field.supplies value.input

/-! ## One search -/

theorem ModelField.supplies_iff {field : ModelField} {input : Variable} :
    field.supplies input ↔ input.name = field.name ∧ input.typeName = field.type.name ∧
      input.isList = field.isList ∧ (input.isOptional = false → field.isOptional = false) := by
  simp only [supplies, Bool.and_eq_true, decide_eq_true_eq, Bool.or_eq_true, Bool.not_eq_true',
    and_assoc]
  cases input.isOptional <;> simp

theorem ModelField.isKeyField_iff {field : ModelField} :
    Model.isKeyField config field ↔ field.isList = false ∧ field.type.isLeaf ∧
      field.fieldName ≠ typenameField ∧
      (config.chainMatch = .identifying → field.name ∈ config.identifyingFields) := by
  simp only [Model.isKeyField, Bool.and_eq_true, Bool.or_eq_true, Bool.not_eq_true',
    decide_eq_true_eq, List.contains_iff_mem, and_assoc]
  by_cases identifying : config.chainMatch = .identifying <;> simp [identifying]

/-- A model supplies a variable exactly where it has a fitting key field under its name. -/
theorem Model.exists_supply?_iff {model : Model} {depth : Nat} {input : Variable} :
    (∃ entry, model.supply? config depth input = some entry) ↔ model.Supplies config input := by
  constructor
  · rintro ⟨entry, supplied⟩
    obtain ⟨field, found, fits, _⟩ := supply?_eq_some_iff.mp supplied
    exact ⟨input.name, field, found, fits⟩
  · rintro ⟨name, field, found, fits⟩
    have isNamed : name = input.name :=
      ((ModelField.supplies_iff.mp fits).1.trans (keyField?_eq_some found).2).symm
    exact ⟨_, supply?_eq_some_iff.mpr ⟨field, isNamed ▸ found, fits, rfl⟩⟩

theorem Model.supply?_eq_none_iff {model : Model} {depth : Nat} {input : Variable} :
    model.supply? config depth input = none ↔ ¬model.Supplies config input := by
  rw [← exists_supply?_iff, ← Option.isSome_iff_exists, Bool.not_eq_true,
    Option.isSome_eq_false_iff, Option.isNone_iff_eq_none]

theorem Variable.supplier?_eq_none_iff {input : Variable} {depth : Nat} {above : List Model} :
    input.supplier? config depth above = none ↔ ∀ model ∈ above, ¬model.Supplies config input := by
  induction above generalizing depth with
  | nil => simp [supplier?]
  | cons model further ih =>
    have here : model.supply? config depth input = none ↔ ¬model.Supplies config input :=
      Model.supply?_eq_none_iff
    have onward : input.supplier? config (depth + 1) further = none ↔
        ∀ other ∈ further, ¬other.Supplies config input := ih
    rw [supplier?, List.forall_mem_cons, ← here, ← onward]
    cases model.supply? config depth input with
    | none => simp
    | some entry => simp

theorem Variable.exists_nearest {input : Variable} {depth : Nat} {above : List Model}
    {entry : Inherited} (found : input.supplier? config depth above = some entry) :
    ∃ index model field, above[index]? = some model ∧
      (∀ nearer ∈ above.take index, ¬nearer.Supplies config input) ∧
      model.keyField? config input.name = some field ∧ field.supplies input ∧
      entry = ⟨input, model.name, field.name, depth + index⟩ := by
  obtain ⟨index, model, isAbove, supplied, passed⟩ := supplier?_eq_some found
  obtain ⟨field, isKey, fits, same⟩ := Model.supply?_eq_some_iff.mp supplied
  refine ⟨index, model, field, isAbove, fun nearer member => ?_, isKey, fits, same⟩
  obtain ⟨_, supplies⟩ := passed nearer member
  exact Model.supply?_eq_none_iff.mp supplies

theorem Variable.inherited?_eq_none_iff {input : Variable} {above : List Model} :
    input.inherited? config above = none ↔
      ¬(input.isRequired ∧ ∃ model ∈ above, model.Supplies config input) := by
  unfold inherited?
  by_cases required : input.isRequired
  · rw [if_pos required, supplier?_eq_none_iff]
    simp [required]
  · simp [required]

theorem Variable.exists_source {input : Variable} {above : List Model} {value : Inherited}
    (found : input.inherited? config above = some value) :
    value.input = input ∧ ∃ model field, value.ComesFrom config above model field := by
  unfold inherited? at found
  split at found
  · obtain ⟨index, model, field, isAbove, nearest, isKey, fits, rfl⟩ := exists_nearest found
    have isNamed := (Model.keyField?_eq_some isKey).2
    rw [Nat.zero_add]
    exact ⟨rfl, model, field, isAbove, nearest, rfl, rfl, isNamed.symm ▸ isKey, fits⟩
  · cases found

/-! ## The split of a node -/

/-- How the variables of a node are divided between the caller and the models above, nearest first:
each variable goes to one side, in the order of declaration, and to the models exactly where it is
required and one of them supplies it. -/
structure Node.Divided (config : Config) (above : List Model) (node : Node) : Prop where
  partition : (node.arguments ++ node.inherited.map (·.input)).Perm node.operation.inputs
  arguments_sublist : node.arguments.Sublist node.operation.inputs
  inherited_sublist : (node.inherited.map (·.input)).Sublist node.operation.inputs
  disjoint : node.arguments.Disjoint (node.inherited.map (·.input))
  inherited_iff : ∀ input ∈ node.operation.inputs, input ∈ node.inherited.map (·.input) ↔
    input.isRequired ∧ ∃ model ∈ above, model.Supplies config input
  minimal : ∀ input ∈ node.arguments, input.isRequired →
    ∀ model ∈ above, ¬model.Supplies config input

/-- What an inherited value of a node is: the value of a field of the nearest model that supplies
the variable, which stands in the path of the node as far from its end as the depth says. The field
is a single leaf of the type of the variable and is never missing. -/
structure Node.Inherits (config : Config) (above : List Model) (node : Node)
    (value : Inherited) : Prop where
  on_path : value.depth < node.path.length ∧
    node.path[node.path.length - 1 - value.depth]? = some value.model
  source : ∃ model field, value.ComesFrom config above model field ∧ field ∈ model.fields ∧
    field.isList = false ∧ field.type.isLeaf ∧ field.fieldName ≠ typenameField ∧
    field.name = value.input.name ∧ field.type.name = value.input.typeName ∧
    field.isOptional = false ∧
    (config.chainMatch = .identifying → field.name ∈ config.identifyingFields)

namespace Operation

variable {operation : Operation} {above : List Model}

theorem map_input_inherited :
    (operation.inherited config above).map (·.input) =
      operation.inputs.filter fun input => !(input.inherited? config above).isNone := by
  rw [inherited, List.map_filterMap, ← List.filterMap_eq_filter]
  refine List.filterMap_congr fun input _ => ?_
  cases found : input.inherited? config above with
  | none => simp [Option.guard, found]
  | some value =>
    have same := (Variable.exists_source found).1
    simp [Option.guard, found, same]

end Operation

namespace Node

variable {node : Node} {above : List Model}

theorem divided_of_eq (argumentsEq : node.arguments = node.operation.arguments config above)
    (inheritedEq : node.inherited = node.operation.inherited config above) :
    node.Divided config above := by
  have inputsEq : node.inherited.map (·.input) =
      node.operation.inputs.filter fun input => !(input.inherited? config above).isNone := by
    rw [inheritedEq, Operation.map_input_inherited]
  have left {input : Variable} (isArgument : input ∈ node.arguments) :
      input.inherited? config above = none := by
    rw [argumentsEq] at isArgument
    exact (Operation.mem_arguments.mp isArgument).2
  refine ⟨?_, ?_, ?_, ?_, ?_, ?_⟩
  · rw [inputsEq, argumentsEq]
    exact List.filter_append_perm _ _
  · rw [argumentsEq]
    exact List.filter_sublist
  · rw [inputsEq]
    exact List.filter_sublist
  · intro input isArgument isInherited
    rw [inputsEq, List.mem_filter, left isArgument] at isInherited
    exact absurd isInherited.2 (by simp)
  · intro input isInput
    rw [inputsEq, List.mem_filter, Bool.not_eq_true', ← Bool.not_eq_true,
      Option.isNone_iff_eq_none, Variable.inherited?_eq_none_iff, not_not]
    exact and_iff_right isInput
  · intro input isArgument required model isAbove supplies
    exact Variable.inherited?_eq_none_iff.mp (left isArgument) ⟨required, model, isAbove, supplies⟩

private theorem getElem?_reverse_of_getElem? {α : Type} {items : List α} {index : Nat} {item : α}
    (found : items[index]? = some item) : index < items.reverse.length ∧
      items.reverse[items.reverse.length - 1 - index]? = some item := by
  obtain ⟨bound, _⟩ := List.getElem?_eq_some_iff.mp found
  rw [List.length_reverse]
  refine ⟨bound, ?_⟩
  rw [List.getElem?_reverse (by omega), ← found]
  congr 1
  omega

theorem inherits_of_eq (inheritedEq : node.inherited = node.operation.inherited config above)
    (pathEq : node.path = (above.map (·.name)).reverse) {value : Inherited}
    (isInherited : value ∈ node.inherited) : node.Inherits config above value := by
  rw [inheritedEq] at isInherited
  obtain ⟨_, found⟩ := Operation.mem_inherited.mp isInherited
  have required := (Variable.inherited?_eq_some found).1
  obtain ⟨_, model, field, source⟩ := Variable.exists_source found
  have isField := (Model.keyField?_eq_some source.isKey).1
  obtain ⟨single, leaf, selected, listed⟩ :=
    ModelField.isKeyField_iff.mp (List.mem_filter.mp isField).2
  obtain ⟨sameName, sameType, _, present⟩ := ModelField.supplies_iff.mp source.supplies
  constructor
  -- The path counts from the root, the depth from the node.
  · rw [pathEq, source.model_eq]
    refine getElem?_reverse_of_getElem? ?_
    rw [List.getElem?_map, source.model_at]
    rfl
  · refine ⟨model, field, source, Model.mem_fields_of_mem_keyFields isField, single, leaf, selected,
      sameName.symm, sameType.symm, present ?_, listed⟩
    simp only [Variable.isRequired, Bool.and_eq_true, Bool.not_eq_true'] at required
    exact required.1

end Node

namespace Forest

variable {models : Table Model} {parents : Parents} {operations : List Operation}
  {forest : Forest}

theorem Grown.exists_above (grown : Grown config models parents operations forest)
    {entry : OperationKind × List Node} (isEntry : entry ∈ forest) {root : Node}
    (isRoot : root ∈ entry.2) {higher : List Node} {node : Node} (below : root.Below higher node) :
    ∃ above : List Model, higher.map (·.model?) = above.map some := by
  induction below with
  | root => exact ⟨[], rfl⟩
  | @child higher parent child upper isChild ih =>
    obtain ⟨above, same⟩ := ih
    have settled := grown.settled entry isEntry root isRoot higher parent upper
    obtain ⟨model, isModel, _⟩ := settled.named.resolve_left (List.ne_nil_of_mem isChild)
    refine ⟨model :: above, ?_⟩
    rw [List.map_cons, List.map_cons, same, isModel]

/-- In a resolved forest all nodes above a node have result models, from which it inherits whatever
they supply of its required variables, each from the nearest of them; all other variables are its
arguments. -/
theorem resolve_divides {context : Context} {documents : List DocumentFile} {models : List Model}
    (resolved : (resolve context documents models).outcome = .ok forest)
    {entry : OperationKind × List Node} (isEntry : entry ∈ forest) {root : Node}
    (isRoot : root ∈ entry.2) {higher : List Node} {node : Node} (below : root.Below higher node) :
    ∃ above : List Model, higher.map (·.model?) = above.map some ∧
      node.Divided context.config above ∧
      ∀ value ∈ node.inherited, node.Inherits context.config above value := by
  obtain ⟨operations, _, _, grown, _⟩ := grown_of_resolve resolved
  have settled := grown.settled entry isEntry root isRoot higher node below
  obtain ⟨above, sameModels⟩ := grown.exists_above isEntry isRoot below
  have modelsEq : higher.filterMap (·.model?) = above := by
    have identity := congrArg (List.filterMap id) sameModels
    rw [List.filterMap_map, List.filterMap_map] at identity
    exact identity.trans List.filterMap_some
  have pathEq := settled.path_eq
  have argumentsEq := settled.arguments_eq
  have inheritedEq := settled.inherited_eq
  rw [modelsEq] at pathEq argumentsEq inheritedEq
  exact ⟨above, sameModels, Node.divided_of_eq argumentsEq inheritedEq,
    fun _ isInherited => Node.inherits_of_eq inheritedEq pathEq isInherited⟩

private def hallArgument (name type : String) : InputValueDefinition :=
  ⟨none, name, .nonNull (.named type), none, []⟩

private def hallType (name : String) (keys : List String) : Definition :=
  .type ⟨none, name, [], .object [] (keys.map fun key =>
    ⟨none, key, [], .nonNull (.named "ID"), []⟩)⟩

private def hallSchema : Document where
  definitions := [
    .type ⟨none, "Query", [], .object [] [
      ⟨none, "hall", [hallArgument "id" "ID"], .named "Hall", []⟩,
      ⟨none, "rack", [hallArgument "id" "ID"], .named "Rack", []⟩,
      ⟨none, "book", ["id", "row", "slot"].map (hallArgument · "ID") ++
        [⟨none, "page", .named "Int", none, []⟩], .named "Book", []⟩]⟩,
    hallType "Hall" ["id"], hallType "Rack" ["row", "slot"], hallType "Book" ["title"]]

private def hallQuery (name : String) (keys selected : List String)
    (further : List VariableDefinition) : DocumentFile where
  document := ⟨[.operation ⟨none, .query, some name,
    keys.map (fun key => ⟨none, key, .nonNull (.named "ID"), none, []⟩) ++ further, [],
    [.field ⟨none, name, keys.map fun key => ⟨key, .variable key⟩, []⟩
      (some (selected.map fun key => .field ⟨none, key, [], []⟩ none))]⟩]⟩
  location? := none

private def hallFiles : List DocumentFile := [
  hallQuery "hall" ["id"] ["id"] [], hallQuery "rack" ["id"] ["row", "slot"] [],
  hallQuery "book" ["id", "row", "slot"] ["title"] [⟨none, "page", .named "Int", none, []⟩]]

/-- The page of a book is an argument; its row and slot come from the rack, its hall from two steps
above. -/
theorem resolve_divides_book : ∃ context models forest,
    Context.ofDocument hallSchema hallFiles { chainMatch := .any, requireNamePrefix := false } =
      .ok context ∧
    (resolve context hallFiles models).outcome = .ok forest ∧
    ∃ entry ∈ forest, ∃ root ∈ entry.2, ∃ parent ∈ root.children, ∃ node ∈ parent.children,
      (node.arguments.map (·.name) = ["page"] ∧
        node.inherited.map (fun value => (value.input.name, value.depth)) =
          [("id", 1), ("row", 0), ("slot", 0)]) ∧
      ∃ above : List Model, [parent, root].map (·.model?) = above.map some ∧
        node.Divided context.config above ∧
        ∀ value ∈ node.inherited, node.Inherits context.config above value := by
  have whole : (do
      let context ← Context.ofDocument hallSchema hallFiles
        { chainMatch := .any, requireNamePrefix := false }
      let models ← context.models hallFiles
      let forest ← (resolve context hallFiles models).outcome
      return forest.any fun entry => entry.2.any fun root => root.children.any fun parent =>
        parent.children.any fun node => node.arguments.map (·.name) = ["page"] &&
          node.inherited.map (fun value => (value.input.name, value.depth)) =
            [("id", 1), ("row", 0), ("slot", 0)] : Except Error Bool) = .ok true := by
    set_option maxRecDepth 4000 in cbv
  obtain ⟨context, built, whole⟩ := Outcome.bind_eq_ok_iff.mp whole
  obtain ⟨models, _, whole⟩ := Outcome.bind_eq_ok_iff.mp whole
  obtain ⟨forest, resolved, whole⟩ := Outcome.bind_eq_ok_iff.mp whole
  have reads := Except.ok.inj whole
  simp only [List.any_eq_true, Bool.and_eq_true, decide_eq_true_eq] at reads
  obtain ⟨entry, isEntry, root, isRoot, parent, isParent, node, isChild, isBook⟩ := reads
  exact ⟨context, models, forest, built, resolved, entry, isEntry, root, isRoot, parent, isParent,
    node, isChild, isBook,
    resolve_divides resolved isEntry isRoot ((Node.Below.root.child isParent).child isChild)⟩

end Forest

end ChainedSdk
