import ChainedSdk.Proofs.Generation
import Mathlib
/-!
# Values along a chain

What a chain method hands to `fetch` for a variable, and what becomes of it until it is read. On
the way from an object down to the one that reads its value every method hands the chain on, and no
other object on the way has an entry under the same key. So the value arrives, unless an object on
the way has a property in the place of its chain.
-/

namespace ChainedSdk

variable {Datum : Type} {context : Context} {config : Config}

/-! ## Arguments -/

/-- The argument for a variable of a node's operation tells where the value comes from. -/
structure Node.Passes (node : Node) (input : Variable) (argument : FetchArgument) : Prop where
  parameter : argument = .parameter input.name ↔ input ∈ node.arguments
  ownField : ∀ field, argument = .ownField field ↔
    ∃ entry ∈ node.inherited, entry.input = input ∧ entry.depth = 0 ∧ entry.field = field
  chained : ∀ key, (∃ type, argument = .chained key type) ↔
    ∃ entry ∈ node.inherited, entry.input = input ∧ 0 < entry.depth ∧
      key = ⟨entry.model, entry.field⟩

namespace Operation

variable {operation : Operation} {above : List Model} {input : Variable}

theorem exists_inherited_iff (isInput : input ∈ operation.inputs) (holds : Inherited → Prop) :
    (∃ entry ∈ operation.inherited config above, entry.input = input ∧ holds entry) ↔
      ∃ entry, input.inherited? config above = some entry ∧ holds entry := by
  constructor
  · rintro ⟨entry, member, rfl, held⟩
    exact ⟨entry, (mem_inherited.mp member).2, held⟩
  · rintro ⟨entry, found, held⟩
    obtain ⟨_, _, _, _, _, _, same, _⟩ := Variable.inherited?_eq_some found
    exact ⟨entry, mem_inherited.mpr (by rw [same]; exact ⟨isInput, found⟩), same, held⟩

/-- With distinct names the inherited value of a variable is found by the name. -/
theorem find?_inherited (distinct : (operation.inputs.map (·.name)).Nodup)
    (isInput : input ∈ operation.inputs) :
    ((operation.inherited config above).reverse.find? fun entry =>
      entry.input.name = input.name) = input.inherited? config above := by
  have same {entry : Inherited} (member : entry ∈ operation.inherited config above)
      (sameName : entry.input.name = input.name) :
      input.inherited? config above = some entry := by
    obtain ⟨isOther, found⟩ := mem_inherited.mp member
    rw [List.inj_on_of_nodup_map distinct isInput isOther sameName.symm]
    exact found
  cases found : (operation.inherited config above).reverse.find? fun entry =>
      entry.input.name = input.name with
  | some entry =>
    have named := List.find?_some found
    have member := List.mem_reverse.mp (List.mem_of_find?_eq_some found)
    exact (same member (of_decide_eq_true named)).symm
  | none =>
    cases supplied : input.inherited? config above with
    | none => rfl
    | some entry =>
      obtain ⟨other, member, isInputOther, _⟩ :=
        (exists_inherited_iff isInput fun _ => True).mpr ⟨entry, supplied, trivial⟩
      have differs := List.find?_eq_none.mp found other (List.mem_reverse.mpr member)
      rw [isInputOther] at differs
      exact absurd (decide_eq_true rfl) differs

end Operation

/-- The argument for a variable is what the place of the node says. -/
theorem Node.Settled.passes {models : Table Model} {parents : Parents}
    {operations : List Operation} {higher : List Node} {node : Node}
    (settled : node.Settled config models parents operations higher)
    (distinct : (node.operation.inputs.map (·.name)).Nodup) {input : Variable}
    (isInput : input ∈ node.operation.inputs) {argument : FetchArgument}
    (passed : Sdk.fetchArgument context node.inherited input = .ok argument) :
    node.Passes input argument := by
  have isArgument : input ∈ node.arguments ↔
      input.inherited? config (higher.filterMap (·.model?)) = none := by
    rw [settled.arguments_eq, Operation.mem_arguments, and_iff_right isInput]
  have isInherited (holds : Inherited → Prop) :
      (∃ entry ∈ node.inherited, entry.input = input ∧ holds entry) ↔ ∃ entry,
        input.inherited? config (higher.filterMap (·.model?)) = some entry ∧ holds entry := by
    rw [settled.inherited_eq, Operation.exists_inherited_iff isInput]
  unfold Sdk.fetchArgument at passed
  rw [settled.inherited_eq, Operation.find?_inherited distinct isInput] at passed
  cases supplied : input.inherited? config (higher.filterMap (·.model?)) with
  | none =>
    rw [supplied] at passed isArgument
    cases passed
    refine ⟨⟨fun _ => isArgument.mpr rfl, fun _ => rfl⟩, fun field => ?_, fun key => ?_⟩
    · rw [isInherited, supplied]
      simp
    · rw [isInherited, supplied]
      simp
  | some entry =>
    rw [supplied] at passed isArgument
    dsimp only at passed
    split at passed
    · next atParent =>
      cases passed
      refine ⟨?_, fun field => ?_, fun key => ?_⟩
      · rw [isArgument]
        simp
      · rw [isInherited, supplied]
        simp [atParent]
      · rw [isInherited, supplied]
        simp [atParent]
    · next further =>
      obtain ⟨type, _, rfl⟩ := Outcome.map_eq_ok_iff.mp passed
      refine ⟨?_, fun field => ?_, fun key => ?_⟩
      · rw [isArgument]
        simp
      · rw [isInherited, supplied]
        simp [further]
      · rw [isInherited, supplied]
        simp [Nat.pos_of_ne_zero further, eq_comm]

/-- The arguments of a node's method and the parameters of `fetch` belong together one by one. The
method has a parameter for everything that it takes from its caller. -/
structure Node.Hands (node : Node) (method : Method) (operation : OperationClass) : Prop where
  length_eq : method.arguments.length = operation.parameters.length
  required : ∀ (index : Nat) input, node.operation.required[index]? = some input →
    ∃ argument, ∃ parameter : Parameter, method.arguments[index]? = some argument ∧
      operation.parameters[index]? = some parameter ∧ parameter.name = input.name ∧
      node.Passes input argument ∧
      (input ∈ node.arguments → ∃ own ∈ method.parameters, own.name = input.name)
  optional : ∀ (index : Nat) (parameter : Parameter), node.operation.required.length ≤ index →
    operation.parameters[index]? = some parameter →
      method.arguments[index]? = some (.parameter parameter.name) ∧ parameter ∈ method.parameters

theorem Node.Settled.hands {models : Table Model} {parents : Parents}
    {operations : List Operation} {higher : List Node} {node : Node}
    (settled : node.Settled config models parents operations higher)
    (distinct : (node.operation.inputs.map (·.name)).Nodup) {parent : Model} {method : Method}
    (isMethod : Sdk.ChainMethod context parent node method) {operation : OperationClass}
    (isOperation : Sdk.operationClass context node = .ok operation) :
    node.Hands method operation := by
  obtain ⟨arguments, passed, argumentsEq⟩ := isMethod.arguments
  obtain ⟨own, taken, ownEq⟩ := isMethod.parameters
  obtain ⟨_, parameters, every, parametersEq⟩ := Sdk.operationClass_eq_ok isOperation
  have sameArguments := passed.length_eq
  have sameParameters := every.length_eq
  refine ⟨?_, fun index input isInput => ?_, fun index parameter beyond isParameter => ?_⟩
  · rw [argumentsEq, parametersEq, List.length_append, List.length_append, List.length_map,
      ← sameArguments, ← sameParameters]
  · obtain ⟨argument, isArgument, fetched⟩ := Outcome.getElem?_of_forall₂ passed isInput
    obtain ⟨parameter, isParameter, printed⟩ := Outcome.getElem?_of_forall₂ every isInput
    obtain ⟨isVariable, isRequired⟩ := List.mem_filter.mp (List.mem_of_getElem? isInput)
    refine ⟨argument, parameter, ?_, ?_, Sdk.requiredParameter_eq_ok printed,
      settled.passes distinct isVariable fetched, fun isOwn => ?_⟩
    · rw [argumentsEq, List.getElem?_append_left (List.getElem?_eq_some_iff.mp isArgument).1]
      exact isArgument
    · rw [parametersEq, List.getElem?_append_left (List.getElem?_eq_some_iff.mp isParameter).1]
      exact isParameter
    · obtain ⟨other, isOther, printedOther⟩ :=
        Outcome.exists_of_forall₂_left taken (List.mem_filter.mpr ⟨isOwn, isRequired⟩)
      refine ⟨other, ?_, Sdk.requiredParameter_eq_ok printedOther⟩
      rw [ownEq]
      exact List.mem_append_left _ isOther
  · rw [parametersEq, List.getElem?_append_right (sameParameters ▸ beyond), ← sameParameters]
      at isParameter
    rw [argumentsEq, List.getElem?_append_right (sameArguments ▸ beyond), ← sameArguments,
      List.getElem?_map, isParameter, ownEq]
    exact ⟨rfl, List.mem_append_right _ (List.mem_of_getElem? isParameter)⟩

/-! ## The chain on the way down -/

variable {classes : Classes} {spread : Datum → Table (Option Datum)} {data : Node → String → Datum}

/-- Under the keys of all objects above, the last first, a chain holds what arrives from them. -/
def Carries (config : Config) (classes : Classes) (spread : Datum → Table (Option Datum))
    (data : Node → String → Datum) (above : List Node) (chain : Table (Option Datum)) : Prop :=
  ∀ (index : Nat) ancestor, above[index]? = some ancestor →
    ∀ model, ancestor.model? = some model → ∀ field ∈ model.keyFields config,
      (chain.get? (ChainKey.text ⟨model.name, field.name⟩)).join =
        classes.arrival? spread data (above.take index)
          (ChainKey.text ⟨model.name, field.name⟩) (data ancestor field.name)

/-- No key field of a model has a key in common with a key field of a model above. -/
def Apart (config : Config) (above : List Node) (model : Model) : Prop :=
  ∀ ancestor ∈ above, ∀ other, ancestor.model? = some other →
    ∀ field ∈ other.keyFields config, ∀ own ∈ model.keyFields config,
      ChainKey.text ⟨other.name, field.name⟩ ≠ ChainKey.text ⟨model.name, own.name⟩

/-- An object that is made of the response to a node's operation. -/
structure Instance.Belongs (object : Instance Datum) (classes : Classes)
    (data : Node → String → Datum) (node : Node) : Prop where
  class_eq : classes.resultClass? node = some object.class_
  data_eq : object.data = data node

namespace Instance.Belongs

variable {object : Instance Datum} {parent : Node} (belongs : object.Belongs classes data parent)

include belongs

theorem declares_eq (name : String) :
    classes.declares parent name = object.class_.declares name := by
  rw [Classes.declares, belongs.class_eq]
  rfl

/-- What is read from an object of the chain that came along with it. -/
theorem join_get?_carried (key : String) : ((object.carried spread).get? key).join =
    if classes.declares parent "_chain" then ((spread (data parent "_chain")).get? key).join
    else (object.chain.get? key).join := by
  rw [Instance.carried_eq, belongs.declares_eq, belongs.data_eq]
  cases object.class_.declares "_chain" <;> rfl

theorem class_eq_of_resultClass {model : Model} {class_ : ModelClass}
    (resultClass : Sdk.ResultClass context classes.models parent model class_)
    (isModel : parent.model? = some model) : object.class_ = class_ :=
  Option.some.inj (belongs.class_eq.symm.trans (resultClass.resultClass?_eq isModel))

/-- No property hides the method of a child. -/
theorem call?_eq {model : Model}
    (resultClass : Sdk.ResultClass context classes.models parent model object.class_)
    {child : Node} (isChild : child ∈ parent.children) :
    ∃ method, Sdk.ChainMethod context model child method ∧
      object.call? child.method =
        if child.method ∉ fixedMembers ∧ classes.declares parent "_request" = false then some method
        else none := by
  obtain ⟨method, found, isMethod⟩ := resultClass.method child isChild
  have free : object.class_.declares child.method = false := by
    refine Bool.eq_false_iff.mpr fun declared => ?_
    obtain ⟨property, isProperty, same⟩ := ModelClass.declares_iff.mp declared
    refine resultClass.apart property isProperty method (List.mem_of_find?_eq_some found) ?_
    rw [isMethod.name_eq, same]
  refine ⟨method, isMethod, ?_⟩
  rw [Instance.call?_eq, found, belongs.declares_eq]
  refine if_congr ?_ rfl rfl
  simp only [free, and_true]
  exact and_comm

end Instance.Belongs

theorem Carries.carried {above : List Node} {object : Instance Datum} {parent : Node}
    (carries : Carries config classes spread data above object.chain)
    (belongs : object.Belongs classes data parent) {index : Nat} {ancestor : Node}
    (isAncestor : above[index]? = some ancestor) {model : Model}
    (isModel : ancestor.model? = some model) {field : ModelField}
    (isKey : field ∈ model.keyFields config) :
    ((object.carried spread).get? (ChainKey.text ⟨model.name, field.name⟩)).join =
      classes.arrival? spread data (parent :: above.take index)
        (ChainKey.text ⟨model.name, field.name⟩) (data ancestor field.name) := by
  rw [belongs.join_get?_carried, Classes.arrival?_cons,
    carries index ancestor isAncestor model isModel field isKey]

theorem Carries.handOn {above : List Node} {object : Instance Datum} {parent : Node}
    (carries : Carries config classes spread data above object.chain)
    (belongs : object.Belongs classes data parent) {model : Model}
    (isModel : parent.model? = some model) (apart : Apart config above model)
    (distinct : ((model.keyFields config).map (·.name)).Nodup) {method : Method}
    (keys : method.chainKeys? = some ((model.keyFields config).map fun field =>
      ⟨model.name, field.name⟩))
    (declared : ∀ field ∈ model.keyFields config, object.class_.declares field.name) :
    Carries config classes spread data (parent :: above)
      (method.handOn (object.carried spread) object.value?) := by
  intro index ancestor isAncestor other isOther field isKey
  rw [Method.handOn, keys]
  dsimp only
  rw [List.map_map]
  -- The entries of the object itself are put in last; they leave alone what came along before.
  cases index with
  | zero =>
    cases isAncestor
    rw [isModel] at isOther
    cases isOther
    have apartOwn : ((model.keyFields config).map fun field =>
        ChainKey.text ⟨model.name, field.name⟩).Nodup := by
      rw [List.Nodup, List.pairwise_map] at distinct ⊢
      exact distinct.imp fun differ same => differ (ChainKey.field_eq_of_text same)
    have held : (ChainKey.text ⟨model.name, field.name⟩, some (data parent field.name)) ∈
        (model.keyFields config).map ((fun key : ChainKey => (key.text, object.value? key.field)) ∘
          fun field => ⟨model.name, field.name⟩) := by
      refine List.mem_map.mpr ⟨field, isKey, ?_⟩
      simp only [Function.comp_apply, object.value?_of_declares (declared field isKey),
        belongs.data_eq]
    rw [Table.get?_insertAll_of_mem _ (by rw [List.map_map]; exact apartOwn) held]
    rfl
  | succ index =>
    rw [Table.get?_insertAll_of_not_mem _ fun taken => ?_]
    · exact carries.carried belongs isAncestor isOther isKey
    · obtain ⟨_, isEntry, same⟩ := List.mem_map.mp taken
      obtain ⟨own, isOwn, rfl⟩ := List.mem_map.mp isEntry
      exact apart ancestor (List.mem_of_getElem? isAncestor) other isOther field isKey own isOwn
        same.symm

namespace Forest.Resolved

variable {models : List Model} {parents : Parents} {operations : List Operation}
  {forest : Forest} (resolved : Resolved context models parents operations forest)

include resolved

/-- Nodes with operations of different names have no key in common. -/
theorem text_ne {first second : Node} (isFirst : first ∈ forest.walk)
    (isSecond : second ∈ forest.walk) (differ : first.operation.name ≠ second.operation.name)
    {model other : Model} (isModel : first.model? = some model)
    (isOther : second.model? = some other) (field otherField : String) :
    ChainKey.text ⟨model.name, field⟩ ≠ ChainKey.text ⟨other.name, otherField⟩ := by
  have symmetric : Std.Symm fun first second : Operation =>
      Names.operationModel first.name first.kind ≠
        Names.operationModel second.name second.kind := ⟨fun _ _ apart => apart.symm⟩
  have apart := resolved.distinctRoots.forall (resolved.grown.operation_mem isFirst)
    (resolved.grown.operation_mem isSecond) fun same => differ (congrArg Operation.name same)
  obtain ⟨_, _, key, named⟩ := resolved.result_spec isFirst isModel
  obtain ⟨_, _, otherKey, namedOther⟩ := resolved.result_spec isSecond isOther
  rw [named, namedOther]
  exact ChainKey.text_ne (Names.not_mem_operationModel _ _) (Names.not_mem_operationModel _ _) apart

variable {entry : OperationKind × List Node} {root node : Node} {above : List Node}

/-- The result of a node has keys of its own among those above it. -/
theorem apart (isEntry : entry ∈ forest) (isRoot : root ∈ entry.2)
    (below : root.Below above node) {model : Model} (isModel : node.model? = some model) :
    Apart context.config above model := by
  intro ancestor isAbove other isOther field _ own _
  obtain ⟨_, upper⟩ := below.of_mem isAbove
  have upward := resolved.arranges.distinctUpward entry isEntry root isRoot above node below
  rw [List.map_cons, List.nodup_cons] at upward
  refine resolved.text_ne (mem_walk_of_below isEntry isRoot upper)
    (mem_walk_of_below isEntry isRoot below) (fun same => ?_) isOther isModel _ _
  exact upward.1 (same ▸ List.mem_map_of_mem isAbove)

/-- The calls down to a node with children succeed where the classes connect them, whatever the
responses are. -/
theorem object_spec (distinct : (operations.map (·.name)).Nodup)
    (printed : Sdk.classes context models forest = .ok classes)
    (spread : Datum → Table (Option Datum)) (data : Node → String → Datum)
    (isEntry : entry ∈ forest) (isRoot : root ∈ entry.2) (below : root.Below above node)
    {model : Model} (isModel : node.model? = some model) :
    ((classes.object? spread data above node).isSome ↔ classes.Connects above node) ∧
      ∀ object, classes.object? spread data above node = some object →
        object.Belongs classes data node ∧
        Carries context.config classes spread data above object.chain := by
  obtain ⟨printedModels, _, printedEntry⟩ := Sdk.classes_eq_ok printed
  obtain ⟨class_, resultClass⟩ := resolved.find_modelClass printedModels
    (mem_walk_of_below isEntry isRoot below) isModel
  have isClass := resultClass.resultClass?_eq isModel
  -- Down the path every call finds its method on the class of the call before, and the chain that
  -- it hands on has the entries of one object more.
  induction below generalizing model class_ with
  | root =>
    obtain ⟨method, found, _⟩ := resolved.find_entryMethod distinct printedEntry isEntry isRoot
    rw [Classes.connects_root, Classes.object?, EntryClass.call?, found, isClass]
    by_cases fixed : root.method ∈ fixedMembers
    · rw [if_pos fixed]
      exact ⟨iff_of_false Bool.false_ne_true (not_not_intro fixed),
        fun _ impossible => nomatch impossible⟩
    · rw [if_neg fixed]
      refine ⟨iff_of_true rfl fixed, fun object isObject => ?_⟩
      cases isObject
      exact ⟨⟨isClass, rfl⟩, fun _ _ impossible => nomatch impossible⟩
  | @child further parent child below isChild ih =>
    have isParent := mem_walk_of_below isEntry isRoot below
    obtain ⟨upper, isUpper⟩ := resolved.exists_model isParent (List.ne_nil_of_mem isChild)
    obtain ⟨upperClass, isUpperClass⟩ := resolved.find_modelClass printedModels isParent isUpper
    obtain ⟨isSome, spec⟩ := ih isUpper _ isUpperClass (isUpperClass.resultClass?_eq isUpper)
    rw [Classes.connects_cons, ← isSome, Classes.object?, isClass]
    cases called : classes.object? spread data further parent with
    | none => simp
    | some caller =>
      obtain ⟨belongs, carries⟩ := spec caller called
      obtain rfl := belongs.class_eq_of_resultClass isUpperClass isUpper
      obtain ⟨method, isMethod, runs⟩ := belongs.call?_eq isUpperClass isChild
      dsimp only [Option.bind_eq_bind, Option.bind_some]
      rw [runs]
      by_cases connected : child.method ∉ fixedMembers ∧ classes.declares parent "_request" = false
      · rw [if_pos connected]
        refine ⟨iff_of_true rfl ⟨rfl, connected⟩, fun object isObject => ?_⟩
        cases isObject
        have fits := resolved.coherent.fits _ _ (resolved.get?_model isParent isUpper)
        refine ⟨⟨isClass, rfl⟩, carries.handOn belongs isUpper
          (resolved.apart isEntry isRoot below isUpper)
          (fits.distinct.sublist (List.filter_sublist.map _)) isMethod.chainKeys_eq
          fun field isKey => ?_⟩
        exact ModelClass.declares_iff.mpr (isUpperClass.property field isKey)
      · rw [if_neg connected]
        exact ⟨iff_of_false Bool.false_ne_true fun connects => connected connects.2,
          fun _ impossible => nomatch impossible⟩

end Forest.Resolved

/-! ## Inherited values -/

/-- The value of an inherited variable is put on its way by an ancestor: the class of the ancestor's
result declares the field, and the method that is called there has its key. The path goes up from
the node that inherits. -/
structure Classes.Supplies (classes : Classes) (path : List Node) (entry : Inherited)
    (ancestor : Node) : Prop where
  isAbove : path[entry.depth + 1]? = some ancestor
  model_eq : ancestor.model?.map (·.name) = some entry.model
  puts : ∃ class_ child method keys,
    classes.models.find? (fun other => other.name = entry.model) = some class_ ∧
      (∃ property ∈ class_.properties, property.name = entry.field) ∧
      path[entry.depth]? = some child ∧
      class_.methods.find? (fun other => other.name = child.method) = some method ∧
      method.chainKeys? = some keys ∧ ⟨entry.model, entry.field⟩ ∈ keys

/-- An inherited value comes from a key field of the result of an ancestor. -/
structure Inherited.StemsFrom (value : Inherited) (config : Config) (above : List Node)
    (ancestor : Node) (model : Model) (field : ModelField) : Prop where
  isAbove : above[value.depth]? = some ancestor
  isModel : ancestor.model? = some model
  isKey : field ∈ model.keyFields config
  model_eq : value.model = model.name
  field_eq : value.field = field.name

private theorem getElem?_of_filterMap {α β : Type} {change : α → Option β} {items : List α}
    (total : ∀ item ∈ items, ∃ result, change item = some result) {index : Nat} {result : β}
    (found : (items.filterMap change)[index]? = some result) :
    ∃ item, items[index]? = some item ∧ change item = some result := by
  induction items generalizing index with
  | nil => cases found
  | cons item rest ih =>
    obtain ⟨first, changed⟩ := total item List.mem_cons_self
    rw [List.filterMap_cons_some changed] at found
    cases index with
    | zero =>
      cases found
      exact ⟨item, rfl, changed⟩
    | succ index =>
      exact ih (fun other later => total other (List.mem_cons_of_mem _ later)) found

namespace Forest.Resolved

variable {models : List Model} {parents : Parents} {operations : List Operation}
  {forest : Forest} (resolved : Resolved context models parents operations forest)
  {entry : OperationKind × List Node} {root node : Node} {above : List Node}

include resolved

theorem exists_stemsFrom (isEntry : entry ∈ forest) (isRoot : root ∈ entry.2)
    (below : root.Below above node) {value : Inherited} (isInherited : value ∈ node.inherited) :
    ∃ ancestor model field, value.StemsFrom context.config above ancestor model field := by
  rw [(resolved.grown.settled entry isEntry root isRoot above node below).inherited_eq]
    at isInherited
  obtain ⟨_, found⟩ := Operation.mem_inherited.mp isInherited
  obtain ⟨_, model, field, isAbove, isKey, _, _, sameModel, sameField, _⟩ :=
    Variable.inherited?_eq_some found
  have total : ∀ upper ∈ above, ∃ model, upper.model? = some model := by
    intro upper isUpper
    obtain ⟨index, isIndex⟩ := List.mem_iff_getElem?.mp isUpper
    obtain ⟨upperBelow, child, isChild, _⟩ := below.of_getElem? isIndex
    exact resolved.exists_model (mem_walk_of_below isEntry isRoot upperBelow)
      (List.ne_nil_of_mem isChild)
  obtain ⟨ancestor, isAncestor, isModel⟩ := getElem?_of_filterMap total isAbove
  exact ⟨ancestor, model, field, isAncestor, isModel, isKey, sameModel, sameField⟩

theorem supplies (printed : Sdk.classes context models forest = .ok classes)
    (isEntry : entry ∈ forest) (isRoot : root ∈ entry.2) (below : root.Below above node)
    {value : Inherited} {ancestor : Node} {model : Model} {field : ModelField}
    (stems : value.StemsFrom context.config above ancestor model field) :
    classes.Supplies (node :: above) value ancestor := by
  obtain ⟨upper, child, isChild, isNext⟩ := below.of_getElem? stems.isAbove
  obtain ⟨class_, resultClass⟩ := resolved.find_modelClass (Sdk.classes_eq_ok printed).1
    (mem_walk_of_below isEntry isRoot upper) stems.isModel
  obtain ⟨method, found, isMethod⟩ := resultClass.method child isChild
  refine ⟨stems.isAbove, ?_, class_, child, method, _, ?_, ?_, isNext, found,
    isMethod.chainKeys_eq, ?_⟩
  · rw [stems.isModel, stems.model_eq]
    rfl
  · rw [stems.model_eq]
    exact resultClass.found_eq
  · rw [stems.field_eq]
    exact resultClass.property field stems.isKey
  · rw [stems.model_eq, stems.field_eq]
    exact List.mem_map_of_mem stems.isKey

end Forest.Resolved

/-- What is inherited from the parent is a property of the class of the parent's result. -/
theorem Inherited.StemsFrom.property {value : Inherited} {parent ancestor : Node}
    {above : List Node} {model upper : Model} {field : ModelField}
    (stems : value.StemsFrom context.config (parent :: above) ancestor model field)
    (atParent : value.depth = 0) (isUpper : parent.model? = some upper)
    {models : List ModelClass} {class_ : ModelClass}
    (resultClass : Sdk.ResultClass context models parent upper class_) :
    ancestor = parent ∧ ∃ property ∈ class_.properties, property.name = value.field := by
  obtain ⟨isAbove, isModel, isKey, _, sameField⟩ := stems
  rw [atParent] at isAbove
  cases isAbove
  rw [isModel] at isUpper
  cases isUpper
  rw [sameField]
  exact ⟨rfl, resultClass.property field isKey⟩

/-- On the object that a node is called on, the argument for an inherited variable is what arrives
from the ancestor that it comes from. -/
theorem Node.Passes.evaluate?_eq {node parent : Node} {above : List Node} {value : Inherited}
    {argument : FetchArgument} (passes : node.Passes value.input argument)
    (isInherited : value ∈ node.inherited) {ancestor : Node} {model upper : Model}
    {field : ModelField}
    (stems : value.StemsFrom context.config (parent :: above) ancestor model field)
    {object : Instance Datum} (isUpper : parent.model? = some upper)
    (resultClass : Sdk.ResultClass context classes.models parent upper object.class_)
    (belongs : object.Belongs classes data parent)
    (carries : Carries context.config classes spread data above object.chain)
    (given : String → Option Datum) :
    object.evaluate? spread given argument =
      classes.arrival? spread data ((parent :: above).take value.depth)
        (ChainKey.text ⟨value.model, value.field⟩) (data ancestor value.field) := by
  cases depth : value.depth with
  | zero =>
    have isOwn := (passes.ownField value.field).mpr ⟨value, isInherited, rfl, depth, rfl⟩
    obtain ⟨rfl, isProperty⟩ := stems.property depth isUpper resultClass
    rw [isOwn, Instance.evaluate?,
      object.value?_of_declares (ModelClass.declares_iff.mpr isProperty), belongs.data_eq]
    rfl
  | succ further =>
    obtain ⟨type, isChained⟩ := (passes.chained ⟨value.model, value.field⟩).mpr
      ⟨value, isInherited, rfl, by omega, rfl⟩
    obtain ⟨isAbove, isModel, isKey, sameModel, sameField⟩ := stems
    rw [depth] at isAbove
    rw [isChained, Instance.evaluate?, sameModel, sameField]
    exact carries.carried belongs isAbove isModel isKey

namespace Forest

/-- In a generated SDK a chain method hands to `fetch` one argument for every parameter, in order. A
required variable comes from the caller exactly where the node has it as argument, from a field of
the object exactly where it is inherited from the parent, and from the chain exactly where it is
inherited from further up. Inherited values are printed and put on the chain by the ancestor they
come from, and no method drops the chain. Whatever the responses are, the calls down to the parent
succeed where the classes connect them, and the argument is then what arrives from the ancestor: the
value that its object has, unless an object in between has a property in the place of its chain. -/
theorem resolve_print_values {schema : Document} {documents : List DocumentFile}
    {models : List Model} {forest : Forest} {output : Output}
    (built : Context.ofDocument schema documents config = .ok context)
    (extracted : context.models documents = .ok models)
    (resolved : (resolve context documents models).outcome = .ok forest)
    (printed : (Sdk.print ⟨context, models, forest⟩ {}).outcome = .ok output)
    (distinct : ∀ node ∈ forest.walk, (node.operation.inputs.map (·.name)).Nodup) :
    ∃ classes, Sdk.classes context models forest = .ok classes ∧
      output = classes.output context.config ∧
      (∀ class_ ∈ classes.models, ∀ method ∈ class_.methods, method.chainKeys?.isSome) ∧
      ∀ entry ∈ forest, ∀ root ∈ entry.2, ∀ above parent, root.Below above parent →
        ∀ node ∈ parent.children, ∃ class_ method operation,
          classes.resultClass? parent = some class_ ∧
          class_.methods.find? (fun other => other.name = node.method) = some method ∧
          method.operationClass = Sdk.operationClassName node.operation ∧
          classes.operations.find? (fun other => other.name = method.operationClass) =
            some operation ∧
          node.Hands method operation ∧
          (∀ field, .ownField field ∈ method.arguments →
            ∃ property ∈ class_.properties, property.name = field) ∧
          ∀ value ∈ node.inherited, ∃ ancestor,
            classes.Supplies (node :: parent :: above) value ancestor ∧
            ∀ (Datum : Type) (spread : Datum → Table (Option Datum))
              (data : Node → String → Datum) (given : String → Option Datum),
              ((classes.object? spread data above parent).isSome ↔
                classes.Connects above parent) ∧
              ∀ caller, classes.object? spread data above parent = some caller →
                caller.class_ = class_ ∧
                ∀ (index : Nat) argument, node.operation.required[index]? = some value.input →
                  method.arguments[index]? = some argument →
                    caller.evaluate? spread given argument =
                      classes.arrival? spread data ((parent :: above).take value.depth)
                        (ChainKey.text ⟨value.model, value.field⟩) (data ancestor value.field) := by
  obtain ⟨classes, isPrinted, written⟩ := Sdk.print_eq_ok printed
  obtain ⟨printedModels, printedOperations, _⟩ := Sdk.classes_eq_ok isPrinted
  obtain ⟨_, _, _, distinctNames, whole⟩ := reads_of_resolve built extracted resolved
  refine ⟨classes, isPrinted, written,
    fun class_ isClass method => Sdk.isSome_chainKeys printedModels isClass, ?_⟩
  intro entry isEntry root isRoot above parent below node isChild
  have isParent := mem_walk_of_below isEntry isRoot below
  have inherits := Node.Below.child below isChild
  have isNode := mem_walk_of_below isEntry isRoot inherits
  obtain ⟨upper, isUpper⟩ := whole.exists_model isParent (List.ne_nil_of_mem isChild)
  obtain ⟨class_, resultClass⟩ := whole.find_modelClass printedModels isParent isUpper
  obtain ⟨method, foundMethod, isMethod⟩ := resultClass.method node isChild
  obtain ⟨operation, foundOperation, isOperation⟩ :=
    whole.find_operationClass printedOperations isNode
  have settled := whole.grown.settled entry isEntry root isRoot _ node inherits
  have hands := settled.hands (distinct node isNode) isMethod isOperation
  refine ⟨class_, method, operation, resultClass.resultClass?_eq isUpper, foundMethod,
    isMethod.operationClass_eq, isMethod.operationClass_eq ▸ foundOperation, hands, ?_, ?_⟩
  · intro field isArgument
    obtain ⟨arguments, passed, argumentsEq⟩ := isMethod.arguments
    rw [argumentsEq, List.mem_append] at isArgument
    rcases isArgument with isRequired | isOptional
    · obtain ⟨input, isInput, fetched⟩ := Outcome.exists_of_forall₂ passed isRequired
      have passes := settled.passes (distinct node isNode) (List.mem_filter.mp isInput).1 fetched
      obtain ⟨value, isInherited, _, atParent, rfl⟩ := (passes.ownField field).mp rfl
      obtain ⟨_, _, _, stems⟩ := whole.exists_stemsFrom isEntry isRoot inherits isInherited
      exact (stems.property atParent isUpper resultClass).2
    · obtain ⟨_, _, impossible⟩ := List.mem_map.mp isOptional
      cases impossible
  · intro value isInherited
    obtain ⟨ancestor, model, field, stems⟩ :=
      whole.exists_stemsFrom isEntry isRoot inherits isInherited
    refine ⟨ancestor, whole.supplies isPrinted isEntry isRoot inherits stems,
      fun Datum spread data given => ?_⟩
    obtain ⟨connects, made⟩ :=
      whole.object_spec distinctNames isPrinted spread data isEntry isRoot below isUpper
    refine ⟨connects, fun caller called => ?_⟩
    obtain ⟨belongs, carries⟩ := made caller called
    obtain rfl := belongs.class_eq_of_resultClass resultClass isUpper
    refine ⟨rfl, fun index argument isInput isArgument => ?_⟩
    obtain ⟨other, _, isOther, _, _, passes, _⟩ := hands.required index _ isInput
    rw [isArgument] at isOther
    cases isOther
    exact passes.evaluate?_eq isInherited stems isUpper resultClass belongs carries given

private def keyType : TypeRef := .nonNull (.named "ID")

private def keyedType (name : String) (fields : List (String × TypeRef)) : Definition :=
  .type ⟨none, name, [], .object [] (fields.map fun field => ⟨none, field.1, [], field.2, []⟩)⟩

private def keyedField (name type : String) (keys : List String) : FieldDefinition :=
  ⟨none, name, keys.map fun key => ⟨none, key, keyType, none, []⟩, .named type, []⟩

/-- Tasks have the list of tasks that they follow on under `_chain`. -/
private def teamSchema : Document where
  definitions := [
    .type ⟨none, "Query", [], .object [] [keyedField "team" "Team" ["id"],
      keyedField "task" "Task" ["id", "key"], keyedField "note" "Note" ["id", "key", "slug"]]⟩,
    keyedType "Team" [("id", keyType)],
    keyedType "Task" [("key", keyType), ("slug", keyType), ("_chain", .nonNull (.list keyType))],
    keyedType "Note" [("text", keyType)]]

private def keyedQuery (name : String) (keys selected : List String) : DocumentFile where
  document := ⟨[.operation ⟨none, .query, some name,
    keys.map fun key => ⟨none, key, keyType, none, []⟩, [],
    [.field ⟨none, name, keys.map fun key => ⟨key, .variable key⟩, []⟩
      (some (selected.map fun key => .field ⟨none, key, [], []⟩ none))]⟩]⟩
  location? := none

private def teamFiles (ofTask : List String) : List DocumentFile :=
  [keyedQuery "team" ["id"] ["id"], keyedQuery "task" ["id", "key"] ofTask,
    keyedQuery "note" ["id", "key", "slug"] ["text"]]

private def teamConfig : Config := { chainMatch := .any, requireNamePrefix := false }

/-- What a response has under a field. -/
private inductive Held where
  | text (content : String)
  | list (items : List String)
deriving DecidableEq

/-- The entries of a text are its letters, those of a list its items. -/
private def Held.entries (held : Held) : Table (Option Held) :=
  let parts := match held with
    | text content => content.toList.map Char.toString
    | list items => items
  Table.ofList (parts.mapIdx fun index part => ("\"" ++ toString index ++ "\"", some (text part)))

/-- Every response has under a field its own name and that of the field. -/
private def echo (node : Node) (field : String) : Held :=
  let content := node.operation.name ++ "." ++ field
  if field = "_chain" then .list [content] else .text content

private def distinctInputs (forest : Forest) : Bool :=
  forest.walk.all fun node => decide (node.operation.inputs.map (·.name)).Nodup

/-- Whether some node is called on the result of a call on a team, its first variable comes from the
field `id` of the team, two steps above, and the result in between keeps the chain. -/
private def readsTeam (forest : Forest) (classes : Classes) : Bool :=
  forest.any fun entry => entry.2.any fun root => root.operation.name = "team" &&
    root.children.any fun parent =>
      (classes.object? Held.entries echo [root] parent).isSome &&
      !classes.declares parent "_chain" && parent.children.any fun node =>
        node.inherited.any fun value => value.depth = 1 && value.field = "id" &&
          node.operation.required[0]? = some value.input

/-- A note is fetched with the identifier of the team two calls before. -/
theorem resolve_print_values_team : ∃ context models forest output,
    Context.ofDocument teamSchema (teamFiles ["key", "slug"]) teamConfig = .ok context ∧
    context.models (teamFiles ["key", "slug"]) = .ok models ∧
    (resolve context (teamFiles ["key", "slug"]) models).outcome = .ok forest ∧
    (Sdk.print ⟨context, models, forest⟩ {}).outcome = .ok output ∧
    (∀ node ∈ forest.walk, (node.operation.inputs.map (·.name)).Nodup) ∧
    ∃ classes, Sdk.classes context models forest = .ok classes ∧
      ∃ entry ∈ forest, ∃ root ∈ entry.2, ∃ parent ∈ root.children, ∃ node ∈ parent.children,
        ∃ caller method argument,
          classes.object? Held.entries echo [root] parent = some caller ∧
          caller.class_.methods.find? (fun other => other.name = node.method) = some method ∧
          method.arguments[0]? = some argument ∧
          caller.evaluate? Held.entries (fun _ => none) argument = some (.text "team.id") := by
  have whole : (Sdk.stages teamSchema (teamFiles ["key", "slug"]) teamConfig).map (fun staged =>
      distinctInputs staged.2.2.1 && readsTeam staged.2.2.1 staged.2.2.2) = .ok true := by
    set_option maxRecDepth 8000 in cbv
  obtain ⟨⟨context, models, forest, classes⟩, ran, seen⟩ := Outcome.map_eq_ok_iff.mp whole
  obtain ⟨built, extracted, resolved, isPrinted⟩ := Sdk.stages_eq_ok_iff.mp ran
  have printed := Sdk.outcome_print_of_classes {} isPrinted
  obtain ⟨allDistinct, reads⟩ := Bool.and_eq_true_iff.mp seen
  have distinct : ∀ node ∈ forest.walk, (node.operation.inputs.map (·.name)).Nodup :=
    fun node member => of_decide_eq_true (List.all_eq_true.mp allDistinct node member)
  simp only [readsTeam, List.any_eq_true, Bool.and_eq_true, Bool.not_eq_true',
    decide_eq_true_eq] at reads
  obtain ⟨entry, isEntry, root, isRoot, isTeam, parent, isParent, ⟨isCalled, kept⟩, node, isChild,
    value, isInherited, ⟨depth, isField⟩, isFirst⟩ := reads
  obtain ⟨caller, called⟩ := Option.isSome_iff_exists.mp isCalled
  obtain ⟨_, same, _, _, calls⟩ :=
    resolve_print_values built extracted resolved printed distinct
  cases isPrinted.symm.trans same
  obtain ⟨class_, method, operation, _, foundMethod, _, _, hands, _, values⟩ :=
    calls entry isEntry root isRoot [root] parent (.child .root isParent) node isChild
  obtain ⟨argument, _, isArgument, _⟩ := hands.required 0 _ isFirst
  obtain ⟨ancestor, supplies, evaluates⟩ := values value isInherited
  obtain ⟨rfl, evaluated⟩ := (evaluates Held Held.entries echo fun _ => none).2 caller called
  have isAbove := supplies.isAbove
  rw [depth] at isAbove
  cases isAbove
  refine ⟨context, models, forest, _, built, extracted, resolved, printed, distinct, classes,
    isPrinted, entry, isEntry, root, isRoot, parent, isParent, node, isChild, caller, method,
    argument, called, foundMethod, isArgument, ?_⟩
  rw [evaluated 0 argument isFirst isArgument, depth, Classes.arrival?_of_kept, echo, isTeam,
    isField]
  · rfl
  · exact fun between member => List.mem_singleton.mp member ▸ kept

/-- Whether some method that is called on the result of a call on a team reads the identifier of the
team from the chain, and finds nothing. -/
private def losesTeam (forest : Forest) (classes : Classes) : Bool :=
  forest.any fun entry => entry.2.any fun root => root.children.any fun parent =>
    (classes.object? Held.entries echo [root] parent).any fun caller =>
      parent.children.any fun node => (caller.call? node.method).any fun method =>
        method.arguments[0]? = some (.chained ⟨"TeamQuery_Team", "id"⟩ "string") &&
          caller.evaluate? Held.entries (fun _ => none)
            (.chained ⟨"TeamQuery_Team", "id"⟩ "string") = none

/-- A task that has a property `_chain` loses the team that it came from. -/
theorem exists_lost_value : ∃ output chosen context models forest classes,
    (Sdk.generate (.parsed teamSchema) ((teamFiles ["key", "slug", "_chain"]).map .parsed)
      (.loaded teamConfig) (.ok {})).outcome = .ok output ∧
    Sdk.Generates (.parsed teamSchema) ((teamFiles ["key", "slug", "_chain"]).map .parsed)
      (.loaded teamConfig) chosen output (teamFiles ["key", "slug", "_chain"]) context models forest
      classes ∧
    (∀ node ∈ forest.walk, (node.operation.inputs.map (·.name)).Nodup) ∧
    ∃ entry ∈ forest, ∃ root ∈ entry.2, ∃ parent ∈ root.children, ∃ caller,
      classes.object? Held.entries echo [root] parent = some caller ∧
      ∃ node ∈ parent.children, ∃ method, caller.call? node.method = some method ∧
        method.arguments[0]? = some (.chained ⟨"TeamQuery_Team", "id"⟩ "string") ∧
        caller.evaluate? Held.entries (fun _ => none)
          (.chained ⟨"TeamQuery_Team", "id"⟩ "string") = none := by
  have whole : (Sdk.stages teamSchema (teamFiles ["key", "slug", "_chain"]) teamConfig).map
      (fun staged => distinctInputs staged.2.2.1 && losesTeam staged.2.2.1 staged.2.2.2) =
        .ok true := by
    set_option maxRecDepth 8000 in cbv
  obtain ⟨⟨context, models, forest, classes⟩, ran, seen⟩ := Outcome.map_eq_ok_iff.mp whole
  obtain ⟨output, chosen, generated, generates⟩ := Sdk.exists_generates_of_stages ran
  obtain ⟨allDistinct, loses⟩ := Bool.and_eq_true_iff.mp seen
  simp only [losesTeam, List.any_eq_true, Option.any_eq_true, Bool.and_eq_true,
    decide_eq_true_eq] at loses
  obtain ⟨entry, isEntry, root, isRoot, parent, isParent, caller, called, node, isChild, method,
    runs, isArgument, lost⟩ := loses
  exact ⟨output, chosen, context, models, forest, classes, generated, generates,
    fun node member => of_decide_eq_true (List.all_eq_true.mp allDistinct node member),
    entry, isEntry, root, isRoot, parent, isParent, caller, called, node, isChild, method, runs,
    isArgument, lost⟩

end Forest

end ChainedSdk
