import ChainedSdk.Proofs.ResultModels
import ChainedSdk.Sdk.Build
import Mathlib.Data.List.Pairwise
/-!
# Printed classes

Which methods and properties the class of a result model has, and where the classes and methods of a
node are found by their names. The key fields of a result model are always printed, because methods
leave their names alone.
-/

namespace ChainedSdk

variable {context : Context} {models : List Model} {parents : Parents}
  {operations : List Operation} {forest : Forest} {node : Node} {model : Model}

/-! ## What is printed of a node -/

namespace Sdk

/-- A printed chain method, part by part. -/
structure ChainMethod (context : Context) (parent : Model) (node : Node) (method : Method) :
    Prop where
  name_eq : method.name = node.method
  operationClass_eq : method.operationClass = operationClassName node.operation
  chainKeys_eq : method.chainKeys? = some ((parent.keyFields context.config).map fun field =>
    ⟨parent.name, field.name⟩)
  arguments : ∃ arguments, List.Forall₂ (fun input argument =>
      fetchArgument context node.inherited input = .ok argument) node.operation.required arguments ∧
    method.arguments = arguments ++
      (optionalParameters node.operation).map fun parameter => .parameter parameter.name
  parameters : ∃ parameters, List.Forall₂ (fun input parameter =>
      requiredParameter context input = .ok parameter)
        (node.arguments.filter Variable.isRequired) parameters ∧
    method.parameters = parameters ++ optionalParameters node.operation

theorem chainMethod_eq_ok {parent : Model} {method : Method}
    (printed : chainMethod context parent node = .ok method) :
    ChainMethod context parent node method := by
  obtain ⟨arguments, passed, onward⟩ := Outcome.bind_eq_ok_iff.mp printed
  obtain ⟨parameters, taken, same⟩ := Outcome.bind_eq_ok_iff.mp onward
  cases same
  exact {
    name_eq := rfl, operationClass_eq := rfl, chainKeys_eq := rfl
    arguments := ⟨arguments, Outcome.mapM_eq_ok_iff.mp passed, rfl⟩
    parameters := ⟨parameters, Outcome.mapM_eq_ok_iff.mp taken, rfl⟩ }

theorem requiredParameter_eq_ok {input : Variable} {parameter : Parameter}
    (printed : requiredParameter context input = .ok parameter) : parameter.name = input.name := by
  obtain ⟨type, _, same⟩ := Outcome.map_eq_ok_iff.mp printed
  cases same
  rfl

theorem operationClass_eq_ok {printedClass : OperationClass}
    (printed : operationClass context node = .ok printedClass) :
    printedClass.name = operationClassName node.operation ∧ ∃ required,
      List.Forall₂ (fun input parameter => requiredParameter context input = .ok parameter)
        node.operation.required required ∧
      printedClass.parameters = required ++ optionalParameters node.operation := by
  obtain ⟨parameters, taken, onward⟩ := Outcome.bind_eq_ok_iff.mp printed
  obtain ⟨type, _, same⟩ := Outcome.bind_eq_ok_iff.mp onward
  obtain ⟨required, every, joined⟩ := Outcome.bind_eq_ok_iff.mp taken
  rw [← Except.ok.inj same, ← Except.ok.inj joined]
  exact ⟨rfl, required, Outcome.mapM_eq_ok_iff.mp every, rfl⟩

theorem nodeMethods_eq_ok {methods : List (String × List Method)}
    (printed : nodeMethods context node = .ok methods) :
    ((node.model? = none ∨ node.children = []) ∧ methods = []) ∨
      ∃ parent own, node.model? = some parent ∧ methods = [(parent.name, own)] ∧
        List.Forall₂ (fun child method => chainMethod context parent child = .ok method)
          node.children own := by
  unfold nodeMethods at printed
  split at printed
  · next none_ =>
    cases printed
    exact Or.inl ⟨Or.inl none_, rfl⟩
  · next childless _ =>
    cases printed
    exact Or.inl ⟨Or.inr childless, rfl⟩
  · next parent isModel _ =>
    obtain ⟨own, every, same⟩ := Outcome.bind_eq_ok_iff.mp printed
    cases same
    exact Or.inr ⟨parent, own, isModel, rfl, Outcome.mapM_eq_ok_iff.mp every⟩

theorem modelClass_eq_ok {types : Table String} {methods : Table (List Method)}
    {printedClass : ModelClass}
    (printed : modelClass context types methods model = .ok printedClass) :
    printedClass.name = model.name ∧
      printedClass.methods = (methods.get? model.name).getD [] ∧
      printedClass.properties = (model.fields.filter fun field =>
        !printedClass.methods.any fun method => method.name = field.name).map
          (property context) := by
  unfold modelClass at printed
  dsimp only at printed
  split at printed
  · cases printed
  · cases printed
    exact ⟨rfl, rfl, rfl⟩

theorem apart_of_modelClass {types : Table String} {methods : Table (List Method)}
    {printedClass : ModelClass}
    (printed : modelClass context types methods model = .ok printedClass) :
    ∀ property ∈ printedClass.properties, ∀ method ∈ printedClass.methods,
      method.name ≠ property.name := by
  intro property isProperty method isMethod same
  rw [(modelClass_eq_ok printed).2.2] at isProperty
  obtain ⟨field, isField, rfl⟩ := List.mem_map.mp isProperty
  have free := (List.mem_filter.mp isField).2
  rw [Bool.not_eq_true', List.any_eq_false] at free
  exact free method isMethod (decide_eq_true same)

theorem entryMethod_eq_ok {method : Method} (printed : entryMethod context node = .ok method) :
    method.name = node.method ∧ method.operationClass = operationClassName node.operation := by
  obtain ⟨_, _, same⟩ := Outcome.bind_eq_ok_iff.mp printed
  cases same
  exact ⟨rfl, rfl⟩

theorem modelClasses_eq_ok {models : List Model} {classes : List ModelClass}
    (printed : modelClasses context models forest = .ok classes) :
    ∃ table, chainMethods context forest = .ok table ∧
      List.Forall₂ (fun model class_ =>
        modelClass context (dataTypes models) table model = .ok class_)
        (models.filter fun model => !isOperationRoot model) classes := by
  obtain ⟨table, isTable, mapped⟩ := Outcome.bind_eq_ok_iff.mp printed
  exact ⟨table, isTable, Outcome.mapM_eq_ok_iff.mp mapped⟩

theorem entryClass_eq_ok {printedClass : EntryClass}
    (printed : entryClass context forest = .ok printedClass) :
    List.Forall₂ (fun root method => entryMethod context root = .ok method)
      (forest.flatMap fun entry => entry.2) printedClass.methods := by
  obtain ⟨methods, every, same⟩ := Outcome.bind_eq_ok_iff.mp printed
  cases same
  exact Outcome.mapM_eq_ok_iff.mp every

/-- The methods under a name are those of the children of a node with a result model of that
name. -/
theorem exists_parent_of_get? {table : Table (List Method)}
    (printed : chainMethods context forest = .ok table) {name : String} {own : List Method}
    (found : table.get? name = some own) : ∃ parent ∈ forest.walk, ∃ model,
      parent.model? = some model ∧ name = model.name ∧
      List.Forall₂ (fun child method => chainMethod context model child = .ok method)
        parent.children own := by
  obtain ⟨lists, isLists, same⟩ := Outcome.bind_eq_ok_iff.mp printed
  cases same
  obtain ⟨methods, isList, inList⟩ := List.mem_flatten.mp
    (Table.mem_of_mem_ofList ((Table.get?_eq_some_iff _ _ _).mp found))
  obtain ⟨parent, member, ofNode⟩ :=
    Outcome.exists_of_forall₂ (Outcome.mapM_eq_ok_iff.mp isLists) isList
  rcases nodeMethods_eq_ok ofNode with ⟨_, rfl⟩ | ⟨model, _, isModel, rfl, all⟩
  · cases inList
  · obtain ⟨rfl, rfl⟩ := Prod.mk.inj (List.mem_singleton.mp inList)
    exact ⟨parent, member, model, isModel, rfl, all⟩

/-- A model class has no methods, or those of the children of a node with a result model of its
name. -/
theorem methods_of_modelClasses {models : List Model} {classes : List ModelClass}
    (printed : modelClasses context models forest = .ok classes) {class_ : ModelClass}
    (member : class_ ∈ classes) : class_.methods = [] ∨ ∃ parent ∈ forest.walk, ∃ model,
      parent.model? = some model ∧ class_.name = model.name ∧
      List.Forall₂ (fun child method => chainMethod context model child = .ok method)
        parent.children class_.methods := by
  obtain ⟨table, isTable, every⟩ := modelClasses_eq_ok printed
  obtain ⟨model, _, isClass⟩ := Outcome.exists_of_forall₂ every member
  obtain ⟨isName, own, _⟩ := modelClass_eq_ok isClass
  cases held : table.get? model.name with
  | none =>
    rw [held] at own
    exact Or.inl own
  | some methods =>
    rw [held, Option.getD_some] at own
    rw [own, isName]
    exact Or.inr (exists_parent_of_get? isTable held)

theorem isSome_chainKeys {models : List Model} {classes : List ModelClass}
    (printed : modelClasses context models forest = .ok classes) {found : ModelClass}
    (member : found ∈ classes) {method : Method} (isMethod : method ∈ found.methods) :
    method.chainKeys?.isSome := by
  rcases methods_of_modelClasses printed member with none_ | ⟨_, _, _, _, _, all⟩
  · rw [none_] at isMethod
    cases isMethod
  · obtain ⟨child, _, ofChild⟩ := Outcome.exists_of_forall₂ all isMethod
    rw [(chainMethod_eq_ok ofChild).chainKeys_eq]
    rfl

/-- The methods of nodes with distinct result models stand under distinct names. -/
private theorem nodup_nodeMethods {nodes : List Node}
    {lists : List (List (String × List Method))}
    (every : List.Forall₂ (fun node methods => nodeMethods context node = .ok methods) nodes lists)
    (apart : nodes.Pairwise fun first second => ∀ model other, first.model? = some model →
      second.model? = some other → model.name ≠ other.name) :
    (lists.flatten.map Prod.fst).Nodup := by
  induction every with
  | nil => exact List.nodup_nil
  | @cons node methods rest others printed every ih =>
    obtain ⟨fromFirst, later⟩ := List.pairwise_cons.mp apart
    rw [List.flatten_cons, List.map_append]
    rcases nodeMethods_eq_ok printed with ⟨_, rfl⟩ | ⟨parent, own, isModel, rfl, _⟩
    · exact ih later
    · refine List.nodup_cons.mpr ⟨fun again => ?_, ih later⟩
      obtain ⟨⟨name, ownOther⟩, isEntry, same⟩ := List.mem_map.mp again
      obtain ⟨methodsOther, isList, inList⟩ := List.mem_flatten.mp isEntry
      obtain ⟨other, isOther, printedOther⟩ := Outcome.exists_of_forall₂ every isList
      rcases nodeMethods_eq_ok printedOther with ⟨_, rfl⟩ | ⟨otherParent, _, isModelOther, rfl, _⟩
      · cases inList
      · cases List.mem_singleton.mp inList
        exact fromFirst other isOther parent otherParent isModel isModelOther same.symm

/-- What the calls on the result of a node need of its class. -/
structure ResultClass (context : Context) (classes : List ModelClass) (node : Node) (model : Model)
    (found : ModelClass) : Prop where
  found_eq : classes.find? (fun other => other.name = model.name) = some found
  method : ∀ child ∈ node.children, ∃ method,
    found.methods.find? (fun other => other.name = child.method) = some method ∧
      ChainMethod context model child method
  property : ∀ field ∈ model.keyFields context.config, ∃ property ∈ found.properties,
    property.name = field.name
  apart : ∀ property ∈ found.properties, ∀ method ∈ found.methods, method.name ≠ property.name

end Sdk

/-! ## Found by name -/

theorem Model.isSome_reserved {config : Config} {field : ModelField}
    (isKey : field ∈ model.keyFields config) :
    ((model.reserved config).get? field.name).isSome :=
  Table.isSome_get?_insertAll _ (Or.inl (by
    rw [List.map_map]
    exact List.mem_map_of_mem isKey))

namespace Forest.Resolved

variable (resolved : Resolved context models parents operations forest)

include resolved

theorem get?_model (member : node ∈ forest.walk) (isModel : node.model? = some model) :
    (modelTable models).get? model.name = some model := by
  obtain ⟨_, settled⟩ := resolved.grown.exists_settled member
  rw [settled.model_eq] at isModel
  exact Operation.get?_of_resultModel? resolved.coherent isModel

/-- The result model of a node is extracted, nested, and lies under the root of its operation. -/
theorem result_spec (member : node ∈ forest.walk) (isModel : node.model? = some model) :
    model ∈ models ∧ model.isRoot = false ∧ ∃ key,
      model.name = Names.nestedModel
        (Names.operationModel node.operation.name node.operation.kind) key := by
  refine ⟨(mem_of_get?_modelTable (resolved.get?_model member isModel)).1, ?_⟩
  obtain ⟨_, settled⟩ := resolved.grown.exists_settled member
  rw [settled.model_eq] at isModel
  obtain ⟨definition, reads⟩ := resolved.read _ (resolved.grown.operation_mem member)
  exact (reads.result_spec resolved.coherent isModel).symm

theorem mem_printed (member : node ∈ forest.walk) (isModel : node.model? = some model) :
    model ∈ models.filter fun other => !Sdk.isOperationRoot other := by
  obtain ⟨isExtracted, nested, _⟩ := resolved.result_spec member isModel
  apply List.mem_filter.mpr
  simp [isExtracted, Sdk.isOperationRoot, nested]

theorem distinctRoots_walk : forest.walk.Pairwise fun first second =>
    Names.operationModel first.operation.name first.operation.kind ≠
      Names.operationModel second.operation.name second.operation.kind := by
  have placed : (forest.walk.map (·.operation)).Pairwise fun first second =>
      Names.operationModel first.name first.kind ≠ Names.operationModel second.name second.kind :=
    (resolved.arranges.once.pairwise_iff fun differ => differ.symm).mpr resolved.distinctRoots
  rw [List.pairwise_map] at placed
  exact placed

theorem distinctResults : forest.walk.Pairwise fun first second => ∀ model other,
    first.model? = some model → second.model? = some other → model.name ≠ other.name := by
  refine (List.Pairwise.and_mem.mp resolved.distinctRoots_walk).imp ?_
  rintro first second ⟨isFirst, isSecond, differ⟩ model other isModel isOther same
  obtain ⟨_, _, key, isNested⟩ := resolved.result_spec isFirst isModel
  obtain ⟨_, _, otherKey, isNestedOther⟩ := resolved.result_spec isSecond isOther
  refine differ (Names.eq_of_under (Names.not_mem_operationModel _ _)
    (Names.not_mem_operationModel _ _) (Names.under_nestedModel _ key) ?_)
  rw [← isNested, same, isNestedOther]
  exact Names.under_nestedModel _ otherKey

theorem exists_model (member : node ∈ forest.walk) (some_ : node.children ≠ []) :
    ∃ model, node.model? = some model := by
  obtain ⟨_, settled⟩ := resolved.grown.exists_settled member
  obtain ⟨model, isModel, _⟩ := settled.named.resolve_left some_
  exact ⟨model, isModel⟩

/-- The methods of the children of a node are distinct and leave the names of the key fields of its
result model alone. -/
theorem named_children (member : node ∈ forest.walk) (isModel : node.model? = some model) :
    (node.children.map (·.method)).Nodup ∧
      ∀ child ∈ node.children, (model.reserved context.config).get? child.method = none := by
  obtain ⟨_, settled⟩ := resolved.grown.exists_settled member
  rcases settled.named with childless | ⟨parent, isParent, assigned⟩
  · rw [childless]
    exact ⟨List.nodup_nil, fun _ impossible => nomatch impossible⟩
  · rw [isModel] at isParent
    cases isParent
    refine ⟨MethodName.assign_nodup assigned, fun child isChild => ?_⟩
    exact MethodName.assign_not_reserved assigned _ (List.mem_map_of_mem isChild)

/-- The table of methods holds what the nodes of the forest put there, in their order. -/
theorem chainMethods_eq_ok {table : Table (List Method)}
    (printed : Sdk.chainMethods context forest = .ok table) : ∃ lists,
      List.Forall₂ (fun node methods => Sdk.nodeMethods context node = .ok methods)
        forest.walk lists ∧
      table.toList = lists.flatten := by
  obtain ⟨lists, isLists, same⟩ := Outcome.bind_eq_ok_iff.mp printed
  cases same
  have every := Outcome.mapM_eq_ok_iff.mp isLists
  exact ⟨lists, every, Table.toList_ofList (Sdk.nodup_nodeMethods every resolved.distinctResults)⟩

/-- A node is determined by the name of its result model. -/
theorem eq_of_model {first second : Node} (isFirst : first ∈ forest.walk)
    (isSecond : second ∈ forest.walk) {other : Model} (isModel : first.model? = some model)
    (isOther : second.model? = some other) (same : model.name = other.name) : first = second := by
  by_contra differ
  have : Std.Symm fun first second : Node => ∀ model other, first.model? = some model →
      second.model? = some other → model.name ≠ other.name :=
    ⟨fun _ _ apart model other isModel isOther => (apart other model isOther isModel).symm⟩
  exact resolved.distinctResults.forall isFirst isSecond differ model other isModel isOther same

/-- The methods of the class of a node's result are those of its children. -/
theorem methods_of_modelClass {types : Table String} {table : Table (List Method)}
    {class_ : ModelClass} (isTable : Sdk.chainMethods context forest = .ok table)
    (printed : Sdk.modelClass context types table model = .ok class_)
    (member : node ∈ forest.walk) (isModel : node.model? = some model) :
    List.Forall₂ (fun child method => Sdk.chainMethod context model child = .ok method)
      node.children class_.methods := by
  have own := (Sdk.modelClass_eq_ok printed).2.1
  cases held : table.get? model.name with
  | some methods =>
    rw [held, Option.getD_some] at own
    obtain ⟨other, isNode, result, isResult, same, every⟩ := Sdk.exists_parent_of_get? isTable held
    obtain rfl := resolved.eq_of_model member isNode isModel isResult same
    rw [isModel] at isResult
    cases isResult
    rwa [own]
  | none =>
    rw [held, Option.getD_none] at own
    obtain ⟨lists, every, entries⟩ := resolved.chainMethods_eq_ok isTable
    obtain ⟨methods, isList, isMethods⟩ := Outcome.exists_of_forall₂_left every member
    rcases Sdk.nodeMethods_eq_ok isMethods with
      ⟨none_ | childless, _⟩ | ⟨result, listed, isResult, rfl, _⟩
    · rw [isModel] at none_
      cases none_
    · rw [own, childless]
      exact .nil
    · rw [isModel] at isResult
      cases isResult
      have isEntry : (model.name, listed) ∈ table.toList := by
        rw [entries]
        exact List.mem_flatten.mpr ⟨_, isList, List.mem_singleton_self _⟩
      rw [(Table.get?_eq_some_iff _ _ _).mpr isEntry] at held
      cases held

/-- The class of a node's result model is found by its name. It has the method of every child of the
node and a property for every key field. -/
theorem find_modelClass {classes : List ModelClass}
    (printed : Sdk.modelClasses context models forest = .ok classes)
    (member : node ∈ forest.walk) (isModel : node.model? = some model) :
    ∃ found, Sdk.ResultClass context classes node model found := by
  obtain ⟨table, isTable, printedEach⟩ := Sdk.modelClasses_eq_ok printed
  obtain ⟨found, isFound, spec⟩ := Outcome.find?_of_forall₂ Model.name ModelClass.name
    printedEach (fun _ _ isClass => (Sdk.modelClass_eq_ok isClass).1)
    (resolved.distinctModels.sublist (List.filter_sublist.map _))
    (resolved.mem_printed member isModel)
  have all := resolved.methods_of_modelClass isTable spec member isModel
  obtain ⟨distinct, free⟩ := resolved.named_children member isModel
  refine ⟨found, isFound, fun child isChild => ?_, fun field isKey => ?_,
    Sdk.apart_of_modelClass spec⟩
  · obtain ⟨method, isMethod, ofChild⟩ := Outcome.find?_of_forall₂ Node.method Method.name all
      (fun _ _ ofNode => (Sdk.chainMethod_eq_ok ofNode).name_eq) distinct isChild
    exact ⟨method, isMethod, Sdk.chainMethod_eq_ok ofChild⟩
  · refine ⟨Sdk.property context field, ?_, rfl⟩
    rw [(Sdk.modelClass_eq_ok spec).2.2]
    refine List.mem_map_of_mem (List.mem_filter.mpr ⟨Model.mem_fields_of_mem_keyFields isKey, ?_⟩)
    rw [Bool.not_eq_true', List.any_eq_false]
    intro method isMethod same
    obtain ⟨child, isChild, ofChild⟩ := Outcome.exists_of_forall₂ all isMethod
    have fresh := free child isChild
    rw [← (Sdk.chainMethod_eq_ok ofChild).name_eq, of_decide_eq_true same] at fresh
    have taken := Model.isSome_reserved isKey
    rw [fresh] at taken
    cases taken

theorem find_operationClass {classes : List OperationClass}
    (printed : Sdk.operationClasses context forest = .ok classes) (member : node ∈ forest.walk) :
    ∃ found, classes.find? (fun other => other.name = Sdk.operationClassName node.operation) =
        some found ∧
      Sdk.operationClass context node = .ok found := by
  have every := Outcome.mapM_eq_ok_iff.mp printed
  have distinct : (forest.walk.map fun node => Sdk.operationClassName node.operation).Nodup := by
    rw [List.Nodup, List.pairwise_map]
    exact resolved.distinctRoots_walk
  obtain ⟨found, isFound, spec⟩ := Outcome.find?_of_forall₂
    (fun node : Node => Sdk.operationClassName node.operation) OperationClass.name every
    (fun _ _ isClass => (Sdk.operationClass_eq_ok isClass).1) distinct member
  exact ⟨found, isFound, spec⟩

theorem nodup_names (distinct : (operations.map (·.name)).Nodup) :
    (forest.walk.map (·.operation.name)).Nodup := by
  have placed := resolved.arranges.once.map (·.name)
  rw [List.map_map] at placed
  exact placed.nodup_iff.mpr distinct

theorem rootMethods_eq (distinct : (operations.map (·.name)).Nodup) :
    (forest.flatMap fun entry => entry.2).map (·.method) =
      (forest.flatMap fun entry => entry.2).map (·.operation.name) := by
  have names := (resolved.nodup_names distinct).sublist ((roots_sublist_walk forest).map _)
  rw [List.map_flatMap] at names
  rw [List.map_flatMap, List.map_flatMap]
  apply List.flatMap_congr
  intro entry member
  have assigned := resolved.grown.named entry member
  rw [MethodName.assign_of_distinct _ ((List.nodup_flatMap.mp names).1 entry member)] at assigned
  exact (Except.ok.inj assigned).symm

/-- The method of the entry class for a root is found by its name. -/
theorem find_entryMethod (distinct : (operations.map (·.name)).Nodup) {entryClass : EntryClass}
    (printed : Sdk.entryClass context forest = .ok entryClass)
    {entry : OperationKind × List Node} (isEntry : entry ∈ forest) {root : Node}
    (isRoot : root ∈ entry.2) :
    ∃ method, entryClass.methods.find? (fun other => other.name = root.method) = some method ∧
      Sdk.entryMethod context root = .ok method := by
  have names := (resolved.nodup_names distinct).sublist ((roots_sublist_walk forest).map _)
  obtain ⟨method, isFound, spec⟩ := Outcome.find?_of_forall₂ Node.method Method.name
    (Sdk.entryClass_eq_ok printed) (fun _ _ isMethod => (Sdk.entryMethod_eq_ok isMethod).1)
    (resolved.rootMethods_eq distinct ▸ names) (List.mem_flatMap.mpr ⟨entry, isEntry, isRoot⟩)
  exact ⟨method, isFound, spec⟩

end Forest.Resolved

end ChainedSdk
