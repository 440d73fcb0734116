import ChainedSdk.Proofs.Generation
import Mathlib
/-!
# Nothing is lost and nothing is doubled

The classes of a generated SDK are as many as the extracted models: the root selections of operations
become operation classes, all others model classes. Every operation has one method, on the entry
class where it is a root and else on the class of its parent's result.
-/

namespace ChainedSdk

open Names

variable {context : Context} {models : List Model} {parents : Parents}
  {operations : List Operation} {forest : Forest}

/-! ## Operations and their root models -/

/-- A root model is that of an operation. -/
def OperationDefinition.HasRoot (definition : OperationDefinition) (root : Model) : Prop :=
  ∃ name, definition.name? = some name ∧ root.name = operationModel name definition.kind

/-- The roots of definitions without those of fragments are the roots of the operations. -/
private theorem operationRoots_of_roots {definitions : List Definition} {roots : List Model}
    (every : List.Forall₂ (fun definition root => ∃ site,
      context.siteOf definition = .ok (some site) ∧ root = site.model root.fields)
        definitions roots) :
    List.Forall₂ OperationDefinition.HasRoot
      (definitions.filterMap fun
        | .operation definition => some definition
        | _ => none)
      (roots.filter fun root => root.sourceKind ≠ .fragment) := by
  induction every with
  | nil => exact .nil
  | @cons definition root _ _ isRoot _ ih =>
    obtain ⟨site, found, isModel⟩ := isRoot
    rcases Context.siteOf_eq_some found with ⟨operation, name, _, rfl, isName, _, rfl⟩ |
      ⟨fragment, _, rfl, _, rfl⟩
    · have kept : root.sourceKind ≠ .fragment := by
        rw [isModel]
        simp [ModelSite.model]
      have sameName : root.name = operationModel name operation.kind := by
        rw [isModel]
        rfl
      rw [List.filter_cons, if_pos (decide_eq_true kept)]
      exact .cons ⟨name, isName, sameName⟩ ih
    · have dropped : root.sourceKind = .fragment := by
        rw [isModel]
        rfl
      rw [List.filter_cons_of_neg (by simp [dropped])]
      exact ih

/-- The root models of operations are those of the documents' operations, in their order. -/
theorem Context.operationRoots_of_models {documents : List DocumentFile}
    (extracted : context.models documents = .ok models) :
    List.Forall₂ OperationDefinition.HasRoot (operationsOf documents)
      (models.filter Sdk.isOperationRoot) := by
  obtain ⟨sites, found, atRoot, lists, _⟩ := lists_of_models extracted
  have roots := operationRoots_of_roots (Outcome.forall₂_trans found (lists.roots atRoot))
  rw [List.filterMap_filter, List.filter_filter] at roots
  have operations : operationsOf documents = (definitionsOf documents).filterMap fun definition =>
      if definition.selects then
        match definition with
        | .operation definition => some definition
        | _ => none
      else none := by
    rw [operationsOf_eq]
    apply List.filterMap_congr
    intro definition _
    cases definition <;> rfl
  have kept : models.filter Sdk.isOperationRoot =
      models.filter fun model => decide (model.sourceKind ≠ .fragment) && model.isRoot := by
    apply List.filter_congr
    intro model _
    exact Bool.and_comm _ _
  rw [operations, kept]
  exact roots

/-- Read operations have the classes that their root models are named after. -/
theorem rootNames_of_reads {definitions : List OperationDefinition} {roots : List Model}
    (reads : List.Forall₂ (fun definition operation =>
      operation.Reads context (modelTable models) definition) definitions operations)
    (hasRoots : List.Forall₂ OperationDefinition.HasRoot definitions roots) :
    operations.map Sdk.operationClassName = roots.map (·.name) := by
  apply Outcome.map_eq_of_forall₂ (Outcome.forall₂_trans reads.flip hasRoots)
  rintro operation root ⟨definition, isRead, name, isName, isRoot⟩
  rw [isRead.name_eq] at isName
  cases isName
  rw [isRoot, isRead.kind_eq]
  rfl

/-- A forest holds every operation of the documents once. -/
theorem Forest.Arranges.definitions_perm {definitions : List OperationDefinition}
    (arranges : forest.Arranges operations)
    (reads : List.Forall₂ (fun definition operation =>
      operation.Reads context (modelTable models) definition) definitions operations) :
    (forest.walk.map fun node => (some node.operation.name, node.operation.kind)).Perm
      (definitions.map fun definition => (definition.name?, definition.kind)) := by
  have same : definitions.map (fun definition => (definition.name?, definition.kind)) =
      operations.map fun operation => (some operation.name, operation.kind) := by
    apply Outcome.map_eq_of_forall₂ reads
    intro definition operation isRead
    rw [isRead.name_eq, isRead.kind_eq]
  have once := arranges.once.map fun operation => (some operation.name, operation.kind)
  rw [List.map_map] at once
  rw [same]
  exact once

/-! ## Classes -/

theorem Sdk.modelNames_eq {classes : List ModelClass}
    (printed : modelClasses context models forest = .ok classes) :
    classes.map (·.name) = (models.filter fun model => !isOperationRoot model).map (·.name) := by
  obtain ⟨table, _, every⟩ := modelClasses_eq_ok printed
  symm
  apply Outcome.map_eq_of_forall₂ every
  intro model class_ isClass
  exact (modelClass_eq_ok isClass).1.symm

theorem Sdk.operationNames_eq {classes : List OperationClass}
    (printed : operationClasses context forest = .ok classes) :
    classes.map (·.name) = forest.walk.map fun node => operationClassName node.operation := by
  symm
  apply Outcome.map_eq_of_forall₂ (Outcome.mapM_eq_ok_iff.mp printed)
  intro node class_ isClass
  exact (operationClass_eq_ok isClass).1.symm

/-! ## Methods -/

theorem Sdk.operationClasses_of_nodeMethods {node : Node} {methods : List (String × List Method)}
    (isParent : node.children ≠ [] → ∃ model, node.model? = some model)
    (printed : nodeMethods context node = .ok methods) :
    (methods.flatMap Prod.snd).map (·.operationClass) =
      node.children.map fun child => operationClassName child.operation := by
  rcases nodeMethods_eq_ok printed with ⟨none_ | childless, rfl⟩ | ⟨parent, own, _, rfl, every⟩
  · have childless : node.children = [] := by
      by_contra some_
      obtain ⟨model, isModel⟩ := isParent some_
      rw [none_] at isModel
      cases isModel
    rw [childless]
    rfl
  · rw [childless]
    rfl
  · rw [List.flatMap_singleton]
    symm
    apply Outcome.map_eq_of_forall₂ every
    intro child method ofChild
    exact (chainMethod_eq_ok ofChild).operationClass_eq.symm

namespace Forest.Resolved

variable (resolved : Resolved context models parents operations forest)

include resolved

theorem operationClasses_of_chainMethods {table : Table (List Method)}
    (printed : Sdk.chainMethods context forest = .ok table) :
    (table.toList.flatMap Prod.snd).map (·.operationClass) =
      (forest.walk.flatMap (·.children)).map fun node => Sdk.operationClassName node.operation := by
  obtain ⟨lists, every, entries⟩ := resolved.chainMethods_eq_ok printed
  -- Methods are only printed under a model, so none is lost because every parent has one.
  have modelled : ∀ node ∈ forest.walk, node.children ≠ [] → ∃ model, node.model? = some model :=
    fun _ member => resolved.exists_model member
  have each := Outcome.map_eq_of_forall₂ ((List.forall₂_and_left _ _).mpr ⟨modelled, every⟩)
    fun _ _ spec => (Sdk.operationClasses_of_nodeMethods spec.1 spec.2).symm
  calc (table.toList.flatMap Prod.snd).map (·.operationClass)
      = (lists.map fun methods => (methods.flatMap Prod.snd).map (·.operationClass)).flatten := by
        rw [entries, ← List.flatMap_def, List.flatten_eq_flatMap, List.flatMap_assoc,
          List.map_flatMap]
        rfl
    _ = (forest.walk.flatMap (·.children)).map fun node =>
          Sdk.operationClassName node.operation := by
        rw [← each, List.map_flatMap, List.flatMap_def]

/-- Chain methods stand only under models that have a class. -/
theorem keys_chainMethods {table : Table (List Method)}
    (printed : Sdk.chainMethods context forest = .ok table) :
    table.keys ⊆ (models.filter fun model => !Sdk.isOperationRoot model).map (·.name) := by
  obtain ⟨lists, every, entries⟩ := resolved.chainMethods_eq_ok printed
  intro name isKey
  obtain ⟨own, found⟩ := (Table.mem_keys_iff table name).mp isKey
  rw [Table.get?_eq_some_iff, entries] at found
  obtain ⟨methods, isList, inList⟩ := List.mem_flatten.mp found
  obtain ⟨node, member, ofNode⟩ := Outcome.exists_of_forall₂ every isList
  rcases Sdk.nodeMethods_eq_ok ofNode with ⟨_, rfl⟩ | ⟨parent, _, isModel, rfl, _⟩
  · cases inList
  · cases List.mem_singleton.mp inList
    exact List.mem_map_of_mem (resolved.mem_printed member isModel)

theorem methods_perm {classes : List ModelClass}
    (printed : Sdk.modelClasses context models forest = .ok classes) :
    ((classes.flatMap (·.methods)).map (·.operationClass)).Perm
      ((forest.walk.flatMap (·.children)).map fun node =>
        Sdk.operationClassName node.operation) := by
  obtain ⟨table, isTable, every⟩ := Sdk.modelClasses_eq_ok printed
  have methods := Outcome.map_eq_of_forall₂ every fun _ _ isClass =>
    (Sdk.modelClass_eq_ok isClass).2.1.symm
  rw [← resolved.operationClasses_of_chainMethods isTable]
  apply List.Perm.map
  -- Model names are distinct and cover the keys, so every entry of the table is read once.
  have held := table.flatMap_getD_perm
    (resolved.distinctModels.sublist (List.filter_sublist.map _))
    (resolved.keys_chainMethods isTable)
  rw [List.flatMap_map, List.flatMap_def, methods, ← List.flatMap_def] at held
  exact held

/-- The entry class has the root operations as methods under their own names. -/
theorem entryMethods_eq (distinct : (operations.map (·.name)).Nodup) {entryClass : EntryClass}
    (printed : Sdk.entryClass context forest = .ok entryClass) :
    entryClass.methods.map (fun method => (method.name, method.operationClass)) =
      (forest.flatMap fun entry => entry.2).map fun root =>
        (root.operation.name, Sdk.operationClassName root.operation) := by
  have every := Sdk.entryClass_eq_ok printed
  have called := Outcome.map_eq_of_forall₂ every fun _ _ isMethod =>
    (Sdk.entryMethod_eq_ok isMethod).1.symm
  have run := Outcome.map_eq_of_forall₂ every fun _ _ isMethod =>
    (Sdk.entryMethod_eq_ok isMethod).2.symm
  rw [resolved.rootMethods_eq distinct] at called
  have paired := congrArg₂ List.zip called run
  simpa only [List.zip_map'] using paired.symm

/-- Every operation of the forest has one method, on the entry class or on a model class. -/
theorem exposed_perm (distinct : (operations.map (·.name)).Nodup) {classes : List ModelClass}
    {entryClass : EntryClass}
    (printed : Sdk.modelClasses context models forest = .ok classes)
    (printedEntry : Sdk.entryClass context forest = .ok entryClass) :
    ((entryClass.methods ++ classes.flatMap (·.methods)).map (·.operationClass)).Perm
      (forest.walk.map fun node => Sdk.operationClassName node.operation) := by
  have atRoot := congrArg (List.map Prod.snd) (resolved.entryMethods_eq distinct printedEntry)
  rw [List.map_map, List.map_map] at atRoot
  have below := resolved.methods_perm printed
  have whole := forest.walk_perm_roots.map fun node => Sdk.operationClassName node.operation
  rw [List.map_append] at whole ⊢
  exact (List.Perm.append (.of_eq atRoot) below).trans whole.symm

/-- A child of a node has its method on the class of the node's result model. -/
theorem exists_chainMethod {classes : List ModelClass}
    (printed : Sdk.modelClasses context models forest = .ok classes) {parent child : Node}
    (member : parent ∈ forest.walk) (isChild : child ∈ parent.children) :
    ∃ model class_ method, parent.model? = some model ∧ class_ ∈ classes ∧
      class_.name = model.name ∧ method ∈ class_.methods ∧ method.name = child.method ∧
      method.operationClass = Sdk.operationClassName child.operation := by
  obtain ⟨model, isModel⟩ := resolved.exists_model member (List.ne_nil_of_mem isChild)
  obtain ⟨class_, resultClass⟩ := resolved.find_modelClass printed member isModel
  obtain ⟨method, found, isMethod⟩ := resultClass.method child isChild
  have sameName := List.find?_some resultClass.found_eq
  exact ⟨model, class_, method, isModel, List.mem_of_find?_eq_some resultClass.found_eq,
    of_decide_eq_true sameName, List.mem_of_find?_eq_some found, isMethod.name_eq,
    isMethod.operationClass_eq⟩

end Forest.Resolved

/-! ## Whole SDKs -/

/-- The classes of an SDK cover the extracted models and the operations of the documents. The
methods are told apart by the operation classes that they run. -/
structure Classes.Covers (classes : Classes) (definitions : List OperationDefinition)
    (models : List Model) (forest : Forest) : Prop where
  distinct : (classes.models.map (·.name) ++ classes.operations.map (·.name)).Nodup
  names : (classes.models.map (·.name) ++ classes.operations.map (·.name)).Perm
    (models.map (·.name))
  modelNames : classes.models.map (·.name) =
    (models.filter fun model => !Sdk.isOperationRoot model).map (·.name)
  operationNames : (classes.operations.map (·.name)).Perm
    ((models.filter Sdk.isOperationRoot).map (·.name))
  roots : List.Forall₂ OperationDefinition.HasRoot definitions (models.filter Sdk.isOperationRoot)
  placed : (forest.walk.map fun node => (some node.operation.name, node.operation.kind)).Perm
    (definitions.map fun definition => (definition.name?, definition.kind))
  exposed : ((classes.entry.methods ++ classes.models.flatMap (·.methods)).map
    (·.operationClass)).Perm (classes.operations.map (·.name))
  entry : classes.entry.methods.map (fun method => (method.name, method.operationClass)) =
    (forest.flatMap fun entry => entry.2).map fun root =>
      (root.operation.name, Sdk.operationClassName root.operation)
  entryDistinct : (classes.entry.methods.map (·.name)).Nodup
  chained : ∀ parent ∈ forest.walk, ∀ child ∈ parent.children, ∃ model class_ method,
    parent.model? = some model ∧ class_ ∈ classes.models ∧ class_.name = model.name ∧
      method ∈ class_.methods ∧ method.name = child.method ∧
      method.operationClass = Sdk.operationClassName child.operation

/-- The classes of a resolved forest cover the models and operations of its documents. -/
theorem Forest.covers_of_resolve {schema : Document} {documents : List DocumentFile}
    {config : Config} {classes : Classes}
    (built : Context.ofDocument schema documents config = .ok context)
    (extracted : context.models documents = .ok models)
    (resolved : (resolve context documents models).outcome = .ok forest)
    (printed : Sdk.classes context models forest = .ok classes) :
    classes.Covers (operationsOf documents) models forest := by
  obtain ⟨parents, operations, reads, distinct, whole⟩ := reads_of_resolve built extracted resolved
  obtain ⟨printedModels, printedOperations, printedEntry⟩ := Sdk.classes_eq_ok printed
  have roots := Context.operationRoots_of_models extracted
  have modelNames := Sdk.modelNames_eq printedModels
  have classNames := Sdk.operationNames_eq printedOperations
  have operationNames : (classes.operations.map (·.name)).Perm
      ((models.filter Sdk.isOperationRoot).map (·.name)) := by
    have placed := whole.arranges.once.map Sdk.operationClassName
    rw [List.map_map] at placed
    rw [classNames, ← rootNames_of_reads reads roots]
    exact placed
  have names : (classes.models.map (·.name) ++ classes.operations.map (·.name)).Perm
      (models.map (·.name)) := by
    have parted := (List.filter_append_perm Sdk.isOperationRoot models).map (·.name)
    rw [List.map_append] at parted
    rw [modelNames]
    exact ((operationNames.append_left _).trans List.perm_append_comm).trans parted
  have entry := whole.entryMethods_eq distinct printedEntry
  have entryDistinct : (classes.entry.methods.map (·.name)).Nodup := by
    have called := congrArg (List.map Prod.fst) entry
    rw [List.map_map, List.map_map] at called
    have atRoot := (whole.nodup_names distinct).sublist ((roots_sublist_walk forest).map _)
    exact called ▸ atRoot
  exact {
    distinct := names.nodup_iff.mpr whole.distinctModels
    names, modelNames, operationNames, roots, entry, entryDistinct
    placed := whole.arranges.definitions_perm reads
    exposed := classNames ▸ whole.exposed_perm distinct printedModels printedEntry
    chained := fun _ member _ isChild => whole.exists_chainMethod printedModels member isChild }

/-- A generated SDK covers its input exactly once. Together its classes have the names of all
models, without a repetition: operation classes those of the operations' root models, model classes
all others. Every operation has one method: on the entry class, where names are distinct, if it is a
root, and else on the class of its parent's result. -/
theorem Sdk.generate_covers {schema : SchemaSource} {documents : List DocumentSource}
    {config : ConfigSource} {templates : Except Error Templates} {output : Output}
    (generated : (generate schema documents config templates).outcome = .ok output) :
    ∃ chosen files context models forest classes, templates = .ok chosen ∧
      Generates schema documents config chosen output files context models forest classes ∧
      classes.Covers (operationsOf files) models forest := by
  obtain ⟨chosen, files, context, models, forest, classes, isChosen, generates⟩ :=
    generates_of_generate generated
  obtain ⟨_, _, _, _, built⟩ := generates.built
  exact ⟨chosen, files, context, models, forest, classes, isChosen, generates,
    Forest.covers_of_resolve built generates.extracted generates.resolved generates.printed⟩

private def authorType (name : String) (keys : List String) : Definition :=
  .type ⟨none, name, [], .object [] (keys.map fun key => ⟨none, key, [], .nonNull (.named "ID"), []⟩)⟩

private def authorField (name type : String) : FieldDefinition :=
  ⟨none, name, [⟨none, "id", .nonNull (.named "ID"), none, []⟩], .named type, []⟩

private def authorSchema : Document where
  definitions := [
    .type ⟨none, "Query", [], .object [] [authorField "author" "Author",
      authorField "works" "Work"]⟩,
    authorType "Author" ["id"], authorType "Work" ["title"]]

private def authorQuery (name : String) (selected : List Selection) : Definition :=
  .operation ⟨none, .query, some name,
    [⟨none, "id", .nonNull (.named "ID"), none, []⟩], [],
    [.field ⟨none, name, [⟨"id", .variable "id"⟩], []⟩ (some selected)]⟩

private def authorFile : DocumentFile where
  document := ⟨[authorQuery "author" [.spread "Key" []],
    authorQuery "works" [.field ⟨none, "title", [], []⟩ none],
    .fragment ⟨none, "Key", "Author", [], [.field ⟨none, "id", [], []⟩ none]⟩]⟩
  location? := none

private def authorConfig : Config := { requireNamePrefix := false }

/-- The works of an author are chained to the author. -/
theorem Sdk.generate_covers_author : ∃ output chosen files context models forest classes,
    (generate (.parsed authorSchema) [.parsed authorFile] (.loaded authorConfig) (.ok {})).outcome =
      .ok output ∧
    Generates (.parsed authorSchema) [.parsed authorFile] (.loaded authorConfig) chosen output files
      context models forest classes ∧
    classes.Covers (operationsOf files) models forest ∧
    forest.walk.map (·.operation.name) = ["author", "works"] ∧
    (forest.flatMap fun entry => entry.2).map (·.operation.name) = ["author"] := by
  have whole : (do
      let context ← Context.ofDocument authorSchema [authorFile] authorConfig
      let models ← context.models [authorFile]
      let forest ← (Forest.resolve context [authorFile] models).outcome
      return (forest.walk.map (·.operation.name),
        (forest.flatMap fun entry => entry.2).map (·.operation.name)) :
          Except Error (List String × List String)) = .ok (["author", "works"], ["author"]) := by
    set_option maxRecDepth 4000 in cbv
  obtain ⟨context, built, whole⟩ := Outcome.bind_eq_ok_iff.mp whole
  obtain ⟨models, extracted, whole⟩ := Outcome.bind_eq_ok_iff.mp whole
  obtain ⟨forest, resolved, whole⟩ := Outcome.bind_eq_ok_iff.mp whole
  obtain ⟨_, _, isWhole⟩ := Forest.resolved_of_resolve built extracted resolved
  obtain ⟨output, printed⟩ := exists_print {} isWhole.enclosed
    (isWhole.grown.printable isWhole.coherent isWhole.read)
  have made : (Blueprint.ofSources (.parsed authorSchema) [.parsed authorFile]
      (.loaded authorConfig)).outcome = .ok ⟨context, models, forest⟩ := by
    rw [Blueprint.outcome_ofSources]
    simp only [DocumentSource.file, SchemaSource.document, ConfigSource.config, List.mapM_cons,
      List.mapM_nil, bind, Except.bind, pure, Except.pure, built, extracted, resolved]
  have generated : (generate (.parsed authorSchema) [.parsed authorFile] (.loaded authorConfig)
      (.ok {})).outcome = .ok output := by
    rw [outcome_generate, made]
    exact printed
  obtain ⟨chosen, files, other, found, grown, classes, _, generates, covers⟩ :=
    generate_covers generated
  have same : other = context ∧ found = models ∧ grown = forest := by
    obtain ⟨_, _, isConfig, isSchema, builtOther⟩ := generates.built
    cases generates.read
    cases isConfig
    cases isSchema
    cases built.symm.trans builtOther
    cases extracted.symm.trans generates.extracted
    cases resolved.symm.trans generates.resolved
    exact ⟨rfl, rfl, rfl⟩
  obtain ⟨rfl, rfl, rfl⟩ := same
  obtain ⟨names, roots⟩ := Prod.mk.inj (Except.ok.inj whole)
  exact ⟨output, chosen, files, other, found, grown, classes, generated, generates, covers, names,
    roots⟩

end ChainedSdk
