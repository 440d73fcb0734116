import ChainedSdk.Proofs.Coverage
/-!
# Members of generated classes

The members of a model class are its properties and its methods, those of the entry class are its
methods alone. They are told apart from each other. Beside them every class has a constructor and
the fields of its base class, and these names are not kept free: a selection, an operation at the
root, or what is left of the name of an operation under its parent may take one of them.
-/

namespace ChainedSdk

/-- The names of the members that the class of a model declares itself. -/
def ModelClass.members (class_ : ModelClass) : List String :=
  class_.properties.map (·.name) ++ class_.methods.map (·.name)

/-- The names of the members that the entry class declares itself. -/
def EntryClass.members (class_ : EntryClass) : List String := class_.methods.map (·.name)

/-- No two members of a class have one name, counting those that every class has. -/
structure Classes.MembersApart (classes : Classes) : Prop where
  entry : (classes.entry.members ++ fixedMembers).Nodup
  models : ∀ class_ ∈ classes.models, (class_.members ++ fixedMembers).Nodup

/-- Whether the class of a model is to have a member of some name: for a selected field, or for an
operation that is chained under the model. -/
def Forest.Asks (forest : Forest) (model : Model) (name : String) : Prop :=
  name ∈ model.fields.map (·.name) ∨
    ∃ parent ∈ forest.walk, parent.model? = some model ∧ ∃ child ∈ parent.children,
      Names.chainMethod child.operation.name (some parent.operation.name) = name

/-- No class is to have a member of a name that every class has already. -/
structure Forest.LeavesFixed (forest : Forest) (models : List Model) : Prop where
  entry : ∀ entry ∈ forest, ∀ root ∈ entry.2, root.operation.name ∉ fixedMembers
  models : ∀ model ∈ models, Sdk.isOperationRoot model = false →
    ∀ name ∈ fixedMembers, ¬forest.Asks model name

/-- Which members the classes of an SDK declare. Names that end in a digit may come from numbering
as well. -/
structure Classes.NamesMembers (classes : Classes) (models : List Model) (forest : Forest) :
    Prop where
  entry_eq : classes.entry.members =
    (forest.flatMap fun entry => entry.2).map (·.operation.name)
  entryDistinct : classes.entry.members.Nodup
  models : List.Forall₂ (fun model class_ =>
    class_.name = model.name ∧ class_.members.Nodup ∧
      ∀ name, MethodName.endsInDigit name = false →
        (name ∈ class_.members ↔ forest.Asks model name))
    (models.filter fun model => !Sdk.isOperationRoot model) classes.models

theorem MethodName.endsInDigit_fixedMembers :
    ∀ name ∈ fixedMembers, endsInDigit name = false := by decide

/-- Distinct members are apart from the fixed ones where none of them has such a name. -/
theorem nodup_members_iff {members : List String} (distinct : members.Nodup) :
    (members ++ fixedMembers).Nodup ↔ ∀ name ∈ fixedMembers, name ∉ members := by
  rw [List.nodup_append_comm, List.nodup_append']
  refine ⟨fun apart => apart.2.2, fun free => ⟨by decide, distinct, free⟩⟩

namespace Sdk

variable {context : Context} {types : Table String} {methods : Table (List Method)} {model : Model}
  {class_ : ModelClass} (printed : modelClass context types methods model = .ok class_)

include printed

/-- The properties of a class are the fields of its model that no method has the name of. -/
theorem properties_of_modelClass : class_.properties.map (·.name) =
    (model.fields.map (·.name)).filter fun name => !class_.methods.any (·.name = name) := by
  rw [(modelClass_eq_ok printed).2.2, List.map_map, List.filter_map]
  rfl

theorem mem_members_iff {name : String} : name ∈ class_.members ↔
    name ∈ model.fields.map (·.name) ∨ name ∈ class_.methods.map (·.name) := by
  rw [ModelClass.members, List.mem_append, properties_of_modelClass printed, List.mem_filter]
  by_cases isMethod : name ∈ class_.methods.map (·.name)
  · simp only [isMethod, or_true]
  · have free : (!class_.methods.any (·.name = name)) = true := by
      simpa using isMethod
    simp only [free, and_true, isMethod, or_false]

theorem nodup_members (keys : (model.fields.map (·.name)).Nodup)
    (distinct : (class_.methods.map (·.name)).Nodup) : class_.members.Nodup := by
  rw [ModelClass.members, List.nodup_append']
  refine ⟨?_, distinct, fun name isProperty isMethod => ?_⟩
  · rw [properties_of_modelClass printed]
    exact keys.filter _
  · obtain ⟨property, member, rfl⟩ := List.mem_map.mp isProperty
    obtain ⟨method, isOwn, same⟩ := List.mem_map.mp isMethod
    exact apart_of_modelClass printed property member method isOwn same

end Sdk

theorem Model.mem_fields_of_reserved {model : Model} {config : Config} {name : String}
    (taken : (model.reserved config).get? name ≠ none) : name ∈ model.fields.map (·.name) := by
  obtain ⟨owner, found⟩ := Option.ne_none_iff_exists'.mp taken
  have isEntry := Table.mem_of_mem_ofList ((Table.get?_eq_some_iff _ _ _).mp found)
  obtain ⟨field, isKey, same⟩ := List.mem_map.mp isEntry
  cases same
  exact List.mem_map_of_mem (mem_fields_of_mem_keyFields isKey)

/-! ## Whole SDKs -/

namespace Forest.Resolved

variable {context : Context} {models : List Model} {parents : Parents}
  {operations : List Operation} {forest : Forest}
  (resolved : Resolved context models parents operations forest)

include resolved

/-- Under a name that ends in no digit a node has a child exactly where the name is left free by its
result model, and natural for one of them. -/
theorem mem_methods_iff {node : Node} {model : Model} (member : node ∈ forest.walk)
    (isModel : node.model? = some model) {name : String}
    (plain : MethodName.endsInDigit name = false) : name ∈ node.children.map (·.method) ↔
      (model.reserved context.config).get? name = none ∧ ∃ child ∈ node.children,
        Names.chainMethod child.operation.name (some node.operation.name) = name := by
  obtain ⟨_, settled⟩ := resolved.grown.exists_settled member
  rcases settled.named with childless | ⟨result, isResult, assigned⟩
  · simp [childless]
  · rw [isModel] at isResult
    cases isResult
    rw [MethodName.mem_assign_iff assigned plain]
    simp only [List.mem_map, exists_exists_and_eq_and]
    rfl

variable {types : Table String} {table : Table (List Method)} {model : Model} {class_ : ModelClass}
  (isTable : Sdk.chainMethods context forest = .ok table)
  (printed : Sdk.modelClass context types table model = .ok class_) (isExtracted : model ∈ models)

include isTable printed isExtracted

omit isExtracted in
theorem methods_names_eq {node : Node} (member : node ∈ forest.walk)
    (isModel : node.model? = some model) :
    node.children.map (·.method) = class_.methods.map (·.name) :=
  Outcome.map_eq_of_forall₂ (resolved.methods_of_modelClass isTable printed member isModel)
    fun _ _ ofChild => (Sdk.chainMethod_eq_ok ofChild).name_eq.symm

/-- A model class has no methods, unless its model is the result of a node. -/
theorem methods_eq_nil (unowned : ∀ node ∈ forest.walk, node.model? ≠ some model) :
    class_.methods = [] := by
  have own := (Sdk.modelClass_eq_ok printed).2.1
  cases held : table.get? model.name with
  | none =>
    rw [held] at own
    exact own
  | some methods =>
    obtain ⟨node, member, result, isResult, same, _⟩ := Sdk.exists_parent_of_get? isTable held
    have isModel := (get?_modelTable_iff resolved.distinctModels).mpr ⟨isExtracted, same⟩
    rw [resolved.get?_model member isResult] at isModel
    cases isModel
    exact absurd isResult (unowned node member)

/-- The class of a model has the members that are asked for, as far as they end in no digit. -/
theorem mem_members_iff {name : String} (plain : MethodName.endsInDigit name = false) :
    name ∈ class_.members ↔ forest.Asks model name := by
  rw [Sdk.mem_members_iff printed, Forest.Asks]
  by_cases owned : ∃ node ∈ forest.walk, node.model? = some model
  · obtain ⟨node, member, isModel⟩ := owned
    rw [← resolved.methods_names_eq isTable printed member isModel,
      resolved.mem_methods_iff member isModel plain]
    constructor
    · rintro (isField | ⟨_, natural⟩)
      · exact Or.inl isField
      · exact Or.inr ⟨node, member, isModel, natural⟩
    · rintro (isField | ⟨parent, isParent, isResult, natural⟩)
      · exact Or.inl isField
      · obtain rfl := resolved.eq_of_model member isParent isModel isResult rfl
        -- A name that the model does not leave free is that of a key field.
        by_cases free : (model.reserved context.config).get? name = none
        · exact Or.inr ⟨free, natural⟩
        · exact Or.inl (Model.mem_fields_of_reserved free)
  · have unowned : ∀ node ∈ forest.walk, node.model? ≠ some model :=
      fun node member isModel => owned ⟨node, member, isModel⟩
    rw [resolved.methods_eq_nil isTable printed isExtracted unowned]
    constructor
    · rintro (isField | impossible)
      · exact Or.inl isField
      · cases impossible
    · rintro (isField | ⟨node, member, isModel, _⟩)
      · exact Or.inl isField
      · exact absurd isModel (unowned node member)

theorem nodup_members : class_.members.Nodup := by
  apply Sdk.nodup_members printed
  · exact (resolved.coherent.fits _ _
      ((get?_modelTable_iff resolved.distinctModels).mpr ⟨isExtracted, rfl⟩)).distinct
  · by_cases owned : ∃ node ∈ forest.walk, node.model? = some model
    · obtain ⟨node, member, isModel⟩ := owned
      rw [← resolved.methods_names_eq isTable printed member isModel]
      exact (resolved.named_children member isModel).1
    · rw [resolved.methods_eq_nil isTable printed isExtracted
        fun node member isModel => owned ⟨node, member, isModel⟩]
      exact List.nodup_nil

end Forest.Resolved

namespace Forest.Resolved

variable {context : Context} {models : List Model} {parents : Parents}
  {operations : List Operation} {forest : Forest} {classes : Classes}
  (resolved : Resolved context models parents operations forest)

include resolved

theorem namesMembers (distinct : (operations.map (·.name)).Nodup)
    (printed : Sdk.classes context models forest = .ok classes) :
    classes.NamesMembers models forest := by
  obtain ⟨printedModels, _, printedEntry⟩ := Sdk.classes_eq_ok printed
  obtain ⟨table, isTable, every⟩ := Sdk.modelClasses_eq_ok printedModels
  have called := congrArg (List.map Prod.fst) (resolved.entryMethods_eq distinct printedEntry)
  rw [List.map_map, List.map_map] at called
  have names := (resolved.nodup_names distinct).sublist ((roots_sublist_walk forest).map _)
  refine ⟨called, ?_, ?_⟩
  · rw [EntryClass.members]
    exact called ▸ names
  · refine ((List.forall₂_and_left _ _).mpr
      ⟨fun model member => (List.mem_filter.mp member).1, every⟩).imp ?_
    rintro model class_ ⟨isExtracted, isClass⟩
    refine ⟨(Sdk.modelClass_eq_ok isClass).1,
      resolved.nodup_members isTable isClass isExtracted, fun name plain => ?_⟩
    exact resolved.mem_members_iff isTable isClass isExtracted plain

end Forest.Resolved

/-- Members clash with the fixed ones exactly where these are asked for. -/
theorem Classes.NamesMembers.membersApart_iff {classes : Classes} {models : List Model}
    {forest : Forest} (names : classes.NamesMembers models forest) :
    classes.MembersApart ↔ forest.LeavesFixed models := by
  have entryIff : (classes.entry.members ++ fixedMembers).Nodup ↔
      ∀ entry ∈ forest, ∀ root ∈ entry.2, root.operation.name ∉ fixedMembers := by
    rw [nodup_members_iff names.entryDistinct, names.entry_eq]
    constructor
    · intro free entry isEntry root isRoot isFixed
      exact free _ isFixed
        (List.mem_map_of_mem (List.mem_flatMap.mpr ⟨entry, isEntry, isRoot⟩))
    · intro free name isFixed isMember
      obtain ⟨root, isRoot, rfl⟩ := List.mem_map.mp isMember
      obtain ⟨entry, isEntry, isRoot⟩ := List.mem_flatMap.mp isRoot
      exact free entry isEntry root isRoot isFixed
  constructor
  · rintro ⟨entry, models⟩
    refine ⟨entryIff.mp entry, fun model isModel isPrinted name isFixed asked => ?_⟩
    obtain ⟨class_, isClass, _, own, spec⟩ := Outcome.exists_of_forall₂_left names.models
      (List.mem_filter.mpr ⟨isModel, by rw [isPrinted]; rfl⟩)
    exact (nodup_members_iff own).mp (models class_ isClass) name isFixed
      ((spec name (MethodName.endsInDigit_fixedMembers name isFixed)).mpr asked)
  · rintro ⟨entry, models⟩
    refine ⟨entryIff.mpr entry, fun class_ isClass => ?_⟩
    obtain ⟨model, isModel, _, own, spec⟩ := Outcome.exists_of_forall₂ names.models isClass
    obtain ⟨isModel, isPrinted⟩ := List.mem_filter.mp isModel
    refine (nodup_members_iff own).mpr fun name isFixed isMember => ?_
    exact models model isModel (by simpa using isPrinted) name isFixed
      ((spec name (MethodName.endsInDigit_fixedMembers name isFixed)).mp isMember)

namespace Sdk

/-- In a generated SDK the members that a class declares are distinct. The entry class has the names
of the operations at the root as members, and the class of a model has, among the names that end in
no digit, the keys of its fields and what the operations chained under it are called naturally. So
no member has the name of the constructor or of a field of the base class exactly where none of
these is such a name. -/
theorem generate_members {schema : SchemaSource} {documents : List DocumentSource}
    {config : ConfigSource} {templates : Except Error Templates} {output : Output}
    (generated : (generate schema documents config templates).outcome = .ok output) :
    ∃ chosen files context models forest classes, templates = .ok chosen ∧
      Generates schema documents config chosen output files context models forest classes ∧
      classes.NamesMembers models forest ∧
      (classes.MembersApart ↔ forest.LeavesFixed models) := by
  obtain ⟨chosen, files, context, models, forest, classes, isChosen, generates⟩ :=
    generates_of_generate generated
  obtain ⟨_, _, _, _, built⟩ := generates.built
  obtain ⟨_, _, _, distinct, whole⟩ :=
    Forest.reads_of_resolve built generates.extracted generates.resolved
  have names := whole.namesMembers distinct generates.printed
  exact ⟨chosen, files, context, models, forest, classes, isChosen, generates, names,
    names.membersApart_iff⟩

/-- A field that is found by an identifier. -/
private def racingField (name type : String) : FieldDefinition :=
  ⟨none, name, [⟨none, "id", .nonNull (.named "ID"), none, []⟩], .named type, []⟩

/-- Drivers of racing cars and the constructors of these cars. -/
private def racingSchema : Document :=
  ⟨[.type ⟨none, "Query", [], .object [] [racingField "driver" "Driver",
      racingField "constructor" "Constructor"]⟩,
    .type ⟨none, "Driver", [], .object [] [⟨none, "id", [], .nonNull (.named "ID"), []⟩]⟩,
    .type ⟨none, "Constructor", [], .object [] [⟨none, "name", [], .named "String", []⟩]⟩]⟩

private def racingQuery (name selected : String) : Definition :=
  .operation ⟨none, .query, some name, [⟨none, "id", .nonNull (.named "ID"), none, []⟩], [],
    [.field ⟨none, name, [⟨"id", .variable "id"⟩], []⟩
      (some [.field ⟨none, selected, [], []⟩ none])]⟩

private def racingFile : DocumentFile :=
  ⟨⟨[racingQuery "driver" "id", racingQuery "constructor" "name"]⟩, none⟩

private def racingConfig : Config := { requireNamePrefix := false }

private theorem exists_racingStages : ∃ context models forest classes,
    stages racingSchema [racingFile] racingConfig = .ok (context, models, forest, classes) ∧
    classes.models.map (·.members) = [["id", "constructor"], ["name"]] ∧
    classes.entry.members = ["driver"] := by
  have seen : (stages racingSchema [racingFile] racingConfig).map (fun staged =>
      (staged.2.2.2.models.map (·.members), staged.2.2.2.entry.members)) =
        .ok ([["id", "constructor"], ["name"]], ["driver"]) := by
    set_option maxRecDepth 4000 in cbv
  obtain ⟨⟨context, models, forest, classes⟩, ran, isSeen⟩ := Outcome.map_eq_ok_iff.mp seen
  exact ⟨context, models, forest, classes, ran, Prod.mk.inj isSeen⟩

/-- The constructor of a car is chained to its driver, and the class of drivers gets a method of
this name. -/
theorem generate_members_racing : ∃ output chosen files context models forest classes,
    (generate (.parsed racingSchema) [.parsed racingFile] (.loaded racingConfig)
      (.ok {})).outcome = .ok output ∧
    Generates (.parsed racingSchema) [.parsed racingFile] (.loaded racingConfig) chosen output files
      context models forest classes ∧
    classes.NamesMembers models forest ∧
    classes.entry.members = ["driver"] ∧
    classes.models.map (·.members) = [["id", "constructor"], ["name"]] ∧
    ¬forest.LeavesFixed models := by
  obtain ⟨context, models, forest, classes, ran, members, entry⟩ := exists_racingStages
  have generated := generate_of_stages ran
  obtain ⟨chosen, files, other, found, grown, printed, _, generates, names, apart⟩ :=
    generate_members generated
  obtain ⟨rfl, again⟩ := generates.stages_eq
  cases ran.symm.trans again
  refine ⟨_, chosen, _, context, models, forest, classes, generated, generates, names, entry,
    members, fun leaves => ?_⟩
  have isDeclared : ["id", "constructor"] ∈ classes.models.map (·.members) :=
    members ▸ List.mem_cons_self
  obtain ⟨class_, isClass, declares⟩ := List.mem_map.mp isDeclared
  have distinct := (apart.mpr leaves).models class_ isClass
  rw [declares] at distinct
  exact absurd distinct (by decide)

/-- The SDK for drivers and constructors is generated, and a class declares a member of a name that
it has already. -/
theorem exists_constructor_member : ∃ output chosen files context models forest classes,
    (generate (.parsed racingSchema) [.parsed racingFile] (.loaded racingConfig)
      (.ok {})).outcome = .ok output ∧
    Generates (.parsed racingSchema) [.parsed racingFile] (.loaded racingConfig) chosen output files
      context models forest classes ∧
    ∃ class_ ∈ classes.models, ∃ name ∈ fixedMembers, name ∈ class_.members := by
  obtain ⟨context, models, forest, classes, ran, members, _⟩ := exists_racingStages
  obtain ⟨output, chosen, generated, generates⟩ := exists_generates_of_stages ran
  have isDeclared : ["id", "constructor"] ∈ classes.models.map (·.members) :=
    members ▸ List.mem_cons_self
  obtain ⟨class_, isClass, declares⟩ := List.mem_map.mp isDeclared
  refine ⟨output, chosen, _, context, models, forest, classes, generated, generates, class_,
    isClass, "constructor", List.mem_cons_self, ?_⟩
  rw [declares]
  exact List.mem_cons_of_mem _ (List.mem_singleton_self _)

end Sdk

end ChainedSdk
