import ChainedSdk.Proofs.Conditions
import ChainedSdk.Proofs.ResultModels
import Mathlib
/-!
# Presence of inherited values

A required variable is inherited from a field of a model that is never missing where it is selected.
The model does not say in which objects it is selected: where all selections of the field stand
under conditions that an object type is not admitted by, objects of this type come without the
value.
-/

namespace ChainedSdk

theorem Collecting.Gives.unique {α : Type} {context : Context} {computation : Collecting α}
    {outcome other : Except Error α} (gives : Gives context computation outcome)
    (again : Gives context computation other) : outcome = other := by
  obtain ⟨_, _, ran⟩ := gives ∅ (FragmentCache.complete_empty context)
  obtain ⟨_, _, ranAgain⟩ := again ∅ (FragmentCache.complete_empty context)
  rw [ran] at ranAgain
  exact (Prod.mk.inj ranAgain).1

namespace Context

open Collecting

variable {context : Context} {documents : List DocumentFile} {sites : List ModelSite}
  {site : ModelSite} {model : Model} {nested : List ModelSite}

/-! ## Where models are extracted -/

theorem exists_name_of_blockType? {owner type : TypeDescriptor} {head : FieldHead}
    (typed : context.blockType? owner head = some type) :
    ∃ name, context.type? name = some type := by
  unfold blockType? at typed
  split at typed
  · cases typed
  · obtain ⟨declared, _, found⟩ := Option.bind_eq_some_iff.mp typed
    exact ⟨declared.typeName, found⟩

/-- The picks of a shown model are those of its selection with all fragments in place. -/
theorem Shows.exists_inlines (shows_ : context.Shows site model nested) : ∃ entries resolved,
    context.Inlines site.owner site.selections entries ∧
    List.Forall₂ (fun entry result => context.resolve site entry.1 entry.2 = .ok result)
      (Table.ofList entries).toList resolved ∧
    model.fields = resolved.map Prod.fst ∧ nested = resolved.filterMap Prod.snd := by
  cases shows_ with
  | @fields picks resolved collected each =>
    have placed := collected.unique
      (context.gives_collect site.source site.owner site.selections)
    obtain ⟨entries, expanded, rfl⟩ := Outcome.map_eq_ok_iff.mp placed.symm
    exact ⟨entries, resolved, inlines_of_inlined expanded, each, rfl, rfl⟩

/-- The sites of the root selections of some documents. -/
def RootSites (context : Context) (documents : List DocumentFile) (sites : List ModelSite) : Prop :=
  List.Forall₂ (fun definition site => context.siteOf definition = .ok (some site))
    ((definitionsOf documents).filter (·.selects)) sites

/-- Whether a model is that of a site in some documents. -/
def ExtractedAt (context : Context) (documents : List DocumentFile) (model : Model)
    (site : ModelSite) : Prop :=
  ∃ roots nested, context.RootSites documents roots ∧ context.Within roots site ∧
    context.Shows site model nested

/-- Where models are extracted, types are known and all selection sets are those of the documents.
-/
structure Placed (context : Context) (documents : List DocumentFile) (site : ModelSite) : Prop where
  known : context.type? site.owner.name = some site.owner
  subset : site.place :: context.places site.owner site.selections ⊆
    context.documentPlaces documents

theorem RootSites.placed (roots : context.RootSites documents sites) (member : site ∈ sites)
    (own : OwnNames context.types) : context.Placed documents site := by
  obtain ⟨definition, isDefinition, isSite⟩ := Outcome.exists_of_forall₂ roots member
  have inDocuments : context.definitionPlaces definition ⊆ context.documentPlaces documents :=
    fun place isPlace => List.mem_append_left _
      (List.mem_flatMap.mpr ⟨definition, (List.mem_filter.mp isDefinition).1, isPlace⟩)
  rcases siteOf_eq_some isSite with
    ⟨operation, name, root, rfl, _, isRoot, rfl⟩ | ⟨fragment, owner, rfl, known, rfl⟩
  · obtain ⟨rootName, _, found⟩ := Option.bind_eq_some_iff.mp isRoot
    refine ⟨own.type?_eq_some found, List.Subset.trans ?_ inDocuments⟩
    simp [definitionPlaces, isRoot, ModelSite.place]
  · refine ⟨own.type?_eq_some known, List.Subset.trans ?_ inDocuments⟩
    simp [definitionPlaces, known, ModelSite.place]

theorem Placed.inner (placed : context.Placed documents site) (own : OwnNames context.types)
    (shows_ : context.Shows site model nested) {inner : ModelSite} (member : inner ∈ nested) :
    context.Placed documents inner := by
  obtain ⟨entries, resolved, inlines, each, _, rfl⟩ := shows_.exists_inlines
  obtain ⟨⟨field, nested?⟩, isResult, isInner⟩ := List.mem_filterMap.mp member
  obtain ⟨⟨key, pick⟩, isPick, resolvedTo⟩ := Outcome.exists_of_forall₂ each isResult
  cases isInner
  obtain ⟨isBlock, typed⟩ := blockType?_of_resolve resolvedTo
  obtain ⟨name, found⟩ := exists_name_of_blockType? typed
  have inside := inlines.places_subset (Table.mem_of_mem_ofList isPick) isBlock typed
  refine ⟨own.type?_eq_some found,
    List.Subset.trans inside (List.append_subset.mpr ⟨?_, ?_⟩)⟩
  · exact List.Subset.trans (List.subset_cons_self _ _) placed.subset
  · exact List.subset_append_right _ _

theorem Within.placed (roots : context.RootSites documents sites) (own : OwnNames context.types)
    (within : context.Within sites site) : context.Placed documents site := by
  induction within with
  | self member => exact roots.placed member own
  | nested _ shows_ member ih => exact ih.inner own shows_ member

theorem ExtractedAt.placed (isAt : context.ExtractedAt documents model site)
    (own : OwnNames context.types) : context.Placed documents site := by
  obtain ⟨roots, nested, isRoots, within, _⟩ := isAt
  exact within.placed isRoots own

theorem ExtractedAt.typeName_eq (isAt : context.ExtractedAt documents model site) :
    model.typeName = site.owner.name := by
  obtain ⟨_, _, _, _, shows_⟩ := isAt
  rw [shows_.model_eq]
  rfl

theorem Placed.mem (placed : context.Placed documents site) :
    (site.owner, site.selections) ∈ context.documentPlaces documents :=
  placed.subset List.mem_cons_self

/-! ## Fields of models -/

/-- A field of a model is that of a selection under its key. -/
theorem Shows.exists_stands (shows_ : context.Shows site model nested) {field : ModelField}
    (isField : field ∈ model.fields) : ∃ conditions pick nested?,
      context.Stands site.owner site.selections conditions pick ∧ pick.head.key = field.name ∧
      context.resolve site field.name pick = .ok (field, nested?) := by
  obtain ⟨entries, resolved, inlines, each, isFields, _⟩ := shows_.exists_inlines
  rw [isFields] at isField
  obtain ⟨⟨found, nested?⟩, isResult, rfl⟩ := List.mem_map.mp isField
  obtain ⟨⟨key, pick⟩, isPick, resolvedTo⟩ := Outcome.exists_of_forall₂ each isResult
  obtain ⟨isKey, conditions, stands⟩ := inlines.exists_stands (Table.mem_of_mem_ofList isPick)
  have named := (spec_of_resolve resolvedTo).1.name_eq
  dsimp only at named resolvedTo
  subst named
  exact ⟨conditions, pick, nested?, stands, isKey, resolvedTo⟩

/-- A key field that supplies a required variable is declared as present where it is selected. -/
theorem present_of_supplies {key : String} {pick : Pick} {field : ModelField}
    {nested? : Option ModelSite} {input : Variable} (own : OwnNames context.types)
    (resolved : context.resolve site key pick = .ok (field, nested?))
    (isKey : field ∈ model.keyFields context.config) (supplies : field.supplies input)
    (required : input.isRequired) : ∃ declared,
      pick.owner.selectable? pick.head.name = some declared ∧
        context.Present declared input.typeName := by
  have fits := (List.mem_filter.mp isKey).2
  simp only [Model.isKeyField, Bool.and_eq_true, Bool.not_eq_true', decide_eq_true_eq] at fits
  obtain ⟨⟨⟨single, leaf⟩, notTypename⟩, _⟩ := fits
  simp only [ModelField.supplies, Bool.and_eq_true, Bool.or_eq_true, Bool.not_eq_true',
    decide_eq_true_eq] at supplies
  obtain ⟨⟨⟨_, sameType⟩, _⟩, optional⟩ := supplies
  simp only [Variable.isRequired, Bool.and_eq_true, Bool.not_eq_true'] at required
  rcases resolve_eq_ok resolved with
    ⟨isTypename, _, _, _, rfl⟩ | ⟨ordinary, declared, type, isDeclared, known, _, rfl⟩
  · exact absurd isTypename notTypename
  · refine ⟨declared, ?_, ?_, single, ?_, type, known, leaf⟩
    · rw [TypeDescriptor.selectable?, if_neg ordinary]
      exact isDeclared
    · rw [required.1] at optional
      exact optional.resolve_left Bool.false_ne_true
    · rw [sameType]
      exact (own _ _ known).symm

end Context

/-! ## Whole forests -/

theorem Node.Settled.isRequired {config : Config} {models : Table Model} {parents : Parents}
    {operations : List Operation} {higher : List Node} {node : Node}
    (settled : node.Settled config models parents operations higher) {value : Inherited}
    (member : value ∈ node.inherited) : value.input.isRequired := by
  rw [settled.inherited_eq] at member
  exact (Variable.inherited?_eq_some (Operation.mem_inherited.mp member).2).1

/-- Valid documents over a valid schema, as far as the shapes of selected fields go. -/
structure Context.Valid (context : Context) (documents : List DocumentFile) : Prop where
  covariant : context.Covariant
  places : ∀ place ∈ context.documentPlaces documents, context.ValidPlace place

/-- Whether a selection under a key is made in objects of some type: all conditions around it admit
them. -/
structure Context.Reaches (context : Context) (site : ModelSite) (key : String)
    (object : TypeDescriptor) (pick : Pick) : Prop where
  key_eq : pick.head.key = key
  stands : ∃ conditions, context.Stands site.owner site.selections conditions pick ∧
    ∀ condition ∈ conditions, condition.Admits object

namespace Forest

variable {schema : Document} {documents : List DocumentFile} {config : Config} {context : Context}
  {models : List Model} {forest : Forest}

/-- An inherited value comes from a field of a model whose selection has a selection under the key
of the field, which is declared as present where it is selected. -/
theorem exists_source (built : Context.ofDocument schema documents config = .ok context)
    (extracted : context.models documents = .ok models)
    (resolved : (resolve context documents models).outcome = .ok forest) {node : Node}
    (isNode : node ∈ forest.walk) {value : Inherited} (isInherited : value ∈ node.inherited) :
    ∃ model ∈ models, ∃ site, model.name = value.model ∧
      context.ExtractedAt documents model site ∧ ∃ conditions pick declared,
        context.Stands site.owner site.selections conditions pick ∧ pick.head.key = value.field ∧
        pick.owner.selectable? pick.head.name = some declared ∧
        context.Present declared value.input.typeName := by
  obtain ⟨_, _, whole⟩ := resolved_of_resolve built extracted resolved
  obtain ⟨_, settled⟩ := whole.grown.exists_settled isNode
  obtain ⟨_, model, field, present, isKey, supplies, sameModel, sameField⟩ :=
    whole.grown.exists_supplier whole.coherent isNode isInherited
  have isExtracted := (mem_of_get?_modelTable present).1
  obtain ⟨roots, isRoots, _, lists, _⟩ := Context.lists_of_models extracted
  obtain ⟨site, nested, within, shows_⟩ := lists.exists_shows (fun _ => .self) isExtracted
  obtain ⟨conditions, pick, nested?, stands, isPick, resolvedTo⟩ :=
    shows_.exists_stands (Model.mem_fields_of_mem_keyFields isKey)
  obtain ⟨declared, isDeclared, isPresent⟩ := Context.present_of_supplies
    (Context.ownNames_ofDocument built) resolvedTo isKey supplies (settled.isRequired isInherited)
  exact ⟨model, isExtracted, site, sameModel.symm, ⟨roots, nested, isRoots, within, shows_⟩,
    conditions, pick, declared, stands, isPick.trans sameField.symm, isDeclared, isPresent⟩

/-- In a forest that is resolved over valid documents, every inherited variable comes from a model
whose selection selects the field under its key, at least under some conditions. In every object
type that values of the model's type can be of, each selection of this key whose conditions admit
the type selects a field that is a leaf of the variable's type, not in a list and never missing. -/
theorem resolve_present (built : Context.ofDocument schema documents config = .ok context)
    (extracted : context.models documents = .ok models)
    (resolved : (resolve context documents models).outcome = .ok forest)
    (valid : context.Valid documents) :
    ∀ node ∈ forest.walk, ∀ value ∈ node.inherited, ∃ model ∈ models, ∃ site,
      model.name = value.model ∧ context.ExtractedAt documents model site ∧
      (∃ conditions pick, context.Stands site.owner site.selections conditions pick ∧
        pick.head.key = value.field) ∧
      ∀ object, context.type? object.name = some object → site.owner.Admits object →
        ∀ pick, context.Reaches site value.field object pick →
          ∃ field, object.selectable? pick.head.name = some field ∧
            context.Present field value.input.typeName := by
  intro node isNode value isInherited
  obtain ⟨model, isModel, site, named, isAt, conditions, pick, declared, stands, isKey, isDeclared,
    isPresent⟩ := exists_source built extracted resolved isNode isInherited
  refine ⟨model, isModel, site, named, isAt, ⟨conditions, pick, stands, isKey⟩, ?_⟩
  rintro object isObject admitted other ⟨isKeyOther, others, standsOther, all⟩
  have own := Context.ownNames_ofDocument built
  have placed := isAt.placed own
  exact (valid.places _ placed.mem).present valid.covariant own placed.known stands isDeclared
    isPresent standsOther (isKey.trans isKeyOther.symm) isObject admitted all

/-! ## Pets that are cats or dogs -/

private def petField (name type : String) : FieldDefinition :=
  ⟨none, name, [⟨none, "id", .nonNull (.named "ID"), none, []⟩], .named type, []⟩

/-- A pet is a cat or a dog, and only cats have identifiers. -/
private def petSchema : Document :=
  ⟨[.type ⟨none, "Query", [], .object [] [petField "pet" "Pet", petField "owner" "String"]⟩,
    .type ⟨none, "Pet", [], .union ["Cat", "Dog"]⟩,
    .type ⟨none, "Cat", [], .object [] [⟨none, "id", [], .nonNull (.named "ID"), []⟩]⟩,
    .type ⟨none, "Dog", [], .object [] [⟨none, "name", [], .named "String", []⟩]⟩]⟩

private def petHead (name : String) : FieldHead := ⟨none, name, [⟨"id", .variable "id"⟩], []⟩

/-- The identifier, of cats. -/
private def petBlock : List Selection :=
  [.inlineFragment (some "Cat") [] [.field ⟨none, "id", [], []⟩ none]]

private def petQuery (name : String) (block? : Option (List Selection)) : Definition :=
  .operation ⟨none, .query, some name, [⟨none, "id", .nonNull (.named "ID"), none, []⟩], [],
    [.field (petHead name) block?]⟩

private def petFile : DocumentFile :=
  ⟨⟨[petQuery "pet" (some petBlock), petQuery "owner" none]⟩, none⟩

private def petConfig : Config := { requireNamePrefix := false }

private def petRoot : TypeDescriptor where
  name := "Query"
  kind := .object
  fields := [⟨"pet", "Pet", false, true, none⟩, ⟨"owner", "String", false, true, none⟩]

private def petType : TypeDescriptor where
  name := "Pet"
  kind := .union
  members := ["Cat", "Dog"]

private def catType : TypeDescriptor where
  name := "Cat"
  kind := .object
  fields := [⟨"id", "ID", false, false, none⟩]

private def dogType : TypeDescriptor where
  name := "Dog"
  kind := .object
  fields := [⟨"name", "String", false, true, none⟩]

private def petPlaces : List Place :=
  [(petRoot, [.field (petHead "pet") (some petBlock)]), (petType, petBlock),
    (petRoot, [.field (petHead "owner") none])]

/-- What the types and the selection sets of the example are. -/
private structure PetContext (context : Context) : Prop where
  plain : (context.types.values.all fun type =>
    type.kind ≠ .interface && (type.kind ≠ .union || type.fields.isEmpty)) = true
  cat : context.type? "Cat" = some catType
  dog : context.type? "Dog" = some dogType
  places : context.documentPlaces [petFile] = petPlaces

private theorem exists_pets : ∃ context models forest,
    Context.ofDocument petSchema [petFile] petConfig = .ok context ∧
    context.models [petFile] = .ok models ∧
    (resolve context [petFile] models).outcome = .ok forest ∧ PetContext context ∧
    models.map (fun model => (model.name, model.typeName)) =
      [("PetQuery_Pet", "Pet"), ("PetQuery", "Query"), ("OwnerQuery", "Query")] ∧
    forest.walk.map (fun node => node.inherited.map fun value => (value.model, value.field)) =
      [[], [("PetQuery_Pet", "id")]] := by
  have whole : (do
      let context ← Context.ofDocument petSchema [petFile] petConfig
      let models ← context.models [petFile]
      let forest ← (resolve context [petFile] models).outcome
      return ((context.types.values.all fun type =>
          type.kind ≠ .interface && (type.kind ≠ .union || type.fields.isEmpty),
        context.type? "Cat", context.type? "Dog", context.documentPlaces [petFile]),
        models.map fun model => (model.name, model.typeName),
        forest.walk.map fun node => node.inherited.map fun value => (value.model, value.field)) :
          Except Error _) = .ok ((true, some catType, some dogType, petPlaces),
      [("PetQuery_Pet", "Pet"), ("PetQuery", "Query"), ("OwnerQuery", "Query")],
      [[], [("PetQuery_Pet", "id")]]) := by
    set_option maxRecDepth 4000 in cbv
  obtain ⟨context, built, whole⟩ := Outcome.bind_eq_ok_iff.mp whole
  obtain ⟨models, extracted, whole⟩ := Outcome.bind_eq_ok_iff.mp whole
  obtain ⟨forest, resolved, whole⟩ := Outcome.bind_eq_ok_iff.mp whole
  obtain ⟨types, rest⟩ := Prod.mk.inj (Except.ok.inj whole)
  obtain ⟨plain, types⟩ := Prod.mk.inj types
  obtain ⟨cat, types⟩ := Prod.mk.inj types
  obtain ⟨dog, places⟩ := Prod.mk.inj types
  exact ⟨context, models, forest, built, extracted, resolved, ⟨plain, cat, dog, places⟩,
    Prod.mk.inj rest⟩

section Pets

variable {context : Context} (pets : PetContext context)

include pets

/-- The only field that is selected of a pet is the identifier of cats. -/
private theorem PetContext.of_stands {conditions : List TypeDescriptor} {pick : Pick}
    (stands : context.Stands petType petBlock conditions pick) :
    conditions = [catType] ∧ pick = ⟨⟨none, "id", [], []⟩, none, catType⟩ := by
  obtain ⟨type, further, found, rfl, inside⟩ := stands.of_condition
  obtain ⟨rfl, rfl⟩ := inside.of_field
  have isCat : type = catType := Option.some.inj (found.symm.trans pets.cat)
  rw [isCat]
  exact ⟨rfl, rfl⟩

private theorem PetContext.valid : context.Valid [petFile] where
  covariant := by
    apply Context.covariant_of_no_interface
    intro name type found
    have plain := List.all_eq_true.mp pets.plain type
      ((Table.mem_values_iff _ _).mpr ⟨name, found⟩)
    simpa [or_iff_not_imp_left] using plain
  places := by
    intro place member
    rw [pets.places] at member
    rcases List.mem_cons.mp member with rfl | member
    · exact Context.validPlace_of_single (fun _ _ stands => stands.of_field.2) rfl
    rcases List.mem_cons.mp member with rfl | member
    · exact Context.validPlace_of_single (fun _ _ stands => (pets.of_stands stands).2) rfl
    · rw [List.mem_singleton.mp member]
      exact Context.validPlace_of_single (fun _ _ stands => stands.of_field.2) rfl

/-- The only model on pets is that of the block. -/
private theorem PetContext.site_eq {model : Model} {site : ModelSite}
    (own : OwnNames context.types) (isAt : context.ExtractedAt [petFile] model site)
    (isPet : model.typeName = "Pet") : site.owner = petType ∧ site.selections = petBlock := by
  have member := (isAt.placed own).mem
  have named := isAt.typeName_eq
  rw [pets.places] at member
  rw [isPet] at named
  rcases List.mem_cons.mp member with same | member
  · rw [(Prod.mk.inj same).1] at named
    exact absurd named (by decide)
  rcases List.mem_cons.mp member with same | member
  · exact Prod.mk.inj same
  · rw [(Prod.mk.inj (List.mem_singleton.mp member)).1] at named
    exact absurd named (by decide)

end Pets

private theorem exists_petValue {forest : Forest} (walked : forest.walk.map (fun node =>
    node.inherited.map fun value => (value.model, value.field)) = [[], [("PetQuery_Pet", "id")]]) :
    ∃ node ∈ forest.walk, ∃ value ∈ node.inherited,
      value.model = "PetQuery_Pet" ∧ value.field = "id" := by
  have member : [("PetQuery_Pet", "id")] ∈ forest.walk.map fun node =>
      node.inherited.map fun value => (value.model, value.field) := by
    rw [walked]
    exact List.mem_cons_of_mem _ (List.mem_singleton_self _)
  obtain ⟨node, isNode, inherits⟩ := List.mem_map.mp member
  obtain ⟨value, isValue, same⟩ := List.mem_map.mp (inherits ▸ List.mem_singleton_self _)
  exact ⟨node, isNode, value, isValue, Prod.mk.inj same⟩

private theorem typeName_of_pets {models : List Model} (listed : models.map (fun model =>
    (model.name, model.typeName)) =
      [("PetQuery_Pet", "Pet"), ("PetQuery", "Query"), ("OwnerQuery", "Query")])
    {model : Model} (isModel : model ∈ models) (named : model.name = "PetQuery_Pet") :
    model.typeName = "Pet" := by
  have member : (model.name, model.typeName) ∈ models.map fun model =>
      (model.name, model.typeName) := List.mem_map_of_mem isModel
  rw [listed, named] at member
  simpa using member

/-- The owner of a cat is found by the identifier that every cat has. -/
theorem resolve_present_cat : ∃ context models forest,
    Context.ofDocument petSchema [petFile] petConfig = .ok context ∧
    context.models [petFile] = .ok models ∧
    (resolve context [petFile] models).outcome = .ok forest ∧ context.Valid [petFile] ∧
    ∃ node ∈ forest.walk, ∃ value ∈ node.inherited, ∃ model ∈ models, ∃ site object pick field,
      model.name = value.model ∧ context.ExtractedAt [petFile] model site ∧
      context.type? object.name = some object ∧ site.owner.Admits object ∧
      context.Reaches site value.field object pick ∧
      object.selectable? pick.head.name = some field ∧
      context.Present field value.input.typeName := by
  obtain ⟨context, models, forest, built, extracted, resolved, pets, listed, walked⟩ := exists_pets
  obtain ⟨node, isNode, value, isValue, isModelName, isField⟩ := exists_petValue walked
  obtain ⟨model, isModel, site, named, isAt, _, present⟩ :=
    resolve_present built extracted resolved pets.valid node isNode value isValue
  obtain ⟨isOwner, isBlock⟩ := pets.site_eq (Context.ownNames_ofDocument built) isAt
    (typeName_of_pets listed isModel (named.trans isModelName))
  have admitted : site.owner.Admits catType := by
    rw [isOwner]
    exact ⟨rfl, List.mem_cons_self⟩
  have reaches :
      context.Reaches site value.field catType ⟨⟨none, "id", [], []⟩, none, catType⟩ := by
    refine ⟨isField.symm, [catType], ?_, ?_⟩
    · rw [isBlock]
      exact .condition (List.mem_singleton_self _) pets.cat (.field (List.mem_singleton_self _))
    · rintro condition member
      rw [List.mem_singleton.mp member]
      exact ⟨rfl, rfl⟩
  obtain ⟨field, isSelected, isPresent⟩ := present catType pets.cat admitted _ reaches
  exact ⟨context, models, forest, built, extracted, resolved, pets.valid, node, isNode, value,
    isValue, model, isModel, site, catType, _, field, named, isAt, pets.cat, admitted, reaches,
    isSelected, isPresent⟩

/-- The owner of a pet is found by the identifier of cats, which no dog has: nothing that is
selected of a pet under the key of the inherited value is selected of dogs. -/
theorem exists_absent_value : ∃ context models forest,
    Context.ofDocument petSchema [petFile] petConfig = .ok context ∧
    context.models [petFile] = .ok models ∧
    (resolve context [petFile] models).outcome = .ok forest ∧ context.Valid [petFile] ∧
    ∃ node ∈ forest.walk, ∃ value ∈ node.inherited, ∃ model ∈ models, ∃ site object,
      model.name = value.model ∧ context.ExtractedAt [petFile] model site ∧
      context.type? object.name = some object ∧ site.owner.Admits object ∧
      ∀ pick, ¬context.Reaches site value.field object pick := by
  obtain ⟨context, models, forest, built, extracted, resolved, pets, listed, walked⟩ := exists_pets
  obtain ⟨node, isNode, value, isValue, isModelName, _⟩ := exists_petValue walked
  obtain ⟨model, isModel, site, named, isAt, _⟩ :=
    exists_source built extracted resolved isNode isValue
  obtain ⟨isOwner, isBlock⟩ := pets.site_eq (Context.ownNames_ofDocument built) isAt
    (typeName_of_pets listed isModel (named.trans isModelName))
  refine ⟨context, models, forest, built, extracted, resolved, pets.valid, node, isNode, value,
    isValue, model, isModel, site, dogType, named, isAt, pets.dog, ?_, ?_⟩
  · rw [isOwner]
    exact ⟨rfl, List.mem_cons_of_mem _ (List.mem_singleton_self _)⟩
  · rintro pick ⟨_, conditions, stands, all⟩
    rw [isOwner, isBlock] at stands
    obtain ⟨rfl, _⟩ := pets.of_stands stands
    have isDog : dogType = catType := (all catType (List.mem_singleton_self _)).2
    exact absurd isDog (by decide)

end Forest

end ChainedSdk
