import ChainedSdk.Proofs.ModelNames
/-!
# Models in post-order

The extracted models are a forest written down in post-order: the trees of the definitions one after
the other, and in each tree the models of nested selections, field by field, before the model around
them. Every model but the root of a tree is referred to by exactly one field.
-/

namespace ChainedSdk

/-- The names of the models that the fields of a model refer to. -/
def Model.references (model : Model) : List String := model.fields.filterMap (·.model?)

/-- A model is that of the selection under a field of another one. -/
structure Model.NestedIn (inner outer : Model) (field : ModelField) : Prop where
  isModel : field.model? = some inner.name
  name_eq : inner.name = Names.nestedModel outer.name field.name
  path_eq : inner.path = outer.path ++ [field.name]
  source_eq : inner.source = outer.source
  sourceKind_eq : inner.sourceKind = outer.sourceKind
  typeName_eq : inner.typeName = field.type.name

theorem Model.NestedIn.not_isRoot {inner outer : Model} {field : ModelField}
    (isNested : inner.NestedIn outer field) : inner.isRoot = false := by
  rw [Model.isRoot, isNested.path_eq]
  simp

/-- Whether a definition has a root selection. -/
def Definition.selects : Definition → Bool
  | .operation _ => true
  | .fragment _ => true
  | _ => false

namespace Context

open Collecting

/-- The model of a site, and the sites of the selections inside it. -/
inductive Shows (context : Context) (site : ModelSite) : Model → List ModelSite → Prop
  | fields {picks : Picks} {resolved : List (ModelField × Option ModelSite)}
      (collected : Gives context (context.collect site.source site.owner site.selections)
        (.ok picks))
      (each : List.Forall₂ (fun entry result =>
        context.resolve site entry.1 entry.2 = .ok result) picks.toList resolved) :
      Shows context site (site.model (resolved.map Prod.fst)) (resolved.filterMap Prod.snd)

/-- The models of some sites and of all selections inside them, in post-order. -/
inductive Lists (context : Context) : List ModelSite → List Model → Prop
  | nil : Lists context [] []
  | site {site : ModelSite} {model : Model} {nested rest : List ModelSite}
      {inside later : List Model} (shows_ : context.Shows site model nested)
      (before : Lists context nested inside) (after : Lists context rest later) :
      Lists context (site :: rest) (inside ++ model :: later)

variable {context : Context} {site : ModelSite} {sites nested : List ModelSite} {model : Model}
  {models : List Model}

theorem Lists.append {more : List ModelSite} {later : List Model}
    (lists : context.Lists sites models) (further : context.Lists more later) :
    context.Lists (sites ++ more) (models ++ later) := by
  induction lists with
  | nil => exact further
  | site shows_ before _ _ ih =>
    rw [List.append_assoc, List.cons_append, List.cons_append]
    exact .site shows_ before ih

/-! ## Extraction lists the models -/

section Extraction

variable {made after : Table Model} {definitions : List Definition}

theorem selects_of_siteOf {definition : Definition} {site? : Option ModelSite}
    (found : context.siteOf definition = .ok site?) : definition.selects = site?.isSome := by
  cases definition with
  | operation operation =>
    obtain ⟨_, _, rfl⟩ := Outcome.map_eq_ok_iff.mp found
    rfl
  | fragment fragment =>
    obtain ⟨_, _, rfl⟩ := Outcome.map_eq_ok_iff.mp found
    rfl
  | _ =>
    cases found
    rfl

theorem Fills.lists {picks : List (String × Pick)} {fields : List ModelField}
    (fills : context.Fills site picks made fields after) : ∃ resolved new,
      fields = resolved.map Prod.fst ∧
      List.Forall₂ (fun entry result => context.resolve site entry.1 entry.2 = .ok result)
        picks resolved ∧
      context.Lists (resolved.filterMap Prod.snd) new ∧
      after.toList = made.toList ++ new.map fun model => (model.name, model) := by
  induction fills with
  | nil => exact ⟨[], [], rfl, .nil, .nil, (List.append_nil _).symm⟩
  | @leaf _ _ _ _ _ _ field _ resolved _ ih =>
    obtain ⟨others, new, rfl, each, lists, grown⟩ := ih
    exact ⟨(field, none) :: others, new, rfl, .cons resolved each, lists, grown⟩
  | @nested site inner key pick rest made half after field innerFields fields entries resolved
      fresh inlines inside further ihInside ihFurther =>
    obtain ⟨within, innermost, rfl, eachInside, listsInside, grownInside⟩ := ihInside
    obtain ⟨others, new, rfl, each, lists, grown⟩ := ihFurther
    have stillFresh : half.get? inner.name = none := by
      rw [inside.own_name, fresh]
    refine ⟨(field, some inner) :: others, innermost ++ inner.model (within.map Prod.fst) :: new,
      rfl, .cons resolved each, ?_, ?_⟩
    · exact .site (.fields (inlines.gives_collect inner.source) eachInside) listsInside lists
    · rw [grown, Table.toList_insert_of_none _ stillFresh, grownInside]
      simp [ModelSite.model]

theorem Makes.lists (makes : context.Makes site made after) : ∃ new,
    context.Lists [site] new ∧
      after.toList = made.toList ++ new.map fun model => (model.name, model) := by
  obtain ⟨fresh, entries, fields, half, inlines, fills, rfl⟩ := makes
  obtain ⟨resolved, new, rfl, each, lists, grown⟩ := fills.lists
  have stillFresh : half.get? site.name = none := by
    rw [fills.own_name, fresh]
  refine ⟨new ++ [site.model (resolved.map Prod.fst)], ?_, ?_⟩
  · exact .site (.fields (inlines.gives_collect site.source) each) lists .nil
  · rw [Table.toList_insert_of_none _ stillFresh, grown]
    simp [ModelSite.model]

/-- The sites of the definitions with a root selection, in their order, and their models. -/
theorem MakesAll.lists (makes : context.MakesAll definitions made after) : ∃ sites new,
    List.Forall₂ (fun definition site => context.siteOf definition = .ok (some site))
      (definitions.filter (·.selects)) sites ∧
    context.Lists sites new ∧
    after.toList = made.toList ++ new.map fun model => (model.name, model) := by
  induction makes with
  | nil => exact ⟨[], [], .nil, .nil, (List.append_nil _).symm⟩
  | @skip definition _ _ _ nothing _ ih =>
    rw [List.filter_cons_of_neg (by simp [selects_of_siteOf nothing])]
    exact ih
  | @site definition rest _ _ _ site found makes _ ih =>
    obtain ⟨others, later, every, listsLater, grownLater⟩ := ih
    obtain ⟨new, lists, grown⟩ := makes.lists
    rw [List.filter_cons_of_pos (selects_of_siteOf found)]
    refine ⟨site :: others, new ++ later, .cons found every, lists.append listsLater, ?_⟩
    rw [grownLater, grown, List.map_append, List.append_assoc]

theorem lists_of_models {documents : List DocumentFile}
    (extracted : context.models documents = .ok models) : ∃ sites,
      List.Forall₂ (fun definition site => context.siteOf definition = .ok (some site))
        ((definitionsOf documents).filter (·.selects)) sites ∧
      (∀ site ∈ sites, site.path = []) ∧ context.Lists sites models ∧
      (models.map (·.name)).Nodup := by
  obtain ⟨made, makes, rfl⟩ := makesAll_of_models extracted
  obtain ⟨sites, new, found, lists, grown⟩ := makes.lists
  have entries : made.toList = new.map fun model => (model.name, model) := grown
  have isNew : made.values = new := by
    rw [Table.values, entries, List.map_map]
    exact List.map_id new
  have distinct := made.nodup_keys
  rw [entries, List.map_map] at distinct
  rw [isNew]
  refine ⟨sites, found, ?_, lists, distinct⟩
  intro site member
  obtain ⟨_, _, isSite⟩ := Outcome.exists_of_forall₂ found member
  exact path_of_siteOf isSite

end Extraction

/-! ## One model -/

namespace Shows

theorem model_eq (shows_ : context.Shows site model nested) :
    model = site.model model.fields := by
  cases shows_
  rfl

theorem fields_eq (shows_ : context.Shows site model nested) : ∃ picks : Picks,
    Gives context (context.collect site.source site.owner site.selections) (.ok picks) ∧
      List.Forall₂ FieldOf picks.toList model.fields := by
  cases shows_ with
  | @fields picks resolved collected each =>
    refine ⟨picks, collected, ?_⟩
    show List.Forall₂ FieldOf picks.toList (resolved.map Prod.fst)
    rw [List.forall₂_map_right_iff]
    exact each.imp fun _ _ result => (spec_of_resolve result).1

theorem distinct (shows_ : context.Shows site model nested) :
    (model.fields.map (·.name)).Nodup := by
  obtain ⟨picks, _, every⟩ := shows_.fields_eq
  have names : picks.keys = model.fields.map (·.name) :=
    Outcome.map_eq_of_forall₂ every fun _ _ isField => isField.name_eq.symm
  rw [← names]
  exact picks.keys_nodup

theorem references_eq (shows_ : context.Shows site model nested) :
    model.references = nested.map (·.name) := by
  cases shows_ with
  | @fields picks resolved _ each =>
    show (resolved.map Prod.fst).filterMap (·.model?) =
      (resolved.filterMap Prod.snd).map (·.name)
    rw [List.filterMap_map, List.map_filterMap]
    apply List.filterMap_congr
    intro result member
    obtain ⟨_, _, resolvedTo⟩ := Outcome.exists_of_forall₂ each member
    exact (spec_of_resolve resolvedTo).2.1

theorem path_ne_nil (shows_ : context.Shows site model nested) {inner : ModelSite}
    (member : inner ∈ nested) : inner.path ≠ [] := by
  cases shows_ with
  | @fields picks resolved _ each =>
    obtain ⟨⟨found, nested?⟩, isResult, isInner⟩ := List.mem_filterMap.mp member
    obtain ⟨_, _, resolvedTo⟩ := Outcome.exists_of_forall₂ each isResult
    obtain ⟨block, rfl⟩ := (spec_of_resolve resolvedTo).2.2 inner isInner
    simp [ModelSite.nested]

end Shows

/-! ## The whole forest -/

/-- A site is one of some sites or lies inside one of them. -/
inductive Within (context : Context) (sites : List ModelSite) : ModelSite → Prop
  | self {site : ModelSite} (member : site ∈ sites) : Within context sites site
  | nested {outer inner : ModelSite} {model : Model} {nested : List ModelSite}
      (within : Within context sites outer) (shows_ : context.Shows outer model nested)
      (member : inner ∈ nested) : Within context sites inner

namespace Lists

theorem exists_shows {all : List ModelSite} (lists : context.Lists sites models)
    (known : ∀ site ∈ sites, context.Within all site) (member : model ∈ models) :
    ∃ site nested, context.Within all site ∧ context.Shows site model nested := by
  induction lists with
  | nil => cases member
  | @site site own nested rest inside later shows_ _ _ ihInside ihLater =>
    have isKnown := known site List.mem_cons_self
    rcases List.mem_append.mp member with isInside | isHere
    · exact ihInside (fun _ isNested => .nested isKnown shows_ isNested) isInside
    · rcases List.mem_cons.mp isHere with rfl | isLater
      · exact ⟨site, nested, isKnown, shows_⟩
      · exact ihLater (fun _ isRest => known _ (List.mem_cons_of_mem _ isRest)) isLater

theorem exists_model (lists : context.Lists sites models) (member : site ∈ sites) :
    ∃ model ∈ models, ∃ nested, context.Shows site model nested := by
  induction lists with
  | nil => cases member
  | @site own model nested _ _ _ shows_ _ _ _ ih =>
    rcases List.mem_cons.mp member with rfl | isRest
    · exact ⟨model, by simp, nested, shows_⟩
    · obtain ⟨found, isLater, isShown⟩ := ih isRest
      exact ⟨found, by simp [isLater], isShown⟩

/-- Every model is that of one of the sites or referred to by a field, and only once. -/
theorem references_perm (lists : context.Lists sites models) :
    (sites.map (·.name) ++ models.flatMap (·.references)).Perm (models.map (·.name)) := by
  induction lists with
  | nil => exact .nil
  | @site site model nested rest inside later shows_ _ _ ihInside ihLater =>
    have isNamed : model.name = site.name := by
      rw [shows_.model_eq]
      rfl
    rw [List.perm_iff_count]
    intro name
    have countInside := ihInside.count_eq name
    have countLater := ihLater.count_eq name
    simp only [List.map_cons, List.map_append, List.flatMap_append, List.flatMap_cons,
      List.cons_append, List.count_append, List.count_cons, shows_.references_eq, isNamed]
      at countInside countLater ⊢
    omega

theorem not_isRoot (lists : context.Lists sites models)
    (deeper : ∀ site ∈ sites, site.path ≠ []) (member : model ∈ models) :
    model.isRoot = false := by
  obtain ⟨site, nested, within, shows_⟩ := lists.exists_shows (fun _ => .self) member
  have path : site.path ≠ [] := by
    cases within with
    | self isSite => exact deeper site isSite
    | nested _ outerShows isNested => exact outerShows.path_ne_nil isNested
  rw [shows_.model_eq]
  exact List.isEmpty_eq_false_iff.mpr path

/-- The models with an empty path are those of the sites with one, in their order. -/
theorem roots (lists : context.Lists sites models) (atRoot : ∀ site ∈ sites, site.path = []) :
    List.Forall₂ (fun site root => root = site.model root.fields) sites
      (models.filter (·.isRoot)) := by
  induction lists with
  | nil => exact .nil
  | @site site model nested rest inside later shows_ before _ _ ih =>
    have none_ : inside.filter (·.isRoot) = [] := by
      apply List.filter_eq_nil_iff.mpr
      intro inner isInside
      rw [before.not_isRoot (fun _ isNested => shows_.path_ne_nil isNested) isInside]
      exact Bool.false_ne_true
    have isRoot : model.isRoot = true := by
      rw [shows_.model_eq]
      exact List.isEmpty_iff.mpr (atRoot site List.mem_cons_self)
    rw [List.filter_append, none_, List.nil_append, List.filter_cons_of_pos isRoot]
    exact .cons shows_.model_eq (ih fun _ isRest => atRoot _ (List.mem_cons_of_mem _ isRest))

section Distinct

variable (lists : context.Lists sites models) (distinct : (models.map (·.name)).Nodup)

include lists distinct

end Distinct

end Lists

/-- Models that are a forest in post-order: with one root for every site, in order, and with every
other model nested in exactly one field of exactly one model, which stands after it. -/
structure Postorder (context : Context) (sites : List ModelSite) (models : List Model) : Prop where
  lists : context.Lists sites models
  distinct : (models.map (·.name)).Nodup
  keys : ∀ model ∈ models, (model.fields.map (·.name)).Nodup
  roots : List.Forall₂ (fun site root => root = site.model root.fields) sites
    (models.filter (·.isRoot))
  nested : ∀ inner ∈ models, inner.isRoot = false → ∃ outer ∈ models, ∃ field ∈ outer.fields,
    inner.NestedIn outer field ∧ [inner, outer].Sublist models ∧
      ∀ other ∈ models, ∀ otherField ∈ other.fields, otherField.model? = some inner.name →
        other = outer ∧ otherField = field
  held : ∀ outer ∈ models, ∀ field ∈ outer.fields, ∀ name, field.model? = some name →
    ∃ inner ∈ models, inner.NestedIn outer field
  selected : ∀ model ∈ models, ∃ (site : ModelSite) (picks : Picks),
    context.Within sites site ∧ model = site.model model.fields ∧
      Gives context (context.collect site.source site.owner site.selections) (.ok picks) ∧
      List.Forall₂ FieldOf picks.toList model.fields

theorem Postorder.root_names (ordered : context.Postorder sites models) :
    sites.map (·.name) = (models.filter (·.isRoot)).map (·.name) := by
  apply Outcome.map_eq_of_forall₂ ordered.roots
  intro site root isRoot
  rw [isRoot]
  rfl

end Context

end ChainedSdk
