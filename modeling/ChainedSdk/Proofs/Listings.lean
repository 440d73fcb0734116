import ChainedSdk.Proofs.FragmentCycles
import ChainedSdk.Proofs.Postorder
/-!
# Which models are extracted

The models of some definitions come out exactly where their sites list them in post-order under
distinct names. So the order of the definitions only moves the trees of models, to leave out a
definition leaves out its tree, and of the fragments only counts what is found under their names.
-/

namespace ChainedSdk.Context

variable {context : Context} {site : ModelSite} {sites others nested : List ModelSite}
  {model : Model} {models new : List Model} {made after : Table Model} {depth : Nat}
  {definitions : List Definition}

/-! ## From a list to its extraction -/

def addAll (context : Context) (depth : Nat) (sites : List ModelSite) (made : Table Model) :
    Except Error (Table Model) :=
  sites.foldlM (fun made site => context.addSite depth site made) made

theorem addAll_cons (context : Context) (depth : Nat) (site : ModelSite) (rest : List ModelSite)
    (made : Table Model) : context.addAll depth (site :: rest) made =
      (context.addSite depth site made >>= context.addAll depth rest) := rfl

theorem addAll_mono {more : Nat} (deeper : depth ≤ more)
    (ends : context.addAll depth sites made ≠ .error .endlessSelection) :
    context.addAll more sites made = context.addAll depth sites made := by
  induction sites generalizing made with
  | nil => rfl
  | cons site rest ih =>
    rw [addAll_cons] at ends
    have siteEnds : context.addSite depth site made ≠ .error .endlessSelection :=
      fun endless => ends (Outcome.bind_eq_error_iff.mpr (Or.inl endless))
    rw [addAll_cons, addAll_cons, addSite_mono deeper siteEnds]
    cases added : context.addSite depth site made with
    | error error => rfl
    | ok next =>
      rw [added] at ends
      exact ih ends

theorem addSites_eq_addAll
    (found : List.Forall₂ (fun definition site => context.siteOf definition = .ok (some site))
      (definitions.filter (·.selects)) sites) (depth : Nat) (made : Table Model) :
    context.addSites depth definitions made = context.addAll depth sites made := by
  induction definitions generalizing sites made with
  | nil =>
    cases found
    rfl
  | cons definition rest ih =>
    by_cases selects : definition.selects = true
    · rw [List.filter_cons_of_pos selects] at found
      cases found with
      | cons isSite further =>
        rw [addSites, isSite, addAll_cons]
        exact congrArg (context.addSite depth _ made >>= ·) (funext fun next => ih further next)
    · rw [List.filter_cons_of_neg selects] at found
      have nothing : context.siteOf definition = .ok none := by
        cases definition with
        | operation _ => exact absurd rfl selects
        | fragment _ => exact absurd rfl selects
        | _ => rfl
      rw [addSites, nothing]
      exact ih found made

/-- Where every field is resolved, only the models inside the fields are left to be made. -/
theorem addFields_eq_addAll {picks : List (String × Pick)}
    {resolved : List (ModelField × Option ModelSite)}
    (each : List.Forall₂ (fun entry result =>
      context.resolve site entry.1 entry.2 = .ok result) picks resolved) :
    context.addFields (context.addSite depth) site picks made =
      (context.addAll depth (resolved.filterMap Prod.snd) made).map fun after =>
        (resolved.map Prod.fst, after) := by
  induction each generalizing made with
  | nil => rfl
  | @cons entry result rest results isResult _ ih =>
    obtain ⟨key, pick⟩ := entry
    obtain ⟨field, nested?⟩ := result
    cases nested? with
    | none =>
      rw [addFields_leaf isResult, ih]
      show _ = (context.addAll depth (results.filterMap Prod.snd) made).map _
      cases context.addAll depth (results.filterMap Prod.snd) made with
      | error error => rfl
      | ok after => rfl
    | some inner =>
      show _ = (context.addAll depth (inner :: results.filterMap Prod.snd) made).map _
      rw [addFields_nested isResult, addAll_cons]
      cases context.addSite depth inner made with
      | error error => rfl
      | ok next =>
        dsimp only [bind, Except.bind]
        rw [ih]
        cases context.addAll depth (results.filterMap Prod.snd) next with
        | error error => rfl
        | ok after => rfl

/-- What a site shows are the fields that stand there with all fragments in place. -/
theorem Shows.inlines (shows_ : context.Shows site model nested) : ∃ entries resolved,
    context.Inlines site.owner site.selections entries ∧
      List.Forall₂ (fun entry result => context.resolve site entry.1 entry.2 = .ok result)
        (Table.ofList entries).toList resolved ∧
      model = site.model (resolved.map Prod.fst) ∧ nested = resolved.filterMap Prod.snd := by
  cases shows_ with
  | @fields picks resolved collected each =>
    have empty := FragmentCache.complete_empty context
    obtain ⟨_, _, ran⟩ := collected ∅ empty
    obtain ⟨_, _, given⟩ :=
      context.gives_collect site.source site.owner site.selections ∅ empty
    obtain ⟨same, _⟩ := Prod.mk.inj (given.symm.trans ran)
    obtain ⟨entries, expanded, rfl⟩ := Outcome.map_eq_ok_iff.mp same
    exact ⟨entries, resolved, inlines_of_inlined expanded, each, rfl, rfl⟩

private theorem keys_of_toList (grown : after.toList =
    made.toList ++ new.map fun model => (model.name, model)) :
    after.keys = made.keys ++ new.map (·.name) := by
  rw [Table.keys, grown, List.map_append, List.map_map]
  rfl

/-- Listed models with new names are made at some depth. -/
theorem Lists.exists_addAll (lists : context.Lists sites new) (made : Table Model)
    (fresh : (made.keys ++ new.map (·.name)).Nodup) : ∃ depth after,
      context.addAll depth sites made = .ok after ∧
        after.toList = made.toList ++ new.map fun model => (model.name, model) := by
  induction lists generalizing made with
  | nil => exact ⟨0, made, rfl, (List.append_nil _).symm⟩
  | @site site model nested rest inside later shows_ _ _ ihInside ihLater =>
    obtain ⟨entries, resolved, inlines, each, rfl, rfl⟩ := shows_.inlines
    rw [List.map_append, List.map_cons, ← List.append_assoc] at fresh
    obtain ⟨depth, half, addedInside, grownInside⟩ := ihInside made fresh.of_append_left
    have keysInside := keys_of_toList grownInside
    have apart := (List.nodup_middle.mp fresh).notMem
    rw [← keysInside] at apart fresh
    have absentHalf : site.name ∉ half.keys := fun member =>
      apart (List.mem_append_left _ member)
    have absent : site.name ∉ made.keys := fun member =>
      absentHalf (keysInside ▸ List.mem_append_left _ member)
    have added : context.addSite (depth + 1) site made =
        .ok (half.insert site.name (site.model (resolved.map Prod.fst))) := by
      rw [addSite_of_inlines (Table.get?_eq_none_of_not_mem absent) inlines,
        addFields_eq_addAll each, addedInside]
      rfl
    have grownHere := Table.toList_insert_of_none (site.model (resolved.map Prod.fst))
      (Table.get?_eq_none_of_not_mem absentHalf)
    have keysHere : (half.insert site.name (site.model (resolved.map Prod.fst))).keys =
        half.keys ++ [site.name] := by
      rw [Table.keys_insert, if_neg absentHalf]
    obtain ⟨depthLater, after, addedLater, grownLater⟩ := ihLater
      (half.insert site.name (site.model (resolved.map Prod.fst)))
      (by rw [keysHere, List.append_assoc]; exact fresh)
    -- What ends at one depth ends alike at every greater one, so the deeper of the two serves both.
    refine ⟨max (depth + 1) depthLater, after, ?_, ?_⟩
    · rw [addAll_cons, addSite_mono (Nat.le_max_left _ _) (by simp [added]), added]
      show context.addAll _ rest _ = _
      rw [addAll_mono (Nat.le_max_right _ _) (by simp [addedLater]), addedLater]
    · rw [grownLater, grownHere, grownInside]
      simp [ModelSite.model]

/-- The bound on the depth is enough if any depth is: what is endless at the bound is endless at
every depth. -/
theorem addAll_depthBound {documents : List DocumentFile}
    (found : List.Forall₂ (fun definition site => context.siteOf definition = .ok (some site))
      ((definitionsOf documents).filter (·.selects)) sites)
    (ends : context.addAll depth sites ∅ ≠ .error .endlessSelection) :
    context.addAll (context.depthBound documents) sites ∅ = context.addAll depth sites ∅ := by
  have atBound : context.addAll (context.depthBound documents) sites ∅ ≠
      .error .endlessSelection := by
    intro endless
    rw [← addSites_eq_addAll found] at endless
    have entangled := entangled_of_addSites (List.Subset.refl _) rooted_empty endless
    rw [← addSites_eq_addAll found, addSites_of_entangled entangled] at ends
    exact ends rfl
  rw [← addAll_mono (Nat.le_max_left _ depth) atBound, addAll_mono (Nat.le_max_right _ depth) ends]

/-- The models of some documents are those that the sites of their definitions list under distinct
names. -/
theorem models_eq_ok_iff {documents : List DocumentFile} :
    context.models documents = .ok models ↔ ∃ sites,
      List.Forall₂ (fun definition site => context.siteOf definition = .ok (some site))
        ((definitionsOf documents).filter (·.selects)) sites ∧
      context.Lists sites models ∧ (models.map (·.name)).Nodup := by
  constructor
  · intro extracted
    obtain ⟨sites, found, _, lists, distinct⟩ := lists_of_models extracted
    exact ⟨sites, found, lists, distinct⟩
  · rintro ⟨sites, found, lists, distinct⟩
    obtain ⟨depth, after, added, grown⟩ := lists.exists_addAll ∅ distinct
    have values : after.values = models := by
      rw [Table.values, grown, List.map_append, List.map_map]
      exact List.map_id models
    have ends : context.addAll depth sites ∅ ≠ .error .endlessSelection := by simp [added]
    rw [models_eq, addSites_eq_addAll found, addAll_depthBound found ends, added, ← values]
    rfl

/-! ## Other sites -/

theorem Lists.of_perm (lists : context.Lists sites models) (same : sites.Perm others) :
    ∃ moved, context.Lists others moved ∧ models.Perm moved := by
  induction same generalizing models with
  | nil => exact ⟨models, lists, .refl _⟩
  | cons site _ ih =>
    cases lists with
    | @site _ model nested _ inside later shows_ before after =>
      obtain ⟨moved, further, same⟩ := ih after
      exact ⟨inside ++ model :: moved, .site shows_ before further,
        (same.cons model).append_left inside⟩
  | swap first second rest =>
    cases lists with
    | @site _ secondModel _ _ secondInside _ showsSecond beforeSecond after =>
      cases after with
      | @site _ firstModel _ _ firstInside later showsFirst beforeFirst after =>
        refine ⟨firstInside ++ firstModel :: (secondInside ++ secondModel :: later),
          .site showsFirst beforeFirst (.site showsSecond beforeSecond after), ?_⟩
        have exchange := List.perm_append_comm_assoc (secondInside ++ [secondModel])
          (firstInside ++ [firstModel]) later
        simpa using exchange
  | trans _ _ ihFirst ihSecond =>
    obtain ⟨between, listsBetween, first⟩ := ihFirst lists
    obtain ⟨moved, listsMoved, second⟩ := ihSecond listsBetween
    exact ⟨moved, listsMoved, first.trans second⟩

theorem Lists.of_sublist (lists : context.Lists sites models) (fewer : others.Sublist sites) :
    ∃ kept, context.Lists others kept ∧ kept.Sublist models := by
  induction fewer generalizing models with
  | slnil => exact ⟨models, lists, .refl _⟩
  | cons site _ ih =>
    cases lists with
    | @site _ model nested _ inside later shows_ before after =>
      obtain ⟨kept, further, within⟩ := ih after
      exact ⟨kept, further, within.trans
        ((List.sublist_cons_self model later).trans (List.sublist_append_right inside _))⟩
  | cons_cons site _ ih =>
    cases lists with
    | @site _ model nested _ inside later shows_ before after =>
      obtain ⟨kept, further, within⟩ := ih after
      exact ⟨inside ++ model :: kept, .site shows_ before further,
        (within.cons_cons model).append_left inside⟩

/-! ## Other tables of fragments -/

def withFragments (context : Context) (fragments : Table FragmentDefinition) : Context :=
  { context with fragments }

variable {fragments : Table FragmentDefinition}

theorem Inlines.withFragments
    (same : ∀ name, fragments.get? name = context.fragments.get? name) {owner : TypeDescriptor}
    {selections : List Selection} {entries : List (String × Pick)}
    (inlines : context.Inlines owner selections entries) :
    (context.withFragments fragments).Inlines owner selections entries := by
  induction inlines with
  | nil => exact .nil
  | field _ ih => exact .field ih
  | inlineFragment known _ _ ihInside ihLater => exact .inlineFragment known ihInside ihLater
  | spread found known _ _ ihInside ihLater =>
    exact .spread ((same _).trans found) known ihInside ihLater

theorem Lists.withFragments
    (same : ∀ name, fragments.get? name = context.fragments.get? name)
    (lists : context.Lists sites models) :
    (context.withFragments fragments).Lists sites models := by
  induction lists with
  | nil => exact .nil
  | @site site model nested _ _ _ shows_ _ _ ihInside ihLater =>
    obtain ⟨entries, resolved, inlines, each, rfl, rfl⟩ := shows_.inlines
    have collected := (inlines.withFragments same).gives_collect site.source
    exact .site (.fields collected each) ihInside ihLater

end ChainedSdk.Context
