import ChainedSdk.Proofs.ModelNames
/-!
# Endless descent

Extraction passes every depth exactly where the selections lead from one nested site into the next
without end. A depth that suffices once suffices with the same outcome from then on.
-/

namespace ChainedSdk.Context

variable {context : Context} {site inner : ModelSite} {made half after : Table Model}
  {picks : List (String × Pick)} {fields : List ModelField} {depth : Nat}

/-! ## Single steps -/

theorem addFields_unresolved
    {add : ModelSite → Table Model → Except Error (Table Model)} {key : String} {pick : Pick}
    {rest : List (String × Pick)} {error : Error}
    (failed : context.resolve site key pick = .error error) :
    context.addFields add site ((key, pick) :: rest) made = .error error := by
  rw [addFields, failed]
  rfl

theorem addFields_leaf
    {add : ModelSite → Table Model → Except Error (Table Model)} {key : String} {pick : Pick}
    {rest : List (String × Pick)} {field : ModelField}
    (resolved : context.resolve site key pick = .ok (field, none)) :
    context.addFields add site ((key, pick) :: rest) made =
      (context.addFields add site rest made).map fun filled => (field :: filled.1, filled.2) := by
  rw [addFields, resolved]
  dsimp only [bind, Except.bind, pure, Except.pure]
  cases context.addFields add site rest made with
  | error error => rfl
  | ok filled => rfl

theorem addFields_nested
    {add : ModelSite → Table Model → Except Error (Table Model)} {key : String} {pick : Pick}
    {rest : List (String × Pick)} {field : ModelField}
    (resolved : context.resolve site key pick = .ok (field, some inner)) :
    context.addFields add site ((key, pick) :: rest) made =
      (add inner made >>= fun next =>
        (context.addFields add site rest next).map fun filled =>
          (field :: filled.1, filled.2)) := by
  rw [addFields, resolved]
  dsimp only [bind, Except.bind]
  cases add inner made with
  | error error => rfl
  | ok next =>
    dsimp only
    cases context.addFields add site rest next with
    | error error => rfl
    | ok filled => rfl

private theorem map_bind_map {α β γ : Type} (outcome : Except Error α) (change : α → β)
    (next : β → Except Error γ) :
    (outcome.map change >>= next) = outcome >>= fun value => next (change value) := by
  cases outcome with
  | error error => rfl
  | ok value => rfl

private theorem map_map {α β γ : Type} (outcome : Except Error α) (change : α → β)
    (again : β → γ) : (outcome.map change).map again = outcome.map fun value =>
      again (change value) := by
  cases outcome with
  | error error => rfl
  | ok value => rfl

private theorem bind_map {α β γ : Type} (outcome : Except Error α)
    (next : α → Except Error β) (change : β → γ) :
    (outcome >>= next).map change = outcome >>= fun value => (next value).map change := by
  cases outcome with
  | error error => rfl
  | ok value => rfl

theorem addFields_append {add : ModelSite → Table Model → Except Error (Table Model)}
    {rest : List (String × Pick)} :
    context.addFields add site (picks ++ rest) made =
      (context.addFields add site picks made >>= fun first =>
        (context.addFields add site rest first.2).map fun second =>
          (first.1 ++ second.1, second.2)) := by
  induction picks generalizing made with
  | nil =>
    show context.addFields add site rest made = (context.addFields add site rest made).map id
    cases context.addFields add site rest made with
    | error error => rfl
    | ok filled => rfl
  | cons entry others ih =>
    obtain ⟨key, pick⟩ := entry
    rw [List.cons_append]
    cases resolved : context.resolve site key pick with
    | error error =>
      rw [addFields_unresolved resolved, addFields_unresolved resolved]
      rfl
    | ok result =>
      obtain ⟨field, nested?⟩ := result
      cases nested? with
      | none =>
        rw [addFields_leaf resolved, addFields_leaf resolved, ih, bind_map, map_bind_map]
        exact congrArg (context.addFields add site others made >>= ·) (funext fun _ => map_map _ _ _)
      | some nested =>
        rw [addFields_nested resolved, addFields_nested resolved, bind_assoc]
        refine congrArg (add nested made >>= ·) (funext fun next => ?_)
        rw [ih, bind_map, map_bind_map]
        exact congrArg (context.addFields add site others next >>= ·) (funext fun _ => map_map _ _ _)

/-- Where fields cannot be filled, those before some field are, and this one is not resolved or its
model is not added. -/
theorem exists_of_addFields_eq_error
    {add : ModelSite → Table Model → Except Error (Table Model)} {error : Error}
    (failed : context.addFields add site picks made = .error error) :
    ∃ before key pick later fields half, picks = before ++ (key, pick) :: later ∧
      context.addFields add site before made = .ok (fields, half) ∧
      (context.resolve site key pick = .error error ∨
        ∃ field inner, context.resolve site key pick = .ok (field, some inner) ∧
          add inner half = .error error) := by
  induction picks generalizing made with
  | nil => cases failed
  | cons entry rest ih =>
    obtain ⟨key, pick⟩ := entry
    cases resolved : context.resolve site key pick with
    | error unknown =>
      rw [addFields_unresolved resolved] at failed
      cases failed
      exact ⟨[], key, pick, rest, [], made, rfl, rfl, Or.inl resolved⟩
    | ok result =>
      obtain ⟨field, nested?⟩ := result
      cases nested? with
      | none =>
        rw [addFields_leaf resolved] at failed
        obtain ⟨before, laterKey, laterPick, later, fields, half, rfl, filled, cause⟩ :=
          ih (Outcome.map_eq_error_iff.mp failed)
        refine ⟨(key, pick) :: before, laterKey, laterPick, later, field :: fields, half, rfl, ?_,
          cause⟩
        rw [addFields_leaf resolved, filled]
        rfl
      | some nested =>
        rw [addFields_nested resolved] at failed
        rcases Outcome.bind_eq_error_iff.mp failed with atNested | ⟨next, added, onward⟩
        · exact ⟨[], key, pick, rest, [], made, rfl, rfl, Or.inr ⟨field, nested, resolved, atNested⟩⟩
        · obtain ⟨before, laterKey, laterPick, later, fields, half, rfl, filled, cause⟩ :=
            ih (Outcome.map_eq_error_iff.mp onward)
          refine ⟨(key, pick) :: before, laterKey, laterPick, later, field :: fields, half, rfl, ?_,
            cause⟩
          rw [addFields_nested resolved, added]
          dsimp only [bind, Except.bind]
          rw [filled]
          rfl

theorem addSite_taken {existing : Model} (taken : made.get? site.name = some existing) :
    context.addSite (depth + 1) site made =
      .error (.duplicateModel site.name existing.sourceKind existing.source
        site.sourceKind site.source) := by
  rw [addSite, taken]

theorem addSite_fresh (fresh : made.get? site.name = none) :
    context.addSite (depth + 1) site made =
      (context.inlined site.source [] site.owner site.selections >>= fun entries =>
        (context.addFields (context.addSite depth) site (Table.ofList entries).toList made).map
          fun filled => filled.2.insert site.name (site.model filled.1)) := by
  rw [addSite, fresh]
  cases context.inlined site.source [] site.owner site.selections with
  | error error => rfl
  | ok entries =>
    dsimp only [bind, Except.bind]
    cases context.addFields (context.addSite depth) site (Table.ofList entries).toList made with
    | error error => rfl
    | ok filled => rfl

theorem addSite_of_inlines {entries : List (String × Pick)}
    (fresh : made.get? site.name = none)
    (inlines : context.Inlines site.owner site.selections entries) :
    context.addSite (depth + 1) site made =
      (context.addFields (context.addSite depth) site (Table.ofList entries).toList made).map
        fun filled => filled.2.insert site.name (site.model filled.1) := by
  rw [addSite_fresh fresh, inlines.inlined_eq fun _ _ _ _ => List.not_mem_nil]
  rfl

/-! ## More depth -/

private theorem map_ne_endless {α β : Type} {outcome : Except Error α} {change : α → β}
    (ends : outcome.map change ≠ .error .endlessSelection) : outcome ≠ .error .endlessSelection :=
  fun endless => ends (Outcome.map_eq_error_iff.mpr endless)

private theorem addFields_more
    {add more : ModelSite → Table Model → Except Error (Table Model)}
    (agrees : ∀ nested before, add nested before ≠ .error .endlessSelection →
      more nested before = add nested before)
    (ends : context.addFields add site picks made ≠ .error .endlessSelection) :
    context.addFields more site picks made = context.addFields add site picks made := by
  induction picks generalizing made with
  | nil => rfl
  | cons entry rest ih =>
    obtain ⟨key, pick⟩ := entry
    cases resolved : context.resolve site key pick with
    | error error => rw [addFields_unresolved resolved, addFields_unresolved resolved]
    | ok result =>
      obtain ⟨field, nested?⟩ := result
      cases nested? with
      | none =>
        rw [addFields_leaf resolved] at ends
        rw [addFields_leaf resolved, addFields_leaf resolved, ih (map_ne_endless ends)]
      | some nested =>
        rw [addFields_nested resolved] at ends
        rw [addFields_nested resolved, addFields_nested resolved]
        have nestedEnds : add nested made ≠ .error .endlessSelection :=
          fun endless => ends (Outcome.bind_eq_error_iff.mpr (Or.inl endless))
        rw [agrees nested made nestedEnds]
        cases added : add nested made with
        | error error => rfl
        | ok next =>
          rw [added] at ends
          exact congrArg (Except.map _) (ih (map_ne_endless ends))

theorem addSite_succ (ends : context.addSite depth site made ≠ .error .endlessSelection) :
    context.addSite (depth + 1) site made = context.addSite depth site made := by
  induction depth generalizing site made with
  | zero => exact absurd rfl ends
  | succ depth ih =>
    cases fresh : made.get? site.name with
    | some existing => rw [addSite_taken fresh, addSite_taken fresh]
    | none =>
      rw [addSite_fresh fresh] at ends
      rw [addSite_fresh fresh, addSite_fresh fresh]
      cases expanded : context.inlined site.source [] site.owner site.selections with
      | error error => rfl
      | ok entries =>
        rw [expanded] at ends
        exact congrArg (Except.map _) (addFields_more (fun _ _ => ih) (map_ne_endless ends))

theorem addSite_mono {more : Nat} (deeper : depth ≤ more)
    (ends : context.addSite depth site made ≠ .error .endlessSelection) :
    context.addSite more site made = context.addSite depth site made := by
  induction deeper with
  | refl => rfl
  | step _ ih =>
    rw [← ih]
    exact addSite_succ (by rw [ih]; exact ends)

theorem addFields_mono {more : Nat} (deeper : depth ≤ more)
    (ends : context.addFields (context.addSite depth) site picks made ≠ .error .endlessSelection) :
    context.addFields (context.addSite more) site picks made =
      context.addFields (context.addSite depth) site picks made :=
  addFields_more (fun _ _ => addSite_mono deeper) ends

/-! ## Descending -/

/-- The site inside a field, with the models that are made when it is reached: those before and
those of the fields that come first. -/
inductive Descends (context : Context) : ModelSite → Table Model → ModelSite → Table Model → Prop
  | into {site inner : ModelSite} {made half : Table Model} {entries : List (String × Pick)}
      {before later : List (String × Pick)} {key : String} {pick : Pick}
      {fields : List ModelField} {field : ModelField}
      (fresh : made.get? site.name = none)
      (inlines : context.Inlines site.owner site.selections entries)
      (parts : (Table.ofList entries).toList = before ++ (key, pick) :: later)
      (fills : context.Fills site before made fields half)
      (resolved : context.resolve site key pick = .ok (field, some inner)) :
      Descends context site made inner half

/-- The selections of a site lead from one nested site into the next without end. -/
def Unending (context : Context) (site : ModelSite) (made : Table Model) : Prop :=
  ∃ chain : Nat → ModelSite × Table Model, chain 0 = (site, made) ∧
    ∀ step, context.Descends (chain step).1 (chain step).2 (chain (step + 1)).1 (chain (step + 1)).2

/-- Fields that can be filled are filled, unless the depth is passed. -/
theorem Fills.addFields_eq (fills : context.Fills site picks made fields after) (depth : Nat) :
    context.addFields (context.addSite depth) site picks made = .ok (fields, after) ∨
      context.addFields (context.addSite depth) site picks made = .error .endlessSelection := by
  induction fills generalizing depth with
  | nil => exact Or.inl rfl
  | leaf resolved _ ih =>
    rw [addFields_leaf resolved]
    rcases ih depth with filled | endless
    · rw [filled]
      exact Or.inl rfl
    · rw [endless]
      exact Or.inr rfl
  | nested resolved fresh inlines _ _ ihInside ihFurther =>
    rw [addFields_nested resolved]
    cases depth with
    | zero => exact Or.inr rfl
    | succ depth =>
      rw [addSite_of_inlines fresh inlines]
      rcases ihInside depth with inside | endless
      · rw [inside]
        rcases ihFurther (depth + 1) with filled | endless
        · dsimp only [Except.map, bind, Except.bind]
          rw [filled]
          exact Or.inl rfl
        · dsimp only [Except.map, bind, Except.bind]
          rw [endless]
          exact Or.inr rfl
      · rw [endless]
        exact Or.inr rfl

theorem Descends.addSite_eq (descends : context.Descends site made inner half)
    (endless : context.addSite depth inner half = .error .endlessSelection) :
    context.addSite (depth + 1) site made = .error .endlessSelection := by
  cases descends with
  | into fresh inlines parts fills resolved =>
    rw [addSite_of_inlines fresh inlines, parts]
    refine Outcome.map_eq_error_iff.mpr ?_
    rw [addFields_append]
    rcases fills.addFields_eq depth with filled | passed
    · rw [filled]
      refine Outcome.map_eq_error_iff.mpr ?_
      rw [addFields_nested resolved, endless]
      rfl
    · rw [passed]
      rfl

theorem resolve_ne_endless {key : String} {pick : Pick} :
    context.resolve site key pick ≠ .error .endlessSelection := by
  intro failed
  obtain ⟨reference, impossible⟩ := resolve_eq_error failed
  cases impossible

theorem inlined_ne_endless {source : String} {owner : TypeDescriptor}
    {selections : List Selection} :
    context.inlined source [] owner selections ≠ .error .endlessSelection := by
  intro failed
  rcases inlined_eq_error (context.leads_nil _) failed with ⟨_, impossible⟩ | ⟨_, _, impossible, _⟩
  · cases impossible
  · cases impossible

/-- A depth that is passed is passed on the way into a nested site. -/
theorem descends_of_endless
    (endless : context.addSite (depth + 1) site made = .error .endlessSelection) :
    ∃ inner half, context.Descends site made inner half ∧
      context.addSite depth inner half = .error .endlessSelection := by
  cases fresh : made.get? site.name with
  | some existing =>
    rw [addSite_taken fresh] at endless
    cases endless
  | none =>
    rw [addSite_fresh fresh] at endless
    rcases Outcome.bind_eq_error_iff.mp endless with unknown | ⟨entries, expanded, onward⟩
    · exact absurd unknown inlined_ne_endless
    · obtain ⟨before, key, pick, later, fields, half, parts, filled, cause⟩ :=
        exists_of_addFields_eq_error (Outcome.map_eq_error_iff.mp onward)
      rcases cause with unresolved | ⟨field, inner, resolved, passed⟩
      · exact absurd unresolved resolve_ne_endless
      · exact ⟨inner, half, .into fresh (inlines_of_inlined expanded) parts
          (fills_of_addFields_addSite filled) resolved, passed⟩

private theorem exists_always
    (endless : ∀ depth, context.addFields (context.addSite depth) site picks made =
      .error .endlessSelection) :
    ∃ before key pick later fields half field inner, picks = before ++ (key, pick) :: later ∧
      context.Fills site before made fields half ∧
      context.resolve site key pick = .ok (field, some inner) ∧
      ∀ depth, context.addSite depth inner half = .error .endlessSelection := by
  induction picks generalizing made with
  | nil => cases endless 0
  | cons entry rest ih =>
    obtain ⟨key, pick⟩ := entry
    cases resolved : context.resolve site key pick with
    | error error =>
      have failed := endless 0
      rw [addFields_unresolved resolved] at failed
      cases failed
      exact absurd resolved resolve_ne_endless
    | ok result =>
      obtain ⟨field, nested?⟩ := result
      cases nested? with
      | none =>
        have restEndless (depth : Nat) : context.addFields (context.addSite depth) site rest made =
            .error .endlessSelection := by
          have whole := endless depth
          rw [addFields_leaf resolved] at whole
          exact Outcome.map_eq_error_iff.mp whole
        obtain ⟨before, laterKey, laterPick, later, fields, half, laterField, inner, rfl, fills,
          isInner, always⟩ := ih restEndless
        exact ⟨(key, pick) :: before, laterKey, laterPick, later, field :: fields, half, laterField,
          inner, rfl, .leaf resolved fills, isInner, always⟩
      | some nested =>
        by_cases always : ∀ depth, context.addSite depth nested made = .error .endlessSelection
        · exact ⟨[], key, pick, rest, [], made, field, nested, rfl, .nil, resolved, always⟩
        · obtain ⟨enough, ends⟩ := not_forall.mp always
          have whole (depth : Nat) (deeper : enough ≤ depth) :
              (context.addSite enough nested made >>= fun next =>
                (context.addFields (context.addSite depth) site rest next).map fun filled =>
                  (field :: filled.1, filled.2)) = .error .endlessSelection := by
            rw [← addSite_mono deeper ends, ← addFields_nested resolved]
            exact endless depth
          cases added : context.addSite enough nested made with
          | error error =>
            have failed := whole enough (Nat.le_refl _)
            rw [added] at failed ends
            cases failed
            exact absurd rfl ends
          | ok next =>
            -- The rest is endless at every depth, because a depth at which it ends would end all.
            have restEndless (depth : Nat) : context.addFields (context.addSite depth) site rest
                next = .error .endlessSelection := by
              by_contra restEnds
              have failed := whole (max depth enough) (Nat.le_max_right _ _)
              rw [added] at failed
              have passed := Outcome.map_eq_error_iff.mp failed
              rw [addFields_mono (Nat.le_max_left _ _) restEnds] at passed
              exact restEnds passed
            obtain ⟨before, laterKey, laterPick, later, fields, half, laterField, inner, rfl, fills,
              isInner, always⟩ := ih restEndless
            obtain ⟨freshName, entries, innerFields, between, inlines, inside, rfl⟩ :=
              makes_of_addSite added
            exact ⟨(key, pick) :: before, laterKey, laterPick, later, field :: fields, half,
              laterField, inner, rfl, .nested resolved freshName inlines inside fills, isInner,
              always⟩

private theorem exists_chain {α : Type} {holds : α → Prop} {related : α → α → Prop}
    (further : ∀ item, holds item → ∃ next, related item next ∧ holds next) {start : α}
    (atStart : holds start) :
    ∃ chain : Nat → α, chain 0 = start ∧ ∀ step, related (chain step) (chain (step + 1)) := by
  classical
  let next (item : { item // holds item }) : { item // holds item } :=
    ⟨(further item.1 item.2).choose, (further item.1 item.2).choose_spec.2⟩
  let chain (step : Nat) : { item // holds item } :=
    step.rec ⟨start, atStart⟩ fun _ item => next item
  exact ⟨fun step => (chain step).1, rfl, fun step =>
    (further (chain step).1 (chain step).2).choose_spec.1⟩

/-- Where every depth is passed, every depth is passed again at a nested site. -/
theorem exists_descends_always
    (endless : ∀ depth, context.addSite depth site made = .error .endlessSelection) :
    ∃ inner half, context.Descends site made inner half ∧
      ∀ depth, context.addSite depth inner half = .error .endlessSelection := by
  have first := endless 1
  cases taken : made.get? site.name with
  | some existing =>
    rw [addSite_taken taken] at first
    cases first
  | none =>
    rw [addSite_fresh taken] at first
    rcases Outcome.bind_eq_error_iff.mp first with unknown | ⟨entries, expanded, _⟩
    · exact absurd unknown inlined_ne_endless
    · have inlines := inlines_of_inlined expanded
      have within (depth : Nat) : context.addFields (context.addSite depth) site
          (Table.ofList entries).toList made = .error .endlessSelection := by
        have whole := endless (depth + 1)
        rw [addSite_of_inlines taken inlines] at whole
        exact Outcome.map_eq_error_iff.mp whole
      obtain ⟨before, key, pick, later, fields, half, field, inner, parts, fills, resolved,
        always⟩ := exists_always within
      exact ⟨inner, half, .into taken inlines parts fills resolved, always⟩

/-- A descent is without end exactly where every depth is passed. -/
theorem unending_iff : context.Unending site made ↔
    ∀ depth, context.addSite depth site made = .error .endlessSelection := by
  constructor
  · rintro ⟨chain, atStart, steps⟩ depth
    have passed (depth step : Nat) :
        context.addSite depth (chain step).1 (chain step).2 = .error .endlessSelection := by
      induction depth generalizing step with
      | zero => rfl
      | succ depth ih => exact (steps step).addSite_eq (ih (step + 1))
    have first := passed depth 0
    rwa [atStart] at first
  · intro endless
    have further (state : ModelSite × Table Model)
        (always : ∀ depth, context.addSite depth state.1 state.2 = .error .endlessSelection) :
        ∃ next : ModelSite × Table Model, context.Descends state.1 state.2 next.1 next.2 ∧
          ∀ depth, context.addSite depth next.1 next.2 = .error .endlessSelection := by
      obtain ⟨inner, half, descends, onward⟩ := exists_descends_always always
      exact ⟨(inner, half), descends, onward⟩
    exact exists_chain further endless

end ChainedSdk.Context
