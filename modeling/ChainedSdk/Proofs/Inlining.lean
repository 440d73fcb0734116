import ChainedSdk.Proofs.Listings
import ChainedSdk.Proofs.Sessions
/-!
# Fragments in place

What the fields of a selection set come to, whatever an extractor has done before: with all
fragments in place they are one sequence, of which the last field of each key is kept, at the place
of the first. To write the selections of a fragment out instead of spreading it is no difference,
neither in the selection set nor inside the fragments.
-/

namespace ChainedSdk

/-- What an extractor remembers after some work. -/
inductive FragmentCache.Reachable (context : Context) : FragmentCache → Prop
  | fresh : Reachable context ∅
  | collect {cache : FragmentCache} (reachable : Reachable context cache) (source : String)
      (owner : TypeDescriptor) (selections : List Selection) :
      Reachable context ((context.collect source owner selections).run.run cache).2
  | call {cache : FragmentCache} (reachable : Reachable context cache) (call : Call) :
      Reachable context (call.run context cache).2

theorem FragmentCache.Reachable.complete {context : Context} {cache : FragmentCache}
    (reachable : Reachable context cache) : cache.Complete context := by
  induction reachable with
  | fresh => exact complete_empty context
  | collect _ source owner selections ih =>
    obtain ⟨filled, complete, ran⟩ := context.gives_collect source owner selections _ ih
    rw [ran]
    exact complete
  | call _ call ih =>
    obtain ⟨filled, ran, complete⟩ := Context.run_eq_alone ih call
    rw [ran]
    exact complete

namespace Context

/-- The same selections, with some spreads replaced by inline fragments: such a fragment has the
type condition and the selections of the one that is spread, in which again some spreads may be
replaced. The blocks of fields are selection sets of their own and stay as they are. -/
inductive Unfolds (context : Context) : List Selection → List Selection → Prop
  | nil : Unfolds context [] []
  | field {head : FieldHead} {selections? : Option (List Selection)}
      {rest others : List Selection} (further : Unfolds context rest others) :
      Unfolds context (.field head selections? :: rest) (.field head selections? :: others)
  | inlineFragment {condition? : Option String} {directives : List Directive}
      {selections unfolded rest others : List Selection}
      (inside : Unfolds context selections unfolded) (further : Unfolds context rest others) :
      Unfolds context (.inlineFragment condition? directives selections :: rest)
        (.inlineFragment condition? directives unfolded :: others)
  | spread {name : String} {directives : List Directive} {rest others : List Selection}
      (further : Unfolds context rest others) :
      Unfolds context (.spread name directives :: rest) (.spread name directives :: others)
  | replaced {name : String} {directives otherDirectives : List Directive}
      {fragment : FragmentDefinition} {unfolded rest others : List Selection}
      (found : context.fragments.get? name = some fragment)
      (inside : Unfolds context fragment.selections unfolded)
      (further : Unfolds context rest others) :
      Unfolds context (.spread name directives :: rest)
        (.inlineFragment (some fragment.typeCondition) otherDirectives unfolded :: others)

/-- The same fragments, with some spreads in them replaced. -/
def UnfoldsAll (context : Context) (fragments : Table FragmentDefinition) : Prop :=
  ∀ name, Option.Rel (fun fragment other => other.typeCondition = fragment.typeCondition ∧
      context.Unfolds fragment.selections other.selections)
    (context.fragments.get? name) (fragments.get? name)

theorem Unfolds.refl (context : Context) :
    ∀ selections : List Selection, context.Unfolds selections selections
  | [] => .nil
  | .field _ _ :: rest => .field (refl context rest)
  | .inlineFragment _ _ selections :: rest =>
    .inlineFragment (refl context selections) (refl context rest)
  | .spread _ _ :: rest => .spread (refl context rest)

theorem unfoldsAll_self (context : Context) : context.UnfoldsAll context.fragments := by
  intro name
  cases context.fragments.get? name with
  | none => exact .none
  | some fragment => exact .some ⟨rfl, .refl context fragment.selections⟩

variable {context : Context} {source : String} {owner : TypeDescriptor}
  {selections others : List Selection} {entries : List (String × Pick)}
  {fragments : Table FragmentDefinition} {cache otherCache : FragmentCache} {picks : Picks}

theorem UnfoldsAll.exists_other (same : context.UnfoldsAll fragments) {name : String}
    {fragment : FragmentDefinition} (found : context.fragments.get? name = some fragment) :
    ∃ other, fragments.get? name = some other ∧ other.typeCondition = fragment.typeCondition ∧
      context.Unfolds fragment.selections other.selections := by
  have alike := same name
  generalize fragments.get? name = other? at alike ⊢
  rw [found] at alike
  cases alike with
  | some unfolds => exact ⟨_, rfl, unfolds⟩

theorem UnfoldsAll.exists_fragment (same : context.UnfoldsAll fragments) {name : String}
    {other : FragmentDefinition} (found : fragments.get? name = some other) :
    ∃ fragment, context.fragments.get? name = some fragment ∧
      other.typeCondition = fragment.typeCondition ∧
      context.Unfolds fragment.selections other.selections := by
  have alike := same name
  generalize context.fragments.get? name = fragment? at alike ⊢
  rw [found] at alike
  cases alike with
  | some unfolds => exact ⟨_, rfl, unfolds⟩

/-- Whatever stands in a selection set still stands there when spreads in it are replaced. -/
theorem Inlines.unfold (inlines : context.Inlines owner selections entries)
    (same : context.UnfoldsAll fragments) (unfolds : context.Unfolds selections others) :
    (context.withFragments fragments).Inlines owner others entries := by
  induction inlines generalizing others with
  | nil =>
    cases unfolds
    exact .nil
  | field _ ih =>
    cases unfolds with
    | field further => exact .field (ih further)
  | inlineFragment known _ _ ihInside ihLater =>
    cases unfolds with
    | inlineFragment inside further =>
      exact .inlineFragment known (ihInside inside) (ihLater further)
  | spread found known _ _ ihInside ihLater =>
    cases unfolds with
    | spread further =>
      obtain ⟨other, isOther, sameCondition, inside⟩ := same.exists_other found
      exact .spread isOther (sameCondition ▸ known) (ihInside inside) (ihLater further)
    | replaced isFragment inside further =>
      rw [found] at isFragment
      cases isFragment
      exact .inlineFragment known (ihInside inside) (ihLater further)

theorem Inlines.fold (inlines : (context.withFragments fragments).Inlines owner others entries)
    (same : context.UnfoldsAll fragments) (unfolds : context.Unfolds selections others) :
    context.Inlines owner selections entries := by
  induction inlines generalizing selections with
  | nil =>
    cases unfolds
    exact .nil
  | field _ ih =>
    cases unfolds with
    | field further => exact .field (ih further)
  | inlineFragment known _ _ ihInside ihLater =>
    cases unfolds with
    | inlineFragment inside further =>
      exact .inlineFragment known (ihInside inside) (ihLater further)
    | replaced found inside further =>
      exact .spread found known (ihInside inside) (ihLater further)
  | spread found known _ _ ihInside ihLater =>
    cases unfolds with
    | spread further =>
      obtain ⟨fragment, isFragment, sameCondition, inside⟩ := same.exists_fragment found
      exact .spread isFragment (sameCondition ▸ known) (ihInside inside) (ihLater further)

theorem inlined_eq_ok_iff :
    context.inlined source [] owner selections = .ok entries ↔
      context.Inlines owner selections entries :=
  ⟨inlines_of_inlined, fun inlines => inlines.inlined_eq fun _ _ _ _ => List.not_mem_nil⟩

theorem collect_eq_ok_iff (complete : cache.Complete context) :
    ((context.collect source owner selections).run.run cache).1 = .ok picks ↔
      ∃ entries, context.Inlines owner selections entries ∧ picks = Table.ofList entries := by
  obtain ⟨filled, _, ran⟩ := context.gives_collect source owner selections cache complete
  rw [ran, Outcome.map_eq_ok_iff]
  simp only [inlined_eq_ok_iff, @eq_comm _ picks]

/-- Fields are collected from a selection set exactly where it can be written with all fragments in
place: their keys are those that stand there, in the order in which each comes first, and under
each of them is the last field. The fields stay the same when fragments are written out in
place of some spreads, in the selection set and inside other fragments. -/
theorem collect_in_place (reachable : FragmentCache.Reachable context cache) (source : String)
    (owner : TypeDescriptor) (selections : List Selection) :
    (∀ picks, ((context.collect source owner selections).run.run cache).1 = .ok picks ↔
      ∃ entries, context.Inlines owner selections entries ∧
        picks.keys = (entries.map Prod.fst).eraseDups ∧
        ∀ key, picks.get? key = entries.reverse.lookup key) ∧
    ∀ fragments others otherCache, context.UnfoldsAll fragments →
      context.Unfolds selections others →
      FragmentCache.Reachable (context.withFragments fragments) otherCache →
      ∀ picks, ((context.collect source owner selections).run.run cache).1 = .ok picks ↔
        (((context.withFragments fragments).collect source owner others).run.run otherCache).1 =
          .ok picks := by
  constructor
  · intro picks
    simp only [collect_eq_ok_iff reachable.complete, Table.eq_ofList_iff]
  · intro fragments others otherCache same unfolds otherReachable picks
    rw [collect_eq_ok_iff reachable.complete, collect_eq_ok_iff otherReachable.complete]
    constructor
    · rintro ⟨entries, inlines, collected⟩
      exact ⟨entries, inlines.unfold same unfolds, collected⟩
    · rintro ⟨entries, inlines, collected⟩
      exact ⟨entries, inlines.fold same unfolds, collected⟩

private def issueType : TypeDescriptor := { name := "Issue", kind := .object }

private def issueTitle : FragmentDefinition :=
  ⟨none, "IssueTitle", "Issue", [], [.field ⟨some "title", "description", [], []⟩ none]⟩

private def issueContext : Context where
  types := Table.ofList [("Issue", issueType)]
  fragments := Table.ofList [("IssueTitle", issueTitle)]
  rootTypes := []
  config := {}

/-- A fragment that is remembered already gives a key another field, and so do its selections when
they are written out. -/
theorem collect_in_place_title :
    let id : FieldHead := ⟨none, "id", [], []⟩
    let title : FieldHead := ⟨none, "title", [], []⟩
    let picks : Picks := Table.ofList
      [("title", ⟨⟨some "title", "description", [], []⟩, none, issueType⟩),
        ("id", ⟨id, none, issueType⟩)]
    let spread : List Selection := [.field title none, .field id none, .spread "IssueTitle" []]
    let written : List Selection := [.field title none, .field id none,
      .inlineFragment (some "Issue") [] issueTitle.selections]
    let cache := ((Call.expand "IssueTitle" "IssueTitle").run issueContext ∅).2
    FragmentCache.Reachable issueContext cache ∧
      issueContext.UnfoldsAll issueContext.fragments ∧ issueContext.Unfolds spread written ∧
      ((issueContext.collect "issue" issueType spread).run.run cache).1 = .ok picks ∧
      ((issueContext.collect "issue" issueType written).run.run ∅).1 = .ok picks := by
  intro id title picks spread written cache
  have reachable : FragmentCache.Reachable issueContext cache := .call .fresh _
  have same := issueContext.unfoldsAll_self
  have found : issueContext.fragments.get? "IssueTitle" = some issueTitle := rfl
  have unfolds : issueContext.Unfolds spread written :=
    .field (.field (.replaced found (.refl issueContext issueTitle.selections) .nil))
  obtain ⟨inPlace, unfolded⟩ := collect_in_place reachable "issue" issueType spread
  have inlines : issueContext.Inlines issueType spread _ :=
    .field (.field (.spread found rfl (.field .nil) .nil))
  have collected : ((issueContext.collect "issue" issueType spread).run.run cache).1 = .ok picks :=
    (inPlace picks).mpr ⟨_, inlines, Table.eq_ofList_iff.mp rfl⟩
  exact ⟨reachable, same, unfolds, collected,
    (unfolded _ written ∅ same unfolds .fresh picks).mp collected⟩

end Context

end ChainedSdk
