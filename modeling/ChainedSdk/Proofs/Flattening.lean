import ChainedSdk.Proofs.Spreads
import ChainedSdk.Proofs.Tables
/-!
# Collected fields

The fields of a selection set are collected with a memory of fragments. The memory never shows: what
is collected are the fields of the selection set with all fragments in place, the last of each key
at the place of the first, and a cycle of fragments is found whether or not some of them are
remembered.
-/

namespace ChainedSdk

variable {α β : Type}

/-- Everything that is remembered is the whole of a fragment. -/
def FragmentCache.Complete (context : Context) (cache : FragmentCache) : Prop :=
  ∀ name picks, cache.get? name = some picks → ∃ fragment owner entries,
    context.fragments.get? name = some fragment ∧
    context.type? fragment.typeCondition = some owner ∧
    context.Inlines owner fragment.selections entries ∧ picks = Table.ofList entries

/-- A computation has one outcome whatever is remembered, and keeps the memory complete. -/
def Collecting.Gives (context : Context) (computation : Collecting α)
    (outcome : Except Error α) : Prop :=
  ∀ cache : FragmentCache, cache.Complete context → ∃ filled : FragmentCache,
    filled.Complete context ∧ computation.run.run cache = (outcome, filled)

namespace FragmentCache

variable {context : Context} {cache : FragmentCache}

theorem complete_empty (context : Context) : Complete context ∅ := by
  intro name picks found
  cases found

theorem Complete.insert (complete : Complete context cache) {name : String}
    {fragment : FragmentDefinition} {owner : TypeDescriptor} {entries : List (String × Pick)}
    (found : context.fragments.get? name = some fragment)
    (known : context.type? fragment.typeCondition = some owner)
    (inlines : context.Inlines owner fragment.selections entries) :
    Complete context (Table.insert cache name (Table.ofList entries)) := by
  intro other picks present
  rw [Table.get?_insert] at present
  split at present
  · next same =>
    cases present
    rw [same]
    exact ⟨fragment, owner, entries, found, known, inlines, rfl⟩
  · exact complete other picks present

end FragmentCache

namespace Collecting

variable {context : Context}

theorem run_bind (first : Collecting α) (next : α → Collecting β) (cache : FragmentCache) :
    (first >>= next).run.run cache =
      match first.run.run cache with
      | (.ok value, filled) => (next value).run.run filled
      | (.error error, filled) => (.error error, filled) := by
  have unfolded : (first >>= next).run.run cache =
      (ExceptT.bindCont next (first.run.run cache).1).run (first.run.run cache).2 := rfl
  rw [unfolded]
  rcases first.run.run cache with ⟨outcome, filled⟩
  cases outcome with
  | ok value => rfl
  | error error => rfl

theorem gives_pure (context : Context) (value : α) :
    Gives context (pure value) (.ok value) :=
  fun cache complete => ⟨cache, complete, rfl⟩

theorem gives_throw (context : Context) (error : Error) :
    Gives context (throw error : Collecting α) (.error error) :=
  fun cache complete => ⟨cache, complete, rfl⟩

theorem gives_liftExcept (context : Context) (outcome : Except Error α) :
    Gives context (liftExcept outcome) outcome := by
  cases outcome with
  | ok value => exact gives_pure context value
  | error error => exact gives_throw context error

theorem Gives.bind {first : Collecting α} {outcome : Except Error α}
    {next : α → Collecting β} {after : α → Except Error β} (gives : Gives context first outcome)
    (further : ∀ value, outcome = .ok value → Gives context (next value) (after value)) :
    Gives context (first >>= next) (outcome >>= after) := by
  intro cache complete
  obtain ⟨filled, stays, ran⟩ := gives cache complete
  rw [run_bind, ran]
  cases outcome with
  | ok value => exact further value rfl filled stays
  | error error => exact ⟨filled, stays, rfl⟩

theorem Gives.congr {computation : Collecting α} {outcome other : Except Error α}
    (gives : Gives context computation outcome) (same : outcome = other) :
    Gives context computation other := same ▸ gives

end Collecting

namespace Context

open Collecting

variable {context : Context} {source : String} {trail : List String} {owner : TypeDescriptor}
  {selections : List Selection}

/-- Putting the fields of a part beside those selected already, and then the fields after it, is
putting all of them there in order. -/
private theorem merge_parts (selected : Picks) (inside further : Except Error
    (List (String × Pick))) :
    ((inside.map Table.ofList) >>= fun picks => further.map (selected.merge picks).insertAll) =
      (inside >>= fun inner => further >>= fun later => pure (inner ++ later)).map
        selected.insertAll := by
  cases inside with
  | error error => rfl
  | ok inner =>
    cases further with
    | error error => rfl
    | ok later =>
      refine congrArg Except.ok ?_
      rw [Table.merge_ofList, Table.insertAll_append]

/-- A remembered fragment is put in place as if it were expanded once more: nothing on a trail that
leads to it is needed for it. -/
private theorem inlinedFragment_of_inlines {name : String} {fragment : FragmentDefinition}
    {entries : List (String × Pick)} (found : context.fragments.get? name = some fragment)
    (known : context.type? fragment.typeCondition = some owner)
    (inlines : context.Inlines owner fragment.selections entries)
    (leads : context.Leads trail [name]) :
    context.inlinedFragment source trail name = .ok entries := by
  have alone : context.Inlines owner [.spread name []] (entries ++ []) :=
    .spread found known inlines .nil
  have expanded : context.inlined source trail owner [.spread name []] = .ok (entries ++ []) :=
    alone.inlined_eq (by
      intro needed member other reached onTrail
      cases List.mem_singleton.mp member
      exact alone.not_selfReaching (List.mem_singleton_self name) reached
        ((leads other onTrail name (List.mem_singleton_self name)).trans_left reached))
  rw [inlined] at expanded
  obtain ⟨inner, inside, onward⟩ := Outcome.bind_eq_ok_iff.mp expanded
  obtain ⟨later, further, same⟩ := Outcome.bind_eq_ok_iff.mp onward
  rw [inlined] at further
  cases further
  rw [inside, List.append_cancel_right (Except.ok.inj same)]

private theorem gives_expansion {name : String} {fragment : FragmentDefinition}
    (found : context.fragments.get? name = some fragment)
    (ih : ∀ owner, Gives context
      (context.collectInto source (trail ++ [name]) owner ∅ fragment.selections)
      ((context.inlined source (trail ++ [name]) owner fragment.selections).map Table.ofList)) :
    Gives context
      (do
        let owner ← liftExcept (context.requireType fragment.typeCondition source)
        let picks ← context.collectInto source (trail ++ [name]) owner ∅ fragment.selections
        modify fun cache => Table.insert cache name picks
        return picks)
      (do
        let owner ← context.requireType fragment.typeCondition source
        (context.inlined source (trail ++ [name]) owner fragment.selections).map Table.ofList) := by
  refine (gives_liftExcept context _).bind fun owner known => ?_
  intro cache complete
  obtain ⟨filled, stays, ran⟩ := ih owner cache complete
  rw [run_bind, ran]
  cases expanded : context.inlined source (trail ++ [name]) owner fragment.selections with
  | error error => exact ⟨filled, stays, rfl⟩
  | ok entries =>
    exact ⟨_, stays.insert found (requireType_eq_ok_iff.mp known) (inlines_of_inlined expanded),
      rfl⟩

/-- Collecting beside fields that are selected already gives them and the fields in place. -/
theorem gives_collectInto (context : Context) (source : String) (trail : List String)
    (owner : TypeDescriptor) (selected : Picks) (selections : List Selection)
    (leads : context.Leads trail (Selection.spreadsOf selections)) :
    Gives context (context.collectInto source trail owner selected selections)
      ((context.inlined source trail owner selections).map selected.insertAll) := by
  revert leads
  refine collectInto.induct context source
    (fun trail owner selected selections =>
      context.Leads trail (Selection.spreadsOf selections) →
        Gives context (context.collectInto source trail owner selected selections)
          ((context.inlined source trail owner selections).map selected.insertAll))
    (fun trail name => context.Leads trail [name] →
      Gives context (context.collectFragment source trail name)
        ((context.inlinedFragment source trail name).map Table.ofList))
    ?nil ?field ?bare ?conditional ?spread ?fragment trail owner selected selections
  case nil =>
    intro trail owner selected _
    rw [collectInto, inlined]
    exact gives_pure context selected
  case field =>
    intro trail owner selected head selections? rest ih leads
    have further := ih leads
    rw [collectInto, inlined]
    cases later : context.inlined source trail owner rest with
    | error error => rwa [later] at further
    | ok entries => rwa [later] at further
  case bare =>
    intro trail owner selected directives selections rest ihInside ihLater leads
    have inside := ihInside owner leads.left
    rw [collectInto, inlined, pure_bind, pure_bind]
    have both := inside.bind fun picks _ => ihLater picks leads.right
    exact merge_parts selected _ _ ▸ both
  case conditional =>
    intro trail owner selected directives selections rest condition ihInside ihLater leads
    have both (innerOwner : TypeDescriptor) :=
      (ihInside innerOwner leads.left).bind fun picks _ => ihLater picks leads.right
    rw [collectInto, inlined]
    cases known : context.requireType condition source with
    | error error => exact gives_throw context error
    | ok innerOwner => exact merge_parts selected _ _ ▸ both innerOwner
  case spread =>
    intro trail owner selected name directives rest ihFragment ihLater leads
    have inside := ihFragment leads.left
    rw [collectInto, inlined]
    have both := inside.bind fun picks _ => ihLater picks leads.right
    exact merge_parts selected _ _ ▸ both
  case fragment =>
    intro trail name ih leads cache complete
    rw [collectFragment]
    have unfolded (next : FragmentCache → Collecting Picks) :
        (get >>= next).run.run cache = (next cache).run.run cache := rfl
    rw [unfolded]
    cases remembered : cache.get? name with
    | some picks =>
      obtain ⟨fragment, owner, entries, found, known, inlines, rfl⟩ :=
        complete name picks remembered
      rw [inlinedFragment_of_inlines found known inlines leads]
      exact gives_pure context _ cache complete
    | none =>
      by_cases onTrail : name ∈ trail
      · simp only [dif_pos onTrail]
        rw [inlinedFragment_of_mem onTrail]
        exact gives_throw context _ cache complete
      · simp only [dif_neg onTrail]
        split
        · next missing =>
          rw [inlinedFragment_of_none onTrail missing]
          exact gives_throw context _ cache complete
        · next fragment found =>
          have expansion := gives_expansion found fun owner =>
            ih onTrail fragment found owner (leads.into (List.mem_singleton_self name) found)
          rw [inlinedFragment_of_some onTrail found]
          cases known : context.requireType fragment.typeCondition source with
          | error error =>
            rw [known] at expansion
            exact expansion cache complete
          | ok owner =>
            rw [known] at expansion
            exact expansion cache complete

theorem gives_collect (context : Context) (source : String) (owner : TypeDescriptor)
    (selections : List Selection) :
    Gives context (context.collect source owner selections)
      ((context.inlined source [] owner selections).map Table.ofList) :=
  context.gives_collectInto source [] owner ∅ selections (context.leads_nil _)

theorem Inlines.gives_collect {entries : List (String × Pick)}
    (inlines : context.Inlines owner selections entries) (source : String) :
    Gives context (context.collect source owner selections) (.ok (Table.ofList entries)) := by
  have gives := context.gives_collect source owner selections
  rw [inlines.inlined_eq fun _ _ _ _ => List.not_mem_nil] at gives
  exact gives

end Context

end ChainedSdk
