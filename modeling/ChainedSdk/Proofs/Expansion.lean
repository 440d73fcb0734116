import ChainedSdk.Proofs.Flattening
/-!
# Expanding a fragment

A fragment can be expanded exactly when all fragments that it reaches beside their fields are
defined over known types and none of them reaches itself. Whether it can, and what it expands to,
does not depend on the memory.
-/

namespace ChainedSdk

mutual

/-- The conditions of the inline fragments beside the fields of a selection. -/
def Selection.conditions : Selection → List String
  | .field _ _ => []
  | .spread _ _ => []
  | .inlineFragment condition? _ selections =>
    condition?.toList ++ Selection.conditionsOf selections

def Selection.conditionsOf : List Selection → List String
  | [] => []
  | selection :: rest => selection.conditions ++ Selection.conditionsOf rest

end

def FragmentDefinition.conditions (fragment : FragmentDefinition) : List String :=
  fragment.typeCondition :: Selection.conditionsOf fragment.selections

namespace Context

open Relation Collecting

variable {context : Context} {source name : String} {trail : List String} {owner : TypeDescriptor}
  {selections : List Selection} {entries : List (String × Pick)}

def KnowsAll (context : Context) (conditions : List String) : Prop :=
  ∀ condition ∈ conditions, ∃ type, context.type? condition = some type

/-- A name is that of a fragment whose type conditions are known throughout. -/
def Defines (context : Context) (name : String) : Prop :=
  ∃ fragment, context.fragments.get? name = some fragment ∧ context.KnowsAll fragment.conditions

/-- All fragments that a fragment reaches beside the fields are defined, and none of them reaches
itself. -/
def Expandable (context : Context) (name : String) : Prop :=
  ∀ other, ReflTransGen context.Spreads name other →
    context.Defines other ∧ ¬TransGen context.Spreads other other

theorem KnowsAll.mono {conditions fewer : List String} (known : context.KnowsAll conditions)
    (subset : ∀ condition ∈ fewer, condition ∈ conditions) : context.KnowsAll fewer :=
  fun condition member => known condition (subset condition member)

theorem Expandable.onward {next : String} (expandable : context.Expandable name)
    (step : context.Spreads name next) : context.Expandable next :=
  fun other reached => expandable other (.head step reached)

theorem Inlines.known (inlines : context.Inlines owner selections entries) :
    context.KnowsAll (Selection.conditionsOf selections) ∧
      ∀ needed ∈ Selection.spreadsOf selections, ∀ other,
        ReflTransGen context.Spreads needed other → context.Defines other := by
  induction inlines with
  | nil =>
    refine ⟨?_, ?_⟩
    · intro _ impossible
      cases impossible
    · intro _ impossible
      cases impossible
  | field _ ih => exact ih
  | @inlineFragment owner innerOwner condition? directives selections rest inner later isOwner _ _
      ihInside ihLater =>
    refine ⟨?_, ?_⟩
    · intro condition member
      rcases List.mem_append.mp member with here | further
      · rcases List.mem_append.mp here with isCondition | inside
        · rw [Option.mem_toList.mp isCondition] at isOwner
          exact ⟨innerOwner, isOwner⟩
        · exact ihInside.1 condition inside
      · exact ihLater.1 condition further
    · intro needed member
      rcases List.mem_append.mp member with here | further
      · exact ihInside.2 needed here
      · exact ihLater.2 needed further
  | @spread owner fragmentOwner spreadName directives fragment rest inner later found isOwner _ _
      ihInside ihLater =>
    refine ⟨ihLater.1, ?_⟩
    intro needed member other reached
    rcases List.mem_append.mp member with here | further
    · cases List.mem_singleton.mp here
      rcases ReflTransGen.cases_head reached with rfl | ⟨next, ⟨same, isFragment, isNext⟩, onward⟩
      · refine ⟨fragment, found, ?_⟩
        intro condition isCondition
        rcases List.mem_cons.mp isCondition with rfl | inside
        · exact ⟨fragmentOwner, isOwner⟩
        · exact ihInside.1 condition inside
      · rw [found] at isFragment
        cases isFragment
        exact ihInside.2 next isNext other onward
    · exact ihLater.2 needed further other reached

/-- What needs only fragments that can be expanded can be put in place: a fragment on a trail that
leads back to it would reach itself. -/
theorem exists_inlines (context : Context) (owner : TypeDescriptor) (selections : List Selection)
    (known : context.KnowsAll (Selection.conditionsOf selections))
    (expandable : ∀ needed ∈ Selection.spreadsOf selections, context.Expandable needed) :
    ∃ entries, context.Inlines owner selections entries := by
  have leads := context.leads_nil (Selection.spreadsOf selections)
  revert leads known expandable
  refine inlined.induct context ""
    (fun trail owner selections => context.KnowsAll (Selection.conditionsOf selections) →
      (∀ needed ∈ Selection.spreadsOf selections, context.Expandable needed) →
        context.Leads trail (Selection.spreadsOf selections) →
          ∃ entries, context.Inlines owner selections entries)
    (fun trail name => context.Expandable name → context.Leads trail [name] →
      ∃ fragment owner entries, context.fragments.get? name = some fragment ∧
        context.type? fragment.typeCondition = some owner ∧
        context.Inlines owner fragment.selections entries)
    ?nil ?field ?bare ?conditional ?spread ?onTrail ?unknown ?fragment [] owner selections
  case nil =>
    intro trail owner _ _ _
    exact ⟨[], .nil⟩
  case field =>
    intro trail owner head selections? rest ih known expandable leads
    obtain ⟨later, further⟩ := ih known expandable leads
    exact ⟨_, .field further⟩
  case bare =>
    intro trail owner directives selections rest ihInside ihLater known expandable leads
    obtain ⟨inner, inside⟩ := ihInside owner
      (known.mono fun _ member => List.mem_append_left _ member)
      (fun needed member => expandable needed (List.mem_append_left _ member)) leads.left
    obtain ⟨later, further⟩ := ihLater
      (known.mono fun _ member => List.mem_append_right _ member)
      (fun needed member => expandable needed (List.mem_append_right _ member)) leads.right
    exact ⟨_, .inlineFragment rfl inside further⟩
  case conditional =>
    intro trail owner directives selections rest condition ihInside ihLater known expandable leads
    obtain ⟨innerOwner, isOwner⟩ := known condition
      (List.mem_append_left _ (List.mem_append_left _ (List.mem_singleton_self condition)))
    obtain ⟨inner, inside⟩ := ihInside innerOwner
      (known.mono fun _ member => List.mem_append_left _ (List.mem_append_right _ member))
      (fun needed member => expandable needed (List.mem_append_left _ member)) leads.left
    obtain ⟨later, further⟩ := ihLater
      (known.mono fun _ member => List.mem_append_right _ member)
      (fun needed member => expandable needed (List.mem_append_right _ member)) leads.right
    exact ⟨_, .inlineFragment isOwner inside further⟩
  case spread =>
    intro trail owner name directives rest ihFragment ihLater known expandable leads
    obtain ⟨fragment, fragmentOwner, inner, found, isOwner, inside⟩ := ihFragment
      (expandable name (List.mem_append_left _ (List.mem_singleton_self name))) leads.left
    obtain ⟨later, further⟩ := ihLater known
      (fun needed member => expandable needed (List.mem_append_right _ member)) leads.right
    exact ⟨_, .spread found isOwner inside further⟩
  case onTrail =>
    intro trail name onTrail expandable leads
    have cycle := leads name onTrail name (List.mem_singleton_self name)
    exact absurd cycle (expandable name .refl).2
  case unknown =>
    intro trail name _ missing expandable _
    obtain ⟨fragment, found, _⟩ := (expandable name .refl).1
    rw [missing] at found
    cases found
  case fragment =>
    intro trail name _ fragment found ih expandable leads
    obtain ⟨same, isFragment, known⟩ := (expandable name .refl).1
    rw [found] at isFragment
    cases isFragment
    obtain ⟨owner, isOwner⟩ := known fragment.typeCondition List.mem_cons_self
    obtain ⟨entries, inside⟩ := ih owner
      (known.mono fun _ member => List.mem_cons_of_mem _ member)
      (fun needed member => expandable.onward ⟨fragment, found, member⟩)
      (leads.into (List.mem_singleton_self name) found)
    exact ⟨fragment, owner, entries, found, isOwner, inside⟩

theorem expandable_iff : context.Expandable name ↔ ∃ fragment owner entries,
    context.fragments.get? name = some fragment ∧
      context.type? fragment.typeCondition = some owner ∧
      context.Inlines owner fragment.selections entries := by
  constructor
  · intro expandable
    obtain ⟨fragment, found, known⟩ := (expandable name .refl).1
    obtain ⟨owner, isOwner⟩ := known fragment.typeCondition List.mem_cons_self
    obtain ⟨entries, inlines⟩ := context.exists_inlines owner fragment.selections
      (known.mono fun _ member => List.mem_cons_of_mem _ member)
      fun needed member => expandable.onward ⟨fragment, found, member⟩
    exact ⟨fragment, owner, entries, found, isOwner, inlines⟩
  · rintro ⟨fragment, owner, entries, found, isOwner, inlines⟩ other reached
    have alone : context.Inlines owner [.spread name []] (entries ++ []) :=
      .spread found isOwner inlines .nil
    have needed : name ∈ Selection.spreadsOf [.spread name []] := List.mem_singleton_self name
    exact ⟨alone.known.2 name needed other reached, alone.not_selfReaching needed reached⟩

theorem inlinedFragment_eq_ok_iff :
    (∃ entries, context.inlinedFragment source [] name = .ok entries) ↔
      context.Expandable name := by
  rw [expandable_iff]
  constructor
  · rintro ⟨entries, expanded⟩
    cases found : context.fragments.get? name with
    | none =>
      rw [inlinedFragment_of_none List.not_mem_nil found] at expanded
      cases expanded
    | some fragment =>
      rw [inlinedFragment_of_some List.not_mem_nil found] at expanded
      obtain ⟨owner, isOwner, inside⟩ := Outcome.bind_eq_ok_iff.mp expanded
      exact ⟨fragment, owner, entries, rfl, requireType_eq_ok_iff.mp isOwner,
        inlines_of_inlined inside⟩
  · rintro ⟨fragment, owner, entries, found, isOwner, inlines⟩
    refine ⟨entries, ?_⟩
    rw [inlinedFragment_of_some List.not_mem_nil found]
    refine Outcome.bind_eq_ok_iff.mpr ⟨owner, requireType_eq_ok_iff.mpr isOwner, ?_⟩
    apply inlines.inlined_eq
    intro needed member other reached onTrail
    have step : context.Spreads name needed := ⟨fragment, found, member⟩
    cases List.mem_singleton.mp onTrail
    exact inlines.not_selfReaching member reached (.head' step reached)

theorem gives_collectFragment (context : Context) (source : String) (trail : List String)
    (name : String) (leads : context.Leads trail [name]) :
    Gives context (context.collectFragment source trail name)
      ((context.inlinedFragment source trail name).map Table.ofList) := by
  -- A selection set that only spreads the fragment has the same fields.
  have alone := context.gives_collectInto source trail default ∅ [.spread name []] leads
  have whole (picks : Picks) : Table.merge ∅ picks = picks := Table.ofList_toList picks
  rw [collectInto, inlined] at alone
  simp only [collectInto, whole, bind_pure] at alone
  refine alone.congr ?_
  cases context.inlinedFragment source trail name with
  | error error => rfl
  | ok inner =>
    simp only [inlined, bind, Except.bind, pure, Except.pure, Except.map, List.append_nil]
    rfl

end Context

end ChainedSdk
