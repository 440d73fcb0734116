import ChainedSdk.Proofs.Outcomes
import ChainedSdk.Selection.Inline
import Mathlib.Logic.Relation
/-!
# Fragment spreads

Which fragments a selection set needs, and when all of them can be put in place. `Inlines` is the
meaning of a selection set as a finite derivation, without a trail. It exists only where no fragment
that is needed reaches itself, and it agrees with the expansion that keeps a trail.
-/

namespace ChainedSdk

mutual

/-- The fragments that are spread beside the fields of a selection, inline fragments included. -/
def Selection.spreads : Selection → List String
  | .field _ _ => []
  | .spread name _ => [name]
  | .inlineFragment _ _ selections => Selection.spreadsOf selections

def Selection.spreadsOf : List Selection → List String
  | [] => []
  | selection :: rest => selection.spreads ++ Selection.spreadsOf rest

end

namespace Context

open Relation

variable {context : Context} {source : String} {trail : List String} {owner : TypeDescriptor}
  {selections : List Selection} {entries : List (String × Pick)}

/-- The first fragment spreads the second one beside its fields. -/
def Spreads (context : Context) (first second : String) : Prop :=
  ∃ fragment, context.fragments.get? first = some fragment ∧
    second ∈ Selection.spreadsOf fragment.selections

/-- The type that an inline fragment selects from. -/
def innerOwner? (context : Context) (condition? : Option String) (owner : TypeDescriptor) :
    Option TypeDescriptor :=
  match condition? with
  | none => some owner
  | some condition => context.type? condition

/-- The selected fields with all fragments in place, as a derivation. -/
inductive Inlines (context : Context) :
    TypeDescriptor → List Selection → List (String × Pick) → Prop
  | nil {owner : TypeDescriptor} : Inlines context owner [] []
  | field {owner : TypeDescriptor} {head : FieldHead} {selections? : Option (List Selection)}
      {rest : List Selection} {later : List (String × Pick)}
      (further : Inlines context owner rest later) :
      Inlines context owner (.field head selections? :: rest)
        ((head.key, { head, selections?, owner }) :: later)
  | inlineFragment {owner innerOwner : TypeDescriptor} {condition? : Option String}
      {directives : List Directive} {selections rest : List Selection}
      {inner later : List (String × Pick)}
      (known : context.innerOwner? condition? owner = some innerOwner)
      (inside : Inlines context innerOwner selections inner)
      (further : Inlines context owner rest later) :
      Inlines context owner (.inlineFragment condition? directives selections :: rest)
        (inner ++ later)
  | spread {owner fragmentOwner : TypeDescriptor} {name : String} {directives : List Directive}
      {fragment : FragmentDefinition} {rest : List Selection} {inner later : List (String × Pick)}
      (found : context.fragments.get? name = some fragment)
      (known : context.type? fragment.typeCondition = some fragmentOwner)
      (inside : Inlines context fragmentOwner fragment.selections inner)
      (further : Inlines context owner rest later) :
      Inlines context owner (.spread name directives :: rest) (inner ++ later)

theorem requireType_eq_ok_iff {name : String} {type : TypeDescriptor} :
    context.requireType name source = .ok type ↔ context.type? name = some type := by
  unfold requireType
  cases context.type? name with
  | none => simp
  | some found => simp

theorem requireType_eq_error {name : String} {error : Error}
    (failed : context.requireType name source = .error error) :
    context.type? name = none ∧ error = .unresolved source (.type name) := by
  unfold requireType at failed
  cases found : context.type? name with
  | none =>
    rw [found] at failed
    cases failed
    exact ⟨rfl, rfl⟩
  | some type =>
    rw [found] at failed
    cases failed

theorem inlinedFragment_of_mem {name : String} (onTrail : name ∈ trail) :
    context.inlinedFragment source trail name = .error (.fragmentCycle trail name) := by
  rw [inlinedFragment, dif_pos onTrail]

theorem inlinedFragment_of_none {name : String} (fresh : name ∉ trail)
    (missing : context.fragments.get? name = none) :
    context.inlinedFragment source trail name = .error (.unresolved source (.fragment name)) := by
  rw [inlinedFragment, dif_neg fresh]
  split
  · rfl
  · next fragment found => rw [missing] at found; cases found

theorem inlinedFragment_of_some {name : String} (fresh : name ∉ trail)
    {fragment : FragmentDefinition} (found : context.fragments.get? name = some fragment) :
    context.inlinedFragment source trail name =
      (context.requireType fragment.typeCondition source >>= fun owner =>
        context.inlined source (trail ++ [name]) owner fragment.selections) := by
  rw [inlinedFragment, dif_neg fresh]
  split
  · next missing => rw [found] at missing; cases missing
  · next same isFragment =>
    rw [found] at isFragment
    cases isFragment
    rfl

/-- A fragment that is needed does not reach itself. -/
theorem Inlines.not_selfReaching (inlines : context.Inlines owner selections entries)
    {name other : String} (needed : name ∈ Selection.spreadsOf selections)
    (reached : ReflTransGen context.Spreads name other) :
    ¬TransGen context.Spreads other other := by
  induction inlines generalizing name other with
  | nil => cases needed
  | field _ ih => exact ih (by simpa [Selection.spreadsOf, Selection.spreads] using needed) reached
  | inlineFragment _ _ _ ihInside ihLater =>
    rcases List.mem_append.mp needed with inside | later
    · exact ihInside inside reached
    · exact ihLater later reached
  | @spread owner fragmentOwner spreadName directives fragment rest inner later found _ _ _ ihInside
      ihLater =>
    have inFragment : ∀ next, context.Spreads spreadName next →
        next ∈ Selection.spreadsOf fragment.selections := by
      rintro next ⟨same, isFragment, member⟩
      rw [found] at isFragment
      cases isFragment
      exact member
    rcases List.mem_append.mp needed with here | further
    · cases List.mem_singleton.mp here
      intro cycle
      rcases ReflTransGen.cases_head reached with rfl | ⟨next, first, onward⟩
      · -- The first step of the cycle leads into the fragment, from where it comes back.
        obtain ⟨next, first, back⟩ := TransGen.head'_iff.mp cycle
        exact ihInside (inFragment next first) back cycle
      · exact ihInside (inFragment next first) onward cycle
    · exact ihLater further reached

/-- The expansion with a trail gives what the derivation does, if it meets nothing on the trail. -/
theorem Inlines.inlined_eq (inlines : context.Inlines owner selections entries)
    (untrodden : ∀ name ∈ Selection.spreadsOf selections, ∀ other,
      ReflTransGen context.Spreads name other → other ∉ trail) :
    context.inlined source trail owner selections = .ok entries := by
  induction inlines generalizing trail with
  | nil => rw [inlined]; rfl
  | field _ ih =>
    rw [inlined, ih fun name needed => untrodden name
      (List.mem_append_right _ needed)]
    rfl
  | @inlineFragment owner innerOwner condition? directives selections rest inner later known _ _
      ihInside ihLater =>
    have inside := ihInside fun name needed => untrodden name (List.mem_append_left _ needed)
    have further := ihLater fun name needed => untrodden name (List.mem_append_right _ needed)
    cases condition? with
    | none =>
      cases known
      rw [inlined]
      simp only [pure_bind, inside, further]
      rfl
    | some condition =>
      have owned : context.requireType condition source = .ok innerOwner :=
        requireType_eq_ok_iff.mpr known
      rw [inlined]
      simp only [owned, bind, Except.bind, inside, further]
      rfl
  | @spread owner fragmentOwner spreadName directives fragment rest inner later found known
      inFragment _ ihInside ihLater =>
    have further := ihLater fun name needed => untrodden name (List.mem_append_right _ needed)
    have fresh : spreadName ∉ trail := untrodden spreadName
      (List.mem_append_left _ (List.mem_singleton_self _)) spreadName .refl
    have inside : context.inlined source (trail ++ [spreadName]) fragmentOwner
        fragment.selections = .ok inner := by
      refine ihInside fun name needed other reached onTrail => ?_
      have step : context.Spreads spreadName name := ⟨fragment, found, needed⟩
      rcases List.mem_append.mp onTrail with before | same
      · exact untrodden spreadName (List.mem_append_left _ (List.mem_singleton_self _)) other
          (.head step reached) before
      · cases List.mem_singleton.mp same
        exact inFragment.not_selfReaching needed reached (.head' step reached)
    have expanded : context.inlinedFragment source trail spreadName = .ok inner := by
      rw [inlinedFragment_of_some fresh found]
      exact Outcome.bind_eq_ok_iff.mpr ⟨_, requireType_eq_ok_iff.mpr known, inside⟩
    rw [inlined, expanded, further]
    rfl

/-- What the expansion gives has a derivation. -/
theorem inlines_of_inlined (expanded : context.inlined source trail owner selections = .ok entries) :
    context.Inlines owner selections entries := by
  revert entries
  refine inlined.induct context source
    (fun trail owner selections => ∀ {entries},
      context.inlined source trail owner selections = .ok entries →
        context.Inlines owner selections entries)
    (fun trail name => ∀ {entries}, context.inlinedFragment source trail name = .ok entries →
      ∃ fragment owner, context.fragments.get? name = some fragment ∧
        context.type? fragment.typeCondition = some owner ∧
        context.Inlines owner fragment.selections entries)
    ?nil ?field ?bare ?conditional ?spread ?onTrail ?unknown ?fragment trail owner selections
  case nil =>
    intro trail owner entries expanded
    rw [inlined] at expanded
    cases expanded
    exact .nil
  case field =>
    intro trail owner head selections? rest ih entries expanded
    rw [inlined] at expanded
    obtain ⟨later, further, same⟩ := Outcome.bind_eq_ok_iff.mp expanded
    cases same
    exact .field (ih further)
  case bare =>
    intro trail owner directives selections rest ihInside ihLater entries expanded
    rw [inlined, pure_bind] at expanded
    obtain ⟨inner, inside, onward⟩ := Outcome.bind_eq_ok_iff.mp expanded
    obtain ⟨later, further, same⟩ := Outcome.bind_eq_ok_iff.mp onward
    cases same
    exact .inlineFragment rfl (ihInside owner inside) (ihLater further)
  case conditional =>
    intro trail owner directives selections rest condition ihInside ihLater entries expanded
    rw [inlined] at expanded
    obtain ⟨innerOwner, known, after⟩ := Outcome.bind_eq_ok_iff.mp expanded
    obtain ⟨inner, inside, onward⟩ := Outcome.bind_eq_ok_iff.mp after
    obtain ⟨later, further, same⟩ := Outcome.bind_eq_ok_iff.mp onward
    cases same
    exact .inlineFragment (requireType_eq_ok_iff.mp known) (ihInside innerOwner inside)
      (ihLater further)
  case spread =>
    intro trail owner name directives rest ihFragment ihLater entries expanded
    rw [inlined] at expanded
    obtain ⟨inner, inside, onward⟩ := Outcome.bind_eq_ok_iff.mp expanded
    obtain ⟨later, further, same⟩ := Outcome.bind_eq_ok_iff.mp onward
    cases same
    obtain ⟨fragment, fragmentOwner, found, known, inFragment⟩ := ihFragment inside
    exact .spread found known inFragment (ihLater further)
  case onTrail =>
    intro trail name onTrail entries expanded
    rw [inlinedFragment_of_mem onTrail] at expanded
    cases expanded
  case unknown =>
    intro trail name fresh missing entries expanded
    rw [inlinedFragment_of_none fresh missing] at expanded
    cases expanded
  case fragment =>
    intro trail name fresh fragment found ih entries expanded
    rw [inlinedFragment_of_some fresh found] at expanded
    obtain ⟨owner, known, inside⟩ := Outcome.bind_eq_ok_iff.mp expanded
    exact ⟨fragment, owner, found, requireType_eq_ok_iff.mp known, ih owner inside⟩

/-- Every fragment on a trail reaches every fragment that is still to be expanded. -/
def Leads (context : Context) (trail : List String) (names : List String) : Prop :=
  ∀ passed ∈ trail, ∀ name ∈ names, TransGen context.Spreads passed name

theorem leads_nil (context : Context) (names : List String) : context.Leads [] names :=
  fun _ passed => absurd passed List.not_mem_nil

theorem Leads.left {names more : List String} (leads : context.Leads trail (names ++ more)) :
    context.Leads trail names :=
  fun passed onTrail name member => leads passed onTrail name (List.mem_append_left more member)

theorem Leads.right {names more : List String} (leads : context.Leads trail (names ++ more)) :
    context.Leads trail more :=
  fun passed onTrail name member => leads passed onTrail name (List.mem_append_right names member)

theorem Leads.into {name : String} {names : List String} {fragment : FragmentDefinition}
    (leads : context.Leads trail names) (needed : name ∈ names)
    (found : context.fragments.get? name = some fragment) :
    context.Leads (trail ++ [name]) (Selection.spreadsOf fragment.selections) := by
  intro passed onTrail next member
  have step : context.Spreads name next := ⟨fragment, found, member⟩
  rcases List.mem_append.mp onTrail with before | same
  · exact (leads passed before name needed).tail step
  · cases List.mem_singleton.mp same
    exact .single step

/-- An expansion fails at something unknown or at a fragment that reaches itself. -/
theorem inlined_eq_error {error : Error}
    (leads : context.Leads trail (Selection.spreadsOf selections))
    (failed : context.inlined source trail owner selections = .error error) :
    (∃ reference, error = .unresolved source reference) ∨
      ∃ passed name, error = .fragmentCycle passed name ∧ TransGen context.Spreads name name := by
  revert leads failed
  refine inlined.induct context source
    (fun trail owner selections => context.Leads trail (Selection.spreadsOf selections) →
      context.inlined source trail owner selections = .error error →
        (∃ reference, error = .unresolved source reference) ∨
          ∃ passed name, error = .fragmentCycle passed name ∧ TransGen context.Spreads name name)
    (fun trail name => context.Leads trail [name] →
      context.inlinedFragment source trail name = .error error →
        (∃ reference, error = .unresolved source reference) ∨
          ∃ passed name, error = .fragmentCycle passed name ∧ TransGen context.Spreads name name)
    ?nil ?field ?bare ?conditional ?spread ?onTrail ?unknown ?fragment trail owner selections
  case nil =>
    intro trail owner _ failed
    rw [inlined] at failed
    cases failed
  case field =>
    intro trail owner head selections? rest ih leads failed
    rw [inlined] at failed
    rcases Outcome.bind_eq_error_iff.mp failed with later | ⟨_, _, impossible⟩
    · exact ih leads later
    · cases impossible
  case bare =>
    intro trail owner directives selections rest ihInside ihLater leads failed
    rw [inlined, pure_bind] at failed
    rcases Outcome.bind_eq_error_iff.mp failed with inside | ⟨_, _, onward⟩
    · exact ihInside owner leads.left inside
    · rcases Outcome.bind_eq_error_iff.mp onward with later | ⟨_, _, impossible⟩
      · exact ihLater leads.right later
      · cases impossible
  case conditional =>
    intro trail owner directives selections rest condition ihInside ihLater leads failed
    rw [inlined] at failed
    rcases Outcome.bind_eq_error_iff.mp failed with unknown | ⟨innerOwner, _, after⟩
    · exact Or.inl ⟨_, (requireType_eq_error unknown).2⟩
    · rcases Outcome.bind_eq_error_iff.mp after with inside | ⟨_, _, onward⟩
      · exact ihInside innerOwner leads.left inside
      · rcases Outcome.bind_eq_error_iff.mp onward with later | ⟨_, _, impossible⟩
        · exact ihLater leads.right later
        · cases impossible
  case spread =>
    intro trail owner name directives rest ihFragment ihLater leads failed
    rw [inlined] at failed
    rcases Outcome.bind_eq_error_iff.mp failed with inside | ⟨_, _, onward⟩
    · exact ihFragment leads.left inside
    · rcases Outcome.bind_eq_error_iff.mp onward with later | ⟨_, _, impossible⟩
      · exact ihLater leads.right later
      · cases impossible
  case onTrail =>
    intro trail name onTrail leads failed
    rw [inlinedFragment_of_mem onTrail] at failed
    cases failed
    exact Or.inr ⟨trail, name, rfl, leads name onTrail name (List.mem_singleton_self name)⟩
  case unknown =>
    intro trail name fresh missing _ failed
    rw [inlinedFragment_of_none fresh missing] at failed
    cases failed
    exact Or.inl ⟨_, rfl⟩
  case fragment =>
    intro trail name fresh fragment found ih leads failed
    rw [inlinedFragment_of_some fresh found] at failed
    rcases Outcome.bind_eq_error_iff.mp failed with unknown | ⟨innerOwner, _, inside⟩
    · exact Or.inl ⟨_, (requireType_eq_error unknown).2⟩
    · exact ih innerOwner (leads.into (List.mem_singleton_self name) found) inside

end Context

end ChainedSdk
