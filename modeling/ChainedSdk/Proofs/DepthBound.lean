import ChainedSdk.Proofs.Places
import Mathlib.Algebra.Order.BigOperators.Group.List
import Mathlib.Algebra.Order.Group.Nat
import Mathlib.Data.List.Perm.Subperm
import Mathlib.Data.Nat.Find
/-!
# The bound on the depth

Two sites at one place have the same course as long as nothing under them is made yet, whatever they
are called. So a way down that comes back to a place never ends, and one that ends meets no place
twice: the number of places bounds the depth.
-/

namespace ChainedSdk

/-- Two outcomes that succeed together, with related results, or fail together, at the depth or
not. -/
def Corresponds {α β : Type} (related : α → β → Prop) : Except Error α → Except Error β → Prop
  | .ok first, .ok second => related first second
  | .error first, .error second => first = .endlessSelection ↔ second = .endlessSelection
  | _, _ => False

theorem Corresponds.bind {α β γ δ : Type} {related : α → β → Prop} {results : γ → δ → Prop}
    {first : Except Error α} {second : Except Error β} {next : α → Except Error γ}
    {after : β → Except Error δ} (corresponds : Corresponds related first second)
    (further : ∀ value other, first = .ok value → second = .ok other → related value other →
      Corresponds results (next value) (after other)) :
    Corresponds results (first >>= next) (second >>= after) := by
  cases first with
  | error error =>
    cases second with
    | error other => exact corresponds
    | ok other => exact corresponds.elim
  | ok value =>
    cases second with
    | error other => exact corresponds.elim
    | ok other => exact further value other rfl rfl corresponds

theorem Corresponds.map {α β γ δ : Type} {related : α → β → Prop} {results : γ → δ → Prop}
    {first : Except Error α} {second : Except Error β} {change : α → γ} {other : β → δ}
    (corresponds : Corresponds related first second)
    (further : ∀ value held, first = .ok value → second = .ok held → related value held →
      results (change value) (other held)) :
    Corresponds results (first.map change) (second.map other) :=
  corresponds.bind further

namespace Context

open Names

variable {context : Context} {first second : ModelSite} {made other : Table Model}
  {depth : Nat}

/-- The same nested names are taken under one name as under another. -/
def Alike (firstName secondName : String) (made other : Table Model) : Prop :=
  ∀ tail : String, IsTail tail.toList →
    ((made.get? (firstName ++ tail)).isSome ↔ (other.get? (secondName ++ tail)).isSome)

theorem under_append {name tail : String} (ends : IsTail tail.toList) :
    Under name (name ++ tail) :=
  ⟨tail.toList, ends, String.toList_append⟩

theorem alike_of_clear (clear : Clear first made) (clearOther : Clear second other) :
    Alike first.name second.name made other := by
  intro tail ends
  rw [clear _ (under_append ends), clearOther _ (under_append ends)]

private theorem nestedModel_append (parent key tail : String) :
    nestedModel parent key ++ tail = parent ++ ("_" ++ Text.pascalCase key ++ tail) := by
  unfold nestedModel
  rw [String.append_assoc, String.append_assoc, String.append_assoc]

theorem Alike.nested {firstName secondName : String} (alike : Alike firstName secondName made other)
    (key : String) : Alike (nestedModel firstName key) (nestedModel secondName key) made other := by
  intro tail _
  rw [nestedModel_append, nestedModel_append]
  refine alike _ ?_
  rw [String.toList_append, String.toList_append, List.append_assoc]
  exact isTail_underscore _

private theorem under_nested_iff {parent key tail : String} :
    Under (nestedModel parent key) (parent ++ tail) ↔
      ∃ rest : String, IsTail rest.toList ∧ tail = "_" ++ Text.pascalCase key ++ rest := by
  constructor
  · rintro ⟨rest, ends, same⟩
    refine ⟨String.ofList rest, by rwa [String.toList_ofList], ?_⟩
    rw [String.toList_append, toList_nestedModel, List.append_assoc] at same
    refine String.toList_inj.mp ((List.append_cancel_left same).trans ?_)
    simp [String.toList_append, String.toList_ofList]
  · rintro ⟨rest, ends, rfl⟩
    rw [← nestedModel_append]
    exact under_append ends

theorem Alike.of_nested {firstName secondName key : String} {after otherAfter : Table Model}
    (alike : Alike firstName secondName made other)
    (inside : Alike (nestedModel firstName key) (nestedModel secondName key) after otherAfter)
    (unchanged : ∀ name, ¬Under (nestedModel firstName key) name →
      after.get? name = made.get? name)
    (otherUnchanged : ∀ name, ¬Under (nestedModel secondName key) name →
      otherAfter.get? name = other.get? name) : Alike firstName secondName after otherAfter := by
  intro tail ends
  by_cases below : ∃ rest : String, IsTail rest.toList ∧ tail = "_" ++ Text.pascalCase key ++ rest
  · obtain ⟨rest, restEnds, rfl⟩ := below
    rw [← nestedModel_append, ← nestedModel_append]
    exact inside rest restEnds
  · rw [unchanged _ fun under => below (under_nested_iff.mp under),
      otherUnchanged _ fun under => below (under_nested_iff.mp under)]
    exact alike tail ends

private theorem append_eq_self_iff {name tail : String} : name ++ tail = name ↔ tail = "" := by
  constructor
  · intro same
    have lists := congrArg String.toList same
    rw [String.toList_append] at lists
    exact String.toList_inj.mp (List.append_right_eq_self.mp lists)
  · rintro rfl
    exact String.append_empty

theorem Alike.insert {firstName secondName : String} (alike : Alike firstName secondName made other)
    (model held : Model) :
    Alike firstName secondName (made.insert firstName model) (other.insert secondName held) := by
  intro tail ends
  rw [Table.get?_insert, Table.get?_insert]
  by_cases whole : tail = ""
  · rw [if_pos (append_eq_self_iff.mpr whole), if_pos (append_eq_self_iff.mpr whole)]
    exact Iff.rfl
  · rw [if_neg fun same => whole (append_eq_self_iff.mp same),
      if_neg fun same => whole (append_eq_self_iff.mp same)]
    exact alike tail ends

/-! ## Two sites at one place -/

private theorem corresponds_inlined (context : Context) (source otherSource : String)
    (owner : TypeDescriptor) (selections : List Selection) :
    Corresponds Eq (context.inlined source [] owner selections)
      (context.inlined otherSource [] owner selections) := by
  cases expanded : context.inlined source [] owner selections with
  | ok entries =>
    rw [(inlines_of_inlined expanded).inlined_eq fun _ _ _ _ => List.not_mem_nil]
    exact rfl
  | error error =>
    cases otherExpanded : context.inlined otherSource [] owner selections with
    | ok entries =>
      rw [(inlines_of_inlined otherExpanded).inlined_eq fun _ _ _ _ => List.not_mem_nil] at expanded
      cases expanded
    | error other =>
      refine iff_of_false ?_ ?_
      · rintro rfl
        exact inlined_ne_endless expanded
      · rintro rfl
        exact inlined_ne_endless otherExpanded

private theorem corresponds_requireType (context : Context) (name source otherSource : String) :
    Corresponds Eq (context.requireType name source) (context.requireType name otherSource) := by
  unfold requireType
  cases context.type? name with
  | none => exact iff_of_false (fun equal => by cases equal) (fun equal => by cases equal)
  | some type => exact rfl

private theorem corresponds_resolve (context : Context) (first second : ModelSite) (key : String)
    (pick : Pick) :
    Corresponds (fun one two => (one.2 = none ∧ two.2 = none) ∨ ∃ type block,
        one.2 = some (first.nested key type block) ∧ two.2 = some (second.nested key type block))
      (context.resolve first key pick) (context.resolve second key pick) := by
  unfold resolve
  split
  · refine (corresponds_requireType context _ _ _).bind ?_
    rintro type _ _ _ rfl
    exact Or.inl ⟨rfl, rfl⟩
  · split
    · exact iff_of_false (fun equal => by cases equal) (fun equal => by cases equal)
    · refine (corresponds_requireType context _ _ _).bind ?_
      rintro type _ _ _ rfl
      cases pick.selections? with
      | none => exact Or.inl ⟨rfl, rfl⟩
      | some block => exact Or.inr ⟨type, block, rfl, rfl⟩

private theorem corresponds_addFields
    (nested : ∀ inner otherInner : ModelSite, ∀ before otherBefore, inner.place = otherInner.place →
      Alike inner.name otherInner.name before otherBefore →
      Corresponds (Alike inner.name otherInner.name) (context.addSite depth inner before)
        (context.addSite depth otherInner otherBefore))
    (picks : List (String × Pick)) (alike : Alike first.name second.name made other) :
    Corresponds (fun one two => Alike first.name second.name one.2 two.2)
      (context.addFields (context.addSite depth) first picks made)
      (context.addFields (context.addSite depth) second picks other) := by
  induction picks generalizing made other with
  | nil => exact alike
  | cons entry rest ih =>
    obtain ⟨key, pick⟩ := entry
    rw [addFields, addFields]
    refine (corresponds_resolve context first second key pick).bind ?_
    rintro ⟨field, nested?⟩ ⟨otherField, otherNested?⟩ _ _ (⟨rfl, rfl⟩ | ⟨type, block, rfl, rfl⟩)
    · exact (ih alike).bind fun _ _ _ _ stays => stays
    · refine (nested (first.nested key type block) (second.nested key type block) made other rfl
        (alike.nested key)).bind fun after otherAfter added otherAdded inside => ?_
      have stays := alike.of_nested inside
        (fun name aside => (makes_of_addSite added).unchanged aside)
        (fun name aside => (makes_of_addSite otherAdded).unchanged aside)
      exact (ih stays).bind fun _ _ _ _ stays => stays

/-- Two sites at one place have the same course under names that are alike. -/
theorem corresponds_addSite (samePlace : first.place = second.place)
    (alike : Alike first.name second.name made other) :
    Corresponds (Alike first.name second.name) (context.addSite depth first made)
      (context.addSite depth second other) := by
  induction depth generalizing first second made other with
  | zero => exact Iff.rfl
  | succ depth ih =>
    have sameOwner : first.owner = second.owner := congrArg Prod.fst samePlace
    have sameSelections : first.selections = second.selections := congrArg Prod.snd samePlace
    have ownName := alike "" isTail_nil
    rw [String.append_empty, String.append_empty] at ownName
    cases taken : made.get? first.name with
    | some existing =>
      rw [taken] at ownName
      obtain ⟨held, otherTaken⟩ := Option.isSome_iff_exists.mp (ownName.mp rfl)
      rw [addSite_taken taken, addSite_taken otherTaken]
      exact iff_of_false (fun equal => by cases equal) (fun equal => by cases equal)
    | none =>
      have otherFresh : other.get? second.name = none := by
        rw [taken] at ownName
        exact Option.not_isSome_iff_eq_none.mp fun present => by cases ownName.mpr present
      rw [addSite_fresh taken, addSite_fresh otherFresh, sameOwner, sameSelections]
      refine (corresponds_inlined context _ _ _ _).bind ?_
      rintro entries _ _ _ rfl
      exact (corresponds_addFields (fun _ _ _ _ => ih) _ alike).map
        fun _ _ _ _ stays => stays.insert _ _

theorem ends_iff_of_place (samePlace : first.place = second.place) (clear : Clear first made)
    (clearOther : Clear second other) :
    context.addSite depth first made ≠ .error .endlessSelection ↔
      context.addSite depth second other ≠ .error .endlessSelection := by
  have corresponds : Corresponds (Alike first.name second.name)
      (context.addSite depth first made) (context.addSite depth second other) :=
    corresponds_addSite samePlace (alike_of_clear clear clearOther)
  cases one : context.addSite depth first made with
  | ok after =>
    cases two : context.addSite depth second other with
    | ok otherAfter => exact iff_of_true (fun equal => by cases equal) (fun equal => by cases equal)
    | error error =>
      rw [one, two] at corresponds
      exact corresponds.elim
  | error error =>
    cases two : context.addSite depth second other with
    | ok otherAfter =>
      rw [one, two] at corresponds
      exact corresponds.elim
    | error otherError =>
      rw [one, two] at corresponds
      refine not_congr ?_
      rw [Except.error.injEq, Except.error.injEq]
      exact corresponds

/-! ## The way down -/

/-- A depth suffices at a place where nothing is made yet. -/
def Ends (context : Context) (place : Place) (depth : Nat) : Prop :=
  ∃ (site : ModelSite) (made : Table Model), site.place = place ∧ Clear site made ∧
    context.addSite depth site made ≠ .error .endlessSelection

variable {site inner : ModelSite} {half : Table Model}

theorem ends_iff (clear : Clear site made) :
    context.Ends site.place depth ↔ context.addSite depth site made ≠ .error .endlessSelection := by
  constructor
  · rintro ⟨another, before, samePlace, clearAnother, ends⟩
    exact (ends_iff_of_place samePlace clearAnother clear).mp ends
  · intro ends
    exact ⟨site, made, rfl, clear, ends⟩

theorem Ends.mono {place : Place} {more : Nat} (ends : context.Ends place depth)
    (deeper : depth ≤ more) : context.Ends place more := by
  obtain ⟨site, made, samePlace, clear, ends⟩ := ends
  exact ⟨site, made, samePlace, clear, by rwa [addSite_mono deeper ends]⟩

theorem Descends.clear (descends : context.Descends site made inner half)
    (clear : Clear site made) (fresh : half.get? inner.name = none) : Clear inner half := by
  cases descends with
  | into _ _ _ fills resolved => exact clear.nested fills (name_of_resolve resolved) fresh

theorem fresh_of_endless (endless : context.addSite (depth + 1) site made =
    .error .endlessSelection) : made.get? site.name = none := by
  cases taken : made.get? site.name with
  | none => rfl
  | some existing =>
    rw [addSite_taken taken] at endless
    cases endless

/-- A depth that suffices at a place leaves one less for the places inside. -/
theorem Descends.ends (descends : context.Descends site made inner half)
    (clear : Clear site made) (ends : context.Ends site.place depth) :
    ∃ less, depth = less + 1 ∧ context.addSite less inner half ≠ .error .endlessSelection := by
  have suffices_ := (ends_iff clear).mp ends
  cases depth with
  | zero => exact absurd rfl suffices_
  | succ less => exact ⟨less, rfl, fun endless => suffices_ (descends.addSite_eq endless)⟩

/-- A way down on which every depth so far is passed, though some depth suffices, meets as many
places as it has steps: each of them needs less depth than the ones before. -/
theorem exists_distinct_places {all : List Place} {enough : Nat} (clear : Clear site made)
    (inside : context.places site.owner site.selections ⊆ all)
    (fragments : context.fragmentPlaces ⊆ all)
    (endless : context.addSite (depth + 1) site made = .error .endlessSelection)
    (ends : context.addSite enough site made ≠ .error .endlessSelection) :
    ∃ path : List Place, path.length = depth ∧ path.Nodup ∧ path ⊆ all ∧
      ∀ place ∈ path, ∃ less, context.Ends place less ∧ ¬context.Ends site.place less := by
  induction depth generalizing site made enough with
  | zero => exact ⟨[], rfl, List.nodup_nil, List.nil_subset _, fun _ member => by cases member⟩
  | succ depth ih =>
    obtain ⟨inner, half, descends, passed⟩ := descends_of_endless endless
    have innerClear := descends.clear clear (fresh_of_endless passed)
    have within := List.Subset.trans descends.places_subset
      (List.append_subset.mpr ⟨inside, fragments⟩)
    obtain ⟨less, _, innerEnds⟩ := descends.ends clear ((ends_iff clear).mpr ends)
    obtain ⟨path, length, distinct, amongAll, lesser⟩ :=
      ih innerClear (fun _ member => within (List.mem_cons_of_mem _ member)) passed innerEnds
    refine ⟨inner.place :: path, by rw [List.length_cons, length], ?_, ?_, ?_⟩
    · refine List.nodup_cons.mpr ⟨fun member => ?_, distinct⟩
      obtain ⟨_, here, notHere⟩ := lesser inner.place member
      exact notHere here
    · exact List.cons_subset.mpr ⟨within List.mem_cons_self, amongAll⟩
    · intro place member
      rcases List.mem_cons.mp member with rfl | later
      · -- The least depth that suffices inside does not suffice outside.
        classical
        have some_ : ∃ depth, context.Ends inner.place depth :=
          ⟨less, (ends_iff innerClear).mpr innerEnds⟩
        refine ⟨Nat.find some_, Nat.find_spec some_, fun outer => ?_⟩
        obtain ⟨smaller, isNext, smallerEnds⟩ := descends.ends clear outer
        exact Nat.find_min some_ (by omega) ((ends_iff innerClear).mpr smallerEnds)
      · obtain ⟨depth, here, notInner⟩ := lesser place later
        refine ⟨depth, here, fun outer => notInner ?_⟩
        obtain ⟨smaller, rfl, smallerEnds⟩ := descends.ends clear outer
        exact ((ends_iff innerClear).mpr smallerEnds).mono (Nat.le_succ smaller)

/-- A depth beyond the number of places that is passed is passed always. -/
theorem unending_of_length_lt (clear : Clear site made)
    (beyond : (context.places site.owner site.selections ++ context.fragmentPlaces).length < depth)
    (endless : context.addSite (depth + 1) site made = .error .endlessSelection) :
    context.Unending site made := by
  rw [unending_iff]
  intro enough
  by_contra ends
  obtain ⟨path, rfl, distinct, amongAll, _⟩ := exists_distinct_places clear
    (List.subset_append_left _ _) (List.subset_append_right _ _) endless ends
  have bound := (List.subperm_of_subset distinct amongAll).length_le
  omega

theorem fieldCounts_of_siteOf {definition : Definition}
    (found : context.siteOf definition = .ok (some site)) :
    Selection.fieldCounts site.selections = definitionFieldCount definition := by
  rcases siteOf_eq_some found with ⟨_, _, _, rfl, _, _, rfl⟩ | ⟨_, _, rfl, _, rfl⟩
  · rfl
  · rfl

/-- The bound on the depth is passed only by a descent without end. -/
theorem addSite_depthBound_iff {documents : List DocumentFile} {definition : Definition}
    (member : definition ∈ definitionsOf documents)
    (found : context.siteOf definition = .ok (some site)) (rooted : Rooted made) :
    context.addSite (context.depthBound documents) site made = .error .endlessSelection ↔
      context.Unending site made := by
  constructor
  · intro endless
    have clear := rooted.clear (not_mem_siteOf found) (fresh_of_endless endless)
    refine unending_of_length_lt clear ?_ endless
    have ofDefinition : definitionFieldCount definition ≤
        ((definitionsOf documents).map definitionFieldCount).foldr (· + ·) 0 :=
      List.le_sum_of_mem (List.mem_map_of_mem member)
    have inside := context.length_places_le site.owner site.selections
    have inFragments := context.length_fragmentPlaces_le
    rw [fieldCounts_of_siteOf found] at inside
    rw [List.length_append]
    omega
  · intro unending
    exact unending_iff.mp unending _

end Context

end ChainedSdk
