import ChainedSdk.Chain.MethodName
import ChainedSdk.Proofs.Outcomes
/-!
# Distinct method names

What the two passes over some siblings keep: a natural name goes to a sibling only while nobody owns
it, a number is taken only while the numbered name is free, and every name that is given out has its
owner from then on. So the names of siblings are distinct and leave the reserved ones alone.
-/

namespace ChainedSdk

theorem Names.toList_of_suffix? {name inside : String} {rest : List Char}
    (found : suffix? name inside = some rest) : inside.toList = name.toList ++ rest :=
  (List.append_eq_of_isPrefixOf?_eq_some found).symm

/-- A name that extends another one goes on with more than underscores, and as a method it is what
it goes on with. -/
theorem Names.chainMethod_of_isExtension {child parent : String}
    (longer : isExtension child parent) : ∃ rest first tail, suffix? parent child = some rest ∧
      rest.dropWhile (· = '_') = first :: tail ∧
      chainMethod child (some parent) = String.ofList (Text.lower [first] ++ tail) := by
  have parts : ∃ rest first tail, suffix? parent child = some rest ∧
      rest.dropWhile (· = '_') = first :: tail := by
    unfold isExtension at longer
    split at longer
    · cases longer
    · cases longer
    · next rest goesOn =>
      cases parted : rest.dropWhile (· = '_') with
      | nil =>
        rw [parted] at longer
        cases longer
      | cons first tail => exact ⟨'_' :: rest, first, tail, goesOn, parted⟩
    · next char rest ordinary goesOn =>
      refine ⟨char :: rest, char, rest, goesOn, ?_⟩
      have differs : ¬char = '_' := by
        rintro rfl
        exact ordinary rfl
      simp [differs]
  obtain ⟨rest, first, tail, goesOn, parted⟩ := parts
  refine ⟨rest, first, tail, goesOn, parted, ?_⟩
  simp only [chainMethod, longer, goesOn, Option.getD_some, parted]
  rfl

namespace MethodName

/-- The natural name that a sibling keeps. -/
def Slot.kept? : Slot → Option String
  | .natural name => some name
  | .taken _ _ => none

/-- One more owner leaves all owners found before in place. -/
private theorem owned_insert {owners : Table String} {name key operation owner : String}
    (free : owners.get? name = none) (owned : owners.get? key = some owner) :
    (owners.insert name operation).get? key = some owner := by
  have differ : key ≠ name := by
    intro same
    rw [same, free] at owned
    cases owned
  rw [Table.get?_insert, if_neg differ]
  exact owned

theorem giveNatural_owned (parent? : Option String) {owners : Table String} {key owner : String}
    (owned : owners.get? key = some owner) (operations : List String) :
    (giveNatural parent? owners operations).2.get? key = some owner := by
  induction operations generalizing owners with
  | nil => exact owned
  | cons operation rest ih =>
    simp only [giveNatural]
    cases found : owners.get? (natural parent? operation) with
    | some other => exact ih owned
    | none => exact ih (owned_insert found owned)

theorem giveNatural_length (parent? : Option String) (owners : Table String)
    (operations : List String) :
    (giveNatural parent? owners operations).1.length = operations.length := by
  induction operations generalizing owners with
  | nil => rfl
  | cons operation rest ih =>
    simp only [giveNatural]
    cases owners.get? (natural parent? operation) with
    | some other => exact congrArg Nat.succ (ih owners)
    | none => exact congrArg Nat.succ (ih _)

/-- A name that is taken has its owner among all owners, so looking it up later finds the same. -/
theorem giveNatural_taken {parent? : Option String} {owners : Table String}
    {operations : List String} {name owner : String}
    (member : Slot.taken name owner ∈ (giveNatural parent? owners operations).1) :
    (giveNatural parent? owners operations).2.get? name = some owner := by
  induction operations generalizing owners with
  | nil => simp [giveNatural] at member
  | cons operation rest ih =>
    simp only [giveNatural] at member ⊢
    cases found : owners.get? (natural parent? operation) with
    | some other =>
      rw [found] at member
      rcases List.mem_cons.mp member with same | later
      · cases same
        exact giveNatural_owned parent? found rest
      · exact ih later
    | none =>
      rw [found] at member
      rcases List.mem_cons.mp member with same | later
      · cases same
      · exact ih later

/-- A kept name was free before, and has an owner afterwards. -/
theorem giveNatural_kept {parent? : Option String} {owners : Table String}
    {operations : List String} {name : String}
    (member : name ∈ (giveNatural parent? owners operations).1.filterMap Slot.kept?) :
    owners.get? name = none ∧
      ∃ owner, (giveNatural parent? owners operations).2.get? name = some owner := by
  induction operations generalizing owners with
  | nil => simp [giveNatural] at member
  | cons operation rest ih =>
    simp only [giveNatural] at member ⊢
    cases found : owners.get? (natural parent? operation) with
    | some other =>
      rw [found] at member
      exact ih member
    | none =>
      rw [found] at member
      rcases List.mem_cons.mp member with same | later
      · subst same
        exact ⟨found, operation, giveNatural_owned parent? (Table.get?_insert_self ..) rest⟩
      · obtain ⟨free, owner, owned⟩ := ih later
        refine ⟨?_, owner, owned⟩
        rw [Table.get?_insert] at free
        split at free
        · cases free
        · exact free

theorem giveNatural_kept_nodup (parent? : Option String) (owners : Table String)
    (operations : List String) :
    ((giveNatural parent? owners operations).1.filterMap Slot.kept?).Nodup := by
  induction operations generalizing owners with
  | nil => simp [giveNatural]
  | cons operation rest ih =>
    simp only [giveNatural]
    cases found : owners.get? (natural parent? operation) with
    | some other => exact ih owners
    | none =>
      refine List.nodup_cons.mpr ⟨fun again => ?_, ih _⟩
      have free := (giveNatural_kept again).1
      simp at free

theorem firstFree?_eq_some {config : Config} {owners : Table String} {name first : String}
    {number tries : Nat} (found : firstFree? config owners name number tries = some first) :
    ∃ chosen, number ≤ chosen ∧ chosen < number + tries ∧ first = numbered name chosen ∧
      isTooLong config first = false ∧ owners.get? first = none ∧
      ∀ smaller, number ≤ smaller → smaller < chosen →
        owners.get? (numbered name smaller) ≠ none := by
  induction tries generalizing number with
  | zero => cases found
  | succ tries ih =>
    simp only [firstFree?] at found
    split at found
    · cases found
    · next short =>
      split at found
      · next owned =>
        obtain ⟨chosen, from_, until_, same, isShort, free, least⟩ := ih found
        refine ⟨chosen, by omega, by omega, same, isShort, free, fun smaller atLeast below => ?_⟩
        rcases Nat.eq_or_lt_of_le atLeast with rfl | later
        · exact Option.isSome_iff_ne_none.mp owned
        · exact least smaller later below
      · next unowned =>
        cases found
        refine ⟨number, Nat.le_refl _, by omega, rfl, by simpa using short, ?_, ?_⟩
        · simpa [Table.contains] using unowned
        · intro smaller atLeast below
          omega

theorem firstFree?_free {config : Config} {owners : Table String} {name free : String}
    {number tries : Nat} (found : firstFree? config owners name number tries = some free) :
    owners.get? free = none := by
  obtain ⟨_, _, _, _, _, unowned, _⟩ := firstFree?_eq_some found
  exact unowned

section Numbered

variable {config : Config} {parent? : Option String} {owners : Table String}
  {operation name owner : String} {siblings rest : List (String × Slot)} {names : List String}

theorem giveNumbered_natural_eq_ok
    (given : giveNumbered config parent? owners ((operation, .natural name) :: rest) = .ok names) :
    ∃ others, giveNumbered config parent? owners rest = .ok others ∧ names = name :: others := by
  obtain ⟨others, later, same⟩ := Outcome.bind_eq_ok_iff.mp given
  exact ⟨others, later, (Except.ok.inj same).symm⟩

theorem giveNumbered_taken_eq_ok
    (given : giveNumbered config parent? owners ((operation, .taken name owner) :: rest) =
      .ok names) :
    ∃ free others,
      firstFree? config owners name 2 (config.disambiguationLimit - 1) = some free ∧
      giveNumbered config parent? (owners.insert free operation) rest = .ok others ∧
      names = free :: others := by
  simp only [giveNumbered] at given
  split at given
  · cases given
  · next free found =>
    obtain ⟨others, later, same⟩ := Outcome.bind_eq_ok_iff.mp given
    exact ⟨free, others, found, later, (Except.ok.inj same).symm⟩

theorem giveNumbered_length (given : giveNumbered config parent? owners siblings = .ok names) :
    names.length = siblings.length := by
  induction siblings generalizing owners names with
  | nil =>
    cases given
    rfl
  | cons sibling rest ih =>
    obtain ⟨operation, slot⟩ := sibling
    cases slot with
    | natural name =>
      obtain ⟨others, later, rfl⟩ := giveNumbered_natural_eq_ok given
      exact congrArg Nat.succ (ih later)
    | taken name owner =>
      obtain ⟨free, others, _, later, rfl⟩ := giveNumbered_taken_eq_ok given
      exact congrArg Nat.succ (ih later)

/-- Every name given out is one that its sibling keeps or one that nobody owned before. -/
theorem giveNumbered_origin (given : giveNumbered config parent? owners siblings = .ok names) :
    ∀ name ∈ names,
      name ∈ (siblings.map Prod.snd).filterMap Slot.kept? ∨ owners.get? name = none := by
  induction siblings generalizing owners names with
  | nil =>
    cases given
    simp
  | cons sibling rest ih =>
    obtain ⟨operation, slot⟩ := sibling
    cases slot with
    | natural kept =>
      obtain ⟨others, later, rfl⟩ := giveNumbered_natural_eq_ok given
      intro name member
      rcases List.mem_cons.mp member with atHead | atTail
      · exact Or.inl (List.mem_cons.mpr (Or.inl atHead))
      · rcases ih later name atTail with isKept | free
        · exact Or.inl (List.mem_cons_of_mem _ isKept)
        · exact Or.inr free
    | taken natural owner =>
      obtain ⟨free, others, found, later, rfl⟩ := giveNumbered_taken_eq_ok given
      intro name member
      rcases List.mem_cons.mp member with atHead | atTail
      · rw [atHead]
        exact Or.inr (firstFree?_free found)
      · rcases ih later name atTail with isKept | unowned
        · exact Or.inl isKept
        · right
          rw [Table.get?_insert] at unowned
          split at unowned
          · cases unowned
          · exact unowned

theorem giveNumbered_nodup
    (distinct : ((siblings.map Prod.snd).filterMap Slot.kept?).Nodup)
    (owned : ∀ name ∈ (siblings.map Prod.snd).filterMap Slot.kept?,
      ∃ owner, owners.get? name = some owner)
    (given : giveNumbered config parent? owners siblings = .ok names) : names.Nodup := by
  induction siblings generalizing owners names with
  | nil =>
    cases given
    exact List.nodup_nil
  | cons sibling rest ih =>
    obtain ⟨operation, slot⟩ := sibling
    cases slot with
    | natural kept =>
      obtain ⟨others, later, rfl⟩ := giveNumbered_natural_eq_ok given
      have parts := List.nodup_cons.mp distinct
      refine List.nodup_cons.mpr ⟨fun again => ?_, ih parts.2
        (fun name member => owned name (List.mem_cons_of_mem _ member)) later⟩
      rcases giveNumbered_origin later kept again with isKept | free
      · exact parts.1 isKept
      · obtain ⟨owner, found⟩ := owned kept List.mem_cons_self
        rw [found] at free
        cases free
    | taken natural owner =>
      obtain ⟨free, others, found, later, rfl⟩ := giveNumbered_taken_eq_ok given
      have unowned := firstFree?_free found
      refine List.nodup_cons.mpr ⟨fun again => ?_, ih distinct (fun name member => ?_) later⟩
      · rcases giveNumbered_origin later free again with isKept | unownedLater
        · obtain ⟨other, foundOther⟩ := owned free isKept
          rw [foundOther] at unowned
          cases unowned
        · simp at unownedLater
      · obtain ⟨other, foundOther⟩ := owned name member
        exact ⟨other, owned_insert unowned foundOther⟩

end Numbered

/-! ## Names that end in no digit -/

/-- Whether a name ends like a numbered one. -/
def endsInDigit (name : String) : Bool := name.toList.getLast?.any Char.isDigit

theorem endsInDigit_numbered (name : String) (number : Nat) :
    endsInDigit (numbered name number) := by
  have digits : Nat.toDigits 10 number ≠ [] := Nat.toDigits_ne_nil
  rw [endsInDigit, numbered, String.toList_append, Nat.toString_eq_ofList_toDigits,
    String.toList_ofList, List.getLast?_append_of_ne_nil _ digits,
    List.getLast?_eq_some_getLast digits, Option.any_some]
  exact Nat.isDigit_of_mem_toDigits (by decide) (by decide) (List.getLast_mem digits)

theorem endsInDigit_of_firstFree? {config : Config} {owners : Table String} {name free : String}
    {number tries : Nat} (found : firstFree? config owners name number tries = some free) :
    endsInDigit free := by
  obtain ⟨chosen, _, _, rfl, _⟩ := firstFree?_eq_some found
  exact endsInDigit_numbered name chosen

theorem mem_kept_iff {parent? : Option String} {owners : Table String} {operations : List String}
    {name : String} : name ∈ (giveNatural parent? owners operations).1.filterMap Slot.kept? ↔
      owners.get? name = none ∧ ∃ operation ∈ operations, natural parent? operation = name := by
  induction operations generalizing owners with
  | nil => simp [giveNatural]
  | cons operation rest ih =>
    simp only [giveNatural, List.exists_mem_cons_iff]
    cases found : owners.get? (natural parent? operation) with
    | some other =>
      simp only [List.filterMap_cons, Slot.kept?, ih]
      refine and_congr_right fun free => ⟨Or.inr, Or.rec (fun same => ?_) id⟩
      rw [same, free] at found
      cases found
    | none =>
      simp only [List.filterMap_cons, Slot.kept?, List.mem_cons, ih, Table.get?_insert]
      by_cases same : name = natural parent? operation
      · simp [same, found]
      · simp [same, Ne.symm same]

/-- Numbering gives out no more names that end in no digit. -/
theorem mem_giveNumbered_iff {config : Config} {parent? : Option String} {owners : Table String}
    {siblings : List (String × Slot)} {names : List String}
    (given : giveNumbered config parent? owners siblings = .ok names) {name : String}
    (plain : endsInDigit name = false) :
    name ∈ names ↔ name ∈ (siblings.map Prod.snd).filterMap Slot.kept? := by
  induction siblings generalizing owners names with
  | nil =>
    cases given
    rfl
  | cons sibling rest ih =>
    obtain ⟨operation, slot⟩ := sibling
    cases slot with
    | natural kept =>
      obtain ⟨others, later, rfl⟩ := giveNumbered_natural_eq_ok given
      simp only [List.map_cons, List.filterMap_cons, Slot.kept?, List.mem_cons, ih later]
    | taken natural owner =>
      obtain ⟨free, others, found, later, rfl⟩ := giveNumbered_taken_eq_ok given
      have differ : name ≠ free := by
        rintro rfl
        rw [endsInDigit_of_firstFree? found] at plain
        cases plain
      simp only [List.map_cons, List.filterMap_cons, Slot.kept?, List.mem_cons, differ,
        false_or, ih later]

/-- Where numbering fails, some sibling's natural name has an owner and no number helps. -/
theorem giveNumbered_error {config : Config} {parent? : Option String} {owners : Table String}
    {siblings : List (String × Slot)} {error : Error}
    (failed : giveNumbered config parent? owners siblings = .error error) :
    ∃ name first second, error = .methodConflict name first second parent? ∧
      (second, .taken name first) ∈ siblings := by
  induction siblings generalizing owners with
  | nil => cases failed
  | cons sibling rest ih =>
    obtain ⟨operation, slot⟩ := sibling
    cases slot with
    | natural kept =>
      rcases Outcome.bind_eq_error_iff.mp failed with later | ⟨others, _, impossible⟩
      · obtain ⟨name, first, second, same, member⟩ := ih later
        exact ⟨name, first, second, same, List.mem_cons_of_mem _ member⟩
      · cases impossible
    | taken natural owner =>
      simp only [giveNumbered] at failed
      split at failed
      · cases failed
        exact ⟨natural, owner, operation, rfl, List.mem_cons_self⟩
      · rcases Outcome.bind_eq_error_iff.mp failed with later | ⟨others, _, impossible⟩
        · obtain ⟨name, first, second, same, member⟩ := ih later
          exact ⟨name, first, second, same, List.mem_cons_of_mem _ member⟩
        · cases impossible

section Assign

variable {config : Config} {parent? : Option String} {reserved : Table String}
  {operations names : List String}

private theorem map_snd_zip_slots (parent? : Option String) (reserved : Table String)
    (operations : List String) :
    (operations.zip (giveNatural parent? reserved operations).1).map Prod.snd =
      (giveNatural parent? reserved operations).1 :=
  List.map_snd_zip (Nat.le_of_eq (giveNatural_length parent? reserved operations))

theorem assign_length (assigned : assign config parent? reserved operations = .ok names) :
    names.length = operations.length := by
  have paired := giveNumbered_length assigned
  rw [List.length_zip, giveNatural_length, Nat.min_self] at paired
  exact paired

theorem assign_nodup (assigned : assign config parent? reserved operations = .ok names) :
    names.Nodup := by
  refine giveNumbered_nodup ?_ (fun name member => ?_) assigned
  · rw [map_snd_zip_slots]
    exact giveNatural_kept_nodup parent? reserved operations
  · rw [map_snd_zip_slots] at member
    exact (giveNatural_kept member).2

theorem assign_not_reserved (assigned : assign config parent? reserved operations = .ok names) :
    ∀ name ∈ names, reserved.get? name = none := by
  intro name member
  rcases giveNumbered_origin assigned name member with isKept | free
  · rw [map_snd_zip_slots] at isKept
    exact (giveNatural_kept isKept).1
  · cases found : reserved.get? name with
    | none => rfl
    | some owner =>
      have owned := giveNatural_owned parent? found operations
      rw [owned] at free
      cases free

theorem mem_assign_iff (assigned : assign config parent? reserved operations = .ok names)
    {name : String} (plain : endsInDigit name = false) : name ∈ names ↔
      reserved.get? name = none ∧ ∃ operation ∈ operations, natural parent? operation = name := by
  rw [mem_giveNumbered_iff assigned plain, map_snd_zip_slots, mem_kept_iff]

private theorem giveNatural_distinct {owners : Table String} {operations : List String}
    (distinct : operations.Nodup) (free : ∀ name ∈ operations, owners.get? name = none) :
    (giveNatural none owners operations).1 = operations.map .natural := by
  induction operations generalizing owners with
  | nil => rfl
  | cons operation rest ih =>
    obtain ⟨fresh, later⟩ := List.nodup_cons.mp distinct
    have isFree : owners.get? (natural none operation) = none :=
      free operation List.mem_cons_self
    have stillFree : ∀ name ∈ rest,
        (owners.insert (natural none operation) operation).get? name = none := by
      intro name member
      have differ : name ≠ natural none operation := by
        rintro rfl
        exact fresh member
      rw [Table.get?_insert, if_neg differ]
      exact free name (List.mem_cons_of_mem _ member)
    simp only [giveNatural, isFree, List.map_cons, ih later stillFree]
    rfl

/-- Distinct operations at the root are called by their own names. -/
theorem assign_of_distinct (config : Config) {operations : List String}
    (distinct : operations.Nodup) : assign config none ∅ operations = .ok operations := by
  have free : ∀ name ∈ operations, (∅ : Table String).get? name = none :=
    fun name _ => Table.get?_empty name
  have slots := giveNatural_distinct distinct free
  have kept (owners : Table String) (items : List String) :
      giveNumbered config none owners (items.zip (items.map .natural)) = .ok items := by
    induction items with
    | nil => rfl
    | cons item rest ih =>
      rw [List.map_cons, List.zip_cons_cons, giveNumbered, ih]
      rfl
  simp only [assign, slots]
  exact kept _ operations

/-- Assigning fails at an operation whose natural name has an owner, who is named. -/
theorem assign_error {error : Error}
    (failed : assign config parent? reserved operations = .error error) :
    ∃ name first second, error = .methodConflict name first second parent? ∧
      second ∈ operations ∧
      (giveNatural parent? reserved operations).2.get? name = some first := by
  obtain ⟨name, first, second, same, member⟩ := giveNumbered_error failed
  have parts := List.of_mem_zip member
  exact ⟨name, first, second, same, parts.1, giveNatural_taken parts.2⟩

end Assign

end MethodName

end ChainedSdk
