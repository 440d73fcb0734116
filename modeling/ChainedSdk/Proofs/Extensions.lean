import ChainedSdk.Proofs.Parents
/-!
# Parents with shorter names

To extend a name is a strict order: a longer name that goes on with a new word still does after
another word. So where every candidate has a name that its child extends, nothing above a candidate
can be the child, no candidate is ever passed over, and everybody is given the first one.
-/

namespace ChainedSdk

namespace Names

open Text

/-- Some characters are those of a new word: a capital, or underscores and then a letter. -/
inductive StartsWord : List Char → Prop
  | capital {char : Char} {rest : List Char} (ordinary : char ≠ '_') (upper : isUpper char) :
      StartsWord (char :: rest)
  | spaced {rest more : List Char} {first : Char}
      (parted : rest.dropWhile (· = '_') = first :: more) (letter : isLetter first) :
      StartsWord ('_' :: rest)

theorem StartsWord.append {first : List Char} (word : StartsWord first) (second : List Char) :
    StartsWord (first ++ second) := by
  cases word with
  | capital ordinary upper => exact .capital ordinary upper
  | @spaced rest more char parted letter =>
    have further : (rest ++ second).dropWhile (· = '_') = char :: (more ++ second) := by
      rw [List.dropWhile_append, parted]
      rfl
    exact .spaced further letter

theorem isExtension_iff {child parent : String} : isExtension child parent ↔
    ∃ rest, child.toList = parent.toList ++ rest ∧ StartsWord rest := by
  have goesOn (rest : List Char) :
      suffix? parent child = some rest ↔ child.toList = parent.toList ++ rest := by
    rw [suffix?, List.isPrefixOf?_eq_some_iff_append_eq]
    exact eq_comm
  unfold isExtension
  constructor
  · intro longer
    split at longer
    · cases longer
    · cases longer
    · next rest found =>
      refine ⟨'_' :: rest, (goesOn _).mp found, ?_⟩
      cases parted : rest.dropWhile (· = '_') with
      | nil =>
        rw [parted] at longer
        cases longer
      | cons first more =>
        rw [parted] at longer
        exact .spaced parted longer
    · next char rest ordinary found =>
      refine ⟨char :: rest, (goesOn _).mp found, .capital ?_ longer⟩
      rintro rfl
      exact ordinary rfl
  · rintro ⟨rest, found, word⟩
    rw [(goesOn rest).mpr found]
    cases word with
    | capital ordinary upper => simp [upper]
    | spaced parted letter => simp [parted, letter]

theorem isExtension_trans {low middle high : String} (lower : isExtension low middle)
    (upper : isExtension middle high) : isExtension low high := by
  obtain ⟨rest, isLow, _⟩ := isExtension_iff.mp lower
  obtain ⟨more, isMiddle, word⟩ := isExtension_iff.mp upper
  refine isExtension_iff.mpr ⟨more ++ rest, ?_, word.append rest⟩
  rw [isLow, isMiddle, List.append_assoc]

theorem length_lt_of_isExtension {child parent : String} (longer : isExtension child parent) :
    parent.length < child.length := by
  obtain ⟨rest, isChild, word⟩ := isExtension_iff.mp longer
  have some_ : 0 < rest.length := by
    cases word with
    | capital _ _ => exact Nat.succ_pos _
    | spaced _ _ => exact Nat.succ_pos _
  rw [← String.length_toList, ← String.length_toList, isChild, List.length_append]
  omega

end Names

open Names

namespace Parents

variable {parents : Parents}

def Extending (parents : Parents) : Prop :=
  ∀ child parent, parents.get? child = some parent → isExtension child parent

theorem extending_empty : Extending ∅ := by
  intro child parent impossible
  simp at impossible

theorem Extending.insert (extending : parents.Extending) {child parent : String}
    (longer : isExtension child parent) : Extending (parents.insert child parent) := by
  intro lower upper edge
  rw [Table.get?_insert] at edge
  split at edge
  · next same =>
    cases edge
    exact same ▸ longer
  · exact extending lower upper edge

theorem Extending.acyclic (extending : parents.Extending) : parents.Acyclic :=
  ⟨String.length, fun child parent edge => length_lt_of_isExtension (extending child parent edge)⟩

theorem Extending.of_mem_lineage (extending : parents.Extending) {start name : String}
    (member : name ∈ parents.lineage start) : name = start ∨ isExtension start name := by
  have climb := extending.acyclic.climb_lineage start
  generalize parents.lineage start = names at climb member
  induction climb with
  | root _ => exact Or.inl (List.mem_singleton.mp member)
  | @step start parent above hasParent _ ih =>
    rcases List.mem_cons.mp member with here | higher
    · exact Or.inl here
    · right
      rcases ih higher with rfl | longer
      · exact extending start name hasParent
      · exact isExtension_trans (extending start parent hasParent) longer

end Parents

namespace ParentChoice

def first? (candidates : Candidates) (name : String) : Option String :=
  ((candidates.get? name).getD []).head?.map (·.parent)

def Extended (candidates : Candidates) : Prop :=
  ∀ name, ∀ candidate ∈ (candidates.get? name).getD [], isExtension name candidate.parent

variable {parents : Parents} {candidates : Candidates}

/-- An operation does not stand below itself under a candidate with a shorter name. -/
theorem not_closesCycle (extending : parents.Extending) {operation : String}
    {candidate : Candidate} (longer : isExtension operation candidate.parent) :
    closesCycle parents operation candidate = false := by
  have shorter := length_lt_of_isExtension longer
  refine Bool.eq_false_iff.mpr fun closes => ?_
  have above : operation ∈ parents.lineage candidate.parent := by
    simpa [closesCycle] using closes
  rcases extending.of_mem_lineage above with same | other
  · rw [← same] at shorter
    omega
  · have := length_lt_of_isExtension other
    omega

theorem get?_record (parents : Parents) (choice : ParentChoice) (name : String) :
    (record parents choice).get? name =
      (if name = choice.operation then choice.parent? else none).or (parents.get? name) := by
  unfold record
  cases choice.parent? with
  | none => simp
  | some parent =>
    rw [Table.get?_insert]
    split
    · rfl
    · rfl

theorem choose_of_extended (extending : parents.Extending) {operation : String}
    {ranked : List Candidate}
    (longer : ∀ candidate ∈ ranked, isExtension operation candidate.parent) :
    choose parents operation ranked = ⟨operation, [], ranked.head?.map (·.parent)⟩ := by
  cases ranked with
  | nil => rfl
  | cons candidate rest =>
    have opens := not_closesCycle extending (longer candidate List.mem_cons_self)
    simp [choose, opens]

theorem extending_record (extending : parents.Extending) {operation : String}
    {ranked : List Candidate}
    (longer : ∀ candidate ∈ ranked, isExtension operation candidate.parent) :
    (record parents (choose parents operation ranked)).Extending := by
  rw [choose_of_extended extending longer]
  cases ranked with
  | nil => exact extending
  | cons candidate rest => exact extending.insert (longer candidate List.mem_cons_self)

/-- The loop passes nobody over and gives every operation its first candidate. -/
theorem chooseAll_of_extended (extended : Extended candidates) (extending : parents.Extending)
    (operations : List Operation) :
    (chooseAll candidates parents operations).2.Extending ∧
      (∀ choice ∈ (chooseAll candidates parents operations).1, choice.skipped = []) ∧
      ∀ name, (chooseAll candidates parents operations).2.get? name =
        (if name ∈ operations.map (·.name) then first? candidates name else none).or
          (parents.get? name) := by
  induction operations generalizing parents with
  | nil =>
    refine ⟨extending, ?_, ?_⟩
    · intro _ impossible
      cases impossible
    · intro name
      simp [chooseAll]
  | cons operation rest ih =>
    have longer := extended operation.name
    have chosen := choose_of_extended extending longer
    obtain ⟨stays, unskipped, found⟩ := ih (extending_record extending longer)
    refine ⟨stays, ?_, ?_⟩
    · intro choice member
      rcases List.mem_cons.mp member with rfl | later
      · rw [chosen]
      · exact unskipped choice later
    · intro name
      refine (found name).trans ?_
      rw [get?_record, chosen, List.map_cons]
      by_cases here : name = operation.name
      · subst here
        by_cases again : operation.name ∈ rest.map (·.name)
        · simp [again, first?, ← Option.or_assoc]
        · simp [again, first?]
      · simp [here]

end ParentChoice

end ChainedSdk
