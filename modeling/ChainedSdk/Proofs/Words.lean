import ChainedSdk.Names
/-!
# Names without underscores

Pascal case leaves no underscore in a name, whatever the alphabet. So the underscores in the name of
a nested model are the ones between its parts, and the part before the first one is the name of the
model that it belongs to.
-/

namespace ChainedSdk.Text

private theorem ofNat_ne_underscore {code : Nat} (other : code ≠ 95) : Char.ofNat code ≠ '_' := by
  intro same
  have value : (Char.ofNat code).toNat = 95 := by rw [same]; rfl
  by_cases valid : code.isValidChar
  · rw [Char.ofNat, dif_pos valid] at value
    exact other value
  · rw [Char.ofNat, dif_neg valid] at value
    cases value

/-- No run of a case mapping passes the underscore. -/
private def avoidsUnderscore (run : Nat × Nat × Nat × Nat) : Bool :=
  95 < run.2.2.2 || run.2.2.2 + (run.2.1 - run.1) < 95

private theorem mappedBy_ne_underscore {runs : List (Nat × Nat × Nat × Nat)}
    (avoiding : runs.all avoidsUnderscore = true) {char mapped : Char}
    (found : mappedBy runs char = some mapped) : mapped ≠ '_' := by
  unfold mappedBy at found
  obtain ⟨run, isRun, rfl⟩ := Option.map_eq_some_iff.mp found
  have avoids := List.all_eq_true.mp avoiding run (List.mem_of_find?_eq_some isRun)
  have onIt := List.find?_some isRun
  simp only [avoidsUnderscore, Bool.or_eq_true, decide_eq_true_eq] at avoids
  simp only [onRun, Bool.and_eq_true, decide_eq_true_eq, beq_iff_eq] at onIt
  refine ofNat_ne_underscore ?_
  omega

private theorem getD_mappedBy_ne_underscore {runs : List (Nat × Nat × Nat × Nat)}
    (avoiding : runs.all avoidsUnderscore = true) {char : Char} (other : char ≠ '_') :
    (mappedBy runs char).getD char ≠ '_' := by
  cases found : mappedBy runs char with
  | none => exact other
  | some mapped => exact mappedBy_ne_underscore avoiding found

private theorem toNat_le_of_isCapital {char : Char} (capital : isCapital char = true) :
    65 ≤ char.toNat ∧ char.toNat ≤ 90 := by
  simp only [isCapital, Bool.and_eq_true, decide_eq_true_eq] at capital
  exact capital

private theorem toNat_le_of_isSmall {char : Char} (small : isSmall char = true) :
    97 ≤ char.toNat ∧ char.toNat ≤ 122 := by
  simp only [isSmall, Bool.and_eq_true, decide_eq_true_eq] at small
  exact small

theorem not_mem_lowerOf {char : Char} (other : char ≠ '_') : '_' ∉ lowerOf char := by
  intro member
  unfold lowerOf at member
  split at member
  · split at member
    · next capital =>
      have range := toNat_le_of_isCapital capital
      have differs : Char.ofNat (char.toNat + 32) ≠ '_' := ofNat_ne_underscore (by omega)
      exact differs (List.mem_singleton.mp member).symm
    · exact other (List.mem_singleton.mp member).symm
  · split at member
    · exact absurd member (by decide)
    · have avoiding : lowerRuns.all avoidsUnderscore = true := by decide +kernel
      exact getD_mappedBy_ne_underscore avoiding other (List.mem_singleton.mp member).symm

theorem not_mem_titleOf {char : Char} (other : char ≠ '_') : '_' ∉ titleOf char := by
  intro member
  unfold titleOf at member
  split at member
  · split at member
    · next small =>
      have range := toNat_le_of_isSmall small
      have differs : Char.ofNat (char.toNat - 32) ≠ '_' := ofNat_ne_underscore (by omega)
      exact differs (List.mem_singleton.mp member).symm
    · exact other (List.mem_singleton.mp member).symm
  · split at member
    · next row found =>
      have rows : ∀ row ∈ titleSequences, 95 ∉ row.2 := by decide +kernel
      obtain ⟨code, isCode, same⟩ := List.mem_map.mp member
      have differs : code ≠ 95 := fun equal =>
        rows row (List.mem_of_find?_eq_some found) (equal ▸ isCode)
      exact ofNat_ne_underscore differs same
    · have avoiding : titleRuns.all avoidsUnderscore = true := by decide +kernel
      exact getD_mappedBy_ne_underscore avoiding other (List.mem_singleton.mp member).symm

theorem not_mem_lowerAfter {before chars : List Char} (absent : '_' ∉ chars) :
    '_' ∉ lowerAfter before chars := by
  induction chars generalizing before with
  | nil => exact List.not_mem_nil
  | cons char rest ih =>
    rw [List.mem_cons, not_or] at absent
    intro member
    rcases List.mem_append.mp member with atHead | later
    · split at atHead
      · split at atHead
        · exact absurd atHead (by decide)
        · exact absurd atHead (by decide)
      · exact not_mem_lowerOf (fun same => absent.1 same.symm) atHead
    · exact ih absent.2 later

theorem not_mem_capitalize {chars : List Char} (absent : '_' ∉ chars) :
    '_' ∉ capitalize chars := by
  cases chars with
  | nil => exact List.not_mem_nil
  | cons char rest =>
    rw [List.mem_cons, not_or] at absent
    intro member
    rcases List.mem_append.mp member with atHead | later
    · exact not_mem_titleOf (fun same => absent.1 same.symm) atHead
    · exact not_mem_lowerAfter absent.2 later

theorem not_mem_of_mem_splitUnderscores {chars part : List Char}
    (isPart : part ∈ splitUnderscores chars) : '_' ∉ part := by
  induction chars generalizing part with
  | nil =>
    rw [splitUnderscores, List.mem_singleton] at isPart
    rw [isPart]
    exact List.not_mem_nil
  | cons char rest ih =>
    rw [splitUnderscores] at isPart
    split at isPart
    · rcases List.mem_cons.mp isPart with same | later
      · rw [same]
        exact List.not_mem_nil
      · exact ih later
    · next other =>
      split at isPart
      · rw [List.mem_singleton.mp isPart]
        exact fun member => other (List.mem_singleton.mp member).symm
      · next head parts found =>
        rcases List.mem_cons.mp isPart with same | later
        · rw [same, List.mem_cons, not_or]
          exact ⟨fun equal => other equal.symm, ih (found ▸ List.mem_cons_self)⟩
        · exact ih (found ▸ List.mem_cons_of_mem _ later)

theorem not_mem_pascalCase (name : String) : '_' ∉ (pascalCase name).toList := by
  unfold pascalCase
  rw [String.toList_ofList, List.mem_flatMap]
  rintro ⟨part, isPart, member⟩
  exact not_mem_capitalize (not_mem_of_mem_splitUnderscores isPart) member

end ChainedSdk.Text

namespace ChainedSdk.Names

open Text

theorem not_mem_operationModel (operation : String) (kind : OperationKind) :
    '_' ∉ (operationModel operation kind).toList := by
  unfold operationModel
  rw [String.toList_append, List.mem_append, not_or]
  exact ⟨not_mem_pascalCase operation, not_mem_pascalCase kind.text⟩

theorem not_mem_fragmentModel (fragment : String) : '_' ∉ (fragmentModel fragment).toList := by
  unfold fragmentModel
  rw [String.toList_append, List.mem_append, not_or]
  exact ⟨not_mem_pascalCase fragment, by decide⟩

/-- What follows a whole part of a name: nothing, or an underscore and more. -/
def IsTail (tail : List Char) : Prop := tail = [] ∨ ∃ rest, tail = '_' :: rest

theorem isTail_nil : IsTail [] := Or.inl rfl

theorem isTail_underscore (rest : List Char) : IsTail ('_' :: rest) := Or.inr ⟨rest, rfl⟩

theorem toList_nestedModel (parent key : String) :
    (nestedModel parent key).toList = parent.toList ++ '_' :: (pascalCase key).toList := by
  unfold nestedModel
  rw [String.toList_append, String.toList_append, List.append_assoc]
  rfl

/-- A part without underscores and what follows it are told apart. -/
theorem eq_of_append_tail {first second firstTail secondTail : List Char}
    (plainFirst : '_' ∉ first) (plainSecond : '_' ∉ second) (endsFirst : IsTail firstTail)
    (endsSecond : IsTail secondTail) (same : first ++ firstTail = second ++ secondTail) :
    first = second ∧ firstTail = secondTail := by
  induction first generalizing second with
  | nil =>
    cases second with
    | nil => exact ⟨rfl, same⟩
    | cons char rest =>
      rcases endsFirst with rfl | ⟨more, rfl⟩
      · cases same
      · obtain ⟨rfl, _⟩ := List.cons.inj same
        exact absurd List.mem_cons_self plainSecond
  | cons char rest ih =>
    cases second with
    | nil =>
      rcases endsSecond with rfl | ⟨more, rfl⟩
      · cases same
      · obtain ⟨rfl, _⟩ := List.cons.inj same
        exact absurd List.mem_cons_self plainFirst
    | cons other more =>
      obtain ⟨rfl, later⟩ := List.cons.inj same
      have parts := ih (fun member => plainFirst (List.mem_cons_of_mem _ member))
        (fun member => plainSecond (List.mem_cons_of_mem _ member)) later
      exact ⟨congrArg (char :: ·) parts.1, parts.2⟩

/-- A name is the name of a model or of one nested in it. -/
def Under (parent name : String) : Prop :=
  ∃ tail, IsTail tail ∧ name.toList = parent.toList ++ tail

theorem under_self (name : String) : Under name name :=
  ⟨[], isTail_nil, (List.append_nil _).symm⟩

theorem under_nestedModel (parent key : String) : Under parent (nestedModel parent key) :=
  ⟨_, isTail_underscore _, toList_nestedModel parent key⟩

theorem Under.trans {first second third : String} (upper : Under first second)
    (lower : Under second third) : Under first third := by
  obtain ⟨upperTail, upperEnds, isSecond⟩ := upper
  obtain ⟨lowerTail, lowerEnds, isThird⟩ := lower
  refine ⟨upperTail ++ lowerTail, ?_, by rw [isThird, isSecond, List.append_assoc]⟩
  rcases upperEnds with rfl | ⟨rest, rfl⟩
  · exact lowerEnds
  · exact isTail_underscore _

theorem ne_of_under_nestedModel {parent key name : String}
    (under : Under (nestedModel parent key) name) : name ≠ parent := by
  rintro rfl
  obtain ⟨tail, _, same⟩ := under
  have lengths := congrArg List.length same
  rw [toList_nestedModel, List.length_append, List.length_append, List.length_cons] at lengths
  omega

/-- A name lies under one nested model only. -/
theorem nestedModel_eq_of_under {parent key other name : String}
    (under : Under (nestedModel parent key) name) (underOther : Under (nestedModel parent other) name) :
    nestedModel parent key = nestedModel parent other := by
  obtain ⟨tail, ends, same⟩ := under
  obtain ⟨otherTail, otherEnds, sameOther⟩ := underOther
  rw [toList_nestedModel, List.append_assoc] at same sameOther
  have parts := List.append_cancel_left (same.symm.trans sameOther)
  have words := (eq_of_append_tail (not_mem_pascalCase key) (not_mem_pascalCase other) ends
    otherEnds (List.cons.inj parts).2).1
  unfold nestedModel
  rw [String.toList_inj.mp words]

theorem eq_of_under {first second name : String} (plainFirst : '_' ∉ first.toList)
    (plainSecond : '_' ∉ second.toList) (under : Under first name)
    (underSecond : Under second name) : first = second := by
  obtain ⟨tail, ends, same⟩ := under
  obtain ⟨otherTail, otherEnds, sameOther⟩ := underSecond
  exact String.toList_inj.mp (eq_of_append_tail plainFirst plainSecond ends otherEnds
    (same.symm.trans sameOther)).1

end ChainedSdk.Names
