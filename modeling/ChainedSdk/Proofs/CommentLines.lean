import ChainedSdk.Text.Comment
import Mathlib.Data.List.Chain
import Mathlib.Data.List.Infix
import Mathlib.Data.List.TakeWhile
/-!
# Lines of comments

A comment line has no end of a comment in it, single spaces for blanks and none at its ends, and at
most 120 characters. Every text becomes such a line, and a line that is one already stays as it is.
A text that is short enough keeps all of its characters but the blanks.
-/

namespace ChainedSdk.Text

/-- A text that can stand in a comment of one line. -/
structure OneLine (chars : List Char) : Prop where
  unclosed : ¬['*', '/'] <:+: chars
  plain : ∀ char ∈ chars, isBlank char → char = ' '
  single : ¬[' ', ' '] <:+: chars
  first : chars.head? ≠ some ' '
  last : chars.getLast? ≠ some ' '
  short : chars.length ≤ 120

/-- A character is nowhere followed by a certain other one. -/
def Lacks (first second : Char) (chars : List Char) : Prop :=
  chars.IsChain fun char next => ¬(char = first ∧ next = second)

/-- What stands in a text beside its blanks. -/
def visible (chars : List Char) : List Char := chars.filter fun char => !isBlank char

variable {first second : Char} {chars : List Char}

theorem lacks_iff : Lacks first second chars ↔ ¬[first, second] <:+: chars := by
  rw [Lacks, List.isChain_iff_forall_rel_of_append_cons_cons]
  constructor
  · rintro apart ⟨before, after, whole⟩
    have divided : chars = before ++ first :: second :: after := by
      rw [← whole, List.append_assoc]
      rfl
    exact apart divided ⟨rfl, rfl⟩
  · rintro absent char next before after rfl ⟨rfl, rfl⟩
    exact absent ⟨before, after, by rw [List.append_assoc]; rfl⟩

theorem lacks_cons {char : Char} : Lacks first second (char :: chars) ↔
    (char = first → chars.head? ≠ some second) ∧ Lacks first second chars := by
  rw [Lacks, List.isChain_cons]
  refine and_congr_left fun _ => ?_
  constructor
  · exact fun apart isFirst isSecond => apart second isSecond ⟨isFirst, rfl⟩
  · rintro apart next isNext ⟨isFirst, rfl⟩
    exact apart isFirst isNext

theorem Lacks.of_part {part : List Char} (lacks : Lacks first second chars)
    (isPart : part <:+: chars) : Lacks first second part := List.IsChain.infix lacks isPart

theorem visible_cons (char : Char) (chars : List Char) : visible (char :: chars) =
    if isBlank char then visible chars else char :: visible chars := by
  rw [visible, List.filter_cons]
  cases isBlank char with
  | true => rfl
  | false => rfl

theorem visible_append (first second : List Char) :
    visible (first ++ second) = visible first ++ visible second := List.filter_append _ _

theorem visible_eq_nil (blank : ∀ char ∈ chars, isBlank char = true) : visible chars = [] := by
  refine List.filter_eq_nil_iff.mpr fun char member => ?_
  simp [blank char member]

/-! ## Ends of comments -/

theorem head?_breakCommentEnds (chars : List Char) :
    (breakCommentEnds chars).head? = chars.head? := by
  induction chars using breakCommentEnds.induct with
  | case1 rest ih => rfl
  | case2 char rest other ih => rw [breakCommentEnds.eq_2 char rest other]; rfl
  | case3 => rfl

theorem lacks_breakCommentEnds (chars : List Char) : Lacks '*' '/' (breakCommentEnds chars) := by
  induction chars using breakCommentEnds.induct with
  | case1 rest ih =>
    rw [breakCommentEnds, lacks_cons, lacks_cons, lacks_cons]
    exact ⟨fun _ => by simp, by simp, by simp, ih⟩
  | case2 char rest other ih =>
    rw [breakCommentEnds.eq_2 char rest other, lacks_cons, head?_breakCommentEnds]
    refine ⟨fun isStar isSlash => ?_, ih⟩
    obtain ⟨more, rfl⟩ := List.head?_eq_some_iff.mp isSlash
    exact other more isStar rfl
  | case3 => exact .nil

theorem breakCommentEnds_eq_self (unclosed : Lacks '*' '/' chars) :
    breakCommentEnds chars = chars := by
  induction chars using breakCommentEnds.induct with
  | case1 rest ih => exact absurd rfl ((lacks_cons.mp unclosed).1 rfl)
  | case2 char rest other ih =>
    rw [breakCommentEnds.eq_2 char rest other, ih (lacks_cons.mp unclosed).2]
  | case3 => rfl

theorem visible_breakCommentEnds (chars : List Char) :
    visible (breakCommentEnds chars) = visible chars := by
  induction chars using breakCommentEnds.induct with
  | case1 rest ih => exact congrArg (fun rest => '*' :: '/' :: rest) ih
  | case2 char rest other ih =>
    rw [breakCommentEnds.eq_2 char rest other, visible_cons, visible_cons, ih]
  | case3 => rfl

/-! ## Runs of blanks -/

/-- What a run of blanks leaves is written before what follows it. -/
theorem head?_collapseBlanksFrom_true (chars : List Char) :
    (collapseBlanksFrom true chars).head? ≠ some ' ' := by
  induction chars with
  | nil => simp [collapseBlanksFrom]
  | cons char rest ih =>
    rw [collapseBlanksFrom]
    split
    · exact ih
    · next visible =>
      intro isSpace
      exact visible (Option.some.inj isSpace ▸ by decide)

/-- Only a space may come to stand where another character stood. -/
theorem head?_of_head?_collapseBlanks {chars : List Char} {char : Char} (other : char ≠ ' ')
    (isHead : (collapseBlanks chars).head? = some char) : chars.head? = some char := by
  cases chars with
  | nil => cases isHead
  | cons head rest =>
    rw [collapseBlanks, collapseBlanksFrom] at isHead
    split at isHead
    · exact absurd (Option.some.inj isHead).symm other
    · exact isHead

theorem eq_space_of_mem_collapseBlanksFrom {chars : List Char} {afterBlank : Bool} {char : Char}
    (member : char ∈ collapseBlanksFrom afterBlank chars) (blank : isBlank char = true) :
    char = ' ' := by
  induction chars generalizing afterBlank with
  | nil => cases member
  | cons head rest ih =>
    rw [collapseBlanksFrom] at member
    split at member
    · split at member
      · exact ih member
      · rcases List.mem_cons.mp member with isHead | later
        · exact isHead
        · exact ih later
    · next visible =>
      rcases List.mem_cons.mp member with rfl | later
      · exact absurd blank visible
      · exact ih later

theorem lacks_space_collapseBlanksFrom (afterBlank : Bool) (chars : List Char) :
    Lacks ' ' ' ' (collapseBlanksFrom afterBlank chars) := by
  induction chars generalizing afterBlank with
  | nil => exact .nil
  | cons char rest ih =>
    rw [collapseBlanksFrom]
    split
    · split
      · exact ih true
      · exact lacks_cons.mpr ⟨fun _ => head?_collapseBlanksFrom_true rest, ih true⟩
    · next visible =>
      refine lacks_cons.mpr ⟨fun isSpace => ?_, ih false⟩
      exact absurd (isSpace ▸ by decide) visible

theorem Lacks.collapseBlanksFrom (unclosed : Lacks '*' '/' chars) (afterBlank : Bool) :
    Lacks '*' '/' (collapseBlanksFrom afterBlank chars) := by
  induction chars generalizing afterBlank with
  | nil => exact .nil
  | cons char rest ih =>
    obtain ⟨here, later⟩ := lacks_cons.mp unclosed
    rw [Text.collapseBlanksFrom]
    split
    · split
      · exact ih later true
      · exact lacks_cons.mpr ⟨fun impossible => absurd impossible (by decide), ih later true⟩
    · refine lacks_cons.mpr ⟨fun isStar isSlash => here isStar ?_, ih later false⟩
      exact head?_of_head?_collapseBlanks (by decide) isSlash

theorem visible_collapseBlanksFrom (afterBlank : Bool) (chars : List Char) :
    visible (collapseBlanksFrom afterBlank chars) = visible chars := by
  induction chars generalizing afterBlank with
  | nil => rfl
  | cons char rest ih =>
    rw [collapseBlanksFrom, visible_cons]
    split
    · split
      · exact ih true
      · rw [visible_cons, ih, if_pos (by decide)]
    · next visible => rw [visible_cons, ih, if_neg visible]

theorem collapseBlanksFrom_eq_self {afterBlank : Bool}
    (plain : ∀ char ∈ chars, isBlank char → char = ' ') (single : Lacks ' ' ' ' chars)
    (apart : afterBlank → chars.head? ≠ some ' ') :
    collapseBlanksFrom afterBlank chars = chars := by
  induction chars generalizing afterBlank with
  | nil => rfl
  | cons char rest ih =>
    obtain ⟨plainHead, plainRest⟩ := List.forall_mem_cons.mp plain
    obtain ⟨singleHead, singleRest⟩ := lacks_cons.mp single
    rw [collapseBlanksFrom]
    split
    · next blank =>
      have isSpace := plainHead blank
      rw [if_neg fun after => apart after (congrArg some isSpace),
        ih plainRest singleRest fun _ => singleHead isSpace, isSpace]
    · rw [ih plainRest singleRest (fun impossible => absurd impossible Bool.false_ne_true)]

/-! ## Cutting and trimming -/

theorem length_truncateComment (chars : List Char) : (truncateComment chars).length ≤ 120 := by
  unfold truncateComment
  split
  · rw [List.length_append, List.length_take]
    exact Nat.add_le_add_right (Nat.min_le_left _ _) 3
  · next short => exact Nat.not_lt.mp short

theorem mem_truncateComment {char : Char} (member : char ∈ truncateComment chars) :
    char ∈ chars ∨ char = '.' := by
  unfold truncateComment at member
  split at member
  · refine (List.mem_append.mp member).imp List.mem_of_mem_take fun isDot => ?_
    simpa using isDot
  · exact Or.inl member

theorem Lacks.truncateComment (lacks : Lacks first second chars) (other : second ≠ '.') :
    Lacks first second (truncateComment chars) := by
  unfold Text.truncateComment
  split
  · refine List.IsChain.append (List.IsChain.take lacks _) ?_ ?_
    · simp [other.symm]
    · rintro char _ next isDot ⟨_, rfl⟩
      exact other (Option.some.inj isDot).symm
  · exact lacks

theorem exists_trimBy (drops : Char → Bool) (chars : List Char) : ∃ before after,
    chars = before ++ trimBy drops chars ++ after ∧ (∀ char ∈ before, drops char = true) ∧
      ∀ char ∈ after, drops char = true := by
  refine ⟨chars.takeWhile drops, ((chars.dropWhile drops).reverse.takeWhile drops).reverse, ?_,
    fun _ => List.mem_takeWhile_imp, fun _ member => ?_⟩
  · have rest := congrArg List.reverse
      (List.takeWhile_append_dropWhile (p := drops) (l := (chars.dropWhile drops).reverse))
    rw [List.reverse_append, List.reverse_reverse] at rest
    rw [trimBy, List.append_assoc, rest, List.takeWhile_append_dropWhile]
  · exact List.mem_takeWhile_imp (List.mem_reverse.mp member)

theorem trimBy_infix (drops : Char → Bool) (chars : List Char) : trimBy drops chars <:+: chars := by
  obtain ⟨before, after, whole, _⟩ := exists_trimBy drops chars
  exact ⟨before, after, whole.symm⟩

theorem visible_trimBy (chars : List Char) : visible (trimBy isBlank chars) = visible chars := by
  obtain ⟨before, after, whole, blankBefore, blankAfter⟩ := exists_trimBy isBlank chars
  conv_rhs => rw [whole]
  rw [visible_append, visible_append, visible_eq_nil blankBefore, visible_eq_nil blankAfter,
    List.nil_append, List.append_nil]

private theorem drops_head?_dropWhile {drops : Char → Bool} (chars : List Char) {char : Char}
    (isHead : (chars.dropWhile drops).head? = some char) : drops char = false := by
  have kept := List.head?_dropWhile_not drops chars
  rw [isHead] at kept
  exact kept

theorem drops_head?_trimBy {drops : Char → Bool} {char : Char}
    (isHead : (trimBy drops chars).head? = some char) : drops char = false := by
  have isPrefix : trimBy drops chars <+: chars.dropWhile drops := by
    rw [trimBy, ← List.reverse_suffix, List.reverse_reverse]
    exact List.dropWhile_suffix drops
  obtain ⟨after, whole⟩ := isPrefix
  refine drops_head?_dropWhile chars ?_
  rw [← whole, List.head?_append, isHead]
  rfl

theorem drops_getLast?_trimBy {drops : Char → Bool} {char : Char}
    (isLast : (trimBy drops chars).getLast? = some char) : drops char = false := by
  rw [trimBy, List.getLast?_reverse] at isLast
  exact drops_head?_dropWhile _ isLast

theorem trimBy_eq_self {drops : Char → Bool}
    (first : ∀ char, chars.head? = some char → drops char = false)
    (last : ∀ char, chars.getLast? = some char → drops char = false) :
    trimBy drops chars = chars := by
  have keeps (kept : List Char) (head : ∀ char, kept.head? = some char → drops char = false) :
      kept.dropWhile drops = kept := by
    cases kept with
    | nil => rfl
    | cons char rest => exact List.dropWhile_cons_of_neg (by simp [head char rfl])
  have keepsReverse := keeps chars.reverse fun char isHead =>
    last char (List.head?_reverse ▸ isHead)
  rw [trimBy, keeps chars first, keepsReverse, List.reverse_reverse]

/-! ## Whole lines -/

/-- What a text comes to before it is cut. -/
def unfolded (text : String) : List Char := collapseBlanks (breakCommentEnds text.toList)

theorem toList_commentLine (text : String) :
    (commentLine text).toList = trimBy isBlank (truncateComment (unfolded text)) :=
  String.toList_ofList

theorem oneLine_commentLine (text : String) : OneLine (commentLine text).toList := by
  rw [toList_commentLine]
  have inside := trimBy_infix isBlank (truncateComment (unfolded text))
  have unclosed : Lacks '*' '/' (truncateComment (unfolded text)) :=
    ((lacks_breakCommentEnds text.toList).collapseBlanksFrom false).truncateComment (by decide)
  have single : Lacks ' ' ' ' (truncateComment (unfolded text)) :=
    (lacks_space_collapseBlanksFrom false (breakCommentEnds text.toList)).truncateComment
      (by decide)
  refine ⟨lacks_iff.mp (unclosed.of_part inside), fun char member blank => ?_,
    lacks_iff.mp (single.of_part inside), fun isSpace => ?_, fun isSpace => ?_,
    inside.length_le.trans (length_truncateComment _)⟩
  · rcases mem_truncateComment (inside.subset member) with isOld | rfl
    · exact eq_space_of_mem_collapseBlanksFrom isOld blank
    · exact absurd blank (by decide)
  · exact absurd (drops_head?_trimBy isSpace) (by decide)
  · exact absurd (drops_getLast?_trimBy isSpace) (by decide)

theorem OneLine.commentLine_eq {text : String} (line : OneLine text.toList) :
    commentLine text = text := by
  have unchanged : unfolded text = text.toList := by
    rw [unfolded, breakCommentEnds_eq_self (lacks_iff.mpr line.unclosed), collapseBlanks,
      collapseBlanksFrom_eq_self line.plain (lacks_iff.mpr line.single)
        (fun impossible => absurd impossible Bool.false_ne_true)]
  have short : truncateComment text.toList = text.toList :=
    if_neg (Nat.not_lt.mpr line.short)
  have visible {char : Char} (member : char ∈ text.toList) (other : char ≠ ' ') :
      isBlank char = false := Bool.eq_false_iff.mpr fun blank => other (line.plain char member blank)
  refine String.toList_inj.mp ?_
  rw [toList_commentLine, unchanged, short]
  refine trimBy_eq_self (fun char isHead => ?_) (fun char isLast => ?_)
  · exact visible (List.mem_of_head? isHead) fun isSpace => line.first (isSpace ▸ isHead)
  · exact visible (List.mem_of_getLast? isLast) fun isSpace => line.last (isSpace ▸ isLast)

/-- Any text becomes a line that can stand in a comment, and such a line stays as it is. A text that
has at most 120 characters, once its comment ends are broken and its runs of blanks are one space
each, only loses spaces at its ends, so that all that stands beside its blanks is left. -/
theorem commentLine_fits (text : String) :
    OneLine (commentLine text).toList ∧ commentLine (commentLine text) = commentLine text ∧
      ((unfolded text).length ≤ 120 →
        (∃ before after, unfolded text = before ++ (commentLine text).toList ++ after ∧
          (∀ char ∈ before, char = ' ') ∧ ∀ char ∈ after, char = ' ') ∧
        visible (commentLine text).toList = visible text.toList) := by
  have line := oneLine_commentLine text
  refine ⟨line, line.commentLine_eq, fun short => ?_⟩
  have whole : truncateComment (unfolded text) = unfolded text := if_neg (Nat.not_lt.mpr short)
  rw [toList_commentLine, whole]
  obtain ⟨before, after, divided, blankBefore, blankAfter⟩ := exists_trimBy isBlank (unfolded text)
  have isSpace {char : Char} (member : char ∈ unfolded text) (blank : isBlank char = true) :
      char = ' ' := eq_space_of_mem_collapseBlanksFrom member blank
  refine ⟨⟨before, after, divided, fun char member => ?_, fun char member => ?_⟩, ?_⟩
  · refine isSpace ?_ (blankBefore char member)
    rw [divided]
    exact List.mem_append_left _ (List.mem_append_left _ member)
  · refine isSpace ?_ (blankAfter char member)
    rw [divided]
    exact List.mem_append_right _ member
  · rw [visible_trimBy, unfolded, collapseBlanks, visible_collapseBlanksFrom,
      visible_breakCommentEnds]

private def risky : String := " a**/\t\n/*/ b "

/-- Overlapping marks, a run of blanks and spaces at both ends. -/
theorem commentLine_fits_risky : (unfolded risky).length ≤ 120 ∧
    commentLine risky = "a** / /* / b" ∧ OneLine (commentLine risky).toList ∧
    visible (commentLine risky).toList = visible risky.toList ∧
    ∃ before after, unfolded risky = before ++ (commentLine risky).toList ++ after ∧
      (∀ char ∈ before, char = ' ') ∧ ∀ char ∈ after, char = ' ' := by
  have short : (unfolded risky).length ≤ 120 := by decide
  obtain ⟨line, _, kept⟩ := commentLine_fits risky
  obtain ⟨trimmed, same⟩ := kept short
  exact ⟨short, by decide, line, same, trimmed⟩

end ChainedSdk.Text
