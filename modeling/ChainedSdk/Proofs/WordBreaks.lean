import ChainedSdk.Proofs.CaseFolding
import Mathlib.Data.List.TakeWhile
/-!
# Where words begin

The two passes that cut a name into words are one scan: a word begins at a capital after a small
letter or a digit, and at one before a small letter unless a line feed precedes it. The second pass
finds what the matches of the first one have run over, and neither cuts at a place again. Since a
name in lower case has no capitals, it is cut no further.
-/

namespace ChainedSdk.Text

variable {chars : List Char}

/-- Whether a word begins at a place of a text, which is never the first one. -/
def opensWord (chars : List Char) : Nat → Bool
  | 0 => false
  | place + 1 => match chars[place]?, chars[place + 1]? with
    | some before, some char => startsWord before char chars[place + 2]?
    | _, _ => false

/-- A text with an underscore before every character at which a word begins. -/
def markWords (chars : List Char) : List Char :=
  chars.zipIdx.flatMap fun entry =>
    if opensWord chars entry.2 then ['_', entry.1] else [entry.1]

/-! ## The two passes -/

theorem large_of_isCapital {char : Char} (capital : isCapital char = true) :
    (isSmall char || isDigit char) = false := by
  simp only [isCapital, Bool.and_eq_true, decide_eq_true_eq] at capital
  have range : 65 ≤ char.toNat ∧ char.toNat ≤ 90 := capital
  refine Bool.eq_false_iff.mpr fun other => ?_
  simp only [isSmall, isDigit, Bool.or_eq_true, Bool.and_eq_true, decide_eq_true_eq] at other
  rcases other with ⟨above, _⟩ | ⟨_, below⟩
  · have above : 97 ≤ char.toNat := above
    omega
  · have below : char.toNat ≤ 57 := below
    omega

theorem not_isCapital_of_isSmall {char : Char} (small : isSmall char = true) :
    isCapital char = false := by
  refine Bool.eq_false_iff.mpr fun capital => ?_
  have large := large_of_isCapital capital
  rw [small] at large
  cases large

theorem breakBeforeCapitals_of_large {char : Char} (large : (isSmall char || isDigit char) = false)
    (rest : List Char) : breakBeforeCapitals (char :: rest) = char :: breakBeforeCapitals rest := by
  cases rest with
  | nil => rfl
  | cons next more => rw [breakBeforeCapitals, large, Bool.false_and, if_neg Bool.false_ne_true]

/-- The second pass as a scan. A capital that belongs to a match cannot start the next one, so no
match is lost by going on behind it. -/
theorem breakBeforeCapitals_cons (before : Char) (rest : List Char) :
    breakBeforeCapitals (before :: rest) = before ::
      if (isSmall before || isDigit before) && rest.head?.any isCapital then
        '_' :: breakBeforeCapitals rest
      else breakBeforeCapitals rest := by
  cases rest with
  | nil => simp [breakBeforeCapitals]
  | cons capital more =>
    rw [breakBeforeCapitals, List.head?_cons, Option.any_some]
    split
    · next cuts =>
      have isCapital := (Bool.and_eq_true_iff.mp cuts).2
      rw [breakBeforeCapitals_of_large (large_of_isCapital isCapital)]
    · rfl

theorem breakWords_cons (before : Char) (rest : List Char) :
    breakWords (before :: rest) = before ::
      if rest.head?.any fun char => startsWord before char rest.tail.head? then
        '_' :: breakWords rest
      else breakWords rest := by
  cases rest with
  | nil => rfl
  | cons char more =>
    rw [breakWords]
    show _ = before :: if startsWord before char more.head? = true then _ else _
    split
    · rfl
    · rfl

/-- A scan that cuts behind a small letter exactly before capitals leaves a run of small letters
whole, and cuts behind it if a capital follows. -/
private theorem scan_run {scan : List Char → List Char}
    (steps : ∀ char rest, isSmall char = true → scan (char :: rest) = char ::
      if rest.head?.any isCapital then '_' :: scan rest else scan rest)
    {char : Char} {run : List Char} (small : ∀ member ∈ char :: run, isSmall member = true)
    (rest : List Char) : scan (char :: run ++ rest) = char :: run ++
      if rest.head?.any isCapital then '_' :: scan rest else scan rest := by
  induction run generalizing char with
  | nil => exact steps char rest (small char List.mem_cons_self)
  | cons next run ih =>
    have smallRun := (List.forall_mem_cons.mp small).2
    have uncut : (next :: run ++ rest).head?.any isCapital = false :=
      not_isCapital_of_isSmall (smallRun next List.mem_cons_self)
    rw [List.cons_append, steps char _ (small char List.mem_cons_self), uncut,
      if_neg Bool.false_ne_true, ih smallRun]
    rfl

private theorem breakBeforeCapitals_small (char : Char) (rest : List Char)
    (small : isSmall char = true) : breakBeforeCapitals (char :: rest) = char ::
      if rest.head?.any isCapital then '_' :: breakBeforeCapitals rest
      else breakBeforeCapitals rest := by
  rw [breakBeforeCapitals_cons, small, Bool.true_or, Bool.true_and]

private theorem breakWords_small (char : Char) (rest : List Char) (small : isSmall char = true) :
    breakWords (char :: rest) = char ::
      if rest.head?.any isCapital then '_' :: breakWords rest else breakWords rest := by
  have starts (next : Char) (after? : Option Char) :
      startsWord char next after? = isCapital next := by
    rw [startsWord, small, Bool.true_or, Bool.true_or, Bool.and_true]
  simp only [breakWords_cons, starts]

theorem head?_breakBeforeWords (chars : List Char) :
    (breakBeforeWords chars).head? = chars.head? := by
  cases chars using breakBeforeWords.induct with
  | case1 before capital small rest breaks => rw [breakBeforeWords, if_pos breaks]; rfl
  | case2 before capital small rest whole => rw [breakBeforeWords, if_neg whole]; rfl
  | case3 chars short => rw [breakBeforeWords.eq_2 chars short]

/-- Where the first pass does not cut, a word begins at what the second one cuts before. -/
theorem startsWord_of_whole (before char : Char) (after? : Option Char)
    (whole : (before ≠ '\n' && isCapital char && after?.any isSmall) = false) :
    startsWord before char after? = ((isSmall before || isDigit before) && isCapital char) := by
  unfold startsWord
  cases capital : isCapital char with
  | false => simp
  | true =>
    rw [capital, Bool.and_true] at whole
    rw [whole, Bool.or_false, Bool.true_and, Bool.and_true]

theorem breakBeforeCapitals_breakBeforeWords (chars : List Char) :
    breakBeforeCapitals (breakBeforeWords chars) = breakWords chars := by
  -- Along the first pass: a match is a capital with its run of small letters, behind which both
  -- sides go on alike.
  induction chars using breakBeforeWords.induct with
  | case1 before capital small rest breaks ih =>
    obtain ⟨both, isSmall_⟩ := Bool.and_eq_true_iff.mp breaks
    have isCapital_ := (Bool.and_eq_true_iff.mp both).2
    have run : ∀ member ∈ small :: rest.takeWhile isSmall, isSmall member = true :=
      List.forall_mem_cons.mpr ⟨isSmall_, fun _ => List.mem_takeWhile_imp⟩
    have behind : breakBeforeCapitals (small :: rest.takeWhile isSmall ++
        breakBeforeWords (rest.dropWhile isSmall)) = breakWords (small :: rest) := by
      have whole : small :: rest = small :: rest.takeWhile isSmall ++ rest.dropWhile isSmall :=
        congrArg (small :: ·) List.takeWhile_append_dropWhile.symm
      rw [scan_run breakBeforeCapitals_small run, head?_breakBeforeWords, ih, whole,
        scan_run breakWords_small run]
    have inside (rest : List Char) : breakBeforeCapitals (before :: '_' :: capital :: rest) =
        before :: '_' :: capital :: breakBeforeCapitals rest := by
      have uncut : Option.any isCapital ('_' :: capital :: rest).head? = false := by
        show isCapital '_' = false
        decide
      rw [breakBeforeCapitals_cons before, uncut, Bool.and_false, if_neg Bool.false_ne_true,
        breakBeforeCapitals_of_large (by decide),
        breakBeforeCapitals_of_large (large_of_isCapital isCapital_)]
    have starts : startsWord before capital (some small) = true := by
      have passes := (Bool.and_eq_true_iff.mp both).1
      simp only [startsWord, isCapital_, passes, Option.any_some, isSmall_, Bool.and_true,
        Bool.or_true]
    have goesOn : ¬startsWord capital small rest.head? = true := by
      rw [startsWord, not_isCapital_of_isSmall isSmall_, Bool.false_and]
      exact Bool.false_ne_true
    calc breakBeforeCapitals (breakBeforeWords (before :: capital :: small :: rest))
      _ = breakBeforeCapitals (before :: '_' :: capital :: (small :: rest.takeWhile isSmall ++
            breakBeforeWords (rest.dropWhile isSmall))) := by
        rw [breakBeforeWords, if_pos breaks]
        rfl
      _ = before :: '_' :: capital :: breakWords (small :: rest) := by rw [inside, behind]
      _ = before :: '_' :: breakWords (capital :: small :: rest) := by
        rw [breakWords.eq_1 capital, if_neg goesOn]
      _ = breakWords (before :: capital :: small :: rest) := by
        rw [breakWords.eq_1 before]
        exact (if_pos starts).symm
  | case2 before capital small rest whole ih =>
    have same := startsWord_of_whole before capital (some small) (Bool.eq_false_iff.mpr whole)
    rw [breakBeforeWords, if_neg whole, breakBeforeCapitals_cons, head?_breakBeforeWords, ih,
      breakWords_cons before (capital :: small :: rest)]
    show before :: (if ((isSmall before || isDigit before) && isCapital capital) = true then _
      else _) = before :: if startsWord before capital (some small) = true then _ else _
    rw [same]
  | case3 chars short =>
    rw [breakBeforeWords.eq_2 chars short]
    rcases chars with _ | ⟨before, _ | ⟨char, _ | ⟨small, rest⟩⟩⟩
    · rfl
    · rfl
    · have same := startsWord_of_whole before char none (Bool.and_false _)
      rw [breakBeforeCapitals, breakWords]
      show (if _ then _ else _) = if startsWord before char none = true then _ else _
      rw [same]
      rfl
    · exact (short before char small rest rfl).elim

/-! ## Places -/

/-- Behind the first character, what is marked depends on a character and its neighbours. -/
private theorem flatMap_zipIdx_eq (before : List Char) (char : Char) (rest : List Char) :
    char :: (rest.zipIdx (before.length + 1)).flatMap (fun entry =>
      if opensWord (before ++ char :: rest) entry.2 then ['_', entry.1] else [entry.1]) =
      breakWords (char :: rest) := by
  induction rest generalizing before char with
  | nil => rfl
  | cons next rest ih =>
    have opens : opensWord (before ++ char :: next :: rest) (before.length + 1) =
        startsWord char next rest.head? := by
      have found (offset : Nat) : (before ++ char :: next :: rest)[before.length + offset]? =
          (char :: next :: rest)[offset]? := by
        rw [List.getElem?_append_right (Nat.le_add_right _ _), Nat.add_sub_cancel_left]
      have here := found 0
      have after := found 1
      have behind := found 2
      rw [Nat.add_zero] at here
      rw [opensWord, here, after, behind, List.head?_eq_getElem?]
      rfl
    have later := ih (before ++ [char]) next
    rw [List.append_assoc, List.singleton_append, List.length_append] at later
    rw [List.zipIdx_cons, List.flatMap_cons, opens, breakWords, ← later]
    split
    · rfl
    · rfl

theorem markWords_eq (chars : List Char) : markWords chars = breakWords chars := by
  cases chars with
  | nil => rfl
  | cons char rest => exact flatMap_zipIdx_eq [] char rest

theorem breakBeforeCapitals_breakBeforeWords_eq_markWords (chars : List Char) :
    breakBeforeCapitals (breakBeforeWords chars) = markWords chars :=
  (breakBeforeCapitals_breakBeforeWords chars).trans (markWords_eq chars).symm

/-! ## Names in lower case -/

theorem breakWords_eq_self (none_ : ∀ char ∈ chars, isCapital char = false) :
    breakWords chars = chars := by
  induction chars using breakWords.induct with
  | case1 before char rest starts ih =>
    have capital := (Bool.and_eq_true_iff.mp starts).1
    rw [none_ char (List.mem_cons_of_mem _ List.mem_cons_self)] at capital
    cases capital
  | case2 before char rest goesOn ih =>
    rw [breakWords, if_neg goesOn, ih fun later member => none_ later (List.mem_cons_of_mem _ member)]
  | case3 chars short => rw [breakWords.eq_2 chars short]

theorem snakeCase_eq (name : String) :
    snakeCase name = String.ofList (lower (markWords name.toList)) := by
  rw [snakeCase, breakBeforeCapitals_breakBeforeWords_eq_markWords]

theorem lower_snakeCase {name : String} (plain : Plain name.toList) :
    lower (snakeCase name).toList = (snakeCase name).toList ∧
      ∀ char ∈ (snakeCase name).toList, isCapital char = false := by
  have plainCut := plain_breaks plain
  rw [snakeCase, String.toList_ofList, lower_lower plainCut]
  refine ⟨rfl, fun mapped member => ?_⟩
  rw [lower_eq_flatMap plainCut] at member
  obtain ⟨char, isChar, isMapped⟩ := List.mem_flatMap.mp member
  exact not_isCapital_of_mem_lowerOf (plainCut char isChar) isMapped

theorem snakeCase_snakeCase {name : String} (plain : Plain name.toList) :
    snakeCase (snakeCase name) = snakeCase name := by
  obtain ⟨lowered, small⟩ := lower_snakeCase plain
  rw [snakeCase_eq (snakeCase name), markWords_eq, breakWords_eq_self small, lowered,
    String.ofList_toList]

/-- A name is cut into words by one scan and then put in lower case. If it is in ASCII, it is cut no
further the second time, and neither its words in lower case nor those in Pascal case differ from it
in more than underscores and letter case. -/
theorem snakeCase_scans (name : String) :
    breakBeforeCapitals (breakBeforeWords name.toList) = markWords name.toList ∧
      snakeCase name = String.ofList (lower (markWords name.toList)) ∧
      (Plain name.toList → snakeCase (snakeCase name) = snakeCase name ∧
        bare (snakeCase name).toList = bare name.toList ∧
        bare (pascalCase name).toList = bare name.toList) :=
  ⟨breakBeforeCapitals_breakBeforeWords_eq_markWords name.toList, snakeCase_eq name,
    fun plain => ⟨snakeCase_snakeCase plain, bare_snakeCase plain, bare_pascalCase plain⟩⟩

/-- Runs of capitals, digits and an underscore that is there already. -/
theorem snakeCase_scans_address : Plain "getHTTPAddress2Of_XMLFile".toList ∧
    snakeCase "getHTTPAddress2Of_XMLFile" = "get_http_address2_of_xml_file" ∧
    snakeCase "get_http_address2_of_xml_file" = "get_http_address2_of_xml_file" ∧
    bare (pascalCase "getHTTPAddress2Of_XMLFile").toList = "gethttpaddress2ofxmlfile".toList := by
  have plain : Plain "getHTTPAddress2Of_XMLFile".toList := plain_iff_all.mpr (by decide)
  obtain ⟨_, scanned, kept⟩ := snakeCase_scans "getHTTPAddress2Of_XMLFile"
  obtain ⟨again, _, folded⟩ := kept plain
  have lowered : snakeCase "getHTTPAddress2Of_XMLFile" = "get_http_address2_of_xml_file" :=
    scanned.trans (by decide)
  rw [lowered] at again
  exact ⟨plain, lowered, again, folded.trans (by decide)⟩

end ChainedSdk.Text
