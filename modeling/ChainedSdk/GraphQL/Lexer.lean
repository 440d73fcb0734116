import ChainedSdk.GraphQL.Token
import ChainedSdk.GraphQL.BlockText
import ChainedSdk.Text.Blank
import ChainedSdk.Text.Escape
/-!
# Cutting GraphQL text into tokens

Blanks, commas, comments and byte order marks separate tokens and are dropped. A character that
begins no token, an unfinished string and a number with a name or a point right behind it leave the
text without tokens.
-/

namespace ChainedSdk.GraphQL

open Text

/-- The character of a code point written in braces: at least one digit, at most eight. -/
def scanBraced (value digits : Nat) : List Char → Option (Char × List Char)
  | [] => none
  | char :: rest =>
    if char = '\x7d' then
      if digits = 0 || isHighSurrogate value || isLowSurrogate value || value > 0x10FFFF then none
      else some (Char.ofNat value, rest)
    else if digits = 8 then none
    else match hexValue? char with
      | none => none
      | some digit => scanBraced (value * 16 + digit) (digits + 1) rest

theorem length_rest_of_scanBraced {value digits : Nat} {chars rest : List Char} {char : Char}
    (found : scanBraced value digits chars = some (char, rest)) : rest.length < chars.length := by
  fun_induction scanBraced value digits chars with
  | case1 => simp at found
  | case2 => simp at found
  | case3 =>
    simp only [Option.some.injEq, Prod.mk.injEq] at found
    simp [found.2]
  | case4 => simp at found
  | case5 => simp at found
  | case6 _ _ _ _ _ _ _ _ ih =>
    have := ih found
    simp only [List.length_cons]
    omega

/-- The characters of a string up to its closing quotation mark. -/
def scanString (chars : List Char) : Option (Scanned (List Char) chars) :=
  match chars with
  | [] => none
  | '"' :: rest => some ⟨[], rest, Nat.lt_succ_self _⟩
  | '\\' :: 'u' :: '\x7b' :: rest =>
    match found : scanBraced 0 0 rest with
    | none => none
    | some (char, after) =>
      have shorter := length_rest_of_scanBraced found
      have within := Nat.le_trans (Nat.le_of_lt shorter) (Nat.le_add_right rest.length 3)
      (scanString after).map (·.cons char within)
  | '\\' :: 'u' :: a :: b :: c :: d :: rest =>
    match hexQuad? a b c d with
    | none => none
    | some unit =>
      if isHighSurrogate unit then
        match rest with
        | '\\' :: 'u' :: e :: f :: g :: h :: after =>
          match (hexQuad? e f g h).filter isLowSurrogate with
          | some low =>
            (scanString after).map (·.cons (pairedChar unit low) (Nat.le_add_right _ 12))
          | none => none
        | _ => none
      else if isLowSurrogate unit then none
      else (scanString rest).map (·.cons (Char.ofNat unit) (Nat.le_add_right _ 6))
  | '\\' :: char :: rest =>
    match escaped? char with
    | none => none
    | some meant => (scanString rest).map (·.cons meant (Nat.le_add_right _ 2))
  | char :: rest =>
    if char = '\n' || char = '\r' then none
    else (scanString rest).map (·.verbatim char)
termination_by chars.length
decreasing_by
  · exact Nat.lt_of_lt_of_le shorter (Nat.le_add_right _ 3)
  · exact Nat.succ_le_succ (Nat.le_add_right _ 11)
  · exact Nat.succ_le_succ (Nat.le_add_right _ 5)
  · exact Nat.succ_le_succ (Nat.le_add_right _ 1)
  · exact Nat.succ_le_succ (Nat.le_refl _)

/-- The raw characters of a block up to its three closing quotation marks. Three marks behind a
backslash belong to the block. -/
def scanBlock (chars : List Char) : Option (Scanned (List Char) chars) :=
  match chars with
  | [] => none
  | '"' :: '"' :: '"' :: rest => some ⟨[], rest, by simp; omega⟩
  | '\\' :: '"' :: '"' :: '"' :: rest =>
    (scanBlock rest).map fun scanned =>
      ⟨'"' :: '"' :: '"' :: scanned.value, scanned.rest, by
        have := scanned.shorter
        simp only [List.length_cons]
        omega⟩
  | char :: rest => (scanBlock rest).map (·.verbatim char)

/-- Some decimal digits at the front, at least one, and what follows them. -/
def scanDigits (chars : List Char) : Option (List Char × List Char) :=
  match chars.takeWhile Char.isDigit with
  | [] => none
  | digits => some (digits, chars.dropWhile Char.isDigit)

/-- The fraction of a number, if a point begins one; a point without digits is an error. -/
def scanFraction (chars : List Char) : Option (List Char × List Char) :=
  match chars with
  | '.' :: rest => (scanDigits rest).map fun found => ('.' :: found.1, found.2)
  | chars => some ([], chars)

/-- The exponent of a number, if a letter begins one; a letter without digits is an error. -/
def scanExponent (chars : List Char) : Option (List Char × List Char) :=
  match chars with
  | mark :: rest =>
    if mark = 'e' || mark = 'E' then
      match rest with
      | sign :: digits =>
        if sign = '+' || sign = '-' then
          (scanDigits digits).map fun found => (mark :: sign :: found.1, found.2)
        else (scanDigits rest).map fun found => (mark :: found.1, found.2)
      | [] => none
    else some ([], chars)
  | [] => some ([], [])

/-- The whole part of a number, which has no needless zero in front. -/
def scanWhole (chars : List Char) : Option (List Char × List Char) :=
  match chars with
  | '0' :: rest => if rest.head?.any Char.isDigit then none else some (['0'], rest)
  | chars => scanDigits chars

def scanNumber (chars : List Char) : Option (Token × List Char) := do
  let (sign, unsigned) := match chars with
    | '-' :: rest => (['-'], rest)
    | chars => ([], chars)
  let (whole, rest) ← scanWhole unsigned
  let (fraction, rest) ← scanFraction rest
  let (exponent, rest) ← scanExponent rest
  if rest.head?.any fun char => char = '.' || isNameStart char then none
  else
    let digits := String.ofList (sign ++ whole ++ fraction ++ exponent)
    some (if fraction.isEmpty && exponent.isEmpty then .int digits else .float digits, rest)

/-- The tokens of a text, or nothing where it has none. -/
def tokens? (chars : List Char) : Option (List Token) :=
  match chars with
  | [] => some []
  | '"' :: '"' :: '"' :: rest =>
    match scanBlock rest with
    | none => none
    | some scanned =>
      have := scanned.shorter
      (tokens? scanned.rest).map
        (.string (blockText (normalizeLineEnds scanned.value)) :: ·)
  | '"' :: rest =>
    match scanString rest with
    | none => none
    | some scanned =>
      have := scanned.shorter
      (tokens? scanned.rest).map (.string (String.ofList scanned.value) :: ·)
  | '.' :: '.' :: '.' :: rest => (tokens? rest).map (.spread :: ·)
  | '#' :: rest =>
    have := (List.dropWhile_suffix (l := rest)
      (p := fun char => char ≠ '\n' && char ≠ '\r')).length_le
    tokens? (rest.dropWhile fun char => char ≠ '\n' && char ≠ '\r')
  | char :: rest =>
    if isIgnored char then tokens? rest
    else if isMark char then (tokens? rest).map (.mark char :: ·)
    else if isNameStart char then
      have := (List.dropWhile_suffix (p := isNameChar) (l := rest)).length_le
      (tokens? (rest.dropWhile isNameChar)).map
        (.name (String.ofList (char :: rest.takeWhile isNameChar)) :: ·)
    else match scanNumber (char :: rest) with
      | none => none
      | some (number, after) =>
        if _shorter : after.length < rest.length + 1 then (tokens? after).map (number :: ·)
        else none
termination_by chars.length
decreasing_by all_goals simp_all; try omega

end ChainedSdk.GraphQL
