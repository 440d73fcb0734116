import ChainedSdk.Text.Blank
/-!
# Whole numbers in texts

`plainInt` reads a number in its shortest form: decimal digits without needless zeros, behind a
minus sign if need be. `intOfText` accepts more forms: `tidied?` takes off what does not count and
leaves the shortest form. A number that is too long is told apart from a text that is none, but
only where it stands in the shortest form.
-/

namespace ChainedSdk.Text

/-- Why a text writes no whole number. -/
inductive NumeralFault where
  | malformed
  | tooLong
deriving DecidableEq, Repr, Inhabited

def longestNumeral : Nat := 4300

def natOfDigits (digits : List Char) : Nat :=
  digits.foldl (fun value digit => value * 10 + (digit.toNat - '0'.toNat)) 0

/-- The number that digits write behind an optional minus sign. The digits at the front already tell
when the number is too long. -/
def plainInt (chars : List Char) : Except NumeralFault Int :=
  let (negative, digits) := match chars with
    | '-' :: rest => (true, rest)
    | rest => (false, rest)
  let leading := digits.takeWhile Char.isDigit
  if digits = ['0'] then .ok 0
  else if leading.isEmpty || leading.head? = some '0' then .error .malformed
  else if longestNumeral < leading.length then .error .tooLong
  else if leading.length < digits.length then .error .malformed
  else .ok (if negative then -natOfDigits digits else natOfDigits digits)

/-- What follows some zeros, which end in the given character: zeros and underscores are passed over
up to another digit or a minus sign. In front of a point or the end the last of them stays. -/
def afterZeros? (last : Char) : List Char → Option (List Char)
  | [] => some [last]
  | char :: rest =>
    if char = '.' then some (last :: char :: rest)
    else if char = '0' || char = '_' then afterZeros? char rest
    else if char.isDigit || char = '-' then some (char :: rest)
    else none

/-- A text without needless zeros in front. It has to begin with a digit. -/
def withoutZeros? : List Char → Option (List Char)
  | [] => none
  | char :: rest =>
    if char = '0' then afterZeros? char rest
    else if char.isDigit then some (char :: rest)
    else none

/-- A text without its fraction, where that is a point and nothing but zeros. -/
def withoutFraction (chars : List Char) : List Char :=
  match chars.dropWhile (· ≠ '.') with
  | _ :: zero :: zeros =>
    if (zero :: zeros).all (· = '0') then chars.takeWhile (· ≠ '.') else chars
  | _ => chars

def hasDoubleUnderscore : List Char → Bool
  | '_' :: '_' :: _ => true
  | _ :: rest => hasDoubleUnderscore rest
  | [] => false

/-- A text without its underscores, where each of them stands between two other characters. -/
def withoutUnderscores (chars : List Char) : List Char :=
  if chars.head? = some '_' || chars.getLast? = some '_' || hasDoubleUnderscore chars then chars
  else chars.filter (· ≠ '_')

/-- A text without what does not count behind the sign of a number: zeros in front, an empty
fraction and single underscores. -/
def tidiedDigits? (chars : List Char) : Option (List Char) := do
  return withoutUnderscores (withoutFraction (← withoutZeros? chars))

/-- A text without what does not count in a number, which may also be white space around it and a
plus sign. -/
def tidied? (chars : List Char) : Option (List Char) :=
  match trimBy isSpace chars with
  | '-' :: rest => (tidiedDigits? rest).map ('-' :: ·)
  | '+' :: rest => tidiedDigits? rest
  | chars => tidiedDigits? chars

def intOfText (text : String) : Except NumeralFault Int :=
  match plainInt text.toList with
  | .error .malformed =>
    match (tidied? text.toList).map plainInt with
    | some (.ok value) => .ok value
    | _ => .error .malformed
  | found => found

end ChainedSdk.Text
