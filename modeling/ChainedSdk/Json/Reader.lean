import ChainedSdk.Json.Basic
import ChainedSdk.Text.Escape
import ChainedSdk.Text.Numeral
/-!
# Reading JSON text

The text is cut into tokens first, and values are then read from the tokens. A member that appears
twice in an object keeps its first place and has its last value. A fault in a token ends the tokens
and counts when a value is read there, so that of two faults the first one is reported.
-/

namespace ChainedSdk.Json

open Text

/-- Why a text cannot be read. -/
inductive Fault where
  | malformed
  | longNumber
  | deepNesting
deriving DecidableEq, Repr, Inhabited

/-- How many arrays and objects may stand inside each other. -/
def nestingLimit : Nat := 988

/-- A lexical unit of JSON text; `scalar` covers texts, numbers and the constant words, and `fault`
stands where there is no unit. -/
inductive Token where
  | openBrace
  | closeBrace
  | openBracket
  | closeBracket
  | colon
  | comma
  | scalar (value : Json)
  | fault (fault : Fault)
deriving BEq, Repr, Inhabited

/-- The character of an escaped number; half a surrogate pair stands for none. -/
def unitChar? (unit : Nat) : Option Char :=
  if isHighSurrogate unit || isLowSurrogate unit then none else some (Char.ofNat unit)

/-- The units of a text up to its closing quotation mark: its characters, and nothing for half a
surrogate pair that stands alone. -/
def scanText : (chars : List Char) → Option (Scanned (List (Option Char)) chars)
  | [] => none
  | '"' :: rest => some ⟨[], rest, by simp⟩
  | '\\' :: 'u' :: a :: b :: c :: d :: '\\' :: 'u' :: e :: f :: g :: h :: rest => do
    let unit ← hexQuad? a b c d
    match isHighSurrogate unit, (hexQuad? e f g h).filter isLowSurrogate with
    | true, some low =>
      return (← scanText rest).cons (some (pairedChar unit low)) (by simp; omega)
    | _, _ =>
      return (← scanText ('\\' :: 'u' :: e :: f :: g :: h :: rest)).cons (unitChar? unit) (by simp)
  | '\\' :: 'u' :: a :: b :: c :: d :: rest => do
    let unit ← hexQuad? a b c d
    return (← scanText rest).cons (unitChar? unit) (by simp; omega)
  | '\\' :: char :: rest => do
    let meant ← escaped? char
    return (← scanText rest).cons (some meant) (by simp; omega)
  | char :: rest =>
    if char.toNat < 0x20 then none
    else do return (← scanText rest).cons (some char) (by simp)

/-- What is shown for half a surrogate pair: a replacement for each of the three bytes that it would
take. -/
def shownHalf : List Char := List.replicate 3 '\ufffd'

def ofUnits (units : List (Option Char)) : Json :=
  let shown := String.ofList (units.flatMap fun
    | some char => [char]
    | none => shownHalf)
  if units.contains none then .brokenText shown else .text shown

def spanDigits (chars : List Char) : List Char × List Char :=
  (chars.takeWhile Char.isDigit, chars.dropWhile Char.isDigit)

/-- An exponent at the front, if there is a whole one. -/
def scanExponent (chars : List Char) : Option (Int × List Char) :=
  match chars with
  | mark :: rest =>
    if mark = 'e' || mark = 'E' then
      let (negative, rest) := match rest with
        | '-' :: rest => (true, rest)
        | '+' :: rest => (false, rest)
        | rest => (false, rest)
      match spanDigits rest with
      | ([], _) => none
      | (digits, rest) =>
        some (if negative then -(natOfDigits digits : Int) else natOfDigits digits, rest)
    else none
  | [] => none

/-- An unsigned number at the front: digits without a needless zero, then a fraction, then an
exponent. -/
def scanNumber (negative : Bool) (chars : List Char) : Except Fault (Json × List Char) :=
  let (whole, rest) := match chars with
    | '0' :: rest => (['0'], rest)
    | chars => spanDigits chars
  if whole.isEmpty then .error .malformed
  else
    let (fraction, rest) := match rest with
      | '.' :: after =>
        match spanDigits after with
        | ([], _) => ([], rest)
        | (digits, after) => (digits, after)
      | rest => ([], rest)
    let sign (value : Nat) : Int := if negative then -(value : Int) else value
    match fraction, scanExponent rest with
    | [], none =>
      if longestNumeral < whole.length then .error .longNumber
      else .ok (.integer (sign (natOfDigits whole)), rest)
    | fraction, none =>
      .ok (.decimal ⟨sign (natOfDigits (whole ++ fraction)), -(fraction.length : Int)⟩, rest)
    | fraction, some (exponent, rest) =>
      .ok (.decimal ⟨sign (natOfDigits (whole ++ fraction)), exponent - fraction.length⟩, rest)

/-- The constant words and what they mean. -/
def words : List (List Char × Json) :=
  [("null".toList, .null), ("true".toList, .boolean true), ("false".toList, .boolean false),
    ("NaN".toList, .nonFinite), ("Infinity".toList, .nonFinite), ("-Infinity".toList, .nonFinite)]

/-- A constant word or a number at the front. -/
def scanWord (chars : List Char) : Except Fault (Json × List Char) :=
  match words.findSome? fun word => (word.1.isPrefixOf? chars).map fun rest => (word.2, rest) with
  | some found => .ok found
  | none => match chars with
    | '-' :: rest => scanNumber true rest
    | chars => scanNumber false chars

def mark? : Char → Option Token
  | '\x7b' => some .openBrace
  | '\x7d' => some .closeBrace
  | '[' => some .openBracket
  | ']' => some .closeBracket
  | ':' => some .colon
  | ',' => some .comma
  | _ => none

/-- A character that may stand between tokens. -/
def isGap (char : Char) : Bool := char = ' ' || char = '\t' || char = '\n' || char = '\r'

/-- The tokens of a text up to the first fault. -/
def tokens (chars : List Char) : List Token :=
  match chars with
  | [] => []
  | char :: rest =>
    if isGap char then tokens rest
    else match mark? char with
      | some mark => mark :: tokens rest
      | none =>
        if char = '"' then
          match scanText rest with
          | none => [.fault .malformed]
          | some scanned =>
            have := scanned.shorter
            .scalar (ofUnits scanned.value) :: tokens scanned.rest
        else match scanWord (char :: rest) with
          | .error fault => [.fault fault]
          | .ok (value, after) =>
            if _shorter : after.length < rest.length + 1 then .scalar value :: tokens after
            else [.fault .malformed]
termination_by chars.length

/-- Members with one more, which counts if the name is there already. -/
def withMember (members : List (String × Json)) (name : String) (value : Json) :
    List (String × Json) :=
  Table.setEntry name value members

mutual

/-- A value at the front of some tokens. `fuel` bounds the number of steps, and `depth` the number
of arrays and objects that may still be opened. -/
def readValue : (fuel depth : Nat) → List Token → Except Fault (Json × List Token)
  | 0, _, _ => .error .malformed
  | _ + 1, _, .scalar value :: rest => .ok (value, rest)
  | _ + 1, _, .fault fault :: _ => .error fault
  | _ + 1, 0, .openBracket :: _ => .error .deepNesting
  | _ + 1, 0, .openBrace :: _ => .error .deepNesting
  | _ + 1, _ + 1, .openBracket :: .closeBracket :: rest => .ok (.array [], rest)
  | _ + 1, _ + 1, .openBrace :: .closeBrace :: rest => .ok (.object [], rest)
  | fuel + 1, depth + 1, .openBracket :: rest => readItems fuel depth [] rest
  | fuel + 1, depth + 1, .openBrace :: rest => readMembers fuel depth [] rest
  | _ + 1, _, _ => .error .malformed

/-- The items of an array up to its closing bracket, after those already read, latest first. -/
def readItems : (fuel depth : Nat) → List Json → List Token → Except Fault (Json × List Token)
  | 0, _, _, _ => .error .malformed
  | fuel + 1, depth, before, tokens => do
    match ← readValue fuel depth tokens with
    | (item, .comma :: rest) => readItems fuel depth (item :: before) rest
    | (item, .closeBracket :: rest) => return (.array (item :: before).reverse, rest)
    | _ => throw .malformed

/-- The members of an object up to its closing brace, after those already read. -/
def readMembers : (fuel depth : Nat) → List (String × Json) → List Token →
    Except Fault (Json × List Token)
  | 0, _, _, _ => .error .malformed
  | fuel + 1, depth, before, .scalar key :: .colon :: tokens => do
    let some name := key.characters? | throw .malformed
    match ← readValue fuel depth tokens with
    | (value, .comma :: rest) => readMembers fuel depth (withMember before name value) rest
    | (value, .closeBrace :: rest) => return (.object (withMember before name value), rest)
    | _ => throw .malformed
  | _ + 1, _, _, _ => .error .malformed

end

/-- The value that a JSON text writes. Every step of the reader takes a token, so their number is
enough fuel. -/
def ofText (text : String) : Except Fault Json := do
  let tokens := tokens text.toList
  match ← readValue (tokens.length + 1) nestingLimit tokens with
  | (value, []) => return value
  | _ => throw .malformed

end ChainedSdk.Json
