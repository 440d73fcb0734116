/-!
# Escapes in quoted text

Hexadecimal numbers, the two halves of a surrogate pair and the one-letter escapes that quoted text
of several formats shares, and the record of something read from the front of a text.
-/

namespace ChainedSdk.Text

/-- A result read from the front of some characters together with what is left of them. -/
structure Scanned (α : Type) (chars : List Char) where
  value : α
  rest : List Char
  shorter : rest.length < chars.length

/-- A unit in front of those read from later characters. -/
def Scanned.cons {α : Type} {chars inner : List Char} (unit : α) (scanned : Scanned (List α) inner)
    (within : inner.length ≤ chars.length) : Scanned (List α) chars :=
  ⟨unit :: scanned.value, scanned.rest, Nat.lt_of_lt_of_le scanned.shorter within⟩

/-- A character that stands for itself in front of a longer piece. -/
def Scanned.verbatim {inner : List Char} (char : Char) (scanned : Scanned (List Char) inner) :
    Scanned (List Char) (char :: inner) :=
  scanned.cons char (Nat.le_succ _)

def hexValue? (char : Char) : Option Nat :=
  let code := char.toNat
  if '0' ≤ char && char ≤ '9' then some (code - '0'.toNat)
  else if 'a' ≤ char && char ≤ 'f' then some (code - 'a'.toNat + 10)
  else if 'A' ≤ char && char ≤ 'F' then some (code - 'A'.toNat + 10)
  else none

def hexQuad? (first second third fourth : Char) : Option Nat := do
  let a ← hexValue? first
  let b ← hexValue? second
  let c ← hexValue? third
  let d ← hexValue? fourth
  return ((a * 16 + b) * 16 + c) * 16 + d

/-- The lower-case hexadecimal digit of a number below 16. -/
def hexDigit (value : Nat) : Char :=
  Char.ofNat (if value < 10 then '0'.toNat + value else 'a'.toNat + (value - 10))

/-- The last `width` hexadecimal digits of a number. -/
def hexDigits : (width : Nat) → Nat → List Char
  | 0, _ => []
  | width + 1, value => hexDigits width (value / 16) ++ [hexDigit (value % 16)]

/-- A number between 0xD800 and 0xDBFF, the first half of a pair. -/
def isHighSurrogate (unit : Nat) : Bool := 0xD800 ≤ unit && unit ≤ 0xDBFF

/-- A number between 0xDC00 and 0xDFFF, the second half of a pair. -/
def isLowSurrogate (unit : Nat) : Bool := 0xDC00 ≤ unit && unit ≤ 0xDFFF

def pairedChar (high low : Nat) : Char :=
  Char.ofNat (0x10000 + (high - 0xD800) * 0x400 + (low - 0xDC00))

def escaped? : Char → Option Char
  | '"' => some '"'
  | '\\' => some '\\'
  | '/' => some '/'
  | 'b' => some '\x08'
  | 'f' => some '\x0c'
  | 'n' => some '\n'
  | 'r' => some '\r'
  | 't' => some '\t'
  | _ => none

end ChainedSdk.Text
