import ChainedSdk.Text.Letter.Alphabetic
import ChainedSdk.Text.Letter.Uppercase
import ChainedSdk.Text.Letter.Casing
import ChainedSdk.Text.Letter.Context
/-!
# Letters and letter case

Character classes and case mappings of Unicode, with ASCII answered directly and everything else
looked up in the tables. Case mappings work on whole texts, because the small sigma has another form
at the end of a word and a few characters grow when their case changes.
-/

namespace ChainedSdk.Text

/-- Whether a code point lies in one of some ranges, ends included. -/
def inRanges (ranges : List (Nat × Nat)) (code : Nat) : Bool :=
  ranges.any fun range => range.1 ≤ code && code ≤ range.2

/-- Whether a code point lies on a run that goes from `first` to `last` in steps. -/
def onRun (first last step code : Nat) : Bool :=
  first ≤ code && code ≤ last && (code - first) % step == 0

def isCapital (char : Char) : Bool := 'A' ≤ char && char ≤ 'Z'

/-- An ASCII lower-case letter. -/
def isSmall (char : Char) : Bool := 'a' ≤ char && char ≤ 'z'

def isDigit (char : Char) : Bool := '0' ≤ char && char ≤ '9'

def isLetter (char : Char) : Bool :=
  if char.toNat < 128 then isCapital char || isSmall char
  else inRanges letterRanges char.toNat

/-- An upper-case letter of any script. -/
def isUpper (char : Char) : Bool :=
  if char.toNat < 128 then isCapital char
  else capitalRuns.any fun run => onRun run.1 run.2.1 run.2.2 char.toNat

/-- The single character that a run of case mappings gives, if the character is on one. -/
def mappedBy (runs : List (Nat × Nat × Nat × Nat)) (char : Char) : Option Char :=
  let code := char.toNat
  (runs.find? fun run => onRun run.1 run.2.1 run.2.2.1 code).map fun run =>
    Char.ofNat (run.2.2.2 + (code - run.1))

/-- The lower-case form of one character on its own. -/
def lowerOf (char : Char) : List Char :=
  if char.toNat < 128 then [if isCapital char then Char.ofNat (char.toNat + 32) else char]
  else if char = 'İ' then ['i', '\u0307']
  else [(mappedBy lowerRuns char).getD char]

/-- The title-case form of one character on its own. -/
def titleOf (char : Char) : List Char :=
  if char.toNat < 128 then [if isSmall char then Char.ofNat (char.toNat - 32) else char]
  else match titleSequences.find? fun row => row.1 == char.toNat with
    | some row => row.2.map Char.ofNat
    | none => [(mappedBy titleRuns char).getD char]

/-- Whether the first character that is not case-ignorable is cased. -/
def startsCased (chars : List Char) : Bool :=
  match chars.dropWhile fun char => inRanges ignorableRanges char.toNat with
  | [] => false
  | char :: _ => inRanges casedRanges char.toNat

/-- The lower-case form of a text that follows `before`, whose nearest character comes first. A
capital sigma becomes final when a cased character precedes it and none follows. -/
def lowerAfter (before : List Char) : List Char → List Char
  | [] => []
  | char :: rest =>
    let lowered :=
      if char = 'Σ' then [if startsCased before && !startsCased rest then 'ς' else 'σ']
      else lowerOf char
    lowered ++ lowerAfter (char :: before) rest

def lower (chars : List Char) : List Char := lowerAfter [] chars

/-- A text with its first character in title case and the others in lower case. -/
def capitalize : List Char → List Char
  | [] => []
  | char :: rest => titleOf char ++ lowerAfter [char] rest

end ChainedSdk.Text
