/-!
# Control sequences of terminals

A control sequence begins with an escape character and a bracket. Parameters follow, then
intermediate characters and one final character, each kind from a range of its own. Text that does
not go to a terminal is written without such sequences; one that does not end properly stays.
-/

namespace ChainedSdk.Text

def escape : Char := '\x1b'

/-- A parameter of a control sequence: a digit or one of some marks. -/
def isParameter (char : Char) : Bool := '0' ≤ char && char ≤ '?'

/-- An intermediate character of a control sequence: a space or one of some marks. -/
def isIntermediate (char : Char) : Bool := ' ' ≤ char && char ≤ '/'

def isFinal (char : Char) : Bool := '@' ≤ char && char ≤ '~'

/-- The characters behind the rest of a control sequence, if it ends properly. -/
def afterSequence? (chars : List Char) : Option (List Char) :=
  match (chars.dropWhile isParameter).dropWhile isIntermediate with
  | [] => none
  | char :: rest => if isFinal char then some rest else none

theorem length_lt_of_afterSequence? {chars rest : List Char}
    (after : afterSequence? chars = some rest) : rest.length < chars.length := by
  unfold afterSequence? at after
  split at after
  · contradiction
  · rename_i char inner dropped
    split at after
    · cases after
      have within : ((chars.dropWhile isParameter).dropWhile isIntermediate).length ≤
          chars.length :=
        ((List.dropWhile_sublist _).trans (List.dropWhile_sublist _)).length_le
      rw [dropped] at within
      exact within
    · contradiction

def withoutSequences (chars : List Char) : List Char :=
  match chars with
  | [] => []
  | char :: '[' :: rest =>
    if char = escape then
      match after : afterSequence? rest with
      | some left =>
        have := length_lt_of_afterSequence? after
        withoutSequences left
      | none => char :: withoutSequences ('[' :: rest)
    else char :: withoutSequences ('[' :: rest)
  | char :: rest => char :: withoutSequences rest
termination_by chars.length
decreasing_by all_goals simp; try omega

/-- A text as it is written where no terminal reads it. -/
def plain (text : String) : String := String.ofList (withoutSequences text.toList)

end ChainedSdk.Text
