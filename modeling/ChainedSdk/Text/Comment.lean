import ChainedSdk.Text.Blank
/-!
# One-line comments

Text made fit for a comment that stands on one line between a slash with two stars and a star with a
slash: the closing mark is broken, every run of blanks becomes one space, long text is cut, and no
blank stays at the ends.
-/

namespace ChainedSdk.Text

/-- Puts a space between every star and the slash that follows it. -/
def breakCommentEnds : List Char → List Char
  | '*' :: '/' :: rest => '*' :: ' ' :: '/' :: breakCommentEnds rest
  | char :: rest => char :: breakCommentEnds rest
  | [] => []

/-- One space for every run of blanks; `afterBlank` tells that a run is already written. -/
def collapseBlanksFrom (afterBlank : Bool) : List Char → List Char
  | [] => []
  | char :: rest =>
    if isBlank char then
      if afterBlank then collapseBlanksFrom true rest else ' ' :: collapseBlanksFrom true rest
    else char :: collapseBlanksFrom false rest

def collapseBlanks (chars : List Char) : List Char := collapseBlanksFrom false chars

def commentLimit : Nat := 120

/-- A text of at most `commentLimit` characters: a longer one ends in three dots. -/
def truncateComment (chars : List Char) : List Char :=
  if chars.length > commentLimit then chars.take (commentLimit - 3) ++ ['.', '.', '.'] else chars

def commentLine (text : String) : String :=
  String.ofList
    (trimBy isBlank (truncateComment (collapseBlanks (breakCommentEnds text.toList))))

end ChainedSdk.Text
