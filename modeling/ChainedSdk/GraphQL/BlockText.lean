/-!
# Block text

The meaning of text between triple quotation marks: the indentation that all lines but the first
share is taken off, and blank lines at both ends are dropped.
-/

namespace ChainedSdk.GraphQL

/-- The lines of a text whose lines end in line feeds, at least one. -/
def splitLines : List Char → List (List Char)
  | [] => [[]]
  | char :: rest =>
    if char = '\n' then [] :: splitLines rest
    else match splitLines rest with
      | [] => [[char]]
      | line :: lines => (char :: line) :: lines

def isIndent (char : Char) : Bool := char = ' ' || char = '\t'

def isBlankLine (line : List Char) : Bool := line.all isIndent

def indentation (line : List Char) : Nat := (line.takeWhile isIndent).length

/-- The indentation that the lines after the first share, blank ones not counted. -/
def commonIndentation (lines : List (List Char)) : Option Nat :=
  ((lines.drop 1).filter fun line => !isBlankLine line).map indentation |>.min?

/-- The lines of a block without shared indentation and without blank lines at the ends. -/
def dedentLines (lines : List (List Char)) : List (List Char) :=
  let width := (commonIndentation lines).getD 0
  let kept := lines.take 1 ++ (lines.drop 1).map (·.drop width)
  let isBlankPair := fun (pair : List Char × List Char) => isBlankLine pair.1
  let trimmed := (((lines.zip kept).dropWhile isBlankPair).reverse.dropWhile isBlankPair).reverse
  trimmed.map (·.2)

def blockText (raw : List Char) : String :=
  String.ofList (List.intercalate ['\n'] (dedentLines (splitLines raw)))

end ChainedSdk.GraphQL
