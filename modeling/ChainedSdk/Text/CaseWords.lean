import ChainedSdk.Text.Letter
/-!
# Words inside names

A name in camel case is cut into words before its capitals. `snakeCase` joins the words with
underscores in lower case, `pascalCase` joins them with nothing and gives each a capital.

The cut is made in two passes, each from left to right and without overlap: first before a capital
that small letters follow, then before a capital that a small letter or a digit precedes.
`breakWords` is the same cut as one scan that looks at a character and its two neighbours.
-/

namespace ChainedSdk.Text

theorem length_dropWhile_le (drops : Char → Bool) (chars : List Char) :
    (chars.dropWhile drops).length ≤ chars.length :=
  (List.dropWhile_suffix drops).length_le

/-- The first pass: an underscore between any character but a line feed and a capital with small
letters after it, which belong to the match. -/
def breakBeforeWords : List Char → List Char
  | before :: capital :: small :: rest =>
    if before ≠ '\n' && isCapital capital && isSmall small then
      before :: '_' :: capital :: small :: rest.takeWhile isSmall ++
        breakBeforeWords (rest.dropWhile isSmall)
    else
      before :: breakBeforeWords (capital :: small :: rest)
  | chars => chars
termination_by chars => chars.length
decreasing_by
  · have := length_dropWhile_le isSmall rest
    simp only [List.length_cons]
    omega
  · simp

/-- The second pass: an underscore between a small letter or digit and a capital. -/
def breakBeforeCapitals : List Char → List Char
  | before :: capital :: rest =>
    if (isSmall before || isDigit before) && isCapital capital then
      before :: '_' :: capital :: breakBeforeCapitals rest
    else
      before :: breakBeforeCapitals (capital :: rest)
  | chars => chars

/-- Whether a word begins at a character, seen from its neighbours. -/
def startsWord (before char : Char) (after? : Option Char) : Bool :=
  isCapital char &&
    (isSmall before || isDigit before || (before ≠ '\n' && after?.any isSmall))

/-- Both passes at once. -/
def breakWords : List Char → List Char
  | before :: char :: rest =>
    if startsWord before char rest.head? then before :: '_' :: breakWords (char :: rest)
    else before :: breakWords (char :: rest)
  | chars => chars

/-- The parts of a text between its underscores, at least one. -/
def splitUnderscores : List Char → List (List Char)
  | [] => [[]]
  | char :: rest =>
    if char = '_' then [] :: splitUnderscores rest
    else match splitUnderscores rest with
      | [] => [[char]]
      | part :: parts => (char :: part) :: parts

/-- A name in lower case with underscores between its words. -/
def snakeCase (name : String) : String :=
  String.ofList (lower (breakBeforeCapitals (breakBeforeWords name.toList)))

/-- A name with a capital at the start of every word and nothing between them. -/
def pascalCase (name : String) : String :=
  String.ofList ((splitUnderscores (snakeCase name).toList).flatMap capitalize)

end ChainedSdk.Text
