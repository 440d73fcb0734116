/-!
# Paths

Paths are texts whose parts are separated by slashes.
-/

namespace ChainedSdk.Path

/-- The parts of a text between its slashes, at least one. -/
def parts : List Char → List (List Char)
  | [] => [[]]
  | char :: rest =>
    if char = '/' then [] :: parts rest
    else match parts rest with
      | [] => [[char]]
      | part :: others => (char :: part) :: others

/-- The names on a path. A part that is empty or a single point names nothing. -/
def names (path : String) : List String :=
  ((parts path.toList).map String.ofList).filter fun part => part ≠ "" && part ≠ "."

/-- A path without the parts that name nothing. -/
def normal (path : String) : String :=
  let named := "/".intercalate (names path)
  if path.startsWith "/" then "/" ++ named else if named = "" then "." else named

/-- Whether a path holds the character that ends texts in memory. No file system takes such a path.
-/
def hasNull (path : String) : Bool := path.contains '\x00'

/-- The text behind the last slash. -/
def lastPart (path : String) : List Char :=
  (path.toList.reverse.takeWhile (· ≠ '/')).reverse

/-- The extension of a file name, from its last point on. Points in front of a name begin none. -/
def extension (path : String) : String :=
  let base := (lastPart path).dropWhile (· = '.')
  if base.contains '.' then
    String.ofList ('.' :: (base.reverse.takeWhile (· ≠ '.')).reverse)
  else ""

/-- The path of an entry of a directory. -/
def join (directory name : String) : String :=
  if directory.endsWith "/" then directory ++ name else directory ++ "/" ++ name

/-- The names from the root down to the place that a path leads to from a directory, two points
leading up and staying at the root. -/
def resolve (start : List String) (path : String) : List String :=
  (names path).foldl
    (fun reached part => if part = ".." then reached.dropLast else reached ++ [part])
    (if path.startsWith "/" then [] else start)

def absolute (reached : List String) : String := "/" ++ "/".intercalate reached

end ChainedSdk.Path
