import ChainedSdk.Files.Tree
/-!
# Obstacles to writing

What keeps a file from being written to a place of a file tree. Directories that are missing on the
way are made, but what stands there as a file stays one.
-/

namespace ChainedSdk

/-- What is in the way of a file that is to be written. -/
inductive Obstacle where
  | longName
  | fileOnTheWay
  | fileAsDirectory
  | directoryAsFile
deriving DecidableEq, Repr, Inhabited

def Obstacle.text : Obstacle → String
  | longName => "the path or a name on it is too long"
  | fileOnTheWay => "a file stands on the way to its directory"
  | fileAsDirectory => "a file stands in place of its directory"
  | directoryAsFile => "a directory stands in its place"

namespace FileTree

/-- What is in the way of a directory that is to lie some names below a place that is one. -/
def obstacleBelow? (tree : FileTree) (reached : List String) : List String → Option Obstacle
  | [] => none
  | name :: rest =>
    if isLongName name then some .longName
    else match tree.entry? (reached ++ [name]) with
      | some (.file _) => some (if rest.isEmpty then .fileAsDirectory else .fileOnTheWay)
      | _ => tree.obstacleBelow? (reached ++ [name]) rest

/-- Whether the path to a place has too many bytes. -/
def isFarPlace (place : List String) : Bool := longestPath < (Path.absolute place).utf8ByteSize

/-- What is in the way of the directory of a place. -/
def directoryObstacle? (tree : FileTree) (place : List String) : Option Obstacle :=
  if isFarPlace place.dropLast then some .longName else tree.obstacleBelow? [] place.dropLast

/-- What is in the way of a file at a place, once its directory is there. -/
def fileObstacle? (tree : FileTree) (place : List String) : Option Obstacle :=
  if isFarPlace place || place.getLast?.any isLongName then some .longName
  else if tree.isDirectory place then some .directoryAsFile
  else none

end FileTree

end ChainedSdk
