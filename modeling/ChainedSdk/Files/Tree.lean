import ChainedSdk.Files.Path
/-!
# File trees

The files that a run can see, each under the names on the way to it from the root. What lies on the
way to a file, to the working directory or to a listed directory is a directory. A path is followed
one part at a time, and every step but the last has to arrive at a directory.
-/

namespace ChainedSdk

/-- Files with their content, directories that may be empty, and the working directory. -/
structure FileTree where
  workingDirectory : List String
  files : List (List String × String)
  directories : List (List String) := []
deriving Repr, Inhabited

/-- What stands at a place of a file tree. -/
inductive FileEntry where
  | file (content : String)
  | directory
deriving DecidableEq, Repr

namespace FileTree

def isDirectory (tree : FileTree) (place : List String) : Bool :=
  (tree.workingDirectory :: tree.directories).any (fun known => place.isPrefixOf known) ||
    tree.files.any fun file => place.isPrefixOf file.1 && place ≠ file.1

def entry? (tree : FileTree) (place : List String) : Option FileEntry :=
  match tree.files.lookup place with
  | some content => some (.file content)
  | none => if tree.isDirectory place then some .directory else none

/-- Why a path leads nowhere. -/
inductive DeadEnd where
  | missing
  | longName
deriving DecidableEq, Repr, Inhabited

def longestName : Nat := 255

def longestPath : Nat := 4095

/-- Whether a name has too many bytes. -/
def isLongName (name : String) : Bool := longestName < name.utf8ByteSize

/-- The place reached from another one by a part of a path. -/
def step (tree : FileTree) (place : List String) (part : String) :
    Except DeadEnd (List String) :=
  if !tree.isDirectory place then .error .missing
  else if part = "" || part = "." then .ok place
  else if part = ".." then .ok place.dropLast
  else if isLongName part then .error .longName
  else
    let next := place ++ [part]
    if (tree.entry? next).isSome then .ok next else .error .missing

/-- The place that a path leads to. The empty path leads nowhere. -/
def follow (tree : FileTree) (path : String) : Except DeadEnd (List String) :=
  if path = "" then .error .missing
  else if longestPath < path.utf8ByteSize then .error .longName
  else
    let start := if path.startsWith "/" then [] else tree.workingDirectory
    ((Path.parts path.toList).map String.ofList).foldlM tree.step start

/-- The place that a path leads to, if there is one. -/
def locate? (tree : FileTree) (path : String) : Option (List String) :=
  (tree.follow path).toOption

def find? (tree : FileTree) (path : String) : Option FileEntry :=
  (tree.locate? path).bind tree.entry?

def read? (tree : FileTree) (path : String) : Option String :=
  match tree.find? path with
  | some (.file content) => some content
  | _ => none

/-- The files below a place, under the names on the way from there. -/
def below (tree : FileTree) (place : List String) : List (List String × String) :=
  tree.files.filterMap fun file =>
    match place.isPrefixOf? file.1 with
    | none | some [] => none
    | some names => some (names, file.2)

/-- Two trees in one; a file of both has its content in the first. -/
def merge (first second : FileTree) : FileTree :=
  { first with
    files := first.files ++ second.files.filter fun file => (first.files.lookup file.1).isNone
    directories := first.directories ++ second.directories }

def hasExtension (extensions : List String) (text : String) : Bool :=
  extensions.any fun ending => text.endsWith ending

/-- The files with one of some extensions that a path leads to, with their content, in the order of
their paths. Of a file itself the extension may reach into the path; in a directory and below it,
only the name of a file counts. -/
def collect (tree : FileTree) (path : String) (extensions : List String) :
    List (String × String) :=
  let found : List (String × String) :=
    match tree.locate? path with
    | none => []
    | some place => match tree.entry? place with
      | some (.file content) => if hasExtension extensions path then [(path, content)] else []
      | _ =>
        let files := (tree.below place).filter fun file =>
          hasExtension extensions (file.1.getLast?.getD "")
        files.map fun file => (file.1.foldl Path.join path, file.2)
  found.mergeSort fun first second => first.1 ≤ second.1

end FileTree

end ChainedSdk
