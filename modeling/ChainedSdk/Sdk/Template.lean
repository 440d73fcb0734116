import ChainedSdk.Error
import ChainedSdk.Text.Blank
/-!
# Section templates

A user of the generator may replace a whole section of the generated text. The replacement is the
content of a file in a directory of templates, with its line ends made uniform.
-/

namespace ChainedSdk

/-- The texts that stand in for generated sections. -/
structure Templates where
  models? : Option String := none
  operations? : Option String := none
deriving DecidableEq, Repr, Inhabited

namespace Templates

/-- The template in a file of a directory, if there is one. -/
def read? (tree : FileTree) (directory name : String) : Option String :=
  (tree.read? (Path.join directory name)).map fun content =>
    String.ofList (Text.normalizeLineEnds content.toList)

/-- The templates in a directory; a path that leads to none holds no templates. Parts of the path
that name nothing do not count, and what is left must not be too long. -/
def ofDirectory (tree : FileTree) (directory : String) : Except Error Templates :=
  let path := Path.normal directory
  match tree.follow path with
  | .error .longName => .error (.longPath path)
  | .error .missing => .ok {}
  | .ok place =>
    if tree.isDirectory place then .ok {
      models? := read? tree path "models.ts.j2"
      operations? := read? tree path "operations.ts.j2" }
    else .ok {}

end Templates

end ChainedSdk
