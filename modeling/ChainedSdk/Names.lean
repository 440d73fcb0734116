import ChainedSdk.GraphQL.Document
import ChainedSdk.Text.CaseWords
/-!
# Names of generated things

How models, documents and methods are called after the operations, fragments and response keys they
come from.
-/

namespace ChainedSdk.Names

open Text

/-- The model of an operation's own selection, such as `IssueQuery`. -/
def operationModel (operation : String) (kind : OperationKind) : String :=
  pascalCase operation ++ pascalCase kind.text

def fragmentModel (fragment : String) : String := pascalCase fragment ++ "Fragment"

def nestedModel (parent key : String) : String := parent ++ "_" ++ pascalCase key

def document (operation : String) : String := pascalCase operation ++ "Document"

def variablesType (operation : String) (kind : OperationKind) : String :=
  operationModel operation kind ++ "Variables"

def suffix? (name inside : String) : Option (List Char) := name.toList.isPrefixOf? inside.toList

/-- Whether a name is another one followed by a new word: by a capital, or by underscores and a
letter. -/
def isExtension (child parent : String) : Bool :=
  match suffix? parent child with
  | none | some [] => false
  | some ('_' :: rest) => (rest.dropWhile (· = '_')).head?.any isLetter
  | some (char :: _) => isUpper char

/-- The name of an operation as a method under another operation: what extends the parent's name,
with a small first letter, or the whole name where it extends nothing. -/
def chainMethod (child : String) (parent? : Option String) : String :=
  match parent? with
  | none => child
  | some parent =>
    if !isExtension child parent then child
    else match ((suffix? parent child).getD []).dropWhile (· = '_') with
      | [] => child
      | char :: rest => String.ofList (lower [char] ++ rest)

end ChainedSdk.Names
