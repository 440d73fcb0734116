import ChainedSdk.Error
import ChainedSdk.Files.Tree
import ChainedSdk.GraphQL.Parser
/-!
# Schema and document files

A path may lead to one file or to a directory that is searched with everything below it.
-/

namespace ChainedSdk

/-- A parsed document, or the error for text that is none. -/
def Document.ofText (text : String) : Except Error Document :=
  match GraphQL.parseDocument? text with
  | some document => .ok document
  | none => .error .syntaxError

namespace FileTree

/-- The files with one of some extensions that a path leads to. A path with a null character is no
path. -/
def search (tree : FileTree) (path : String) (extensions : List String) :
    Except Error (List (String × String)) :=
  if Path.hasNull path then .error (.nullInPath path) else .ok (tree.collect path extensions)

def schemaExtensions : List String := [".graphqls", ".graphql", ".gql"]

def documentExtensions : List String := [".graphql", ".gql"]

/-- The schema that a path leads to: the definitions of all its files. -/
def readSchema (tree : FileTree) (path : String) : Except Error Document := do
  let files ← tree.search path schemaExtensions
  let documents ← files.mapM fun file => Document.ofText file.2
  return ⟨documents.flatMap (·.definitions)⟩

def readDocumentsAt (tree : FileTree) (path : String) : Except Error (List DocumentFile) := do
  (← tree.search path documentExtensions).mapM fun file => do
    return ⟨← Document.ofText file.2, some file.1⟩

/-- The documents that some paths lead to, path after path. -/
def readDocuments (tree : FileTree) (paths : List String) : Except Error (List DocumentFile) := do
  return (← paths.mapM tree.readDocumentsAt).flatten

end FileTree

end ChainedSdk
