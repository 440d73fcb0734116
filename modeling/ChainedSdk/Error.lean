import ChainedSdk.Config.Problem
import ChainedSdk.Files.Obstacle
import ChainedSdk.GraphQL.Document
import ChainedSdk.Text.Numeral
import ChainedSdk.Text.Quoted
/-!
# Errors

Everything that can stop a run, by its cause. The wording of all messages is in `Error.message`, and
`Error.category` sorts the causes into the classes under which they are reported.
-/

namespace ChainedSdk

/-- What a selection model is made from: an operation of some kind or a fragment. -/
inductive SourceKind where
  | operation (kind : OperationKind)
  | fragment
deriving DecidableEq, Repr, Inhabited

def SourceKind.text : SourceKind → String
  | operation kind => kind.text
  | fragment => "fragment"

/-- Something that a name was to stand for and does not. -/
inductive Reference where
  | rootType (kind : OperationKind)
  | type (name : String)
  | field (owner name : String)
  | fragment (name : String)
  | resultField (typeName : String)
  | variable (name typeName : String)
  | model (name : String)
  | modelField (model field : String)
deriving DecidableEq, Repr

def Reference.text : Reference → String
  | .rootType kind => kind.text ++ " root type"
  | .type name => name
  | .field owner name => owner ++ "." ++ name
  | .fragment name => "..." ++ name
  | .resultField typeName => typeName ++ " result field"
  | .variable name typeName => "$" ++ name ++ ": " ++ typeName
  | .model name => name
  | .modelField owner name => owner ++ "." ++ name

/-- Something that a later stage takes for granted and does not find. -/
inductive MissingEntry where
  | resultModel (operation : String)
  | dataType (model : String)
  | namedType (name : String)
deriving DecidableEq, Repr

def MissingEntry.text : MissingEntry → String
  | resultModel operation => "Operation '" ++ operation ++ "' has no result model to chain under"
  | dataType model => "Model '" ++ model ++ "' has no data type"
  | namedType name => "Type '" ++ name ++ "' has no entry"

/-- A cause that stops a run. -/
inductive Error where
  | syntaxError
  | unparsedSchema
  | doubleNonNull
  | duplicateType (name : String)
  | extensionWithoutBase (name : String)
  | undefinedRoot (kind : OperationKind) (name : String)
  | noQueryRoot
  | undefinedFieldType (owner field type : String)
  | undefinedMember (owner type : String)
  | duplicateFragment (name : String)
  | anonymousOperation (kind : OperationKind)
  | duplicateOperation (name : String)
  | duplicateModel (model : String) (firstKind : SourceKind) (first : String)
      (secondKind : SourceKind) (second : String)
  | fragmentCycle (trail : List String) (name : String)
  | endlessSelection
  | unresolved (operation : String) (reference : Reference)
  | unreachable (operations : List String)
  | ownAncestor (operation : String)
  | methodConflict (name first second : String) (parent? : Option String)
  | invalidSetting (location : String) (problem : SettingProblem)
  | outputExtension (output : String)
  | noDocumentFile
  | configNotJson (path : String)
  | configNotObject (path : String)
  | configLongNumber (path : String)
  | configDeepNesting (path : String)
  | missing (entry : MissingEntry)
  | nullInPath (path : String)
  | longPath (path : String)
  | unwritable (path : String) (obstacle : Obstacle)
  | unknownVersion
deriving DecidableEq, Repr

namespace Error

inductive Category where
  | general
  | schema
  | document
  | unresolvedReference
  | methodConflict
  | config
  | value
  | malformed
  | recursion
  | lookup
  | path (obstacle : Obstacle)
  | installation
deriving DecidableEq, Repr

def Category.text : Category → String
  | general => "SdkError"
  | schema => "SchemaError"
  | document => "DocumentError"
  | unresolvedReference => "UnresolvedModelReference"
  | methodConflict => "ChainNameConflict"
  | config => "PluginConfigError"
  | value => "ValueError"
  | malformed => "GraphQLSyntaxError"
  | recursion => "RecursionError"
  | lookup => "AttributeError"
  | path .longName => "OSError"
  | path .fileOnTheWay => "NotADirectoryError"
  | path .fileAsDirectory => "FileExistsError"
  | path .directoryAsFile => "IsADirectoryError"
  | installation => "RuntimeError"

/-- Whether the causes of a class are explained to the user by their message. Others only tell their
class. -/
def Category.isExplained : Category → Bool
  | value | recursion | lookup | path _ | installation => false
  | _ => true

def category : Error → Category
  | syntaxError => .malformed
  | unparsedSchema | doubleNonNull | duplicateType _ | extensionWithoutBase _
  | undefinedRoot _ _ | noQueryRoot | undefinedFieldType _ _ _ | undefinedMember _ _ => .schema
  | duplicateFragment _ | anonymousOperation _ | duplicateOperation _ | duplicateModel ..
  | fragmentCycle _ _ => .document
  | endlessSelection | configDeepNesting _ => .recursion
  | unresolved _ _ => .unresolvedReference
  | unreachable _ | ownAncestor _ => .general
  | .methodConflict .. => .methodConflict
  | invalidSetting _ _ | outputExtension _ | noDocumentFile | configNotJson _
  | configNotObject _ => .config
  | configLongNumber _ | nullInPath _ => .value
  | missing _ => .lookup
  | longPath _ => .path .longName
  | unwritable _ obstacle => .path obstacle
  | unknownVersion => .installation

def generatorName : String := "gql-sdkgen"

/-- The beginning of messages about what the host has to provide. -/
def requirement : String := "Plugin \"" ++ generatorName ++ "\" config requires "

def outputExtensionText : String := ".ts"

def quotedList (names : List String) : String :=
  "[" ++ ", ".intercalate (names.map Text.quoted) ++ "]"

def message : Error → String
  | syntaxError => "<syntax error>"
  | unparsedSchema => "Expected a schema DocumentNode, got str"
  | doubleNonNull => "Expected a named type reference, got NonNullTypeNode"
  | duplicateType name => "Type '" ++ name ++ "' is defined more than once"
  | extensionWithoutBase name => "Extension of type '" ++ name ++ "' has no base definition"
  | undefinedRoot kind name => "Root " ++ kind.text ++ " type '" ++ name ++ "' is not defined"
  | noQueryRoot => "Schema does not define a query root type"
  | undefinedFieldType owner field typeName =>
      "Field '" ++ owner ++ "." ++ field ++ "' references undefined type '" ++ typeName ++ "'"
  | undefinedMember owner typeName =>
      "Type '" ++ owner ++ "' references undefined type '" ++ typeName ++ "'"
  | duplicateFragment name => "Fragment '" ++ name ++ "' is defined more than once"
  | anonymousOperation kind => "Anonymous " ++ kind.text ++ " operations are not supported"
  | duplicateOperation name => "Operation '" ++ name ++ "' is defined more than once"
  | duplicateModel model firstKind first secondKind second =>
      "Model '" ++ model ++ "' is produced by both " ++ firstKind.text ++ " '" ++ first ++
        "' and " ++ secondKind.text ++ " '" ++ second ++
        "'; names must stay distinct once converted to PascalCase"
  | fragmentCycle trail name =>
      "Fragment spreads form a cycle: " ++ " -> ".intercalate (trail ++ [name])
  | endlessSelection => "maximum recursion depth exceeded"
  | unresolved operation reference =>
      "Operation '" ++ operation ++ "' references unknown '" ++ reference.text ++ "'"
  | unreachable operations =>
      "Operations " ++ quotedList operations ++ " are not reachable in the chain tree"
  | ownAncestor operation => "Operation '" ++ operation ++ "' is its own ancestor"
  | .methodConflict name first second parent? =>
      let place := match parent? with
        | none | some "" => "at the root"
        | some parent => "under '" ++ parent ++ "'"
      "Cannot disambiguate method '" ++ name ++ "' " ++ place ++ ": operations " ++
        Text.quoted first ++ ", " ++ Text.quoted second ++ " collide"
  | invalidSetting location problem =>
      "Plugin \"" ++ generatorName ++ "\" config field \"" ++ location ++ "\" is invalid: " ++
        problem.text
  | outputExtension output =>
      requirement ++ "output file extension to be \"" ++ outputExtensionText ++ "\" but is \"" ++
        output ++ "\""
  | noDocumentFile =>
      requirement ++ "documentFile to be a string path to a document file generated by " ++
        "\"typed-document-node\""
  | configNotJson path => "Config file " ++ path ++ " is not valid JSON"
  | configNotObject path => "Config file " ++ path ++ " must contain a JSON object"
  | configLongNumber path =>
      "Config file " ++ path ++ " holds a whole number of more than " ++
        toString Text.longestNumeral ++ " digits"
  | configDeepNesting path => "Config file " ++ path ++ " nests its values too deeply"
  | missing entry => entry.text
  | nullInPath _ => "embedded null byte"
  | longPath path => "[Errno 36] File name too long: " ++ Text.quoted path
  | unwritable path obstacle => "Cannot write " ++ path ++ ": " ++ obstacle.text
  | unknownVersion => Text.quoted generatorName ++ " is not installed, so its version is unknown"

end Error

end ChainedSdk
