import ChainedSdk.GraphQL.TypeRef
/-!
# GraphQL documents

The syntax of executable and type-system definitions, which may stand side by side in one document.
-/

namespace ChainedSdk

inductive OperationKind where
  | query
  | mutation
  | subscription
deriving DecidableEq, Repr, Inhabited

namespace OperationKind

/-- The keyword of a kind, which is also its key among the definitions. -/
def text : OperationKind → String
  | query => "query"
  | mutation => "mutation"
  | subscription => "subscription"

def ofText? : String → Option OperationKind
  | "query" => some query
  | "mutation" => some mutation
  | "subscription" => some subscription
  | _ => none

/-- All kinds, in the order in which root types are looked up. -/
def all : List OperationKind := [query, mutation, subscription]

theorem ofText?_text (kind : OperationKind) : ofText? kind.text = some kind := by
  cases kind <;> rfl

end OperationKind

/-- A value in an argument or a default; numbers keep their text. -/
inductive Value where
  | variable (name : String)
  | int (digits : String)
  | float (digits : String)
  | string (text : String)
  | boolean (value : Bool)
  | null
  | enum (name : String)
  | list (items : List Value)
  | object (fields : List (String × Value))
deriving BEq, Repr, Inhabited

structure Argument where
  name : String
  value : Value
deriving BEq, Repr, Inhabited

structure Directive where
  name : String
  arguments : List Argument
deriving BEq, Repr, Inhabited

/-- A selected field without the block of selections that may follow it. -/
structure FieldHead where
  alias? : Option String
  name : String
  arguments : List Argument
  directives : List Directive
deriving BEq, Repr, Inhabited

/-- The key under which a response holds the field: its alias, or else its name. -/
def FieldHead.key (head : FieldHead) : String := head.alias?.getD head.name

/-- A selection. A field may have a block of selections, which may be empty. -/
inductive Selection where
  | field (head : FieldHead) (selections? : Option (List Selection))
  | spread (name : String) (directives : List Directive)
  | inlineFragment (typeCondition? : Option String) (directives : List Directive)
      (selections : List Selection)
deriving BEq, Repr, Inhabited

structure VariableDefinition where
  description? : Option String
  name : String
  type : TypeRef
  default? : Option Value
  directives : List Directive
deriving BEq, Repr, Inhabited

/-- An operation; a block alone is a query without a name. -/
structure OperationDefinition where
  description? : Option String
  kind : OperationKind
  name? : Option String
  variableDefinitions : List VariableDefinition
  directives : List Directive
  selections : List Selection
deriving BEq, Repr, Inhabited

structure FragmentDefinition where
  description? : Option String
  name : String
  typeCondition : String
  directives : List Directive
  selections : List Selection
deriving BEq, Repr, Inhabited

/-- An argument of a field or directive definition, or a field of an input type. -/
structure InputValueDefinition where
  description? : Option String
  name : String
  type : TypeRef
  default? : Option Value
  directives : List Directive
deriving BEq, Repr, Inhabited

structure FieldDefinition where
  description? : Option String
  name : String
  arguments : List InputValueDefinition
  type : TypeRef
  directives : List Directive
deriving BEq, Repr, Inhabited

structure EnumValueDefinition where
  description? : Option String
  name : String
  directives : List Directive
deriving BEq, Repr, Inhabited

/-- What a type definition or extension says, by the kind of the type. -/
inductive TypeBody where
  | scalar
  | object (interfaces : List String) (fields : List FieldDefinition)
  | interface (interfaces : List String) (fields : List FieldDefinition)
  | union (members : List String)
  | enum (values : List EnumValueDefinition)
  | input (fields : List InputValueDefinition)
deriving BEq, Repr, Inhabited

structure TypeDefinition where
  description? : Option String
  name : String
  directives : List Directive
  body : TypeBody
deriving BEq, Repr, Inhabited

structure TypeExtension where
  name : String
  directives : List Directive
  body : TypeBody
deriving BEq, Repr, Inhabited

structure RootOperation where
  kind : OperationKind
  type : String
deriving BEq, Repr, Inhabited

structure SchemaBlock where
  description? : Option String
  directives : List Directive
  roots : List RootOperation
deriving BEq, Repr, Inhabited

structure DirectiveDefinition where
  description? : Option String
  name : String
  arguments : List InputValueDefinition
  directives : List Directive
  isRepeatable : Bool
  locations : List String
deriving BEq, Repr, Inhabited

structure DirectiveExtension where
  name : String
  directives : List Directive
deriving BEq, Repr, Inhabited

inductive Definition where
  | operation (definition : OperationDefinition)
  | fragment (definition : FragmentDefinition)
  | type (definition : TypeDefinition)
  | typeExtension (extension : TypeExtension)
  | schema (block : SchemaBlock)
  | schemaExtension (block : SchemaBlock)
  | directive (definition : DirectiveDefinition)
  | directiveExtension (extension : DirectiveExtension)
deriving BEq, Repr, Inhabited

structure Document where
  definitions : List Definition
deriving BEq, Repr, Inhabited

/-- A parsed document and the place it came from. -/
structure DocumentFile where
  document : Document
  location? : Option String
deriving BEq, Repr, Inhabited

namespace Document

def operations (document : Document) : List OperationDefinition :=
  document.definitions.filterMap fun
    | .operation definition => some definition
    | _ => none

def fragments (document : Document) : List FragmentDefinition :=
  document.definitions.filterMap fun
    | .fragment definition => some definition
    | _ => none

end Document

end ChainedSdk
