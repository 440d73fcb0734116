/-!
# Schema types

The named types of a schema as later stages look them up.
-/

namespace ChainedSdk

inductive TypeKind where
  | scalar
  | enum
  | object
  | interface
  | union
  | input
deriving DecidableEq, Repr, Inhabited

def TypeKind.text : TypeKind → String
  | scalar => "scalar"
  | enum => "enum"
  | object => "object"
  | interface => "interface"
  | union => "union"
  | input => "input"

/-- A field of an object, interface or input type. -/
structure FieldDescriptor where
  name : String
  typeName : String
  isList : Bool
  isOptional : Bool
  description? : Option String
deriving DecidableEq, Repr, Inhabited

/-- A named type. Only scalars have a target type. -/
structure TypeDescriptor where
  name : String
  kind : TypeKind
  fields : List FieldDescriptor := []
  target? : Option String := none
  values : List String := []
  members : List String := []
  interfaces : List String := []
  description? : Option String := none
deriving DecidableEq, Repr, Inhabited

namespace TypeDescriptor

def field? (type : TypeDescriptor) (name : String) : Option FieldDescriptor :=
  type.fields.find? fun field => field.name = name

/-- Whether values of the type have no fields to select. -/
def isLeaf (type : TypeDescriptor) : Bool := type.kind = .scalar || type.kind = .enum

/-- Whether values of the type have fields to select. -/
def isComposite (type : TypeDescriptor) : Bool :=
  type.kind = .object || type.kind = .interface || type.kind = .union

end TypeDescriptor

end ChainedSdk
