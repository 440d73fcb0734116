import ChainedSdk.Table
/-!
# Scalar types

The target types of GraphQL scalars. A registered scalar has the type it was registered with last, a
built-in one its own type, and any other the default.
-/

namespace ChainedSdk

def builtinScalars : List (String × String) :=
  [("ID", "string"), ("String", "string"), ("Int", "number"), ("Float", "number"),
    ("Boolean", "boolean")]

def isBuiltinScalar (name : String) : Bool := (builtinScalars.lookup name).isSome

def wellKnownScalars : List (String × String) :=
  [("DateTime", "string"), ("Date", "string"), ("UUID", "string"),
    ("JSON", "Record<string, unknown>"), ("JSONObject", "Record<string, unknown>")]

/-- The registered scalars and the type of all that are not known. -/
structure ScalarTypes where
  registered : Table String
  default : String
deriving Inhabited

namespace ScalarTypes

/-- The registry with some scalars registered over the well-known ones. -/
def ofOverrides (overrides : List (String × String)) (default : String) : ScalarTypes where
  registered := (Table.ofList wellKnownScalars).insertAll overrides
  default := default

def register (types : ScalarTypes) (name target : String) : ScalarTypes :=
  { types with registered := types.registered.insert name target }

/-- The type of a scalar that is registered or built in. -/
def get? (types : ScalarTypes) (name : String) : Option String :=
  types.registered.get? name <|> builtinScalars.lookup name

def contains (types : ScalarTypes) (name : String) : Bool := (types.get? name).isSome

def resolve (types : ScalarTypes) (name : String) : String :=
  (types.get? name).getD types.default

end ScalarTypes

end ChainedSdk
