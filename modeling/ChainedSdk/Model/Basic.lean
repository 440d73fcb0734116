import ChainedSdk.Error
import ChainedSdk.Schema.Type
import ChainedSdk.Table
/-!
# Models

A model is the shape of one selection: the fields that are selected at one place of an operation or
a fragment. Models are told apart by that place and not by their type, so two selections of
different fields of one type are two models.
-/

namespace ChainedSdk

/-- The field of a schema that every type has without declaring it. -/
def typenameField : String := "__typename"

/-- A selected field: its response key, the field of the schema behind it, and the model of what is
selected inside it, if anything is. -/
structure ModelField where
  name : String
  fieldName : String
  type : TypeDescriptor
  isList : Bool := false
  isOptional : Bool := true
  model? : Option String := none
deriving DecidableEq, Repr, Inhabited

/-- A selection shape. The path holds the response keys from the root selection of its source. -/
structure Model where
  name : String
  typeName : String
  fields : List ModelField
  source : String
  sourceKind : SourceKind
  path : List String
deriving DecidableEq, Repr, Inhabited

namespace Model

def field? (model : Model) (name : String) : Option ModelField :=
  model.fields.find? fun field => field.name = name

/-- Whether a model is the root selection of its source. -/
def isRoot (model : Model) : Bool := model.path.isEmpty

end Model

/-- Models under their names; a later model takes the place of an earlier one of its name. -/
def modelTable (models : List Model) : Table Model :=
  Table.ofList (models.map fun model => (model.name, model))

end ChainedSdk
