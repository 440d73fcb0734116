import ChainedSdk.Config.Basic
import ChainedSdk.Model.Basic
import ChainedSdk.Operation.Basic
/-!
# Inheriting variables

An operation that is called on the result of another one need not be given the variables that the
results above it hold. A required variable is inherited from the nearest result with a field that
supplies it; all other variables stay arguments of the caller.
-/

namespace ChainedSdk

namespace Model

/-- Whether a field of a model may stand in for a variable: a single leaf, and in identifying mode
one of the configured fields. -/
def isKeyField (config : Config) (field : ModelField) : Bool :=
  !field.isList && field.type.isLeaf && field.fieldName ≠ typenameField &&
    (config.chainMatch ≠ .identifying || config.identifyingFields.contains field.name)

def keyFields (model : Model) (config : Config) : List ModelField :=
  model.fields.filter (isKeyField config)

/-- The field that may stand in for variables of a name, the last of several under that name. -/
def keyField? (model : Model) (config : Config) (name : String) : Option ModelField :=
  (Table.ofList ((model.keyFields config).map fun field => (field.name, field))).get? name

/-- The names that methods on a model must leave to its key fields, with their owners. -/
def reserved (model : Model) (config : Config) : Table String :=
  Table.ofList ((model.keyFields config).map fun field =>
    (field.name, model.name ++ "." ++ field.name))

end Model

/-- Whether a field supplies a variable. One that may be missing never supplies one that may not. -/
def ModelField.supplies (field : ModelField) (input : Variable) : Bool :=
  input.name = field.name && input.typeName = field.type.name &&
    input.isList = field.isList && (input.isOptional || !field.isOptional)

/-- A variable that a field of a model above supplies; the depth counts from the direct parent. -/
structure Inherited where
  input : Variable
  model : String
  field : String
  depth : Nat
deriving DecidableEq, Repr, Inhabited

/-- The variable as the model at some depth supplies it, if it does. -/
def Model.supply? (model : Model) (config : Config) (depth : Nat) (input : Variable) :
    Option Inherited :=
  match model.keyField? config input.name with
  | some field =>
    if field.supplies input then some ⟨input, model.name, field.name, depth⟩ else none
  | none => none

/-- The variable as the nearest of some models supplies it, the first at the given depth. -/
def Variable.supplier? (config : Config) (input : Variable) :
    (depth : Nat) → List Model → Option Inherited
  | _, [] => none
  | depth, model :: further =>
    match model.supply? config depth input with
    | some found => some found
    | none => input.supplier? config (depth + 1) further

/-- The variable as one of the models above supplies it, nearest first; only a required variable is
inherited. -/
def Variable.inherited? (input : Variable) (config : Config) (above : List Model) :
    Option Inherited :=
  if input.isRequired then input.supplier? config 0 above else none

namespace Operation

/-- The model of an operation's result among some models; an empty name stands for none. -/
def resultModel? (operation : Operation) (models : Table Model) : Option Model :=
  match operation.model? with
  | none | some "" => none
  | some name => models.get? name

/-- The variables that a caller gives to an operation under some models, nearest first. -/
def arguments (operation : Operation) (config : Config) (above : List Model) : List Variable :=
  operation.inputs.filter fun input => (input.inherited? config above).isNone

/-- The variables that an operation inherits from the models above it, nearest first. -/
def inherited (operation : Operation) (config : Config) (above : List Model) : List Inherited :=
  operation.inputs.filterMap fun input => input.inherited? config above

end Operation

end ChainedSdk
