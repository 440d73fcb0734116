import ChainedSdk.GraphQL.Document
/-!
# Operations

A named operation with its variables and the shape of its result, which is its first root field.
-/

namespace ChainedSdk

structure Variable where
  name : String
  typeName : String
  typeText : String
  isList : Bool
  isOptional : Bool
  hasDefault : Bool
  isIdentifying : Bool
deriving DecidableEq, Repr, Inhabited

/-- Whether a caller has to give the variable. -/
def Variable.isRequired (input : Variable) : Bool :=
  !input.isOptional && !input.hasDefault

/-- A named operation. The index counts the operations of all documents. -/
structure Operation where
  name : String
  kind : OperationKind
  inputs : List Variable
  /-- The response key of the root field that is the result. -/
  fieldName : String
  resultType : String
  isList : Bool
  isOptional : Bool
  model? : Option String
  location? : Option String
  index : Nat
deriving DecidableEq, Repr, Inhabited

namespace Operation

def required (operation : Operation) : List Variable :=
  operation.inputs.filter Variable.isRequired

def optional (operation : Operation) : List Variable :=
  operation.inputs.filter fun input => !input.isRequired

end Operation

end ChainedSdk
