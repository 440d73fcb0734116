import ChainedSdk.Sdk.Requester
/-!
# The generated SDK

The classes that are generated, as data. A model class wraps the response data of one selection and
carries the methods of the operations chained under it. An operation class has one method, `fetch`.
The entry class has the methods of the operations at the root.
-/

namespace ChainedSdk

structure Parameter where
  name : String
  type : String
  isOptional : Bool := false
deriving DecidableEq, Repr, Inhabited

/-- The key under which the values of a model's field travel along a chain of calls. -/
structure ChainKey where
  model : String
  field : String
deriving DecidableEq, Repr, Inhabited

/-- What a method hands to `fetch`: a parameter of its own, a field of its object, or a value that
was put on the chain further up. -/
inductive FetchArgument where
  | parameter (name : String)
  | ownField (field : String)
  | chained (key : ChainKey) (type : String)
deriving DecidableEq, Repr

/-- A method that runs an operation. On a model class it puts some fields of its object on the
chain; on the entry class there is no chain yet. -/
structure Method where
  name : String
  description : String
  parameters : List Parameter
  operationClass : String
  chainKeys? : Option (List ChainKey)
  arguments : List FetchArgument
deriving DecidableEq, Repr, Inhabited

/-- A field of a model class with the expression for its value. -/
structure Property where
  name : String
  type : String
  isOptional : Bool
  value : String
deriving DecidableEq, Repr, Inhabited

structure ModelClass where
  name : String
  description : String
  dataType : String
  properties : List Property
  methods : List Method
deriving DecidableEq, Repr, Inhabited

/-- The class of an operation. The response is read under `resultKey` and turned into `result`. -/
structure OperationClass where
  name : String
  description : String
  document : String
  responseType : String
  variablesType : String
  parameters : List Parameter
  sentByName : List String
  /-- Whether the variables that may be left out are sent as well. -/
  sendsOptional : Bool
  resultKey : String
  returnType : String
  result : String
deriving DecidableEq, Repr, Inhabited

/-- The class that a user of the SDK starts from. -/
structure EntryClass where
  name : String
  methods : List Method
deriving DecidableEq, Repr, Inhabited

/-- The parameter that holds the variables which may be left out. -/
def optionalVariables : String := "variables"

/-- The name under which generated code imports the typed documents. -/
def documentsNamespace : String := "D"

/-- Something that the module of typed documents exports. -/
def documentsMember (name : String) : String := documentsNamespace ++ "." ++ name

end ChainedSdk
