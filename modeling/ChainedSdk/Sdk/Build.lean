import ChainedSdk.Chain.Node
import ChainedSdk.Names
import ChainedSdk.Schema.Context
import ChainedSdk.Sdk.DataType
/-!
# Building the SDK

The generated classes are read off the models and the forest of operations. Every model but the
root selections of operations has a class, every node of the forest has an operation class, and
every node is a method: of the entry class at the root, and of the class of its parent's result
below it.
-/

namespace ChainedSdk

namespace Context

def targetType (context : Context) (type : TypeDescriptor) : String :=
  if type.kind = .scalar then
    match type.target? with
    | none | some "" => context.config.defaultScalarType
    | some target => target
  else documentsMember type.name

def targetTypeNamed (context : Context) (name : String) : Except Error String :=
  match context.type? name with
  | some type => .ok (context.targetType type)
  | none => .error (.missing (.namedType name))

end Context

namespace Sdk

/-- The type of a single value or of a list of such values. -/
def listType (isList : Bool) (item : String) : String :=
  if isList then "Array<" ++ item ++ ">" else item

def variableType (context : Context) (input : Variable) : Except Error String :=
  (context.targetTypeNamed input.typeName).map (listType input.isList)

/-- The expression that turns response data into objects of a model's class; data without a model
stays as it is. `passed` holds the requester and the chain for the new objects. -/
def wrap (source : String) (model? : Option String) (isList isOptional : Bool)
    (passed : String × String) : String :=
  match model? with
  | none => if isOptional then source ++ " ?? undefined" else source
  | some model =>
    let object (data : String) : String :=
      "new " ++ model ++ "(" ++ passed.1 ++ ", " ++ data ++ ", " ++ passed.2 ++ ")"
    let value :=
      if isList then source ++ ".map(node => " ++ object "node" ++ ")" else object source
    if isOptional then source ++ " ? " ++ value ++ " : undefined" else value

def operationDescription (operation : Operation) : String :=
  Text.pascalCase operation.kind.text ++ " " ++ operation.name

def modelDescription (model : Model) : String :=
  model.typeName ++ " selected by " ++ model.sourceKind.text ++ " " ++ model.source

def operationClassName (operation : Operation) : String :=
  Names.operationModel operation.name operation.kind

def variablesType (operation : Operation) : String :=
  documentsMember (Names.variablesType operation.name operation.kind)

/-- The parameter for the variables that may be left out, if there are any. -/
def optionalParameters (operation : Operation) : List Parameter :=
  if operation.optional.isEmpty then []
  else
    let type := match operation.required with
      | [] => variablesType operation
      | required =>
        let omitted := required.map fun input => "\"" ++ input.name ++ "\""
        "Omit<" ++ variablesType operation ++ ", " ++ " | ".intercalate omitted ++ ">"
    [⟨optionalVariables, type, true⟩]

def requiredParameter (context : Context) (input : Variable) : Except Error Parameter :=
  (variableType context input).map fun type => { name := input.name, type }

def fetchParameters (context : Context) (operation : Operation) :
    Except Error (List Parameter) := do
  let required ← operation.required.mapM (requiredParameter context)
  return required ++ optionalParameters operation

/-- What a chain method hands on for a required variable. Of several inherited values under one name
the last counts. -/
def fetchArgument (context : Context) (inherited : List Inherited) (input : Variable) :
    Except Error FetchArgument :=
  match inherited.reverse.find? fun entry => entry.input.name = input.name with
  | none => .ok (.parameter input.name)
  | some entry =>
    if entry.depth = 0 then .ok (.ownField entry.field)
    else (variableType context input).map (.chained ⟨entry.model, entry.field⟩)

/-- The method of a node on the class of its parent's result. -/
def chainMethod (context : Context) (parent : Model) (node : Node) : Except Error Method := do
  let operation := node.operation
  let arguments ← operation.required.mapM (fetchArgument context node.inherited)
  let parameters ←
    (node.arguments.filter Variable.isRequired).mapM (requiredParameter context)
  let optional := optionalParameters operation
  return {
    name := node.method
    description := operationDescription operation
    parameters := parameters ++ optional
    operationClass := operationClassName operation
    chainKeys? := some ((parent.keyFields context.config).map fun field =>
      ⟨parent.name, field.name⟩)
    arguments := arguments ++ optional.map fun parameter => .parameter parameter.name }

def entryMethod (context : Context) (root : Node) : Except Error Method := do
  let parameters ← fetchParameters context root.operation
  return {
    name := root.method
    description := operationDescription root.operation
    parameters
    operationClass := operationClassName root.operation
    chainKeys? := none
    arguments := parameters.map fun parameter => .parameter parameter.name }

/-- The methods that a node puts on the class of its result. -/
def nodeMethods (context : Context) (node : Node) : Except Error (List (String × List Method)) :=
  match node.model?, node.children with
  | none, _ | _, [] => .ok []
  | some model, children => do
    return [(model.name, ← children.mapM (chainMethod context model))]

def chainMethods (context : Context) (forest : Forest) : Except Error (Table (List Method)) := do
  return Table.ofList (← forest.walk.mapM (nodeMethods context)).flatten

/-- The property of a model class for a selected field. -/
def property (context : Context) (field : ModelField) : Property where
  name := field.name
  type := listType field.isList (field.model?.getD (context.targetType field.type))
  isOptional := field.isOptional
  value := wrap ("data." ++ field.name) field.model? field.isList field.isOptional
    ("request", "chain")

/-- Whether a model is the root selection of an operation, whose data is read by the operation class
and has no class of its own. -/
def isOperationRoot (model : Model) : Bool := model.isRoot && model.sourceKind ≠ .fragment

/-- The class of a model. A field gives way to a method of its name. -/
def modelClass (context : Context) (types : Table String) (methods : Table (List Method))
    (model : Model) : Except Error ModelClass :=
  let own := (methods.get? model.name).getD []
  match types.get? model.name with
  | none => .error (.missing (.dataType model.name))
  | some dataType => .ok {
      name := model.name
      description := modelDescription model
      dataType
      properties := (model.fields.filter fun field =>
        !own.any fun method => method.name = field.name).map (property context)
      methods := own }

def modelClasses (context : Context) (models : List Model) (forest : Forest) :
    Except Error (List ModelClass) := do
  let methods ← chainMethods context forest
  (models.filter fun model => !isOperationRoot model).mapM
    (modelClass context (dataTypes models) methods)

def resultType (context : Context) (node : Node) : Except Error String := do
  let target ← context.targetTypeNamed node.operation.resultType
  let type := listType node.operation.isList ((node.model?.map (·.name)).getD target)
  return if node.operation.isOptional then type ++ " | undefined" else type

def operationClass (context : Context) (node : Node) : Except Error OperationClass := do
  let operation := node.operation
  return {
    name := operationClassName operation
    description := operationDescription operation
    document := documentsMember (Names.document operation.name)
    responseType := documentsMember (operationClassName operation)
    variablesType := variablesType operation
    parameters := ← fetchParameters context operation
    sentByName := operation.required.map (·.name)
    sendsOptional := !operation.optional.isEmpty
    resultKey := operation.fieldName
    returnType := ← resultType context node
    result := wrap "data" (node.model?.map (·.name)) operation.isList operation.isOptional
      ("this._request", "this._chain") }

def operationClasses (context : Context) (forest : Forest) :
    Except Error (List OperationClass) :=
  forest.walk.mapM (operationClass context)

def entryClass (context : Context) (forest : Forest) : Except Error EntryClass := do
  let methods ← (forest.flatMap fun entry => entry.2).mapM (entryMethod context)
  return ⟨context.config.sdkName, methods⟩

end Sdk

end ChainedSdk
