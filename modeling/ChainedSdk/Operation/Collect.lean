import ChainedSdk.Model.Basic
import ChainedSdk.Names
import ChainedSdk.Operation.Basic
import ChainedSdk.Report
import ChainedSdk.Schema.Context
/-!
# Collecting operations

The operations of some documents are read in order against the models of their root selections. No
two may have one name.
-/

namespace ChainedSdk

namespace Context

/-- Whether a variable may tie an operation to a parent. -/
def isIdentifying (context : Context) (name : String) (shape : TypeShape)
    (type : TypeDescriptor) : Bool :=
  match context.config.chainMatch with
  | .identifying => context.config.identifyingFields.contains name
  | .any => type.isLeaf && !shape.isList

def readVariable (context : Context) (operation : String) (definition : VariableDefinition) :
    Except Error Variable :=
  match definition.type.unwrap? with
  | none => .error .doubleNonNull
  | some shape => match context.type? shape.name with
    | none => .error (.unresolved operation (.variable definition.name shape.name))
    | some type => .ok {
        name := definition.name
        typeName := shape.name
        typeText := definition.type.text
        isList := shape.isList
        isOptional := shape.isOptional
        hasDefault := definition.default?.isSome
        isIdentifying := context.isIdentifying definition.name shape type }

end Context

/-- The root fields of an operation that hold data: the first, which is the result, and the others.
-/
def resultFields (models : Table Model) (name : String) (kind : OperationKind) :
    Except Error (ModelField × List ModelField) :=
  match models.get? (Names.operationModel name kind) with
  | none => .error (.unresolved name (.model (Names.operationModel name kind)))
  | some root => match root.fields.filter fun field => field.fieldName ≠ typenameField with
    | [] => .error (.unresolved name (.resultField root.typeName))
    | result :: others => .ok (result, others)

def severalRootFields (name : String) (fields : List ModelField) : Record where
  level := .warning
  stage := Stage.chain
  message := "Operation selects several root fields; only the first is chained"
  data := [("operation", .text name), ("fields", .texts (fields.map (·.name)))]

def readOperation (context : Context) (models : Table Model) (before : List Operation)
    (location? : Option String) (definition : OperationDefinition) :
    Reported (List Operation) := do
  match definition.name? with
  | none => throw (.anonymousOperation definition.kind)
  | some name =>
    if before.any fun operation => operation.name = name then throw (.duplicateOperation name)
    let (result, others) ← resultFields models name definition.kind
    unless others.isEmpty do Reported.report [severalRootFields name (result :: others)]
    let inputs ← (definition.variableDefinitions.mapM (context.readVariable name) :
      Except Error (List Variable))
    let operation : Operation := {
      name
      kind := definition.kind
      inputs
      fieldName := result.name
      resultType := result.type.name
      isList := result.isList
      isOptional := result.isOptional
      model? := result.model?
      location?
      index := before.length }
    return before ++ [operation]

def collectOperations (context : Context) (models : Table Model) (documents : List DocumentFile) :
    Reported (List Operation) :=
  let definitions := documents.flatMap fun file =>
    file.document.operations.map fun definition => (file.location?, definition)
  definitions.foldlM
    (fun before entry => readOperation context models before entry.1 entry.2) []

end ChainedSdk
