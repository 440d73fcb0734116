import ChainedSdk.Sdk.Basic
import ChainedSdk.Text.Comment
/-!
# The text of the SDK

How the generated classes are written down. Comments hold arbitrary text and are made fit for one
line; everything else is written as it is.
-/

namespace ChainedSdk

/-- Lines between braces after some opening text, which stands behind an indent. -/
def braced (indent opening body : String) : String :=
  indent ++ opening ++ " \x7b\n" ++ body ++ indent ++ "\x7d\n"

def classComment (description : String) : String :=
  "/**\n * " ++ Text.commentLine description ++ "\n */\n"

def exportedClass (name body : String) : String :=
  braced "" ("export class " ++ name ++ " extends Request") body

def commaList (items : List String) : String := ", ".intercalate items

/-- A parameter in the head of a method. -/
def Parameter.text (parameter : Parameter) : String :=
  parameter.name ++ (if parameter.isOptional then "?: " else ": ") ++ parameter.type

def parameterList (parameters : List Parameter) : String :=
  commaList (parameters.map Parameter.text)

def ChainKey.text (key : ChainKey) : String := "\"" ++ key.model ++ "." ++ key.field ++ "\""

def FetchArgument.text : FetchArgument → String
  | parameter name => name
  | ownField field => "this." ++ field
  | chained key type => "this._chain[" ++ key.text ++ "] as " ++ type

/-- The chain that a method passes on: everything that came along it, and the fields of its object.
-/
def chainText (keys : List ChainKey) : String :=
  let entries := keys.map fun key => key.text ++ ": this." ++ key.field
  "\x7b " ++ commaList ("...this._chain" :: entries) ++ " \x7d"

def Method.text (method : Method) : String :=
  let passed := "this._request" :: (method.chainKeys?.map chainText).toList
  "\n  /** " ++ Text.commentLine method.description ++ " */\n" ++
    braced "  " ("public " ++ method.name ++ "(" ++ parameterList method.parameters ++ ")")
      ("    return new " ++ method.operationClass ++ "(" ++ commaList passed ++ ").fetch(" ++
        commaList (method.arguments.map FetchArgument.text) ++ ");\n")

def Property.declaration (property : Property) : String :=
  "  public " ++ property.name ++ (if property.isOptional then "?: " else ": ") ++ property.type ++
    ";\n"

/-- The statement that sets a property. -/
def Property.assignment (property : Property) : String :=
  "    this." ++ property.name ++ " = " ++ property.value ++ ";\n"

def ModelClass.constructorText (requester : Requester) (model : ModelClass) : String :=
  braced "  " ("public constructor(request: " ++ requester.name ++ ", data: " ++ model.dataType ++
      ", chain: Record<string, unknown> = \x7b\x7d)")
    ("    super(request, chain);\n" ++
      String.join (model.properties.map Property.assignment))

def ModelClass.text (requester : Requester) (model : ModelClass) : String :=
  classComment model.description ++
    exportedClass model.name
      (String.join (model.properties.map Property.declaration) ++ "\n" ++
        model.constructorText requester ++ String.join (model.methods.map Method.text)) ++ "\n"

/-- The variables that a request sends. -/
def OperationClass.sent (operation : OperationClass) : List String :=
  operation.sentByName ++
    (if operation.sendsOptional then ["..." ++ optionalVariables] else [])

def OperationClass.fetchText (operation : OperationClass) : String :=
  braced "  " ("public async fetch(" ++ parameterList operation.parameters ++ "): Promise<" ++
      operation.returnType ++ ">")
    ("    const response = await this._request<" ++ operation.responseType ++ ", " ++
      operation.variablesType ++ ">(" ++ operation.document ++ ", \x7b\n" ++
      String.join (operation.sent.map fun name => "      " ++ name ++ ",\n") ++
      "    \x7d);\n    const data = response." ++ operation.resultKey ++ ";\n    return " ++
      operation.result ++ ";\n")

def OperationClass.text (operation : OperationClass) : String :=
  classComment operation.description ++
    exportedClass operation.name operation.fetchText ++ "\n"

def EntryClass.text (requester : Requester) (entry : EntryClass) : String :=
  classComment "Entry point of the SDK; every top-level operation is a method here." ++
    exportedClass entry.name
      (braced "  " ("public constructor(request: " ++ requester.name ++ ")")
        "    super(request);\n" ++ String.join (entry.methods.map Method.text))

namespace Sdk

/-- The section of the model classes. -/
def modelsText (requester : Requester) (models : List ModelClass) : String :=
  String.join (models.map (ModelClass.text requester))

/-- The section of the operation classes and the entry class. -/
def operationsText (requester : Requester) (operations : List OperationClass)
    (entry : EntryClass) : String :=
  String.join (operations.map OperationClass.text) ++ entry.text requester

end Sdk

end ChainedSdk
