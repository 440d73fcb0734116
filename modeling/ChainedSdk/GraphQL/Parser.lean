import ChainedSdk.GraphQL.Document
import ChainedSdk.GraphQL.Lexer
/-!
# Reading GraphQL text

A recursive descent over the tokens of a text. Only syntax is checked. Blocks of selections, lists,
objects and list types may stand inside one another, but only to a fixed depth; the parsers of such
constructs get the number of levels that are left.
-/

namespace ChainedSdk.GraphQL

/-- A step that takes tokens from the front or fails. -/
abbrev Parser := StateT (List Token) Option

namespace Parser

/-- The next token, which stays. -/
def peek : Parser (Option Token) := do return (← get).head?

def next : Parser Token := do
  match ← get with
  | [] => failure
  | token :: rest => set rest; return token

/-- Takes the next token if it is the given one. -/
def accept (token : Token) : Parser Bool := do
  match ← get with
  | [] => return false
  | first :: rest => if first = token then set rest; return true else return false

def expect (token : Token) : Parser Unit := do
  if !(← accept token) then failure

def name : Parser String := do
  match ← next with
  | .name text => return text
  | _ => failure

/-- Takes the given word if it is next. -/
def acceptWord (word : String) : Parser Bool := accept (.name word)

def expectWord (word : String) : Parser Unit := expect (.name word)

/-- The number of tokens left, a bound on all that can follow. -/
def remaining : Parser Nat := do return (← get).length

def untilToken {α : Type} (closing : Token) (item : Parser α) : (fuel : Nat) → Parser (List α)
  | 0 => failure
  | fuel + 1 => do
    if ← accept closing then return []
    let first ← item
    return first :: (← untilToken closing item fuel)

def anyBetween {α : Type} (opening closing : Token) (item : Parser α) : Parser (List α) := do
  expect opening
  untilToken closing item ((← remaining) + 1)

def someBetween {α : Type} (opening closing : Token) (item : Parser α) : Parser (List α) := do
  expect opening
  let first ← item
  return first :: (← untilToken closing item ((← remaining) + 1))

/-- At least one item between two tokens, or nothing at all. -/
def optionalBetween {α : Type} (opening closing : Token) (item : Parser α) : Parser (List α) := do
  if (← peek) = some opening then someBetween opening closing item else return []

/-- Items while the given token is next; the item takes it. -/
def whileNext {α : Type} (token : Token) (item : Parser α) : (fuel : Nat) → Parser (List α)
  | 0 => failure
  | fuel + 1 => do
    if (← peek) = some token then
      let first ← item
      return first :: (← whileNext token item fuel)
    else return []

def afterSeparators {α : Type} (separator : Token) (item : Parser α) :
    (fuel : Nat) → Parser (List α)
  | 0 => failure
  | fuel + 1 => do
    if ← accept separator then
      let first ← item
      return first :: (← afterSeparators separator item fuel)
    else return []

/-- At least one item; a separator stands between two and may stand before the first. -/
def separated {α : Type} (separator : Token) (item : Parser α) : Parser (List α) := do
  let _ ← accept separator
  let first ← item
  return first :: (← afterSeparators separator item ((← remaining) + 1))

end Parser

open GraphQL.Parser

/-! ## Marks -/

def openParen : Token := .mark '('
def closeParen : Token := .mark ')'
def openBracket : Token := .mark '['
def closeBracket : Token := .mark ']'
def openBrace : Token := .mark '\x7b'
def closeBrace : Token := .mark '\x7d'
def colon : Token := .mark ':'
def equals : Token := .mark '='

/-! ## Values and type references -/

/-- How many selection blocks, how many lists and objects of a value, and how many lists of a type
reference may stand inside one another. A parser of GraphQL texts refuses what is nested deeper, in
each of the three alike, as a syntax error. -/
def nestingLimit : Nat := 200

/-- A name or a bracketed item, with a mark of non-null at most once behind it. -/
def typeReferenceAround (item : Parser TypeRef) : Parser TypeRef := do
  let reference ←
    if ← accept openBracket then
      let inner ← item
      expect closeBracket
      pure (TypeRef.list inner)
    else pure (TypeRef.named (← name))
  if ← accept (.mark '!') then return .nonNull reference else return reference

/-- A type reference with at most so many lists inside one another. -/
def typeReferenceWithin : (depth : Nat) → Parser TypeRef
  | 0 => typeReferenceAround failure
  | depth + 1 => typeReferenceAround (typeReferenceWithin depth)

def typeReference : Parser TypeRef := typeReferenceWithin nestingLimit

/-- A value without parts; a constant one is no variable. -/
def plainValue (isConstant : Bool) : Parser Value := do
  match ← next with
  | .int digits => return .int digits
  | .float digits => return .float digits
  | .string text => return .string text
  | .name "true" => return .boolean true
  | .name "false" => return .boolean false
  | .name "null" => return .null
  | .name text => return .enum text
  | .mark '$' => if isConstant then failure else return .variable (← name)
  | _ => failure

/-- A value with at most so many lists and objects inside one another; a constant one holds no
variable. -/
def valueWithin (isConstant : Bool) : (depth : Nat) → Parser Value
  | 0 => plainValue isConstant
  | depth + 1 => do
    match ← peek with
    | some (.mark '[') => return .list (← anyBetween openBracket closeBracket
        (valueWithin isConstant depth))
    | some (.mark '\x7b') => return .object (← anyBetween openBrace closeBrace do
        let field ← name
        expect colon
        return (field, ← valueWithin isConstant depth))
    | _ => plainValue isConstant

def argument (isConstant : Bool) (depth : Nat) : Parser Argument := do
  let given ← name
  expect colon
  return ⟨given, ← valueWithin isConstant depth⟩

/-- The arguments of a field or a directive, if there are any. -/
def arguments (isConstant : Bool) (depth : Nat) : Parser (List Argument) :=
  optionalBetween openParen closeParen (argument isConstant depth)

def directive (isConstant : Bool) (depth : Nat) : Parser Directive := do
  expect (.mark '@')
  let called ← name
  return ⟨called, ← arguments isConstant depth⟩

def directives (isConstant : Bool) (depth : Nat) : Parser (List Directive) := do
  whileNext (.mark '@') (directive isConstant depth) ((← remaining) + 1)

/-- The directives of a definition as a whole. -/
def constantDirectives : Parser (List Directive) := directives true nestingLimit

/-! ## Operations and fragments -/

/-- The name of a fragment, any but the word before a type condition. -/
def fragmentName : Parser String := do
  let called ← name
  if called = "on" then failure else return called

/-- What follows three points: a fragment's name, or an inline fragment with a block. -/
def spreadRest (depth : Nat) (block : Parser (List Selection)) : Parser Selection := do
  if ← acceptWord "on" then
    let condition ← name
    let applied ← directives false depth
    return .inlineFragment (some condition) applied (← block)
  else
    match ← peek with
    | some (.name _) =>
      let called ← fragmentName
      return .spread called (← directives false depth)
    | _ =>
      let applied ← directives false depth
      return .inlineFragment none applied (← block)

def fieldSelection (depth : Nat) (block : Parser (List Selection)) : Parser Selection := do
  let first ← name
  let (alias?, field) ←
    if ← accept colon then pure (some first, ← name) else pure (none, first)
  let given ← arguments false depth
  let applied ← directives false depth
  let head : FieldHead := ⟨alias?, field, given, applied⟩
  if (← peek) = some openBrace then return .field head (some (← block))
  else return .field head none

/-- A selection: a field, a spread or an inline fragment. -/
def selection (depth : Nat) (block : Parser (List Selection)) : Parser Selection := do
  if ← accept .spread then spreadRest depth block else fieldSelection depth block

/-- A block of selections, with at most so many levels of its own and inside it. -/
def selectionBlockWithin : (depth : Nat) → Parser (List Selection)
  | 0 => failure
  | depth + 1 =>
    anyBetween openBrace closeBrace (selection depth (selectionBlockWithin depth))

def selectionBlock : Parser (List Selection) := selectionBlockWithin nestingLimit

def operationKind : Parser OperationKind := do
  match OperationKind.ofText? (← name) with
  | some kind => return kind
  | none => failure

def default? : Parser (Option Value) := do
  if ← accept equals then return some (← valueWithin true nestingLimit) else return none

def description? : Parser (Option String) := do
  match ← peek with
  | some (.string text) => let _ ← next; return some text
  | _ => return none

def variableDefinition : Parser VariableDefinition := do
  let described ← description?
  expect (.mark '$')
  let called ← name
  expect colon
  let type ← typeReference
  let default? ← default?
  return ⟨described, called, type, default?, ← constantDirectives⟩

/-- An operation behind its description; a block alone is a query. -/
def operationDefinition (described : Option String) : Parser OperationDefinition := do
  if (← peek) = some openBrace then
    return ⟨described, .query, none, [], [], ← selectionBlock⟩
  let kind ← operationKind
  let name? ← match ← peek with
    | some (.name _) => pure (some (← name))
    | _ => pure none
  let definitions ← optionalBetween openParen closeParen variableDefinition
  let applied ← directives false nestingLimit
  return ⟨described, kind, name?, definitions, applied, ← selectionBlock⟩

def fragmentDefinition (described : Option String) : Parser FragmentDefinition := do
  expectWord "fragment"
  let called ← fragmentName
  expectWord "on"
  let condition ← name
  let applied ← directives false nestingLimit
  return ⟨described, called, condition, applied, ← selectionBlock⟩

/-! ## The type system -/

/-- An argument definition or a field of an input type. -/
def inputValueDefinition : Parser InputValueDefinition := do
  let described ← description?
  let called ← name
  expect colon
  let type ← typeReference
  let default? ← default?
  return ⟨described, called, type, default?, ← constantDirectives⟩

def argumentDefinitions : Parser (List InputValueDefinition) :=
  optionalBetween openParen closeParen inputValueDefinition

/-- A field of an object or interface type. -/
def fieldDefinition : Parser FieldDefinition := do
  let described ← description?
  let called ← name
  let taken ← argumentDefinitions
  expect colon
  let type ← typeReference
  return ⟨described, called, taken, type, ← constantDirectives⟩

/-- A value of an enum; the words for truth values and null are none. -/
def enumValueDefinition : Parser EnumValueDefinition := do
  let described ← description?
  let called ← name
  if called = "true" || called = "false" || called = "null" then failure
  return ⟨described, called, ← constantDirectives⟩

def interfaces : Parser (List String) := do
  if ← acceptWord "implements" then separated (.mark '&') name else return []

/-- The rest of a type definition or extension behind its keyword: the name, the directives and the
body of the kind. -/
def typeRest (keyword : String) : Parser (String × List Directive × TypeBody) := do
  let called ← name
  match keyword with
  | "scalar" => return (called, ← constantDirectives, .scalar)
  | "type" =>
    let implemented ← interfaces
    let applied ← constantDirectives
    let fields ← optionalBetween openBrace closeBrace fieldDefinition
    return (called, applied, .object implemented fields)
  | "interface" =>
    let implemented ← interfaces
    let applied ← constantDirectives
    let fields ← optionalBetween openBrace closeBrace fieldDefinition
    return (called, applied, .interface implemented fields)
  | "union" =>
    let applied ← constantDirectives
    let members ← if ← accept equals then separated (.mark '|') name else pure []
    return (called, applied, .union members)
  | "enum" =>
    let applied ← constantDirectives
    let values ← optionalBetween openBrace closeBrace enumValueDefinition
    return (called, applied, .enum values)
  | "input" =>
    let applied ← constantDirectives
    let fields ← optionalBetween openBrace closeBrace inputValueDefinition
    return (called, applied, .input fields)
  | _ => failure

/-- Whether a body says nothing. -/
def bodyIsEmpty : TypeBody → Bool
  | .scalar => true
  | .object implemented fields => implemented.isEmpty && fields.isEmpty
  | .interface implemented fields => implemented.isEmpty && fields.isEmpty
  | .union members => members.isEmpty
  | .enum values => values.isEmpty
  | .input fields => fields.isEmpty

def rootOperation : Parser RootOperation := do
  let kind ← operationKind
  expect colon
  return ⟨kind, ← name⟩

def directiveLocations : List String := [
  "QUERY", "MUTATION", "SUBSCRIPTION", "FIELD", "FRAGMENT_DEFINITION", "FRAGMENT_SPREAD",
  "INLINE_FRAGMENT", "VARIABLE_DEFINITION", "FRAGMENT_VARIABLE_DEFINITION", "SCHEMA", "SCALAR",
  "OBJECT", "FIELD_DEFINITION", "ARGUMENT_DEFINITION", "INTERFACE", "UNION", "ENUM", "ENUM_VALUE",
  "INPUT_OBJECT", "INPUT_FIELD_DEFINITION", "DIRECTIVE_DEFINITION"]

def directiveLocation : Parser String := do
  let location ← name
  if directiveLocations.contains location then return location else failure

def directiveRest (described : Option String) : Parser DirectiveDefinition := do
  expect (.mark '@')
  let called ← name
  let taken ← argumentDefinitions
  let applied ← constantDirectives
  let isRepeatable ← acceptWord "repeatable"
  expectWord "on"
  let locations ← separated (.mark '|') directiveLocation
  return ⟨described, called, taken, applied, isRepeatable, locations⟩

/-- An extension behind its keyword. One that adds nothing is an error. -/
def extensionRest : Parser Definition := do
  match ← name with
  | "schema" =>
    let applied ← constantDirectives
    let roots ← optionalBetween openBrace closeBrace rootOperation
    if applied.isEmpty && roots.isEmpty then failure
    return .schemaExtension ⟨none, applied, roots⟩
  | "directive" =>
    expect (.mark '@')
    let called ← name
    let applied ← constantDirectives
    if applied.isEmpty then failure
    return .directiveExtension ⟨called, applied⟩
  | keyword =>
    let (called, applied, body) ← typeRest keyword
    if applied.isEmpty && bodyIsEmpty body then failure
    return .typeExtension ⟨called, applied, body⟩

/-! ## Documents -/

/-- A definition. Extensions and blocks without a keyword have no description. -/
def definition : Parser Definition := do
  let described ← description?
  match ← peek with
  | some (.name word) =>
    if word = "schema" then
      let _ ← next
      let applied ← constantDirectives
      return .schema ⟨described, applied, ← someBetween openBrace closeBrace rootOperation⟩
    else if word = "directive" then
      let _ ← next
      return .directive (← directiveRest described)
    else if ["scalar", "type", "interface", "union", "enum", "input"].contains word then
      let _ ← next
      let (called, applied, body) ← typeRest word
      return .type ⟨described, called, applied, body⟩
    else if word = "fragment" then return .fragment (← fragmentDefinition described)
    else if word = "extend" then
      if described.isSome then failure
      let _ ← next
      extensionRest
    else return .operation (← operationDefinition described)
  | _ => if described.isSome then failure else return .operation (← operationDefinition none)

def definitionsToEnd : (fuel : Nat) → Parser (List Definition)
  | 0 => failure
  | fuel + 1 => do
    if (← remaining) = 0 then return []
    let first ← definition
    return first :: (← definitionsToEnd fuel)

def parseAll? {α : Type} (parser : Parser α) (text : String) : Option α := do
  match parser.run (← tokens? text.toList) with
  | some (result, []) => some result
  | _ => none

/-- The document that a text writes, with at least one definition. -/
def parseDocument? (text : String) : Option Document :=
  parseAll? (do
    let first ← definition
    return ⟨first :: (← definitionsToEnd ((← remaining) + 1))⟩) text

def parseTypeRef? (text : String) : Option TypeRef := parseAll? typeReference text

end ChainedSdk.GraphQL
