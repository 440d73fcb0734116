import ChainedSdk.GraphQL.Parser
import ChainedSdk.Report
import ChainedSdk.Schema.Context
import ChainedSdk.Schema.Scalar
/-!
# Building the context

The definitions of a schema are read one after the other into a draft. An extension is folded into
its type, at once when the type is known and when the type is defined otherwise. The finished draft
is checked: every extension has found its type, the root types exist, and every reference leads to
a type.
-/

namespace ChainedSdk

/-- What is known of a schema after some of its definitions. -/
structure SchemaDraft where
  types : Table TypeDescriptor
  /-- Extensions whose types are not defined yet. -/
  pending : Table (List TypeExtension)
  /-- The root types named so far, latest first. -/
  roots : List (OperationKind × String)

/-- The name of the root type of a kind where the schema names none. -/
def OperationKind.conventionalRoot : OperationKind → String
  | query => "Query"
  | mutation => "Mutation"
  | subscription => "Subscription"

namespace SchemaDraft

def shape (type : TypeRef) : Except Error TypeShape :=
  match type.unwrap? with
  | some shape => .ok shape
  | none => .error .doubleNonNull

/-- The descriptor of a field from what is declared of it. -/
def describeField (name : String) (type : TypeRef) (description? : Option String) :
    Except Error FieldDescriptor := do
  let shape ← shape type
  return ⟨name, shape.name, shape.isList, shape.isOptional, description?⟩

def describeFields (fields : List FieldDefinition) : Except Error (List FieldDescriptor) :=
  fields.mapM fun field => describeField field.name field.type field.description?

def describeInputs (fields : List InputValueDefinition) : Except Error (List FieldDescriptor) :=
  fields.mapM fun field => describeField field.name field.type field.description?

def describe (scalars : ScalarTypes) (definition : TypeDefinition) :
    Except Error TypeDescriptor := do
  let { description?, name, body, .. } := definition
  match body with
  | .scalar =>
    return { name, kind := .scalar, target? := some (scalars.resolve name), description? }
  | .object interfaces fields =>
    return { name, kind := .object, fields := ← describeFields fields, interfaces, description? }
  | .interface interfaces fields =>
    return {
      name, kind := .interface, fields := ← describeFields fields, interfaces, description? }
  | .union members => return { name, kind := .union, members, description? }
  | .enum values =>
    return { name, kind := .enum, values := values.map (·.name), description? }
  | .input fields =>
    return { name, kind := .input, fields := ← describeInputs fields, description? }

/-- Fields followed by those of others that have new names. -/
def addFields (fields : List FieldDescriptor) : List FieldDescriptor → List FieldDescriptor
  | [] => fields
  | field :: rest =>
    if fields.any (fun known => known.name = field.name) then addFields fields rest
    else addFields (fields ++ [field]) rest

/-- A descriptor with an extension folded in. The kinds need not agree: fields, values, members and
interfaces are added to whatever the type has. -/
def extend (type : TypeDescriptor) (extension : TypeExtension) : Except Error TypeDescriptor := do
  match extension.body with
  | .scalar => return type
  | .enum values => return { type with values := type.values ++ values.map (·.name) }
  | .union members => return { type with members := type.members ++ members }
  | .object interfaces fields | .interface interfaces fields =>
    return {
      type with
      fields := addFields type.fields (← describeFields fields)
      interfaces := type.interfaces ++ interfaces }
  | .input fields =>
    return { type with fields := addFields type.fields (← describeInputs fields) }

/-- The draft before the first definition, with the built-in scalars. -/
def initial (scalars : ScalarTypes) : SchemaDraft where
  types := Table.ofList (builtinScalars.map fun entry =>
    (entry.1, { name := entry.1, kind := .scalar, target? := some (scalars.resolve entry.1) }))
  pending := ∅
  roots := []

/-- A draft with a defined type. Only the built-in scalars may be defined anew. -/
def register (draft : SchemaDraft) (type : TypeDescriptor) : Except Error SchemaDraft := do
  if draft.types.contains type.name && !isBuiltinScalar type.name then
    throw (.duplicateType type.name)
  let extensions := (draft.pending.get? type.name).getD []
  let extended ← extensions.foldlM extend type
  return {
    draft with
    types := draft.types.insert type.name extended
    pending := draft.pending.erase type.name }

/-- A draft with a type extension, folded in or put aside. -/
def addExtension (draft : SchemaDraft) (extension : TypeExtension) :
    Except Error SchemaDraft := do
  match draft.types.get? extension.name with
  | some type =>
    return { draft with types := draft.types.insert extension.name (← extend type extension) }
  | none =>
    let waiting := (draft.pending.get? extension.name).getD []
    return { draft with
      pending := draft.pending.insert extension.name (waiting ++ [extension]) }

/-- A draft with the root types that a schema definition or extension names. -/
def addRoots (draft : SchemaDraft) (block : SchemaBlock) : SchemaDraft :=
  { draft with
    roots := (block.roots.map fun root => (root.kind, root.type)).reverse ++ draft.roots }

/-- A draft with one more definition. Extensions of scalars add nothing. -/
def add (scalars : ScalarTypes) (draft : SchemaDraft) (definition : Definition) :
    Except Error SchemaDraft :=
  match definition with
  | .type definition => describe scalars definition >>= draft.register
  | .typeExtension { body := .scalar, .. } => .ok draft
  | .typeExtension extension => draft.addExtension extension
  | .schema block | .schemaExtension block => .ok (draft.addRoots block)
  | .operation _ | .fragment _ | .directive _ | .directiveExtension _ => .ok draft

def ofDocument (scalars : ScalarTypes) (document : Document) : Except Error SchemaDraft :=
  document.definitions.foldlM (add scalars) (initial scalars)

/-- Fails where an extension has not found its type. -/
def checkPending (draft : SchemaDraft) : Except Error Unit :=
  match draft.pending.keys with
  | [] => .ok ()
  | name :: _ => .error (.extensionWithoutBase name)

/-- The root type of a kind: the one named last, or else the conventional one if it is defined. -/
def root? (draft : SchemaDraft) (kind : OperationKind) : Option String :=
  match draft.roots.lookup kind with
  | some name => some name
  | none =>
    if draft.types.contains kind.conventionalRoot then some kind.conventionalRoot else none

/-- The root types of some kinds, which must be defined. -/
def rootsOf (draft : SchemaDraft) :
    List OperationKind → Except Error (List (OperationKind × String))
  | [] => .ok []
  | kind :: rest => do
    match draft.root? kind with
    | none => draft.rootsOf rest
    | some name =>
      if !draft.types.contains name then throw (.undefinedRoot kind name)
      return (kind, name) :: (← draft.rootsOf rest)

/-- The root types. A schema without a query root is an error. -/
def rootTypes (draft : SchemaDraft) : Except Error (List (OperationKind × String)) := do
  let roots ← draft.rootsOf OperationKind.all
  if (roots.lookup .query).isNone then throw .noQueryRoot
  return roots

/-- Fails at the first field, member or interface of a type that refers to no type. -/
def checkType (types : Table TypeDescriptor) (type : TypeDescriptor) : Except Error Unit :=
  match type.fields.find? fun field => !types.contains field.typeName with
  | some field => .error (.undefinedFieldType type.name field.name field.typeName)
  | none => match (type.members ++ type.interfaces).find? fun name => !types.contains name with
    | some name => .error (.undefinedMember type.name name)
    | none => .ok ()

/-- Fails at the first reference that leads to no type. -/
def checkReferences (types : Table TypeDescriptor) : Except Error Unit :=
  types.values.forM (checkType types)

end SchemaDraft

/-- A table of fragments with one more, which must have a new name. -/
def addFragment (fragments : Table FragmentDefinition) (fragment : FragmentDefinition) :
    Except Error (Table FragmentDefinition) :=
  if fragments.contains fragment.name then .error (.duplicateFragment fragment.name)
  else .ok (fragments.insert fragment.name fragment)

def collectFragments (documents : List DocumentFile) : Except Error (Table FragmentDefinition) :=
  (documents.flatMap fun file => file.document.fragments).foldlM addFragment ∅

/-- A schema as it is handed over: parsed already, or as text. -/
inductive SchemaSource where
  | parsed (document : Document)
  | text (content : String)

namespace Context

def scalarTypes (config : Config) : ScalarTypes :=
  .ofOverrides config.scalars.toList config.defaultScalarType

def ofDocument (schema : Document) (documents : List DocumentFile) (config : Config) :
    Except Error Context := do
  let draft ← SchemaDraft.ofDocument (scalarTypes config) schema
  draft.checkPending
  let rootTypes ← draft.rootTypes
  SchemaDraft.checkReferences draft.types
  let fragments ← collectFragments documents
  return { types := draft.types, fragments, rootTypes, config }

/-- Builds the context and reports it. Text that is not parsed is no schema. -/
def build (schema : SchemaSource) (documents : List DocumentFile) (config : Config) :
    Reported Context := do
  match schema with
  | .text _ => throw .unparsedSchema
  | .parsed document =>
    Reported.info Stage.context "Gathering context"
    let context ← ofDocument document documents config
    Reported.debug Stage.context "Collected types"
      [("types", .integer context.types.size), ("fragments", .integer context.fragments.size)]
    return context

end Context

end ChainedSdk
