import ChainedSdk.Model.Basic
import ChainedSdk.Names
import ChainedSdk.Report
import ChainedSdk.Selection.Collect
/-!
# Extracting models

Every operation, every fragment and every field with a block gives one model. The models of nested
selections come before the model that contains them, and no two models may have one name.

A nested selection stands inside a field of a document, and where it stands fixes the type that it
selects from. So a path of nested selections that is longer than all documents have fields comes
back to one of them and never ends; this is the bound on the depth.
-/

namespace ChainedSdk

mutual

/-- The number of fields in a selection, at any depth. -/
def Selection.fieldCount : Selection → Nat
  | .field _ none => 1
  | .field _ (some selections) => 1 + Selection.fieldCounts selections
  | .spread _ _ => 0
  | .inlineFragment _ _ selections => Selection.fieldCounts selections

def Selection.fieldCounts : List Selection → Nat
  | [] => 0
  | selection :: rest => selection.fieldCount + Selection.fieldCounts rest

end

/-- Where a model is made: its name, what it selects from and what it selects, and what it belongs
to. -/
structure ModelSite where
  name : String
  owner : TypeDescriptor
  selections : List Selection
  source : String
  sourceKind : SourceKind
  path : List String

/-- The site of the selection inside a field. -/
def ModelSite.nested (site : ModelSite) (key : String) (type : TypeDescriptor)
    (selections : List Selection) : ModelSite where
  name := Names.nestedModel site.name key
  owner := type
  selections := selections
  source := site.source
  sourceKind := site.sourceKind
  path := site.path ++ [key]

abbrev Extracting := StateT (Table Model) Collecting

namespace Context

/-- The field of a model for a selected field; `addNested` adds the model of what is selected inside
it. -/
def modelField (context : Context) (addNested : ModelSite → Extracting Unit) (site : ModelSite)
    (key : String) (pick : Pick) : Extracting ModelField := do
  if pick.head.name = typenameField then
    let type ← liftExcept (context.requireType "String" site.source)
    return { name := key, fieldName := pick.head.name, type, isOptional := false }
  else match pick.owner.field? pick.head.name with
    | none => throw (.unresolved site.source (.field pick.owner.name pick.head.name))
    | some field =>
      let type ← liftExcept (context.requireType field.typeName site.source)
      let nested? := pick.selections?.map (site.nested key type)
      nested?.forM addNested
      return {
        name := key
        fieldName := pick.head.name
        type
        isList := field.isList
        isOptional := field.isOptional
        model? := nested?.map (·.name) }

/-- Adds the model of a site after the models of the selections inside it. -/
def addModel (context : Context) : (depth : Nat) → ModelSite → Extracting Unit
  | 0, _ => throw .endlessSelection
  | depth + 1, site => do
    match (← get).get? site.name with
    | some existing =>
      throw (.duplicateModel site.name existing.sourceKind existing.source
        site.sourceKind site.source)
    | none =>
      let picks ← (context.collect site.source site.owner site.selections : Collecting Picks)
      let fields ← picks.toList.mapM fun entry =>
        context.modelField (context.addModel depth) site entry.1 entry.2
      let model : Model := {
        name := site.name
        typeName := site.owner.name
        fields
        source := site.source
        sourceKind := site.sourceKind
        path := site.path }
      modify fun models => models.insert site.name model

def operationSite (context : Context) (operation : OperationDefinition) :
    Except Error ModelSite := do
  match operation.name? with
  | none => throw (.anonymousOperation operation.kind)
  | some name => match context.rootType? operation.kind with
    | none => throw (.unresolved name (.rootType operation.kind))
    | some root =>
      return ⟨Names.operationModel name operation.kind, root, operation.selections, name,
        .operation operation.kind, []⟩

def fragmentSite (context : Context) (fragment : FragmentDefinition) :
    Except Error ModelSite := do
  let owner ← context.requireType fragment.typeCondition fragment.name
  return ⟨Names.fragmentModel fragment.name, owner, fragment.selections, fragment.name,
    .fragment, []⟩

/-- Adds the models of a definition, if it selects anything. -/
def addDefinition (context : Context) (depth : Nat) (definition : Definition) :
    Extracting Unit := do
  match definition with
  | .operation operation =>
    context.addModel depth (← liftExcept (context.operationSite operation))
  | .fragment fragment =>
    context.addModel depth (← liftExcept (context.fragmentSite fragment))
  | _ => return ()

def definitionFieldCount : Definition → Nat
  | .operation operation => Selection.fieldCounts operation.selections
  | .fragment fragment => Selection.fieldCounts fragment.selections
  | _ => 0

def definitionsOf (documents : List DocumentFile) : List Definition :=
  documents.flatMap fun file => file.document.definitions

/-- A depth of nested selections that only endless ones pass. -/
def depthBound (context : Context) (documents : List DocumentFile) : Nat :=
  ((definitionsOf documents).map definitionFieldCount).foldr (· + ·) 0 +
    (context.fragments.values.map fun fragment =>
      Selection.fieldCounts fragment.selections).foldr (· + ·) 0 + 2

/-- The models of some documents, in order, and the fragments collected for them. -/
def extractModels (context : Context) (documents : List DocumentFile) :
    Collecting (List Model) := do
  let depth := context.depthBound documents
  let (_, models) ← ((definitionsOf documents).forM (context.addDefinition depth)).run ∅
  return models.values

def models (context : Context) (documents : List DocumentFile) : Except Error (List Model) :=
  ((context.extractModels documents).run.run ∅).1

end Context

namespace Model

/-- The models of some documents with what is reported about them, starting from some cache. -/
def extract (context : Context) (documents : List DocumentFile) (cache : FragmentCache) :
    Reported (List Model) × FragmentCache :=
  let (outcome, filled) := (context.extractModels documents).run.run cache
  let reported := do
    Reported.info Stage.models "Generating models"
    let models ← (liftM outcome : Reported (List Model))
    Reported.debug Stage.models "Extracted models" [("models", .texts (models.map (·.name)))]
    return models
  (reported, filled)

end Model

end ChainedSdk
