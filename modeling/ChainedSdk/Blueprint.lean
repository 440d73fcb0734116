import ChainedSdk.Chain.Resolve
import ChainedSdk.Config.Load
import ChainedSdk.Files.Sources
import ChainedSdk.Model.Extract
import ChainedSdk.Schema.Build
/-!
# Blueprints

A blueprint is everything that the generated classes are read off: the context, the models and the
forest. It is made from a schema, documents and a configuration, each of them handed over as text or
read already.
-/

namespace ChainedSdk

/-- A document as it is handed over: parsed already, or as text. -/
inductive DocumentSource where
  | parsed (file : DocumentFile)
  | text (content : String)

def DocumentSource.file : DocumentSource → Except Error DocumentFile
  | parsed file => .ok file
  | text content => do return ⟨← Document.ofText content, none⟩

def SchemaSource.document : SchemaSource → Except Error Document
  | parsed document => .ok document
  | text content => Document.ofText content

/-- A configuration as it is handed over: loaded already, or as settings. -/
inductive ConfigSource where
  | loaded (config : Config)
  | settings (entries : Table Json)

def ConfigSource.config : ConfigSource → Except Error Config
  | loaded config => .ok config
  | settings entries => Config.load entries []

/-- Checks a configuration before anything else is done. -/
def ConfigSource.validate (source : ConfigSource) (output : String) : Reported Config := do
  Reported.info Stage.plugin ("Validating " ++ Error.generatorName)
  let config ← (source.config : Except Error Config)
  Reported.debug Stage.plugin "Config" [("config", .object (config.dump Setting.name))]
  (config.checkHost output : Except Error Unit)
  return config

/-- What the generated classes are read off. -/
structure Blueprint where
  context : Context
  models : List Model
  forest : Forest

def Blueprint.ofSources (schema : SchemaSource) (documents : List DocumentSource)
    (config : ConfigSource) : Reported Blueprint := do
  let config ← (config.config : Except Error Config)
  let schema ← (schema.document : Except Error Document)
  let files ← (documents.mapM DocumentSource.file : Except Error (List DocumentFile))
  let context ← Context.build (.parsed schema) files config
  let models ← (Model.extract context files ∅).1
  let forest ← Forest.resolve context files models
  return ⟨context, models, forest⟩

end ChainedSdk
