import ChainedSdk.Config.Setting
import ChainedSdk.Files.Path
import ChainedSdk.Json.Reader
/-!
# Loading a configuration

A configuration comes from a table of settings in which single settings may be overridden. A
configuration can be written back as such a table.
-/

namespace ChainedSdk

namespace Setting

/-- The key under which an override is filed: that of the setting, where it is called by its name.
-/
def overrideKey (name : String) : String :=
  match all.find? fun setting => setting.name = name with
  | some setting => setting.key
  | none => name

/-- A table with one setting overridden; null overrides nothing. -/
def applyOverride (settings : Table Json) (override : String × Json) : Table Json :=
  match override with
  | (_, .null) => settings
  | (name, value) => (settings.erase name).insert (overrideKey name) value

def applyOverrides (settings : Table Json) (overrides : List (String × Json)) : Table Json :=
  overrides.foldl applyOverride settings

end Setting

namespace Config

def ofSettings (settings : Table Json) : Except Error Config := do
  let default : Config := {}
  return {
    documentFile :=
      ← Setting.documentFile.read settings default.documentFile Setting.readText
    documentMode :=
      ← Setting.documentMode.read settings default.documentMode Setting.readDocumentMode
    scalars := ← Setting.scalars.read settings default.scalars Setting.readDictionary
    defaultScalarType :=
      ← Setting.defaultScalarType.read settings default.defaultScalarType Setting.readText
    identifyingFields :=
      ← Setting.identifyingFields.read settings default.identifyingFields Setting.readTuple
    chainMatch := ← Setting.chainMatch.read settings default.chainMatch Setting.readChainMatch
    requireNamePrefix :=
      ← Setting.requireNamePrefix.read settings default.requireNamePrefix Setting.readBoolean
    disambiguationLimit :=
      ← Setting.disambiguationLimit.read settings default.disambiguationLimit Setting.readNat
    maxMethodNameLength? :=
      ← Setting.maxMethodNameLength.read settings default.maxMethodNameLength? Setting.readLimit
    requesterName :=
      ← Setting.requesterName.read settings default.requesterName Setting.readText
    sdkName := ← Setting.sdkName.read settings default.sdkName Setting.readText }

def load (settings : Table Json) (overrides : List (String × Json)) : Except Error Config :=
  ofSettings (Setting.applyOverrides settings overrides)

/-- The settings of a configuration, each value under the key that `key` picks. -/
def dump (key : Setting → String) (config : Config) : List (String × Json) := [
  (key .documentFile, .text config.documentFile),
  (key .documentMode, .text config.documentMode.text),
  (key .scalars, .object (config.scalars.toList.map fun entry => (entry.1, .text entry.2))),
  (key .defaultScalarType, .text config.defaultScalarType),
  (key .identifyingFields, .texts config.identifyingFields),
  (key .chainMatch, .text config.chainMatch.text),
  (key .requireNamePrefix, .boolean config.requireNamePrefix),
  (key .disambiguationLimit, .integer config.disambiguationLimit),
  (key .maxMethodNameLength,
    match config.maxMethodNameLength? with
    | some limit => .integer limit
    | none => .null),
  (key .requesterName, .text config.requesterName),
  (key .sdkName, .text config.sdkName)]

/-- A configuration as a table of settings under their keys. -/
def toSettings (config : Config) : Table Json := Table.ofList (config.dump Setting.key)

/-- A configuration with overrides; without any it stays as it is. -/
def reload (config : Config) (overrides : List (String × Json)) : Except Error Config :=
  if overrides.isEmpty then .ok config else load config.toSettings overrides

/-- The configuration that the text of a file holds, with overrides. -/
def ofFileText (path text : String) (overrides : List (String × Json)) : Except Error Config :=
  match Json.ofText text with
  | .error .malformed => .error (.configNotJson path)
  | .error .longNumber => .error (.configLongNumber path)
  | .error .deepNesting => .error (.configDeepNesting path)
  | .ok json => match json.members? with
    | none => .error (.configNotObject path)
    | some settings => load settings overrides

/-- Checks what the host has to provide: an output file with the right extension, and the module of
typed documents. -/
def checkHost (config : Config) (output : String) : Except Error Unit :=
  if Path.extension output ≠ Error.outputExtensionText then .error (.outputExtension output)
  else if config.documentFile = "" then .error .noDocumentFile
  else .ok ()

end Config

end ChainedSdk
