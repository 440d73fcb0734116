import ChainedSdk.Config.Basic
import ChainedSdk.Error
import ChainedSdk.Text.Numeral
/-!
# Reading settings

Every setting has a key and a name, and is read from a table of JSON values under its key or, where
that is missing, under its name. Settings are read one after the other, and the first value
that does not fit stops the reading.
-/

namespace ChainedSdk

/-- A setting: its name, and the key under which it is looked for first. -/
structure Setting where
  name : String
  key : String
deriving DecidableEq, Repr

namespace Setting

def documentFile : Setting := ⟨"document_file", "documentFile"⟩
def documentMode : Setting := ⟨"document_mode", "documentMode"⟩
def scalars : Setting := ⟨"scalars", "scalars"⟩
def defaultScalarType : Setting := ⟨"default_scalar_type", "defaultScalarType"⟩
def identifyingFields : Setting := ⟨"identifying_fields", "identifyingFields"⟩
def chainMatch : Setting := ⟨"chain_match", "chainMatch"⟩
def requireNamePrefix : Setting := ⟨"require_name_prefix", "requireNamePrefix"⟩
def disambiguationLimit : Setting := ⟨"disambiguation_limit", "disambiguationLimit"⟩
def maxMethodNameLength : Setting := ⟨"max_method_name_length", "maxMethodNameLength"⟩
def requesterName : Setting := ⟨"requester_name", "requesterName"⟩
def sdkName : Setting := ⟨"sdk_name", "sdkName"⟩

/-- All settings, in the order in which they are read. -/
def all : List Setting := [documentFile, documentMode, scalars, defaultScalarType,
  identifyingFields, chainMatch, requireNamePrefix, disambiguationLimit, maxMethodNameLength,
  requesterName, sdkName]

/-- A value that does not fit, with the keys that lead to it inside the setting. -/
structure Misfit where
  path : List String
  problem : SettingProblem

/-- The result of reading a value. -/
abbrev Reading := Except Misfit

/-- A value that does not fit as a whole. -/
def misfit {α : Type} (problem : SettingProblem) : Reading α := .error ⟨[], problem⟩

/-- A misfit found under a key. -/
def under {α : Type} (key : String) : Reading α → Reading α
  | .ok value => .ok value
  | .error found => .error ⟨key :: found.path, found.problem⟩

/-- A text, even a broken one. -/
def readText (json : Json) : Reading String :=
  match json.characters? with
  | some value => .ok value
  | none => misfit .notText

def readDocumentMode : Json → Reading DocumentMode
  | .text value => match DocumentMode.ofText? value with
    | some mode => .ok mode
    | none => misfit .notDocumentMode
  | .brokenText _ => misfit .brokenText
  | _ => misfit .notDocumentMode

def readChainMatch : Json → Reading ChainMatch
  | .text value => match ChainMatch.ofText? value with
    | some rule => .ok rule
    | none => misfit .notChainMatch
  | .brokenText _ => misfit .brokenText
  | _ => misfit .notChainMatch

/-- Texts under the keys of an object. -/
def readDictionary : Json → Reading (Table String)
  | .object members => (Table.ofList members).toList.foldlM
      (fun read member => do
        return read.insert member.1 (← under member.1 (readText member.2)))
      ∅
  | _ => misfit .notDictionary

/-- Texts from the position `index` of an array on. -/
def readItems (index : Nat) : List Json → Reading (List String)
  | [] => .ok []
  | item :: rest => do
    let first ← under (toString index) (readText item)
    return first :: (← readItems (index + 1) rest)

def readTuple : Json → Reading (List String)
  | .array items => readItems 0 items
  | _ => misfit .notTuple

/-- The words for no and for yes. -/
def booleanWords : List (String × Bool) :=
  [("0", false), ("off", false), ("f", false), ("false", false), ("n", false), ("no", false),
    ("1", true), ("on", true), ("t", true), ("true", true), ("y", true), ("yes", true)]

/-- The truth value of a whole number. -/
def booleanOfInt (value : Int) : Reading Bool :=
  if value = 0 then .ok false else if value = 1 then .ok true else misfit .unreadableBoolean

/-- The size from which on whole numbers no longer fit into a machine word of 64 bits. -/
def wordBound : Int := 0x8000000000000000

/-- Whether the whole value of a decimal fits into a word. The lower bound of words does not count
as fitting. -/
def fitsWord (value : Int) : Bool := -wordBound < value && value < wordBound

/-- A truth value, also as a number of word size or in words of any letter case. -/
def readBoolean : Json → Reading Bool
  | .boolean value => .ok value
  | .integer value =>
    if -wordBound ≤ value && value < wordBound then booleanOfInt value else misfit .notBoolean
  | .decimal value => match value.rounded with
    | .whole whole => if fitsWord whole then booleanOfInt whole else misfit .notBoolean
    | _ => misfit .notBoolean
  | .text word => match booleanWords.lookup (word.map Char.toLower) with
    | some value => .ok value
    | none => misfit .unreadableBoolean
  | .brokenText _ => misfit .brokenText
  | _ => misfit .notBoolean

/-- A whole number, also as a truth value, as a text or as a number with an empty fraction, which
has to fit into a word. -/
def readInt : Json → Reading Int
  | .integer value => .ok value
  | .boolean value => .ok (if value then 1 else 0)
  | .decimal value => match value.rounded with
    | .whole whole => if fitsWord whole then .ok whole else misfit .oversizedInteger
    | .fractional => misfit .fractionalInteger
    | .infinite => misfit .infiniteInteger
  | .nonFinite => misfit .infiniteInteger
  | .text text => match Text.intOfText text with
    | .ok value => .ok value
    | .error .malformed => misfit .unreadableInteger
    | .error .tooLong => misfit .oversizedInteger
  | .brokenText _ => misfit .brokenText
  | _ => misfit .notInteger

def readNat (json : Json) : Reading Nat := do
  let value ← readInt json
  if value < 0 then misfit .belowZero else return value.toNat

/-- A positive whole number, or null for none. -/
def readLimit : Json → Reading (Option Nat)
  | .null => .ok none
  | json => do
    let value ← readInt json
    if value ≤ 0 then misfit .notPositive else return some value.toNat

/-- The key under which a table has a setting, and its value there. -/
def lookup? (setting : Setting) (settings : Table Json) : Option (String × Json) :=
  match settings.get? setting.key with
  | some value => some (setting.key, value)
  | none => (settings.get? setting.name).map fun value => (setting.name, value)

/-- Reads a setting from a table; one that is not there has its default. -/
def read {α : Type} (setting : Setting) (settings : Table Json) (default : α)
    (reader : Json → Reading α) : Except Error α :=
  match setting.lookup? settings with
  | none => .ok default
  | some (key, value) => match reader value with
    | .ok result => .ok result
    | .error found =>
      .error (.invalidSetting (".".intercalate (key :: found.path)) found.problem)

end Setting

end ChainedSdk
