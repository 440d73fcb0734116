import ChainedSdk.Json.Basic
/-!
# Configuration

The settings of one generation run, with their defaults.
-/

namespace ChainedSdk

/-- How the module of typed documents exports operation documents. -/
inductive DocumentMode where
  | graphqlTag
  | documentNode
  | documentNodeImportFragments
  | external
  | string
deriving DecidableEq, Repr, Inhabited

def DocumentMode.text : DocumentMode → String
  | graphqlTag => "graphQLTag"
  | documentNode => "documentNode"
  | documentNodeImportFragments => "documentNodeImportFragments"
  | external => "external"
  | string => "string"

def DocumentMode.all : List DocumentMode :=
  [graphqlTag, documentNode, documentNodeImportFragments, external, string]

def DocumentMode.ofText? (text : String) : Option DocumentMode :=
  all.find? fun mode => mode.text = text

/-- Which fields of a model may stand in for the variables of a chained operation. -/
inductive ChainMatch where
  | identifying
  | any
deriving DecidableEq, Repr, Inhabited

def ChainMatch.text : ChainMatch → String
  | identifying => "identifying"
  | any => "any"

def ChainMatch.all : List ChainMatch := [identifying, any]

def ChainMatch.ofText? (text : String) : Option ChainMatch :=
  all.find? fun rule => rule.text = text

/-- The settings of one generation run. -/
structure Config where
  documentFile : String := ""
  documentMode : DocumentMode := .graphqlTag
  scalars : Table String := ∅
  defaultScalarType : String := "any"
  identifyingFields : List String := ["id"]
  chainMatch : ChainMatch := .identifying
  requireNamePrefix : Bool := true
  disambiguationLimit : Nat := 100
  maxMethodNameLength? : Option Nat := none
  requesterName : String := "SdkRequester"
  sdkName : String := "Sdk"
deriving DecidableEq, Inhabited

theorem DocumentMode.ofText?_text (mode : DocumentMode) : ofText? mode.text = some mode := by
  cases mode <;> decide

theorem ChainMatch.ofText?_text (rule : ChainMatch) : ofText? rule.text = some rule := by
  cases rule <;> decide

end ChainedSdk
