/-!
# Problems with the value of a setting
-/

namespace ChainedSdk

/-- Why a value does not fit a setting. -/
inductive SettingProblem where
  | notText
  | brokenText
  | notDocumentMode
  | notChainMatch
  | notDictionary
  | notTuple
  | notBoolean
  | unreadableBoolean
  | notInteger
  | unreadableInteger
  | fractionalInteger
  | infiniteInteger
  | oversizedInteger
  | belowZero
  | notPositive
deriving DecidableEq, Repr

def SettingProblem.text : SettingProblem → String
  | notText => "Input should be a valid string"
  | brokenText => "Input should be a valid string, unable to parse raw data as a unicode string"
  | notDocumentMode => "Input should be 'graphQLTag', 'documentNode', " ++
      "'documentNodeImportFragments', 'external' or 'string'"
  | notChainMatch => "Input should be 'identifying' or 'any'"
  | notDictionary => "Input should be a valid dictionary"
  | notTuple => "Input should be a valid tuple"
  | notBoolean => "Input should be a valid boolean"
  | unreadableBoolean => "Input should be a valid boolean, unable to interpret input"
  | notInteger => "Input should be a valid integer"
  | unreadableInteger => "Input should be a valid integer, unable to parse string as an integer"
  | fractionalInteger =>
      "Input should be a valid integer, got a number with a fractional part"
  | infiniteInteger => "Input should be a finite number"
  | oversizedInteger => "Unable to parse input string as an integer, exceeded maximum size"
  | belowZero => "Input should be greater than or equal to 0"
  | notPositive => "Input should be greater than 0"

end ChainedSdk
