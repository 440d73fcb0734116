import ChainedSdk.Table
import ChainedSdk.Json.Decimal
/-!
# JSON values

Settings and report data. An object keeps its members in the order of first appearance; a number
written without fraction and exponent is an integer of any size.
-/

namespace ChainedSdk

/-- A JSON value. `nonFinite` stands for the three number words NaN, Infinity and -Infinity, and
`brokenText` for a text with halves of surrogate pairs that stand alone, as it is shown. -/
inductive Json where
  | null
  | boolean (value : Bool)
  | integer (value : Int)
  | decimal (value : Decimal)
  | nonFinite
  | text (value : String)
  | brokenText (shown : String)
  | array (items : List Json)
  | object (members : List (String × Json))
deriving BEq, Repr, Inhabited

namespace Json

/-- The members of an object as a table; a member given twice has its last value. -/
def members? : Json → Option (Table Json)
  | .object members => some (Table.ofList members)
  | _ => none

/-- The characters of a text, also of one with halves of surrogate pairs. -/
def characters? : Json → Option String
  | .text value | .brokenText value => some value
  | _ => none

def texts (items : List String) : Json := .array (items.map .text)

end Json

end ChainedSdk
