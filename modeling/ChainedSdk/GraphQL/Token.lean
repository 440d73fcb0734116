/-!
# Tokens of GraphQL text
-/

namespace ChainedSdk.GraphQL

/-- A lexical unit; a `string` holds the text it means, a number the text it is written with. -/
inductive Token where
  | mark (char : Char)
  | spread
  | name (text : String)
  | int (digits : String)
  | float (digits : String)
  | string (text : String)
deriving DecidableEq, Repr, Inhabited

def isNameStart (char : Char) : Bool :=
  char = '_' || ('a' ≤ char && char ≤ 'z') || ('A' ≤ char && char ≤ 'Z')

def isNameChar (char : Char) : Bool := isNameStart char || ('0' ≤ char && char ≤ '9')

/-- A character that is a token by itself. -/
def isMark (char : Char) : Bool :=
  ['!', '$', '&', '(', ')', ':', '=', '@', '[', ']', '\x7b', '|', '\x7d'].contains char

/-- A character that may stand between tokens: blanks, line ends, commas and the byte order mark. -/
def isIgnored (char : Char) : Bool :=
  [' ', '\t', '\n', '\r', ',', '\ufeff'].contains char

end ChainedSdk.GraphQL
