import ChainedSdk.Text.Unprintable
import ChainedSdk.Text.Letter
import ChainedSdk.Text.Escape
/-!
# Quoted names

The form in which messages show a name: between single quotes, or between double quotes when the
name holds a single quote and no double one. A backslash, the enclosing quote, line feed, carriage
return and tab are escaped by a backslash; other characters without a picture are written by their
code.
-/

namespace ChainedSdk.Text

/-- Whether a character is written as itself inside quotes. -/
def isPrintable (char : Char) : Bool :=
  if char.toNat < 128 then 32 ≤ char.toNat && char.toNat < 127
  else !inRanges unprintableRanges char.toNat

/-- A character as it stands between two marks `mark`. -/
def quotedChar (mark char : Char) : List Char :=
  if char = mark || char = '\\' then ['\\', char]
  else if char = '\n' then ['\\', 'n']
  else if char = '\r' then ['\\', 'r']
  else if char = '\t' then ['\\', 't']
  else if isPrintable char then [char]
  else if char.toNat < 0x100 then '\\' :: 'x' :: hexDigits 2 char.toNat
  else if char.toNat < 0x10000 then '\\' :: 'u' :: hexDigits 4 char.toNat
  else '\\' :: 'U' :: hexDigits 8 char.toNat

def quotationMark (chars : List Char) : Char :=
  if chars.contains '\'' && !chars.contains '"' then '"' else '\''

def quoted (name : String) : String :=
  let chars := name.toList
  let mark := quotationMark chars
  String.ofList (mark :: chars.flatMap (quotedChar mark) ++ [mark])

end ChainedSdk.Text
