/-!
# Blank characters and line ends

`isSpace` is the Unicode property White_Space; `isBlank` adds the four information separators of
ASCII. Lines end at every character that Unicode or ASCII uses for that purpose.
-/

namespace ChainedSdk.Text

/-- A character with the property White_Space. -/
def isSpace (char : Char) : Bool :=
  let code := char.toNat
  (9 ≤ code && code ≤ 13) || code == 0x20 || code == 0x85 || code == 0xA0 || code == 0x1680 ||
    (0x2000 ≤ code && code ≤ 0x200A) || code == 0x2028 || code == 0x2029 || code == 0x202F ||
    code == 0x205F || code == 0x3000

/-- A character that separates words: white space or an information separator. -/
def isBlank (char : Char) : Bool :=
  isSpace char || (0x1C ≤ char.toNat && char.toNat ≤ 0x1F)

def isLineEnd (char : Char) : Bool :=
  let code := char.toNat
  (10 ≤ code && code ≤ 13) || (0x1C ≤ code && code ≤ 0x1E) || code == 0x85 ||
    code == 0x2028 || code == 0x2029

def trimBy (drops : Char → Bool) (chars : List Char) : List Char :=
  ((chars.dropWhile drops).reverse.dropWhile drops).reverse

/-- The number of lines of a text; a carriage return and the line feed after it end one line. A line
end at the very end starts no further line. -/
def lineCount : List Char → Nat
  | [] => 0
  | chars => go 0 false chars
where
  /-- Counts the lines that end in what follows; `open?` tells that a line has begun. -/
  go (ended : Nat) (isOpen : Bool) : List Char → Nat
    | [] => if isOpen then ended + 1 else ended
    | '\r' :: '\n' :: rest => go (ended + 1) false rest
    | char :: rest => if isLineEnd char then go (ended + 1) false rest else go ended true rest

/-- A text whose lines all end in a line feed. -/
def normalizeLineEnds : List Char → List Char
  | [] => []
  | '\r' :: '\n' :: rest => '\n' :: normalizeLineEnds rest
  | '\r' :: rest => '\n' :: normalizeLineEnds rest
  | char :: rest => char :: normalizeLineEnds rest

end ChainedSdk.Text
