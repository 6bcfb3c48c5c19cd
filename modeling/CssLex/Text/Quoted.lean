import CssLex.Text.Invisible

/-!
Quoted text on a single line, in two notations: one for reading, in which every character without a
glyph is written by its number, and the strings of JSON.
-/

namespace CssLex

/-- The hexadecimal digits of a number, in lower case. -/
def lowerHex (n : Nat) : List Char := Nat.toDigits 16 n

/-- A character as it stands between quotation marks in the readable notation. -/
def visibleChar (quote c : Char) : List Char :=
  if c = '\x00' then ['\\', '0']
  else if c = '\t' then ['\\', 't']
  else if c = '\r' then ['\\', 'r']
  else if c = '\n' then ['\\', 'n']
  else if c = '\\' || c = quote then ['\\', c]
  else if isInvisible c then ['\\', 'u', '\x7b'] ++ lowerHex c.toNat ++ ['\x7d']
  else [c]

/-- A text between quotation marks in the readable notation. -/
def visibleQuoted (quote : Char) (text : List Char) : List Char :=
  quote :: text.flatMap (visibleChar quote) ++ [quote]

/-- A character as it stands in a string of JSON. -/
def jsonChar (c : Char) : List Char :=
  if c = '"' || c = '\\' then ['\\', c]
  else if c = '\x08' then ['\\', 'b']
  else if c = '\x0c' then ['\\', 'f']
  else if c = '\n' then ['\\', 'n']
  else if c = '\r' then ['\\', 'r']
  else if c = '\t' then ['\\', 't']
  else if c < ' ' then
    let digits := lowerHex c.toNat
    ['\\', 'u'] ++ List.replicate (4 - digits.length) '0' ++ digits
  else [c]

/-- A text as a string of JSON. -/
def jsonQuoted (text : List Char) : List Char := '"' :: text.flatMap jsonChar ++ ['"']

end CssLex
