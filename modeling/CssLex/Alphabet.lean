/-!
The character classes of the token grammar. Everything from U+00A0 on counts as a letter; below
that only ASCII is classified, and U+0080 to U+009F belong to no class.
-/

namespace CssLex

/-- Stands in for what cannot be read: NUL, undecodable bytes and escapes of no scalar value. -/
def replacement : Char := '\uFFFD'

/-- White space as it is left after preprocessing: space, tab and line feed. -/
def isBlank (c : Char) : Bool := c = ' ' || c = '\t' || c = '\n'

/-- An ASCII decimal digit. -/
def isDigit (c : Char) : Bool := '0' ≤ c && c ≤ '9'

/-- An ASCII letter. -/
def isLetter (c : Char) : Bool := ('a' ≤ c && c ≤ 'z') || ('A' ≤ c && c ≤ 'Z')

/-- The characters that may open a name. -/
def isNameStart (c : Char) : Bool := isLetter c || c = '_' || 160 ≤ c.toNat

/-- The characters that may continue a name. -/
def isNameChar (c : Char) : Bool := isNameStart c || isDigit c || c = '-'

/-- The characters that an unquoted url may hold unescaped. -/
def isUrlChar (c : Char) : Bool :=
  c = '!' || c = '#' || c = '$' || c = '%' || c = '&' || ('*' ≤ c && c ≤ '[') ||
    (']' ≤ c && c ≤ '~') || 160 ≤ c.toNat

/-- The ASCII control characters, which a serializer writes as hex escapes. -/
def isControl (c : Char) : Bool := c ≤ '\x1f' || c = '\x7f'

/-- The value of a hexadecimal digit of either case. -/
def hexValue? (c : Char) : Option Nat :=
  if isDigit c then some (c.toNat - '0'.toNat)
  else if 'a' ≤ c && c ≤ 'f' then some (c.toNat - 'a'.toNat + 10)
  else if 'A' ≤ c && c ≤ 'F' then some (c.toNat - 'A'.toNat + 10)
  else none

/-- The character with a given number, or the replacement if no scalar value has it. -/
def scalarOrReplacement (n : Nat) : Char :=
  if h : n.isValidChar then Char.ofNatAux n h else replacement

/-- Lower case for ASCII letters; every other character stays. -/
def lowerLetter (c : Char) : Char :=
  if 'A' ≤ c && c ≤ 'Z' then Char.ofNat (c.toNat + 32) else c

end CssLex
