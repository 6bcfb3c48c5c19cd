import CssLex.Alphabet
import CssLex.Text.Quoted

/-!
Writing names and strings as source text. What is written reads back as the same name or string.
-/

namespace CssLex
namespace Serialize

/-- A character as a hex escape with the space that ends it. -/
def hexEscaped (c : Char) : List Char := '\\' :: lowerHex c.toNat ++ [' ']

/-- A character of a name: as it is where a name may hold it, by its number if it is a control, and
behind a backslash otherwise. -/
def nameChar (c : Char) : List Char :=
  if isControl c then hexEscaped c
  else if isNameChar c then [c]
  else ['\\', c]

/-- The first character of an identifier, or the one behind its hyphen: a digit is no start. -/
def startChar (c : Char) : List Char := if isDigit c then hexEscaped c else nameChar c

/-- The text of a name, such as stands behind a number sign. -/
def name (value : List Char) : List Char := value.flatMap nameChar

/-- The text of an identifier. A hyphen alone is escaped, and so is the second of two hyphens with
nothing behind them; the empty text has no identifier. -/
def identifier : List Char → List Char
  | [] => []
  | ['-'] => ['\\', '-']
  | ['-', '-'] => ['-', '\\', '-']
  | '-' :: c :: rest => '-' :: startChar c ++ name rest
  | c :: rest => startChar c ++ name rest

/-- A character of a string in double quotation marks. -/
def stringChar (c : Char) : List Char :=
  if c = '"' || c = '\\' then ['\\', c]
  else if isControl c then hexEscaped c
  else [c]

/-- The text of a string up to its closing quotation mark. -/
def openString (value : List Char) : List Char := '"' :: value.flatMap stringChar

/-- The text of a string. -/
def string (value : List Char) : List Char := openString value ++ ['"']

/-- Whether the text of a unit would be read as an exponent of the number before it. -/
def startsExponent : List Char → Bool
  | marker :: d :: rest =>
    (marker = 'e' || marker = 'E') &&
      (isDigit d || (d = '-' && rest.head?.any isDigit))
  | _ => false

/-- The text of a unit directly behind a number: the identifier, where a marker that would start an
exponent is escaped. -/
def unit (value : List Char) : List Char :=
  let text := identifier value
  if startsExponent text then hexEscaped (text.headD 'e') ++ text.drop 1 else text

end Serialize
end CssLex
