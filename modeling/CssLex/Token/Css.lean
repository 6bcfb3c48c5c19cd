import CssLex.Serialize
import CssLex.Token.Basic

/-!
Tokens written as source text that reads back as the same token. A malformed token is written as
far as it was read, so that it is malformed in the same way.
-/

namespace CssLex
namespace Lexeme

/-- The number of a lexeme: its literal, or else a literal for its value. -/
def numberCss (lexeme : Lexeme) : List Char :=
  match lexeme.literal, lexeme.number with
  | some literal, _ => literal.toList
  | none, some number => number.render.toList
  | none, none => []

/-- The source text of a lexeme. A url is always written with quotation marks; behind one that was
broken off an empty comment keeps the next token apart. -/
def css (lexeme : Lexeme) : List Char :=
  let text := lexeme.content.toList
  match lexeme.kind with
  | .ident => Serialize.identifier text
  | .function => Serialize.identifier text ++ ['(']
  | .atKeyword => '@' :: Serialize.identifier text
  | .hash => '#' :: Serialize.name text
  | .string => Serialize.string text
  | .badString => Serialize.openString text
  | .url => "url(".toList ++ Serialize.string text ++ [')']
  | .badUrl => "url(".toList ++ Serialize.string text ++ "/**/".toList
  | .number => lexeme.numberCss
  | .percentage => lexeme.numberCss ++ ['%']
  | .dimension => lexeme.numberCss ++ Serialize.unit text
  | .comment => "/*".toList ++ text ++ "*/".toList
  | .badComment => "/*".toList ++ text
  | .eof => []
  | _ => text

/-- The source text of a lexeme as a string. -/
def toCss (lexeme : Lexeme) : String := String.ofList lexeme.css

end Lexeme
end CssLex
