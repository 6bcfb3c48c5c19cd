import CssLex.Text.Quoted
import CssLex.Token.Basic

/-!
Tokens written as JSON objects on one line. The keys come in a fixed order, and a key whose value
is absent is left out.
-/

namespace CssLex
namespace Json

/-- A text as a string of JSON. -/
def string (text : String) : String := String.ofList (jsonQuoted text.toList)

/-- An object with the fields in this order, each with its value already written. -/
def object (fields : List (String × String)) : String :=
  let field (f : String × String) : String := string f.1 ++ ":" ++ f.2
  "\x7b" ++ String.intercalate "," (fields.map field) ++ "\x7d"

end Json

/-- A kind by its name, a delimiter as an object with its character. -/
def TokenKind.renderJson : TokenKind → String
  | delim c => Json.object [("Delim", Json.string (String.ofList [c]))]
  | kind => Json.string kind.name

/-- A span as an object. -/
def Span.renderJson (span : Span) : String :=
  Json.object [("start", toString span.start), ("end", toString span.stop)]

/-- A token as an object. -/
def Token.renderJson (token : Token) : String :=
  Json.object <|
    [("kind", token.kind.renderJson)] ++
    (token.text.toList.map fun text => ("text", Json.string text)) ++
    (token.number.toList.map fun number => ("number", number.renderJson)) ++
    (token.literal.toList.map fun literal => ("literal", Json.string literal)) ++
    [("span", token.span.renderJson), ("line", toString token.line)]

end CssLex
