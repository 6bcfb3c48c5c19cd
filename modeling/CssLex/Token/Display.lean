import CssLex.Text.Quoted
import CssLex.Token.Basic

/-!
Tokens written for people: the kind, and in parentheses the number and the quoted text.
-/

namespace CssLex

/-- A kind by its name, a delimiter with its quoted character. -/
def TokenKind.render : TokenKind → String
  | delim c => "Delim(" ++ String.ofList (visibleQuoted '\'' [c]) ++ ")"
  | kind => kind.name

/-- A lexeme on one line. -/
def Lexeme.render (lexeme : Lexeme) : String :=
  let quoted (text : String) : String := String.ofList (visibleQuoted '"' text.toList)
  let payload :=
    match lexeme.number, lexeme.text with
    | some number, some text => "(" ++ number.render ++ ", " ++ quoted text ++ ")"
    | none, some text => "(" ++ quoted text ++ ")"
    | some number, none => "(" ++ number.render ++ ")"
    | none, none => ""
  lexeme.kind.render ++ payload

end CssLex
