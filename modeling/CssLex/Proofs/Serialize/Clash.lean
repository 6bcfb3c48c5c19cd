import CssLex.Token.Css

/-! Lexemes that do not stay apart when they are written one after another. -/

namespace CssLex

namespace Lexeme

/-- A dimension with the unit `e` whose number has no exponent. Digits with a sign that are
written behind it would be its exponent. -/
def takesExponent (l : Lexeme) : Bool :=
  l.kind = .dimension && (l.content = "e" || l.content = "E") && !l.numberCss.contains 'e'

/-- A number that is written with a plus sign and a digit in front. -/
def addsDigit (l : Lexeme) : Bool :=
  l.kind.isNumeric &&
    match l.numberCss with
    | '+' :: d :: _ => isDigit d
    | _ => false

/-- A name that is written with two hyphens in front. Behind `<!` they would be the opening mark
of a comment in markup. -/
def opensWithHyphens (l : Lexeme) : Bool :=
  (l.kind = .ident || l.kind = .function) &&
    match l.content.toList with
    | '-' :: '-' :: _ :: _ => true
    | _ => false

/-- Whether a lexeme reads back together with what is written behind it. -/
def fuses (l : Lexeme) : List Lexeme → Bool
  | next :: rest =>
    (l.takesExponent && next.addsDigit) ||
      (l.kind = .delim '<' && next.kind = .delim '!' && rest.head?.any opensWithHyphens)
  | [] => false

/-- The lexemes that a lexeme reads back as: behind a broken url stands an empty comment. -/
def readBack (l : Lexeme) : List Lexeme :=
  if l.kind = .badUrl then [l, .ofText .comment []] else [l]

end Lexeme

/-- The lexemes that a reader of significant ones gets. -/
def significant (ls : List Lexeme) : List Lexeme := ls.filter fun l => !l.kind.isInsignificant

/-- Whether some lexeme fuses with those behind it. -/
def clashes : List Lexeme → Bool
  | [] => false
  | l :: rest => l.fuses rest || clashes rest

end CssLex
