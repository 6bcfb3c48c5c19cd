import CssLex.Number
import CssLex.Span

/-!
Tokens. A lexeme is what a token says; a token is a lexeme with its place in the input.
-/

namespace CssLex

/-- The kinds of token. -/
inductive TokenKind where
  | ident
  | function
  | atKeyword
  | hash
  | string
  | badString
  | url
  | badUrl
  | number
  | percentage
  | dimension
  | whitespace
  | comment
  | badComment
  /-- The opening mark of a comment in markup, which a style sheet may hold. -/
  | cdo
  /-- The closing mark of a comment in markup. -/
  | cdc
  /-- A tilde with an equals sign. -/
  | includeMatch
  /-- A bar with an equals sign. -/
  | dashMatch
  /-- A caret with an equals sign. -/
  | prefixMatch
  /-- A dollar sign with an equals sign. -/
  | suffixMatch
  /-- An asterisk with an equals sign. -/
  | substringMatch
  /-- Two bars. -/
  | column
  /-- Any other single character. -/
  | delim (c : Char)
  | eof
deriving Repr, DecidableEq

namespace TokenKind

/-- Kinds that a reader of significant tokens passes over. -/
def isInsignificant : TokenKind → Bool
  | whitespace | comment | badComment | cdo | cdc => true
  | _ => false

/-- Kinds that only malformed input gives. -/
def isMalformed : TokenKind → Bool
  | badString | badUrl | badComment => true
  | _ => false

/-- Kinds that carry a number. -/
def isNumeric : TokenKind → Bool
  | number | percentage | dimension => true
  | _ => false

/-- The name of a kind; a delimiter's is followed by its character elsewhere. -/
def name : TokenKind → String
  | ident => "Ident"
  | function => "Function"
  | atKeyword => "AtKeyword"
  | hash => "Hash"
  | string => "String"
  | badString => "BadString"
  | url => "Url"
  | badUrl => "BadUrl"
  | number => "Number"
  | percentage => "Percentage"
  | dimension => "Dimension"
  | whitespace => "Whitespace"
  | comment => "Comment"
  | badComment => "BadComment"
  | cdo => "Cdo"
  | cdc => "Cdc"
  | includeMatch => "IncludeMatch"
  | dashMatch => "DashMatch"
  | prefixMatch => "PrefixMatch"
  | suffixMatch => "SuffixMatch"
  | substringMatch => "SubstringMatch"
  | column => "Column"
  | delim _ => "Delim"
  | eof => "Eof"

/-- The short form for messages: a delimiter in single quotes, any other kind by its name. -/
def label : TokenKind → String
  | delim c => String.ofList ['\'', c, '\'']
  | kind => kind.name

end TokenKind

/-- What a token says, apart from its place. Names, strings, urls and comments carry their decoded
text, operators their characters, a percentage its sign and a dimension its unit. -/
structure Lexeme where
  kind : TokenKind
  text : Option String := none
  /-- The value of a numeric token. -/
  number : Option Number := none
  /-- The literal of a numeric token as it was read, the exponent marker in lower case. -/
  literal : Option String := none

namespace Lexeme

/-- A lexeme that carries a text. -/
def ofText (kind : TokenKind) (text : List Char) : Lexeme :=
  { kind, text := some (String.ofList text) }

/-- The lexeme of a single character. -/
def ofDelim (c : Char) : Lexeme := ofText (.delim c) [c]

/-- The text, empty if there is none. -/
def content (lexeme : Lexeme) : String := lexeme.text.getD ""

end Lexeme

/-- A lexeme at its place in the preprocessed input. -/
structure Token extends Lexeme where
  span : Span
  /-- The line of the first character, from 1. -/
  line : Nat

end CssLex
