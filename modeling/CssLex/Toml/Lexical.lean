import CssLex.Alphabet
import CssLex.Toml.Reader

/-!
White space, comments, strings and keys of the configuration format.
-/

namespace CssLex
namespace Toml.Grammar

open Reader

/-- White space within a line. -/
def isSpace (c : Char) : Bool := c = ' ' || c = '\t'

/-- What a line may hold: everything but controls, with the exception of the tab. -/
def isPlain (c : Char) : Bool := c = '\t' || (' ' ≤ c && c ≤ '~') || 0x80 ≤ c.toNat

/-- White space within a line, possibly none. -/
def space : Reader Unit := do
  let _ ← run isSpace
  pure ()

/-- The end of a line. A carriage return counts only with its line feed. -/
def newline : Reader Unit := exactly ['\n'] <|> exactly ['\r', '\n']

/-- A comment up to the end of its line. -/
def comment : Reader Unit := do
  let _ ← char '#'
  let _ ← run isPlain
  pure ()

/-- The end of a line, or of the document. -/
def lineEnd : Reader Unit := newline <|> endOfInput

/-- What may stand behind a statement on its line. -/
def trailing : Reader Unit := do
  space
  let _ ← option comment
  lineEnd

/-- White space, comments and line ends between the items of an array. -/
def gap : Reader Unit := do
  let blankLine : Reader Unit := do
    let _ ← option comment
    newline
    space
  space
  let _ ← many blankLine
  pure ()

/-- The character with a number of exactly this many hexadecimal digits. -/
def numberedChar (digits : Nat) : Reader Char := fun input =>
  let written := input.take digits
  if written.length = digits && written.all (fun c => (hexValue? c).isSome) then
    let n := written.foldl (fun n c => 16 * n + (hexValue? c).getD 0) 0
    if h : n.isValidChar then some (Char.ofNatAux n h, input.drop digits) else none
  else none

/-- An escape in a string. -/
def escape : Reader Char := do
  let _ ← char '\\'
  match ← satisfying fun _ => true with
  | 'b' => pure '\x08'
  | 't' => pure '\t'
  | 'n' => pure '\n'
  | 'f' => pure '\x0c'
  | 'r' => pure '\r'
  | '"' => pure '"'
  | '\\' => pure '\\'
  | 'u' => numberedChar 4
  | 'U' => numberedChar 8
  | _ => failure

/-- A backslash at the end of a line, with all white space and line ends behind it. -/
def continuation : Reader Unit := do
  let _ ← char '\\'
  space
  newline
  let _ ← many (newline <|> do
    let _ ← run1 isSpace
    pure ())
  pure ()

/-- A string in double quotation marks on one line. -/
def basicString : Reader (List Char) := do
  let _ ← char '"'
  let part : Reader (List Char) :=
    run1 (fun c => isPlain c && c ≠ '"' && c ≠ '\\') <|> (fun c => [c]) <$> escape
  let parts ← many part
  let _ ← char '"'
  pure parts.flatten

/-- A string in single quotation marks on one line, which has no escapes. -/
def literalString : Reader (List Char) := do
  let _ ← char '\''
  let text ← run fun c => isPlain c && c ≠ '\''
  let _ ← char '\''
  pure text

/-- One or two quotation marks that do not close a string of several lines. -/
def looseQuotes (quote : Char) : Reader (List Char) := do
  let quotes ← run1 (· = quote)
  guard (quotes.length < 3)
  pure quotes

/-- The three quotation marks that close a string of several lines. One or two more before them
belong to the string. -/
def closingQuotes (quote : Char) : Reader (List Char) := fun input =>
  let count := min (input.takeWhile (· = quote)).length 5
  if 3 ≤ count then some (List.replicate (count - 3) quote, input.drop count) else none

/-- A string of several lines between triple quotation marks, made of such parts. A line end right
behind the opening marks is not part of it. -/
def multilineString (quote : Char) (part : Reader (List Char)) : Reader (List Char) := do
  exactly [quote, quote, quote]
  let _ ← option newline
  let lineFeed : Reader (List Char) := do
    newline
    pure ['\n']
  let parts ← many (part <|> lineFeed <|> looseQuotes quote)
  let last ← closingQuotes quote
  pure (parts.flatten ++ last)

/-- A string of several lines in double quotation marks. -/
def multilineBasic : Reader (List Char) :=
  multilineString '"' <|
    run1 (fun c => isPlain c && c ≠ '"' && c ≠ '\\') <|>
    (fun _ => []) <$> continuation <|>
    (fun c => [c]) <$> escape

/-- A string of several lines in single quotation marks. -/
def multilineLiteral : Reader (List Char) :=
  multilineString '\'' (run1 fun c => isPlain c && c ≠ '\'')

/-- A string of any kind. -/
def string : Reader String :=
  String.ofList <$> (multilineBasic <|> basicString <|> multilineLiteral <|> literalString)

/-- A key without quotation marks. -/
def bareKey : Reader (List Char) :=
  run1 fun c => isLetter c || isDigit c || c = '_' || c = '-'

/-- A part of a key, with white space around it. -/
def keyPart : Reader String := do
  space
  let text ← basicString <|> literalString <|> bareKey
  space
  pure (String.ofList text)

/-- How deep values may be nested and how many parts a key may have, less one. -/
def depthLimit : Nat := 79

/-- A key: the parts before its last point, and the last part. -/
def key : Reader (List String × String) := do
  let dot : Reader Unit := do
    let _ ← char '.'
    pure ()
  let parts ← separated dot keyPart
  guard (parts.length ≤ depthLimit)
  pure (parts.dropLast, parts.getLastD "")

end Toml.Grammar
end CssLex
