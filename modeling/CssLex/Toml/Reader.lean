/-!
Readers of text that may decline. A reader takes characters from the front of its input and either
gives a value or leaves the input to another reader.
-/

namespace CssLex

/-- A reader of characters. -/
abbrev Reader := StateT (List Char) Option

namespace Reader

variable {α : Type}

/-- A character that satisfies a condition. -/
def satisfying (p : Char → Bool) : Reader Char
  | c :: rest => if p c then some (c, rest) else none
  | [] => none

/-- A certain character. -/
def char (c : Char) : Reader Char := satisfying (· = c)

/-- A certain text. -/
def exactly (text : List Char) : Reader Unit := fun input =>
  if text.isPrefixOf input then some ((), input.drop text.length) else none

/-- The longest run of characters that satisfy a condition; it may be empty. -/
def run (p : Char → Bool) : Reader (List Char) := fun input =>
  some (input.takeWhile p, input.dropWhile p)

/-- The longest run of characters that satisfy a condition, at least one. -/
def run1 (p : Char → Bool) : Reader (List Char) := do
  let cs ← run p
  guard (cs != [])
  pure cs

/-- The end of the input. -/
def endOfInput : Reader Unit
  | [] => some ((), [])
  | _ :: _ => none

/-- What a reader gives, or nothing if it declines. -/
def option (reader : Reader α) : Reader (Option α) := fun input =>
  match reader input with
  | some (a, rest) => some (some a, rest)
  | none => some (none, input)

/-- Repeats a reader until it declines or takes nothing, behind the items of `read`. -/
def manyFrom (reader : Reader α) (read : List α) (input : List Char) :
    List α × List Char :=
  match reader input with
  | some (a, rest) =>
    if rest.length < input.length then manyFrom reader (a :: read) rest
    else (read.reverse, input)
  | none => (read.reverse, input)
termination_by input.length

/-- The values of a reader that is repeated until it declines or takes nothing. -/
def many (reader : Reader α) : Reader (List α) := fun input => some (manyFrom reader [] input)

/-- One value or more with separators between them. -/
def separated (separator : Reader Unit) (reader : Reader α) : Reader (List α) := do
  let first ← reader
  let more ← many do separator; reader
  pure (first :: more)

end Reader
end CssLex
