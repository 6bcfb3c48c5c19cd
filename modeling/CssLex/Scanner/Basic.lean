import CssLex.Alphabet
import CssLex.LexError
import CssLex.Source.Basic

/-!
The character scanner: preprocessed characters with unbounded pushback. A carriage return, a form
feed and a carriage return with its line feed each become one line feed, and NUL becomes the
replacement character. What is pushed back is read again before the source, last in first out.
-/

namespace CssLex

/-- The state of a scanner. -/
structure Scanner where
  source : Source
  /-- What was pushed back, the next one to read in front; `none` is the end of the input. -/
  deferred : List (Option Char) := []
  /-- The number of characters that were read and not pushed back. -/
  position : Nat := 0
  /-- The line of the next character, from 1. -/
  line : Nat := 1
  /-- Whether the last raw character was a carriage return, which owns a following line feed. -/
  afterReturn : Bool := false

/-- A computation that moves a scanner; on an error the scanner keeps its state. -/
abbrev Scan := EStateM LexError Scanner

namespace Scanner

/-- The number of entries that were pushed back. -/
def pending (s : Scanner) : Nat := s.deferred.length

/-- An upper bound for the number of characters that are still to come. -/
def remaining (s : Scanner) : Nat := s.deferred.countP Option.isSome + s.source.size

/-- The next entry of the scanner is certainly a character, because one was pushed back. -/
def Poised (s : Scanner) : Prop := s.deferred.head?.join.isSome

/-- What a raw character becomes. -/
def preprocess (c : Char) : Char :=
  if c = '\r' || c = '\x0c' then '\n' else if c = '\x00' then replacement else c

/-- The next raw character of the source. -/
def readRaw : Scan (Option Char) := fun s =>
  match s.source.read with
  | .ok c source => .ok c { s with source }
  | .error reason source => .error (.unreadable reason) { s with source }

/-- The next raw character, where the line feed of a carriage return is left out. -/
def readUncoupled : Scan (Option Char) := fun s =>
  match readRaw s with
  | .error e s' => .error e s'
  | .ok c s' =>
    if s.afterReturn && c == some '\n' then readRaw { s' with afterReturn := false }
    else .ok c { s' with afterReturn := false }

/-- The next character of the source after preprocessing. -/
def readPreprocessed : Scan (Option Char) := fun s =>
  match readUncoupled s with
  | .error e s => .error e s
  | .ok c s => .ok (c.map preprocess) { s with afterReturn := c == some '\r' }

/-- The next entry: the last one that was pushed back, or else a character of the source. -/
def take : Scan (Option Char) := fun s =>
  match s.deferred with
  | entry :: deferred => .ok entry { s with deferred }
  | [] => readPreprocessed s

/-- Counts a character that was read. The offset moves before the line is tried. -/
def count (c : Char) : Scan Unit := fun s =>
  if s.position = characterLimit then .error .tooLong s
  else
    let s := { s with position := s.position + 1 }
    if c = '\n' then
      if s.line = characterLimit then .error .tooLong s
      else .ok () { s with line := s.line + 1 }
    else .ok () s

/-- Reads the next character, or `none` at the end of the input. -/
def next : Scan (Option Char) := do
  match ← take with
  | none => pure none
  | some c => count c; pure (some c)

/-- Hands an entry back, to be read next. The end of the input moves neither offset nor line. -/
def pushBack (entry : Option Char) : Scan Unit := fun s =>
  match entry with
  | none => .ok () { s with deferred := none :: s.deferred }
  | some c =>
    .ok ()
      { s with
        deferred := some c :: s.deferred
        position := s.position - 1
        line := if c = '\n' then max (s.line - 1) 1 else s.line }

/-- Reads the next character if it satisfies `accept`; anything else is handed back. -/
def takeIf (accept : Char → Bool) : Scan (Option Char) := do
  match ← next with
  | some c => if accept c then pure (some c) else pushBack (some c); pure none
  | none => pushBack none; pure none

/-- Reads the next character if it is the expected one. -/
def eat (expected : Char) : Scan Bool := do
  let c ← next
  if c = some expected then pure true else pushBack c; pure false

end Scanner
end CssLex
