/-!
Ranges of character offsets. Offsets count preprocessed characters, so a carriage return with its
line feed is one.
-/

namespace CssLex

/-- A range of offsets that includes `start` and excludes `stop`. -/
structure Span where
  start : Nat
  stop : Nat
deriving Repr, DecidableEq

namespace Span

/-- A span that holds no character. -/
def isEmpty (span : Span) : Bool := span.start == span.stop

/-- The number of characters that the span holds. -/
def size (span : Span) : Nat := span.stop - span.start

/-- A span is written as its two offsets with two dots between them. -/
def render (span : Span) : String := toString span.start ++ ".." ++ toString span.stop

end Span
end CssLex
