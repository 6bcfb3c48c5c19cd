import CssLex.CommandLine.Options
import CssLex.Diagnostic.Basic
import CssLex.Path
import CssLex.Text.Normalize

/-!
What a run shows in words that are not its own: the texts about a command line that is not run, and
the drawing of a diagnostic in the text that it is about. The tool decides what is to be shown, and
how it looks is left open here.
-/

namespace CssLex

/-- The characters to mark for a span. An empty span gets a mark of one character. -/
def Span.mark (span : Span) : Span := if span.isEmpty then ⟨span.start, span.start + 1⟩ else span

/-- The name of what a path leads to, as far as its text tells. -/
def Path.fileName (p : Path) : String := (p.names.getLast?.filter (· ≠ "..")).getD ""

namespace CommandLine

/-- A text that diagnostics can be shown in. -/
structure Document where
  name : String
  /-- The characters that the offsets of tokens count. -/
  text : List Char
deriving Repr, DecidableEq

/-- The document of a file. -/
def Document.ofFile (path : Path) (content : String) : Document :=
  { name := path.fileName, text := normalize content.toList }

/-- A diagnostic that is to be drawn in its document. -/
structure Excerpt where
  document : Document
  diagnostic : Diagnostic
  marked : Span
deriving Repr, DecidableEq

/-- The words and drawings of a run that are not its own. -/
structure Wording where
  /-- The help, or why a command line is not run. -/
  refusal : Refusal → String := fun _ => ""
  /-- The drawing of an excerpt. -/
  excerpt : Excerpt → String := fun _ => ""

end CommandLine
end CssLex
