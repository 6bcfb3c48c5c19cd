import CssLex.Span

/-!
Diagnostics and reports. A report keeps its diagnostics in the order in which they were made.
-/

namespace CssLex

/-- How grave a diagnostic is. -/
inductive Severity where
  | error
  | warning
deriving Repr, DecidableEq

/-- The word for a severity. -/
def Severity.render : Severity → String
  | error => "error"
  | warning => "warning"

/-- A remark about the input, and where it applies as far as that is known. -/
structure Diagnostic where
  severity : Severity
  message : String
  span : Option Span := none
  /-- The line on which the span starts, from 1. -/
  line : Option Nat := none
  /-- How to mend the input. -/
  suggestion : Option String := none
deriving Repr, DecidableEq

namespace Diagnostic

/-- Only errors make a run fail. -/
def isError (d : Diagnostic) : Bool := d.severity = .error

/-- The severity with the message, and below it the place. -/
def render (d : Diagnostic) : String :=
  let place :=
    match d.line, d.span with
    | some line, some span => "\n  --> line " ++ toString line ++ ", chars " ++ span.render
    | some line, none => "\n  --> line " ++ toString line
    | none, some span => "\n  --> chars " ++ span.render
    | none, none => ""
  d.severity.render ++ ": " ++ d.message ++ place

end Diagnostic

/-- The diagnostics of one input. -/
structure Report where
  diagnostics : List Diagnostic := []
deriving Repr, DecidableEq

namespace Report

/-- The report with one more diagnostic at its end. -/
def add (r : Report) (d : Diagnostic) : Report := ⟨r.diagnostics ++ [d]⟩

/-- The number of diagnostics. -/
def size (r : Report) : Nat := r.diagnostics.length

/-- The number of errors. -/
def errorCount (r : Report) : Nat := r.diagnostics.countP Diagnostic.isError

/-- Whether there is an error. -/
def hasErrors (r : Report) : Bool := r.diagnostics.any Diagnostic.isError

/-- Whether there is no diagnostic at all. -/
def isEmpty (r : Report) : Bool := r.diagnostics.isEmpty

end Report
end CssLex
