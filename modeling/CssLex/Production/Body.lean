import CssLex.Production.Escape

/-!
The bodies of strings, urls and comments. A body that ends early keeps what was read of it.
-/

namespace CssLex
namespace Production

open Scan Scanner

/-- A body that was read, and whether its closing mark was found. -/
structure Body where
  text : List Char
  closed : Bool
deriving Repr, DecidableEq

/-- Reads white space. -/
def blanks : Scan (List Char) := do
  let (run, _) ← (Loop.repeating (takeIf isBlank) (takeIf_spends isBlank)).run
  pure run

/-- One turn of a string after its opening quote. The loop ends with the closing quote, and early
before a line feed, before a backslash that ends the input, and at the end. -/
def stringTurn (quote : Char) : Scan (Turn Char Bool) := do
  match ← next with
  | none => pure (.stop false)
  | some c =>
    if c = '\n' then do
      pushBack (some c)
      pure (.stop false)
    else if c = '\\' then do
      pushBack (some c)
      match ← escape with
      | some scalar => pure (.more scalar)
      | none => do
        let backslash ← next
        let following ← next
        if following = some '\n' then pure (.more '\n')
        else do
          pushBack following
          pushBack backslash
          pure (.stop false)
    else if c = quote then pure (.stop true)
    else pure (.more c)

/-- One turn of a comment after its opening mark. -/
def commentTurn : Scan (Turn Char Bool) := do
  match ← next with
  | none => pure (.stop false)
  | some c =>
    if c = '*' then
      if ← eat '/' then pure (.stop true)
      else pure (.more c)
    else pure (.more c)

theorem stringTurn_spends (quote : Char) : Spends (stringTurn quote) Turn.cost := by
  refine next_spends.bind fun c => ?_
  cases c with
  | none => exact .pure (by simp [Turn.cost])
  | some c =>
    simp only
    split
    · exact (pushBack_spends _).bind fun _ => .pure (by simp [Turn.cost])
    · split
      · refine (pushBack_spends _).bind fun _ => escape_spends.bind fun scalar => ?_
        cases scalar with
        | some scalar => exact .pure (by simp [Turn.cost])
        | none =>
          refine next_spends.bind fun backslash => next_spends.bind fun following => ?_
          have hbackslash : 0 ≤ costOf backslash := by cases backslash <;> simp
          split
          · next h => exact .pure (by simp [Turn.cost, h]; omega)
          · exact (pushBack_spends _).bind fun _ => (pushBack_spends _).bind fun _ =>
              .pure (by simp [Turn.cost])
      · split
        · exact .pure (by simp [Turn.cost])
        · exact .pure (by simp [Turn.cost])

theorem commentTurn_spends : Spends commentTurn Turn.cost := by
  refine next_spends.bind fun c => ?_
  cases c with
  | none => exact .pure (by simp [Turn.cost])
  | some c =>
    simp only
    split
    · refine (eat_spends '/').bind fun eaten => ?_
      cases eaten <;> exact .pure (by simp [Turn.cost])
    · exact .pure (by simp [Turn.cost])

/-- Reads the body of a string after its opening quote. A line feed that ends it early is left
unread. -/
def stringBody (quote : Char) : Scan Body := do
  let (text, closed) ← (Loop.mk (stringTurn quote) (stringTurn_spends quote)).run
  pure { text, closed }

/-- Reads the body of a comment after its opening mark. -/
def commentBody : Scan Body := do
  let (text, closed) ← (Loop.mk commentTurn commentTurn_spends).run
  pure { text, closed }

/-- Reads the closing parenthesis of a url, after white space. -/
def closeUrl (text : List Char) : Scan Body := do
  let _ ← blanks
  let closed ← eat ')'
  pure { text, closed }

/-- Reads the body of a url after its parenthesis: a string, or a run of url characters and
escapes. What breaks it off is left unread. -/
def urlBody : Scan Body := do
  let _ ← blanks
  match ← takeIf fun c => c = '"' || c = '\'' with
  | some quote => do
    let body ← stringBody quote
    if body.closed then closeUrl body.text else pure body
  | none => do
    let (text, _) ← (Loop.repeating (unit isUrlChar) (unit_spends isUrlChar)).run
    closeUrl text

theorem blanks_spends : Spends blanks fun _ => 0 :=
  (Loop.run_spends _).bind fun _ => .pure (by simp)

theorem stringBody_spends (quote : Char) : Spends (stringBody quote) fun _ => 0 :=
  (Loop.run_spends _).bind fun _ => .pure (by simp)

theorem commentBody_spends : Spends commentBody fun _ => 0 :=
  (Loop.run_spends _).bind fun _ => .pure (by simp)

theorem closeUrl_spends (text : List Char) : Spends (closeUrl text) fun _ => 0 :=
  blanks_spends.bind fun _ => (eat_spends ')').bind fun closed => .pure (by cases closed <;> simp)

theorem urlBody_spends : Spends urlBody fun _ => 0 := by
  refine blanks_spends.bind fun _ => (takeIf_spends _).bind fun quote => ?_
  cases quote with
  | some quote =>
    refine (stringBody_spends quote).bind fun body => ?_
    split
    · exact (closeUrl_spends _).mono fun _ => by simp
    · exact .pure (by simp)
  | none =>
    exact (Loop.run_spends _).bind fun _ => (closeUrl_spends _).mono fun _ => by simp

end Production
end CssLex
