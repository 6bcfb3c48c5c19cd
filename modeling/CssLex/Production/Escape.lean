import CssLex.Scanner.Loop

/-!
Escapes. A backslash makes any following character but a line feed part of a name or a string; up
to six hexadecimal digits after it write a character by its number.
-/

namespace CssLex
namespace Production

open Scan Scanner

/-- Whether a character is a hexadecimal digit. -/
def isHexDigit (c : Char) : Bool := (hexValue? c).isSome

/-- The number that hexadecimal digits write. -/
def hexNumber (digits : List Char) : Nat :=
  digits.foldl (fun n c => 16 * n + (hexValue? c).getD 0) 0

/-- Reads hexadecimal digits, at most this many. -/
def hexDigits : Nat → Scan (List Char)
  | 0 => pure []
  | count + 1 => do
    match ← takeIf isHexDigit with
    | none => pure []
    | some c => do
      let digits ← hexDigits count
      pure (c :: digits)

/-- Reads the rest of a hex escape whose first digit was read. An escape of fewer than six digits
takes one white space character with it. -/
def hexEscape (first : Char) : Scan Char := do
  let digits ← hexDigits 5
  if digits.length < 5 then
    let _ ← takeIf isBlank
    pure (scalarOrReplacement (hexNumber (first :: digits)))
  else
    pure (scalarOrReplacement (hexNumber (first :: digits)))

/-- Reads an escape and gives the character that it stands for. Before a line feed or the end of
the input a backslash is no escape, and nothing is read. -/
def escape : Scan (Option Char) := do
  if ← eat '\\' then
    match ← next with
    | none => do
      pushBack none
      pushBack (some '\\')
      pure none
    | some c =>
      if c = '\n' then do
        pushBack (some c)
        pushBack (some '\\')
        pure none
      else if isHexDigit c then do
        let scalar ← hexEscape c
        pure (some scalar)
      else pure (some c)
  else pure none

/-- Reads a character of a class, or an escape. -/
def unit (accept : Char → Bool) : Scan (Option Char) := do
  match ← takeIf accept with
  | some c => pure (some c)
  | none => escape

theorem hexDigits_spends (count : Nat) : Spends (hexDigits count) fun _ => 0 := by
  induction count with
  | zero => exact .pure (Int.le_refl 0)
  | succ count ih =>
    refine (takeIf_spends _).bind fun c => ?_
    cases c with
    | none => exact .pure (by simp)
    | some c => exact ih.bind fun _ => .pure (by simp)

theorem hexEscape_spends (first : Char) : Spends (hexEscape first) fun _ => 0 := by
  refine (hexDigits_spends 5).bind fun digits => ?_
  split
  · refine (takeIf_spends _).bind fun c => ?_
    cases c <;> exact .pure (by simp)
  · exact .pure (by simp)

theorem escape_spends : Spends escape costOf := by
  refine (eat_spends '\\').bind fun eaten => ?_
  cases eaten with
  | false => exact .pure (by simp)
  | true =>
    refine next_spends.bind fun c => ?_
    cases c with
    | none =>
      exact (pushBack_spends none).bind fun _ => (pushBack_spends _).bind fun _ => .pure (by simp)
    | some c =>
      simp only
      split
      · exact (pushBack_spends _).bind fun _ => (pushBack_spends _).bind fun _ => .pure (by simp)
      · split
        · exact (hexEscape_spends c).bind fun _ => .pure (by simp)
        · exact .pure (by simp)

theorem unit_spends (accept : Char → Bool) : Spends (unit accept) costOf := by
  refine (takeIf_spends accept).bind fun c => ?_
  cases c with
  | none => exact escape_spends.mono fun _ => by simp
  | some c => exact .pure (by simp)

/-- A poised scanner stays so when it holds no escape. -/
theorem poised_escape {s s' : Scanner} (hs : s.Poised) (h : escape s = .ok none s') :
    s'.Poised := by
  obtain ⟨eaten, s₁, h₁, h⟩ := bind_eq_ok.mp h
  cases eaten with
  | false =>
    obtain ⟨_, rfl⟩ := pure_eq_ok.mp h
    exact poised_eat hs h₁
  | true =>
    obtain ⟨c, s₂, _, h⟩ := bind_eq_ok.mp h
    cases c with
    | none =>
      obtain ⟨_, _, _, h⟩ := bind_eq_ok.mp h
      obtain ⟨_, _, h₄, h⟩ := bind_eq_ok.mp h
      obtain ⟨_, rfl⟩ := pure_eq_ok.mp h
      exact poised_pushBack h₄
    | some c =>
      simp only at h
      split at h
      · obtain ⟨_, _, _, h⟩ := bind_eq_ok.mp h
        obtain ⟨_, _, h₄, h⟩ := bind_eq_ok.mp h
        obtain ⟨_, rfl⟩ := pure_eq_ok.mp h
        exact poised_pushBack h₄
      · split at h
        · obtain ⟨_, _, _, h⟩ := bind_eq_ok.mp h
          simp [pure_eq_ok] at h
        · simp [pure_eq_ok] at h

/-- A poised scanner stays so when it starts with no character of the class and no escape. -/
theorem poised_unit {accept : Char → Bool} {s s' : Scanner} (hs : s.Poised)
    (h : unit accept s = .ok none s') : s'.Poised := by
  obtain ⟨c, s₁, h₁, h⟩ := bind_eq_ok.mp h
  cases c with
  | none => exact poised_escape (poised_takeIf hs h₁) h
  | some c => simp [pure_eq_ok] at h

end Production
end CssLex
