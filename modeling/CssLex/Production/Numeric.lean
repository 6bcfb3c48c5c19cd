import CssLex.Production.Name
import CssLex.Token.Basic

/-!
Numbers, percentages and dimensions. A number is an optional sign, digits with an optional
fraction, and an optional exponent; the longest such text is taken, and what does not complete a
fraction or an exponent is left unread.
-/

namespace CssLex
namespace Production

open Scan Scanner

/-- Whether a character is the sign of a number or of an exponent. -/
def isSign (c : Char) : Bool := c = '+' || c = '-'

/-- Whether a character may open an exponent. -/
def isExponentMarker (c : Char) : Bool := c = 'e' || c = 'E'

/-- Reads the longest run of digits, which may be empty. -/
def digitRun : Scan (List Char) := do
  let (digits, _) ← (Loop.repeating (takeIf isDigit) (takeIf_spends isDigit)).run
  pure digits

/-- Reads a point and the digits after it. A point without digits is handed back. -/
def fraction : Scan (Option (List Char)) := do
  if ← eat '.' then
    let digits ← digitRun
    if digits = [] then do
      pushBack (some '.')
      pure none
    else pure (some digits)
  else pure none

/-- Hands an optional character back. -/
def unread (c : Option Char) : Scan Unit :=
  match c with
  | none => pure ()
  | some c => pushBack (some c)

/-- Reads an exponent and gives what stands behind its marker. A marker without digits is handed
back, with its sign. -/
def exponent : Scan (Option (List Char)) := do
  match ← takeIf isExponentMarker with
  | none => pure none
  | some marker => do
    let sign ← takeIf isSign
    let digits ← digitRun
    if digits = [] then do
      unread sign
      pushBack (some marker)
      pure none
    else pure (some (sign.toList ++ digits))

/-- The literal of the parts that were read, with the exponent marker in lower case. -/
def literalOf (sign : Option Char) (whole : List Char) (fraction exponent : Option (List Char)) :
    List Char :=
  sign.toList ++ whole ++ (fraction.elim [] ('.' :: ·)) ++ (exponent.elim [] ('e' :: ·))

/-- Reads a number and gives its value and its literal. Without a digit before the exponent
nothing is read. -/
def num : Scan (Option (Number × List Char)) := do
  let sign ← takeIf isSign
  let whole ← digitRun
  let fraction ← fraction
  if whole = [] ∧ fraction = none then do
    unread sign
    pure none
  else do
    let exponent ← exponent
    let literal := literalOf sign whole fraction exponent
    match Number.ofLiteral? literal with
    | some value => pure (some (value, literal))
    | none => throw (.malformedNumber (String.ofList literal))

/-- Reads a number and what it counts: a percent sign, a unit, or nothing. -/
def numeric : Scan (Option Lexeme) := do
  match ← num with
  | none => pure none
  | some (value, literal) => do
    let number := some value
    let literal := some (String.ofList literal)
    if ← eat '%' then
      pure (some { kind := .percentage, text := some "%", number, literal })
    else
      match ← ident with
      | some unit =>
        pure (some { kind := .dimension, text := some (String.ofList unit), number, literal })
      | none => pure (some { kind := .number, number, literal })

theorem digitRun_spends : Spends digitRun fun digits => digits.length :=
  (Loop.run_spends _).bind fun _ => .pure (by simp)

theorem fraction_spends : Spends fraction leastCost := by
  refine (eat_spends '.').bind fun eaten => ?_
  cases eaten with
  | false => exact .pure (by simp)
  | true =>
    refine digitRun_spends.bind fun digits => ?_
    split
    · exact (pushBack_spends _).bind fun _ => .pure (by simp_all)
    · exact .pure (by simp)

theorem unread_spends (c : Option Char) : Spends (unread c) fun _ => -costOf c := by
  cases c with
  | none => exact .pure (by simp)
  | some c => exact pushBack_spends (some c)

theorem exponent_spends : Spends exponent leastCost := by
  refine (takeIf_spends _).bind fun marker => ?_
  cases marker with
  | none => exact .pure (by simp)
  | some marker =>
    refine (takeIf_spends _).bind fun sign => digitRun_spends.bind fun digits => ?_
    split
    · exact (unread_spends sign).bind fun _ => (pushBack_spends _).bind fun _ =>
        .pure (by simp_all)
    · refine .pure ?_
      cases sign <;> simp only [leastCost_some, costOf_some, costOf_none] <;> omega

theorem num_spends : Spends num leastCost := by
  refine (takeIf_spends _).bind fun sign => digitRun_spends.bind fun whole =>
    fraction_spends.bind fun fraction => ?_
  have hsign : 0 ≤ costOf sign := by cases sign <;> simp
  split
  · next h =>
    refine (unread_spends sign).bind fun _ => .pure ?_
    simp [h.1, h.2]
  · next h =>
    refine exponent_spends.bind fun exponent => ?_
    dsimp only
    split
    · refine .pure ?_
      have hexponent : 0 ≤ leastCost exponent := by cases exponent <;> simp
      cases fraction with
      | some digits => simp; omega
      | none =>
        have : 0 < whole.length := List.length_pos_iff.mpr fun hw => h ⟨hw, rfl⟩
        simp
        omega
    · exact .error

theorem numeric_spends : Spends numeric leastCost := by
  refine num_spends.bind fun result => ?_
  cases result with
  | none => exact .pure (by simp)
  | some result =>
    refine (eat_spends '%').bind fun eaten => ?_
    cases eaten with
    | true => exact .pure (by simp)
    | false =>
      refine ident_spends.bind fun unit => ?_
      cases unit with
      | some unit => exact .pure (by simp)
      | none => exact .pure (by simp)

/-- A poised scanner stays so when it starts with no digit. -/
theorem poised_digitRun {s s' : Scanner} (hs : s.Poised) (h : digitRun s = .ok [] s') :
    s'.Poised := by
  obtain ⟨⟨digits, last⟩, s₁, h₁, h⟩ := bind_eq_ok.mp h
  obtain ⟨rfl, rfl⟩ := pure_eq_ok.mp h
  obtain ⟨c, s₂, h₂, h⟩ := bind_eq_ok.mp (Loop.turn_of_run_nil h₁)
  cases c with
  | some c => simp [pure_eq_ok] at h
  | none =>
    obtain ⟨_, rfl⟩ := pure_eq_ok.mp h
    exact poised_takeIf hs h₂

/-- A poised scanner stays so when it starts with no fraction. -/
theorem poised_fraction {s s' : Scanner} (hs : s.Poised) (h : fraction s = .ok none s') :
    s'.Poised := by
  obtain ⟨eaten, s₁, h₁, h⟩ := bind_eq_ok.mp h
  cases eaten with
  | false =>
    obtain ⟨_, rfl⟩ := pure_eq_ok.mp h
    exact poised_eat hs h₁
  | true =>
    obtain ⟨digits, s₂, _, h⟩ := bind_eq_ok.mp h
    split at h
    · obtain ⟨_, _, h₃, h⟩ := bind_eq_ok.mp h
      obtain ⟨_, rfl⟩ := pure_eq_ok.mp h
      exact poised_pushBack h₃
    · simp [pure_eq_ok] at h

/-- A poised scanner stays so when it starts with no number. -/
theorem poised_num {s s' : Scanner} (hs : s.Poised) (h : num s = .ok none s') : s'.Poised := by
  obtain ⟨sign, s₁, h₁, h⟩ := bind_eq_ok.mp h
  obtain ⟨whole, s₂, h₂, h⟩ := bind_eq_ok.mp h
  obtain ⟨fraction, s₃, h₃, h⟩ := bind_eq_ok.mp h
  by_cases hnone : whole = [] ∧ fraction = none
  · rw [if_pos hnone] at h
    obtain ⟨_, s₄, h₄, h⟩ := bind_eq_ok.mp h
    obtain ⟨_, rfl⟩ := pure_eq_ok.mp h
    rw [hnone.1] at h₂
    rw [hnone.2] at h₃
    cases sign with
    | some c => exact poised_pushBack h₄
    | none =>
      obtain ⟨_, rfl⟩ := pure_eq_ok.mp h₄
      exact poised_fraction (poised_digitRun (poised_takeIf hs h₁) h₂) h₃
  · rw [if_neg hnone] at h
    obtain ⟨exponent, s₄, _, h⟩ := bind_eq_ok.mp h
    cases hvalue : Number.ofLiteral? (literalOf sign whole fraction exponent) with
    | some value => simp [hvalue, pure_eq_ok] at h
    | none =>
      rw [hvalue] at h
      cases h

/-- A poised scanner stays so when it starts with no numeric token. -/
theorem poised_numeric {s s' : Scanner} (hs : s.Poised) (h : numeric s = .ok none s') :
    s'.Poised := by
  obtain ⟨result, s₁, h₁, h⟩ := bind_eq_ok.mp h
  cases result with
  | none =>
    obtain ⟨_, rfl⟩ := pure_eq_ok.mp h
    exact poised_num hs h₁
  | some result =>
    obtain ⟨eaten, s₂, _, h⟩ := bind_eq_ok.mp h
    cases eaten with
    | true => simp [pure_eq_ok] at h
    | false =>
      obtain ⟨unit, s₃, _, h⟩ := bind_eq_ok.mp h
      cases unit <;> simp [pure_eq_ok] at h

end Production
end CssLex
