import Mathlib.Data.Nat.Digits.Defs
import CssLex.Production.Escape

/-! How the classes of characters lie to one another. -/

namespace CssLex

open Production

theorem char_le_iff {c d : Char} : c ≤ d ↔ c.toNat ≤ d.toNat := Iff.rfl

theorem scalarOrReplacement_toNat (c : Char) : scalarOrReplacement c.toNat = c := by
  have hvalid : c.toNat.isValidChar := c.valid
  rw [scalarOrReplacement, dif_pos hvalid]
  rfl

theorem toNat_scalarOrReplacement {n : Nat} (h : n.isValidChar) :
    (scalarOrReplacement n).toNat = n := by
  rw [scalarOrReplacement, dif_pos h]
  rfl

/-- Digits that are read one by one, the highest first. -/
theorem foldl_eq_ofDigits (base : Nat) (value : Char → Nat) (digits : List Char) :
    digits.foldl (fun n c => base * n + value c) 0 =
      Nat.ofDigits base (digits.reverse.map value) := by
  rw [Nat.ofDigits_eq_foldr, List.foldr_map, List.foldr_reverse]
  refine congrArg (fun step => digits.foldl step 0) ?_
  funext n c
  exact Nat.add_comm _ _

theorem toNat_lt_of_isControl {c : Char} (h : isControl c = true) : c.toNat < 0x100000 := by
  simp only [isControl, Bool.or_eq_true, decide_eq_true_eq] at h
  rcases h with h | rfl
  · have : c.toNat ≤ 31 := h
    omega
  · decide

theorem toNat_lt_of_isDigit {c : Char} (h : isDigit c = true) : c.toNat < 0x100000 := by
  simp only [isDigit, Bool.and_eq_true, decide_eq_true_eq] at h
  have : c.toNat ≤ 57 := h.2
  omega

theorem ne_break_of_not_isControl {c : Char} (h : ¬ isControl c = true) : c ≠ '\n' := by
  rintro rfl
  exact h rfl

theorem isNameChar_of_isHexDigit {c : Char} (h : isHexDigit c = true) : isNameChar c = true := by
  suffices isDigit c = true ∨ isLetter c = true by
    rcases this with h | h <;> simp [isNameChar, isNameStart, h]
  simp only [isHexDigit, hexValue?] at h
  by_cases hdigit : isDigit c = true
  · exact .inl hdigit
  · rw [if_neg hdigit] at h
    right
    simp only [isLetter, Bool.or_eq_true, Bool.and_eq_true, decide_eq_true_eq, char_le_iff]
    by_cases hlower : ('a' ≤ c && c ≤ 'f') = true
    · simp only [Bool.and_eq_true, decide_eq_true_eq, char_le_iff] at hlower
      exact .inl ⟨hlower.1, Nat.le_trans hlower.2 (by decide)⟩
    · rw [if_neg hlower] at h
      by_cases hupper : ('A' ≤ c && c ≤ 'F') = true
      · simp only [Bool.and_eq_true, decide_eq_true_eq, char_le_iff] at hupper
        exact .inr ⟨hupper.1, Nat.le_trans hupper.2 (by decide)⟩
      · rw [if_neg hupper] at h
        cases h

theorem not_isControl_of_isNameStart {c : Char} (h : isNameStart c = true) :
    ¬ isControl c = true := by
  have hunderscore : ('_' : Char).toNat = 95 := rfl
  intro hcontrol
  simp only [isControl, Bool.or_eq_true, decide_eq_true_eq, char_le_iff] at hcontrol
  rcases hcontrol with hcontrol | rfl
  · have hlow : c.toNat ≤ 31 := hcontrol
    simp only [isNameStart, isLetter, Bool.or_eq_true, Bool.and_eq_true, decide_eq_true_eq,
      char_le_iff] at h
    rcases h with (⟨⟨h, -⟩ | ⟨h, -⟩⟩ | rfl) | h
    · have : 97 ≤ c.toNat := h
      omega
    · have : 65 ≤ c.toNat := h
      omega
    · omega
    · omega
  · cases h

theorem isNameChar_of_isNameStart {c : Char} (h : isNameStart c = true) :
    isNameChar c = true := by
  simp [isNameChar, h]

theorem not_isNameStart_of_isDigit {c : Char} (h : isDigit c = true) : isNameStart c = false := by
  simp only [isDigit, Bool.and_eq_true, decide_eq_true_eq] at h
  have hlow : 48 ≤ c.toNat := h.1
  have hhigh : c.toNat ≤ 57 := h.2
  cases hstart : isNameStart c with
  | false => rfl
  | true =>
      simp only [isNameStart, isLetter, Bool.or_eq_true, Bool.and_eq_true,
        decide_eq_true_eq] at hstart
      rcases hstart with (⟨⟨hstart, -⟩ | ⟨hstart, -⟩⟩ | rfl) | hstart
      · have : 97 ≤ c.toNat := hstart
        omega
      · have : 65 ≤ c.toNat := hstart
        omega
      · exact absurd hhigh (by decide)
      · omega

theorem not_isControl_of_isDigit {c : Char} (h : isDigit c = true) : isControl c = false := by
  simp only [isDigit, Bool.and_eq_true, decide_eq_true_eq] at h
  have hlow : 48 ≤ c.toNat := h.1
  have hhigh : c.toNat ≤ 57 := h.2
  cases hcontrol : isControl c with
  | false => rfl
  | true =>
      simp only [isControl, Bool.or_eq_true, decide_eq_true_eq] at hcontrol
      rcases hcontrol with hcontrol | rfl
      · have : c.toNat ≤ 31 := hcontrol
        omega
      · exact absurd hhigh (by decide)

theorem not_isControl_of_isNameChar {c : Char} (h : isNameChar c = true) :
    isControl c = false := by
  simp only [isNameChar, Bool.or_eq_true, decide_eq_true_eq] at h
  rcases h with (hstart | hdigit) | rfl
  · simpa using not_isControl_of_isNameStart hstart
  · exact not_isControl_of_isDigit hdigit
  · rfl

end CssLex
