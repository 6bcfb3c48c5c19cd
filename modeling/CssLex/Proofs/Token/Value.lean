import CssLex.Proofs.Token.Literal

/-! The values of literals. A literal without point and exponent is an integer if it fits into 64
bits with a sign, and every other one is the float that it reads as. -/

namespace CssLex

open Production Grammar

namespace Literal

/-- The number that digits write, by powers of ten. -/
def magnitude (digits : List Char) : Nat :=
  Nat.ofDigits 10 (digits.reverse.map fun c => c.toNat - '0'.toNat)

/-- The integer that digits write with an optional sign. -/
def integer : List Char → Int
  | '-' :: digits => -magnitude digits
  | '+' :: digits => magnitude digits
  | digits => magnitude digits

/-- The number that a literal stands for. It is an integer exactly if the literal has neither
point nor exponent and writes an integer of 64 bits. -/
structure Denotes (literal : List Char) (number : Number) : Prop where
  integer_iff : ∀ value, number = .integer value ↔
    '.' ∉ literal ∧ 'e' ∉ literal ∧ integer literal = value ∧ -2 ^ 63 ≤ value ∧ value ≤ 2 ^ 63 - 1
  float : ∀ value, number = .float value →
    ∃ decimal, Decimal.read? literal = some decimal ∧ value = decimal.toFloat

theorem ofDigits_eq_magnitude (digits : List Char) : Decimal.ofDigits digits = magnitude digits :=
  foldl_eq_ofDigits 10 _ digits

theorem integer_eq (literal : List Char) :
    integer literal = if (Decimal.splitSign literal).1 then
      -(magnitude (Decimal.splitSign literal).2 : Int)
    else magnitude (Decimal.splitSign literal).2 := by
  unfold integer Decimal.splitSign
  split <;> simp_all

theorem fitsInteger_iff {value : Int} :
    Number.fitsInteger value = true ↔ -2 ^ 63 ≤ value ∧ value ≤ 2 ^ 63 - 1 := by
  simp [Number.fitsInteger]
  omega

section

variable {n : Numeral} {exponent : Option Int}

/-- A literal with neither point nor exponent reads as the integer that it writes. -/
theorem integer?_written (h : n.Valid) (hsome : exponent.isSome = n.exponent.isSome) :
    Decimal.integer? ⟨decide (n.sign = some '-'), n.whole, n.fraction, exponent⟩ =
      if '.' ∉ n.text ∧ 'e' ∉ n.text then some (integer n.text) else none := by
  simp only [h.point_mem_text, h.marker_mem_text, not_not, integer_eq, h.splitSign]
  cases hfraction : n.fraction with
  | some digits => simp [Decimal.integer?]
  | none =>
      cases hexponent : n.exponent with
      | some written =>
          rw [hexponent] at hsome
          obtain ⟨e, rfl⟩ := Option.isSome_iff_exists.mp hsome
          simp [Decimal.integer?]
      | none =>
          rw [hexponent] at hsome
          have hunsigned : n.unsigned = n.whole := by simp [Numeral.unsigned, hfraction, hexponent]
          obtain rfl := Option.isNone_iff_eq_none.mp (Option.isSome_eq_false_iff.mp hsome)
          simp [Decimal.integer?, hunsigned, ofDigits_eq_magnitude]

/-- What a literal reads as. -/
theorem denotes_ofDecimal (h : n.Valid) (hsome : exponent.isSome = n.exponent.isSome)
    (hread : Decimal.read? n.text =
      some ⟨decide (n.sign = some '-'), n.whole, n.fraction, exponent⟩) :
    Denotes n.text (.ofDecimal ⟨decide (n.sign = some '-'), n.whole, n.fraction, exponent⟩) := by
  rw [Number.ofDecimal, integer?_written h hsome]
  by_cases hplain : '.' ∉ n.text ∧ 'e' ∉ n.text
  · rw [if_pos hplain]
    by_cases hfits : Number.fitsInteger (integer n.text) = true
    · simp only [hfits, if_true]
      refine ⟨fun value => ?_, nofun⟩
      have hrange := fitsInteger_iff.mp hfits
      rw [Number.integer.injEq]
      exact ⟨fun heq => ⟨hplain.1, hplain.2, heq, heq ▸ hrange⟩, fun hvalue => hvalue.2.2.1⟩
    · simp only [hfits]
      refine ⟨fun value => ⟨nofun, fun hvalue => ?_⟩, ?_⟩
      · obtain ⟨-, -, rfl, hrange⟩ := hvalue
        exact absurd (fitsInteger_iff.mpr hrange) hfits
      · rintro _ ⟨⟩
        exact ⟨_, hread, rfl⟩
  · rw [if_neg hplain]
    refine ⟨fun value => ⟨nofun, fun hvalue => absurd ⟨hvalue.1, hvalue.2.1⟩ hplain⟩, ?_⟩
    rintro _ ⟨⟩
    exact ⟨_, hread, rfl⟩

end

/-- Every text that matches the pattern is a literal, and its value is exact. -/
theorem exists_denotes {literal : List Char} (h : literal ∈ pattern.matches') :
    ∃ value, Number.ofLiteral? literal = some value ∧ Denotes literal value := by
  obtain ⟨n, hvalid, rfl⟩ := pattern_matches_iff.mp h
  obtain ⟨exponent, hread, hsome⟩ := hvalid.read?_text
  exact ⟨_, by rw [Number.ofLiteral?, hread]; rfl, denotes_ofDecimal hvalid hsome hread⟩

/-- The least integer, with a leading zero. -/
example : integer "-09223372036854775808".toList = -2 ^ 63 := by decide

end Literal

/-! ## Integers as literals -/

namespace Grammar

/-- The numeral that an integer is written as. -/
def Numeral.ofInt (n : Int) : Numeral :=
  ⟨if n < 0 then some '-' else none, Nat.toDigits 10 n.natAbs, none, none⟩

theorem Numeral.ofInt_valid (n : Int) : (Numeral.ofInt n).Valid where
  sign c hc := by
    simp only [ofInt] at hc
    split at hc
    · cases hc
      rfl
    · cases hc
  whole c hc := by
    have hdigit := Nat.isDigit_of_mem_toDigits (by decide) (by decide) hc
    simpa [Char.isDigit, isDigit, Char.le_def] using hdigit
  fraction := nofun
  digit := .inl Nat.toDigits_ne_nil
  exponent := nofun

theorem Numeral.unsigned_ofInt (n : Int) :
    (Numeral.ofInt n).unsigned = Nat.toDigits 10 n.natAbs := by
  simp [unsigned, ofInt]

theorem Numeral.text_ofInt (n : Int) : (Numeral.ofInt n).text = (toString n).toList := by
  rw [text_eq, unsigned_ofInt]
  cases n with
  | ofNat n =>
      change Nat.toDigits 10 n = (toString n).toList
      rw [Nat.toString_eq_repr, Nat.toList_repr]
  | negSucc n =>
      change _ = ("-" ++ (n + 1).repr).toList
      rw [String.toList_append, Nat.toList_repr, ofInt, if_pos (Int.negSucc_lt_zero n)]
      rfl

end Grammar

namespace Literal

theorem magnitude_toDigits (n : Nat) : magnitude (Nat.toDigits 10 n) = n := by
  rw [← ofDigits_eq_magnitude, Decimal.ofDigits, ← Nat.ofDigitChars_eq_foldl,
    Nat.ofDigitChars_ten_toDigits]

theorem integer_toString (n : Int) : integer (toString n).toList = n := by
  rw [integer_eq, ← Numeral.text_ofInt, (Numeral.ofInt_valid n).splitSign]
  simp only [Numeral.unsigned_ofInt, magnitude_toDigits]
  by_cases hneg : n < 0
  · simp only [Numeral.ofInt, hneg, if_true, decide_true]
    omega
  · simp only [Numeral.ofInt, hneg, if_false, reduceCtorEq, decide_false]
    exact Int.natAbs_of_nonneg (Int.not_lt.mp hneg)

/-- An integer of 64 bits reads back from its digits. -/
theorem ofLiteral?_toString {n : Int} (hlow : -2 ^ 63 ≤ n) (hhigh : n ≤ 2 ^ 63 - 1) :
    Number.ofLiteral? (toString n).toList = some (.integer n) := by
  have hvalid := Numeral.ofInt_valid n
  have htext := Numeral.text_ofInt n
  obtain ⟨value, hvalue, hdenotes⟩ := exists_denotes (pattern_matches_iff.mpr ⟨_, hvalid, htext⟩)
  have hpoint : '.' ∉ (toString n).toList := by
    rw [← htext, hvalid.point_mem_text]
    simp [Numeral.ofInt]
  have hmarker : 'e' ∉ (toString n).toList := by
    rw [← htext, hvalid.marker_mem_text]
    simp [Numeral.ofInt]
  rw [hvalue, (hdenotes.integer_iff n).mpr ⟨hpoint, hmarker, integer_toString n, hlow, hhigh⟩]

end Literal
end CssLex
