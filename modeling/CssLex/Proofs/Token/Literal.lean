import Mathlib.Computability.RegularExpressions
import CssLex.Proofs.Alphabet
import CssLex.Proofs.Grammar.Literal

/-! The texts of numbers. A text matches the pattern of literals exactly if it is the text of a
valid numeral; in a source text the exponent marker may have either case. -/

namespace CssLex

open Production Grammar

namespace Literal

/-- One of some characters. -/
def oneOf (chars : List Char) : RegularExpression Char := (chars.map .char).sum

/-- A digit or more. -/
def digits : RegularExpression Char :=
  let digit := oneOf ['0', '1', '2', '3', '4', '5', '6', '7', '8', '9']
  digit * digit.star

/-- A sign or nothing. -/
def sign : RegularExpression Char := 1 + oneOf ['+', '-']

/-- The literals of numbers, `[+-]?(digits(.digits)?|.digits)(e[+-]?digits)?`. -/
def pattern : RegularExpression Char :=
  sign * (digits * (1 + .char '.' * digits) + .char '.' * digits) *
    (1 + .char 'e' * (sign * digits))

/-- The numbers of source texts, `[+-]?(digits(.digits)?|.digits)([eE][+-]?digits)?`. -/
def spelling : RegularExpression Char :=
  sign * (digits * (1 + .char '.' * digits) + .char '.' * digits) *
    (1 + oneOf ['e', 'E'] * (sign * digits))

variable {text chars : List Char} {n : Numeral} {marker : Char} {marks : RegularExpression Char}

/-! ## Parts of a number -/

theorem oneOf_matches_iff : text ∈ (oneOf chars).matches' ↔ ∃ c ∈ chars, text = [c] := by
  induction chars with
  | nil => exact ⟨nofun, nofun⟩
  | cons c chars ih =>
      rw [oneOf, List.map_cons, List.sum_cons, RegularExpression.matches'_add, Language.mem_add,
        List.exists_mem_cons_iff]
      exact or_congr Iff.rfl ih

theorem mem_iff_isDigit {c : Char} :
    c ∈ ['0', '1', '2', '3', '4', '5', '6', '7', '8', '9'] ↔ isDigit c = true := by
  constructor
  · have hall : ['0', '1', '2', '3', '4', '5', '6', '7', '8', '9'].all isDigit = true := rfl
    exact List.all_eq_true.mp hall c
  · intro h
    have hall : ∀ n < 10, Char.ofNat (48 + n) ∈
        ['0', '1', '2', '3', '4', '5', '6', '7', '8', '9'] := by decide
    obtain ⟨hlow, hhigh⟩ : 48 ≤ c.toNat ∧ c.toNat ≤ 57 := by
      simpa [isDigit, char_le_iff] using h
    have hc := hall (c.toNat - 48) (by omega)
    rwa [Nat.add_sub_cancel' hlow, Char.ofNat_toNat] at hc

theorem digits_matches_iff : text ∈ digits.matches' ↔ Digits text := by
  rw [digits, RegularExpression.matches'_mul, Language.mem_mul, RegularExpression.matches'_star]
  constructor
  · rintro ⟨first, hfirst, more, hmore, rfl⟩
    obtain ⟨c, hc, rfl⟩ := oneOf_matches_iff.mp hfirst
    obtain ⟨words, rfl, hwords⟩ := Language.mem_kstar.mp hmore
    refine ⟨by simp, List.forall_mem_cons.mpr ⟨mem_iff_isDigit.mp hc, fun d hd => ?_⟩⟩
    obtain ⟨word, hword, hd⟩ := List.mem_flatten.mp hd
    obtain ⟨d', hd', rfl⟩ := oneOf_matches_iff.mp (hwords word hword)
    rw [List.mem_singleton.mp hd]
    exact mem_iff_isDigit.mp hd'
  · rintro ⟨hne, hdigits⟩
    obtain ⟨c, text, rfl⟩ := List.exists_cons_of_ne_nil hne
    have hword : ∀ d ∈ c :: text,
        [d] ∈ (oneOf ['0', '1', '2', '3', '4', '5', '6', '7', '8', '9']).matches' :=
      fun d hd => oneOf_matches_iff.mpr ⟨d, mem_iff_isDigit.mpr (hdigits d hd), rfl⟩
    refine ⟨[c], hword c List.mem_cons_self, text, Language.mem_kstar.mpr ?_, rfl⟩
    refine ⟨text.map fun d => [d], (List.flatMap_singleton' text).symm, ?_⟩
    intro word hmem
    obtain ⟨d, hd, rfl⟩ := List.mem_map.mp hmem
    exact hword d (List.mem_cons_of_mem c hd)

theorem sign_matches_iff : text ∈ sign.matches' ↔
    ∃ sign : Option Char, text = sign.toList ∧ ∀ c, sign = some c → isSign c = true := by
  rw [sign, RegularExpression.matches'_add, Language.mem_add, oneOf_matches_iff]
  constructor
  · rintro (h | ⟨c, hc, rfl⟩)
    · exact ⟨none, h, nofun⟩
    · refine ⟨some c, rfl, ?_⟩
      rintro _ ⟨⟩
      simpa [isSign] using hc
  · rintro ⟨sign, rfl, h⟩
    cases sign with
    | none => exact .inl rfl
    | some c =>
        right
        refine ⟨c, ?_, rfl⟩
        simpa [isSign] using h c rfl

theorem pointed_matches_iff : text ∈ (RegularExpression.char '.' * digits).matches' ↔
    ∃ behind, text = '.' :: behind ∧ Digits behind := by
  rw [RegularExpression.matches'_mul, Language.mem_mul]
  constructor
  · rintro ⟨_, rfl, behind, hbehind, rfl⟩
    exact ⟨behind, rfl, digits_matches_iff.mp hbehind⟩
  · rintro ⟨behind, rfl, h⟩
    exact ⟨['.'], rfl, behind, digits_matches_iff.mpr h, rfl⟩

/-! ## Whole numbers -/

theorem front_matches (h : n.Valid) :
    n.front ∈ (sign * (digits * (1 + .char '.' * digits) + .char '.' * digits)).matches' := by
  refine Language.append_mem_mul (sign_matches_iff.mpr ⟨n.sign, rfl, h.sign⟩) ?_
  rw [RegularExpression.matches'_add, Language.mem_add]
  by_cases hwhole : n.whole = []
  · right
    cases hfraction : n.fraction with
    | none => exact absurd h.digit (by simp [hwhole, hfraction])
    | some behind =>
        rw [hwhole, List.nil_append]
        exact pointed_matches_iff.mpr ⟨behind, rfl, h.fraction behind hfraction⟩
  · left
    refine Language.append_mem_mul (digits_matches_iff.mpr ⟨hwhole, h.whole⟩) ?_
    cases hfraction : n.fraction with
    | none => exact .inl rfl
    | some behind =>
        exact .inr (pointed_matches_iff.mpr ⟨behind, rfl, h.fraction behind hfraction⟩)

/-- Up to its exponent, what matches is the front of a numeral. -/
theorem exists_front
    (h : text ∈ (sign * (digits * (1 + .char '.' * digits) + .char '.' * digits)).matches') :
    ∃ n : Numeral, n.Valid ∧ n.exponent = none ∧ n.front = text := by
  obtain ⟨_, hsign, core, hcore, rfl⟩ := Language.mem_mul.mp h
  obtain ⟨sign, rfl, hmark⟩ := sign_matches_iff.mp hsign
  rcases (Language.mem_add _ _ _).mp hcore with hcore | hcore
  · obtain ⟨whole, hwhole, behind, hbehind, rfl⟩ := Language.mem_mul.mp hcore
    have hwhole := digits_matches_iff.mp hwhole
    rcases (Language.mem_add _ _ _).mp hbehind with rfl | hbehind
    · exact ⟨⟨sign, whole, none, none⟩, ⟨hmark, hwhole.2, nofun, .inl hwhole.1, nofun⟩, rfl, rfl⟩
    · obtain ⟨fraction, rfl, hfraction⟩ := pointed_matches_iff.mp hbehind
      refine ⟨⟨sign, whole, some fraction, none⟩, ⟨hmark, hwhole.2, ?_, .inl hwhole.1, nofun⟩,
        rfl, rfl⟩
      rintro _ ⟨⟩
      exact hfraction
  · obtain ⟨fraction, rfl, hfraction⟩ := pointed_matches_iff.mp hcore
    refine ⟨⟨sign, [], some fraction, none⟩, ⟨hmark, nofun, ?_, .inr nofun, nofun⟩, rfl, rfl⟩
    rintro _ ⟨⟩
    exact hfraction

theorem spelled_matches (h : n.Valid) (hmarker : [marker] ∈ marks.matches') :
    n.spelled marker ∈ (sign * (digits * (1 + .char '.' * digits) + .char '.' * digits) *
      (1 + marks * (sign * digits))).matches' := by
  refine Language.append_mem_mul (front_matches h) ?_
  cases hwritten : n.exponent with
  | none => exact .inl rfl
  | some written =>
      obtain ⟨sign, behind, rfl, hsign, hbehind⟩ := h.exponent written hwritten
      right
      exact Language.append_mem_mul (a := [marker]) hmarker
        (Language.append_mem_mul (sign_matches_iff.mpr ⟨sign, rfl, hsign⟩)
          (digits_matches_iff.mpr hbehind))

/-- What matches is a numeral with one of the markers. -/
theorem exists_spelled (hmarks : ∀ mark, mark ∈ marks.matches' ↔ ∃ c ∈ 'e' :: chars, mark = [c])
    (h : text ∈ (sign * (digits * (1 + .char '.' * digits) + .char '.' * digits) *
      (1 + marks * (sign * digits))).matches') :
    ∃ (n : Numeral) (marker : Char), n.Valid ∧ marker ∈ 'e' :: chars ∧
      n.spelled marker = text := by
  obtain ⟨front, hfront, exponent, hexponent, rfl⟩ := Language.mem_mul.mp h
  obtain ⟨n, hvalid, hnone, rfl⟩ := exists_front hfront
  rcases (Language.mem_add _ _ _).mp hexponent with rfl | hexponent
  · exact ⟨n, 'e', hvalid, List.mem_cons_self, by rw [Numeral.spelled, hnone]; rfl⟩
  · obtain ⟨first, hfirst, written, hwritten, rfl⟩ := Language.mem_mul.mp hexponent
    obtain ⟨marker, hmem, rfl⟩ := (hmarks first).mp hfirst
    obtain ⟨_, hsign, behind, hbehind, rfl⟩ := Language.mem_mul.mp hwritten
    obtain ⟨sign, rfl, hmark⟩ := sign_matches_iff.mp hsign
    refine ⟨{ n with exponent := some (sign.toList ++ behind) }, marker,
      ⟨hvalid.sign, hvalid.whole, hvalid.fraction, hvalid.digit, ?_⟩, hmem, rfl⟩
    rintro _ ⟨⟩
    exact ⟨sign, behind, rfl, hmark, digits_matches_iff.mp hbehind⟩

/-- The literals are the texts of valid numerals. -/
theorem pattern_matches_iff :
    text ∈ pattern.matches' ↔ ∃ n : Numeral, n.Valid ∧ n.text = text := by
  constructor
  · intro h
    have hmarks : ∀ mark, mark ∈ (RegularExpression.char 'e').matches' ↔
        ∃ c ∈ ['e'], mark = [c] := fun mark => by
      simp only [List.mem_singleton, exists_eq_left]
      exact Iff.rfl
    obtain ⟨n, marker, hvalid, hmarker, rfl⟩ := exists_spelled hmarks h
    rw [List.mem_singleton.mp hmarker]
    exact ⟨n, hvalid, n.text_eq_spelled⟩
  · rintro ⟨n, h, rfl⟩
    rw [n.text_eq_spelled]
    exact spelled_matches h rfl

/-- A point needs digits behind it, and none before it. -/
example : ".5e-3".toList ∈ pattern.matches' ∧ "5.e3".toList ∉ pattern.matches' := by decide +kernel

/-- The numbers of source texts are the valid numerals with either marker. -/
theorem spelling_matches_iff : text ∈ spelling.matches' ↔ ∃ (n : Numeral) (marker : Char),
    n.Valid ∧ isExponentMarker marker = true ∧ n.spelled marker = text := by
  constructor
  · intro h
    obtain ⟨n, marker, hvalid, hmarker, rfl⟩ := exists_spelled (fun _ => oneOf_matches_iff) h
    exact ⟨n, marker, hvalid, by simpa [isExponentMarker] using hmarker, rfl⟩
  · rintro ⟨n, marker, h, hmarker, rfl⟩
    refine spelled_matches h (oneOf_matches_iff.mpr ⟨marker, ?_, rfl⟩)
    simpa [isExponentMarker] using hmarker

/-! ## Lower case -/

theorem lowerLetter_of_isDigit {c : Char} (h : isDigit c = true) : lowerLetter c = c := by
  obtain ⟨hlow, hhigh⟩ : 48 ≤ c.toNat ∧ c.toNat ≤ 57 := by
    simpa [isDigit, char_le_iff] using h
  refine if_neg fun hupper => ?_
  simp only [Bool.and_eq_true, decide_eq_true_eq, char_le_iff] at hupper
  have hletter : 65 ≤ c.toNat := hupper.1
  omega

theorem map_lowerLetter_sign {sign : Option Char} (h : ∀ c, sign = some c → isSign c = true) :
    sign.toList.map lowerLetter = sign.toList := by
  cases sign with
  | none => rfl
  | some c => rcases isSign_eq_true.mp (h c rfl) with rfl | rfl <;> rfl

theorem map_lowerLetter_digits (h : ∀ c ∈ text, isDigit c = true) :
    text.map lowerLetter = text :=
  (List.map_congr_left fun c hc => lowerLetter_of_isDigit (h c hc)).trans (List.map_id' text)

/-- In lower case a spelled numeral is its literal. -/
theorem map_lowerLetter_spelled (h : n.Valid) (hmarker : isExponentMarker marker = true) :
    (n.spelled marker).map lowerLetter = n.text := by
  have hfraction : (n.fraction.elim [] ('.' :: ·)).map lowerLetter =
      n.fraction.elim [] ('.' :: ·) := by
    cases hwritten : n.fraction with
    | none => rfl
    | some digits =>
        exact congrArg ('.' :: ·) (map_lowerLetter_digits (h.fraction digits hwritten).2)
  have hexponent : (n.exponent.elim [] (marker :: ·)).map lowerLetter =
      n.exponent.elim [] ('e' :: ·) := by
    cases hwritten : n.exponent with
    | none => rfl
    | some written =>
        obtain ⟨sign, digits, rfl, hsign, hdigits⟩ := h.exponent written hwritten
        have hlower : lowerLetter marker = 'e' := by
          rcases isExponentMarker_eq_true.mp hmarker with rfl | rfl <;> rfl
        simp only [Option.elim_some, List.map_cons, List.map_append, hlower,
          map_lowerLetter_sign hsign, map_lowerLetter_digits hdigits.2]
  simp only [Numeral.spelled, Numeral.front, Numeral.text_eq_front, List.map_append,
    map_lowerLetter_sign h.sign, map_lowerLetter_digits h.whole, hfraction, hexponent]

end Literal
end CssLex
