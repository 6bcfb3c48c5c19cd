import CssLex.Proofs.Grammar.Numeric

/-! A literal that was read reads back as the same numeral, wherever nothing goes on with it. -/

namespace CssLex.Grammar

open Production

variable {accept : Char → Bool} {text w : List Char}

/-! ## Runs that stop -/

theorem takeWhile_of_char?_none (h : char? accept w = none) : w.takeWhile accept = [] := by
  cases w with
  | nil => rfl
  | cons c w =>
      cases hc : accept c with
      | true => simp [char?_of_accept hc] at h
      | false => simp [hc]

theorem dropWhile_of_char?_none (h : char? accept w = none) : w.dropWhile accept = w := by
  cases w with
  | nil => rfl
  | cons c w =>
      cases hc : accept c with
      | true => simp [char?_of_accept hc] at h
      | false => simp [hc]

theorem char?_dropWhile (accept : Char → Bool) (text : List Char) :
    char? accept (text.dropWhile accept) = none := by
  induction text with
  | nil => rfl
  | cons c text ih =>
      cases hc : accept c with
      | true => rwa [List.dropWhile_cons_of_pos hc]
      | false =>
          rw [List.dropWhile_cons_of_neg (by simp [hc])]
          exact char?_of_not_accept hc text

theorem takeWhile_append_stop (h : ∀ c ∈ text, accept c = true) (hw : char? accept w = none) :
    (text ++ w).takeWhile accept = text := by
  rw [List.takeWhile_append_of_pos h, takeWhile_of_char?_none hw, List.append_nil]

theorem dropWhile_append_stop (h : ∀ c ∈ text, accept c = true) (hw : char? accept w = none) :
    (text ++ w).dropWhile accept = w := by
  rw [List.dropWhile_append_of_pos h, dropWhile_of_char?_none hw]

/-! ## What ends a numeral -/

/-- Nothing goes on with a numeral. Only behind its last part may another one follow. -/
structure Numeral.StopsAt (n : Numeral) (w : List Char) : Prop where
  digit : char? isDigit w = none
  fraction : n.fraction = none → n.exponent = none → fraction? w = none
  exponent : n.exponent = none → exponent? w = none

theorem Numeral.stopsAt_nil (n : Numeral) : n.StopsAt [] := ⟨rfl, fun _ _ => rfl, fun _ => rfl⟩

theorem none_of_attempt_none {α : Type} {read : List Char → Option (α × List Char)}
    (h : (attempt read text).1 = none) : read text = none := by
  cases hread : read text with
  | none => rfl
  | some found => simp [attempt_of_some hread] at h

theorem fraction?_stops {digits rest : List Char} (h : fraction? text = some (digits, rest)) :
    char? isDigit rest = none := by
  unfold fraction? at h
  split at h
  · split at h
    · cases h
    · cases h
      exact char?_dropWhile isDigit _
  · cases h

theorem exponent?_stops {written rest : List Char}
    (h : exponent? text = some (written, rest)) : char? isDigit rest = none := by
  unfold exponent? at h
  split at h
  · dsimp only at h
    split at h
    · cases h
    · cases h
      exact char?_dropWhile isDigit _
  · cases h

theorem numeral?_stops {rest : List Char} {n : Numeral} (h : numeral? text = some (n, rest)) :
    n.StopsAt rest := by
  simp only [numeral?] at h
  split at h
  · cases h
  · cases h
    generalize (attempt (char? isSign) text).2 = unsigned
    have hdigit : char? isDigit (attempt fraction? (unsigned.dropWhile isDigit)).2 = none := by
      cases hfraction : fraction? (unsigned.dropWhile isDigit) with
      | some found =>
          rw [attempt_of_some hfraction]
          exact fraction?_stops hfraction
      | none =>
          rw [attempt_of_none hfraction]
          exact char?_dropWhile isDigit unsigned
    refine ⟨?_, fun hfraction hexponent => ?_, fun hexponent => ?_⟩
    · cases hexponent : exponent? (attempt fraction? (unsigned.dropWhile isDigit)).2 with
      | some found =>
          rw [attempt_of_some hexponent]
          exact exponent?_stops hexponent
      | none =>
          rw [attempt_of_none hexponent]
          exact hdigit
    · rw [attempt_snd_of_fst_none hexponent, attempt_snd_of_fst_none hfraction]
      exact none_of_attempt_none hfraction
    · rw [attempt_snd_of_fst_none hexponent]
      exact none_of_attempt_none hexponent

/-! ## The parts of a literal -/

theorem attempt_sign {sign : Option Char} (hsign : ∀ c, sign = some c → isSign c = true)
    (hw : char? isSign w = none) : attempt (char? isSign) (sign.toList ++ w) = (sign, w) := by
  cases sign with
  | none => exact attempt_of_none hw
  | some c => exact attempt_of_some (char?_of_accept (hsign c rfl) w)

theorem not_sign_of_digits (h : Digits text) : char? isSign (text ++ w) = none := by
  obtain ⟨c, rest, rfl⟩ := List.exists_cons_of_ne_nil h.1
  exact char?_of_not_accept (not_isSign_of_isDigit (h.2 c List.mem_cons_self)) _

/-- A numeral as it is written up to its exponent. -/
def Numeral.front (n : Numeral) : List Char :=
  n.sign.toList ++ (n.whole ++ n.fraction.elim [] ('.' :: ·))

theorem Numeral.text_eq_front (n : Numeral) :
    n.text = n.front ++ n.exponent.elim [] ('e' :: ·) := by
  simp only [text_eq, unsigned, front, List.append_assoc]

/-- A numeral as it stands in a source text, where this character marks the exponent. -/
def Numeral.spelled (n : Numeral) (marker : Char) : List Char :=
  n.front ++ n.exponent.elim [] (marker :: ·)

theorem Numeral.text_eq_spelled (n : Numeral) : n.text = n.spelled 'e' := n.text_eq_front

/-! ## What stands in a literal -/

theorem not_mem_sign {c : Char} {sign : Option Char} (hc : isSign c = false)
    (h : ∀ c, sign = some c → isSign c = true) : c ∉ sign.toList := by
  intro hmem
  rw [h c (Option.mem_toList.mp hmem)] at hc
  cases hc

theorem not_mem_digits {c : Char} {digits : List Char} (hc : isDigit c = false)
    (h : ∀ c ∈ digits, isDigit c = true) : c ∉ digits := by
  intro hmem
  rw [h c hmem] at hc
  cases hc

/-- What is neither a digit nor a sign marks the fraction or the exponent of a numeral. -/
theorem Numeral.Valid.mem_text {n : Numeral} (h : n.Valid) {c : Char} (hdigit : isDigit c = false)
    (hsign : isSign c = false) :
    c ∈ n.text ↔ (n.fraction ≠ none ∧ c = '.') ∨ (n.exponent ≠ none ∧ c = 'e') := by
  have hwhole := not_mem_digits hdigit h.whole
  have hmark := not_mem_sign hsign h.sign
  have hfraction : c ∈ n.fraction.elim [] ('.' :: ·) ↔ n.fraction ≠ none ∧ c = '.' := by
    cases hwritten : n.fraction with
    | none => simp
    | some digits => simp [not_mem_digits hdigit (h.fraction digits hwritten).2]
  have hexponent : c ∈ n.exponent.elim [] ('e' :: ·) ↔ n.exponent ≠ none ∧ c = 'e' := by
    cases hwritten : n.exponent with
    | none => simp
    | some written =>
        obtain ⟨sign, digits, rfl, hsign', hdigits⟩ := h.exponent written hwritten
        simp [not_mem_digits hdigit hdigits.2, not_mem_sign hsign hsign']
  simp only [n.text_eq_front, Numeral.front, List.mem_append, hwhole, hmark, hfraction, hexponent,
    false_or]

theorem Numeral.Valid.point_mem_text {n : Numeral} (h : n.Valid) :
    '.' ∈ n.text ↔ n.fraction ≠ none := by
  rw [h.mem_text rfl rfl]
  simp

theorem Numeral.Valid.marker_mem_text {n : Numeral} (h : n.Valid) :
    'e' ∈ n.text ↔ n.exponent ≠ none := by
  rw [h.mem_text rfl rfl]
  simp

theorem Numeral.Valid.contains_marker {n : Numeral} (h : n.Valid) :
    n.text.contains 'e' = n.exponent.isSome := by
  rw [Bool.eq_iff_iff, List.contains_iff_mem, h.marker_mem_text, Option.isSome_iff_ne_none]

/-! ## Reading a literal back -/

theorem Numeral.Valid.front_not_sign {n : Numeral} (h : n.Valid) :
    char? isSign (n.whole ++ n.fraction.elim [] ('.' :: ·) ++ w) = none := by
  cases hwhole : n.whole with
  | cons c whole =>
      have hc : isDigit c = true := h.whole c (by rw [hwhole]; exact List.mem_cons_self)
      exact char?_of_not_accept (not_isSign_of_isDigit hc) _
  | nil =>
      cases hfraction : n.fraction with
      | some digits => rfl
      | none => exact absurd h.digit (by simp [hwhole, hfraction])

/-- A fraction takes the digits that go on with it. -/
theorem fraction?_append {digits : List Char} (h : Digits digits) (w : List Char) :
    fraction? ('.' :: digits ++ w) = some (digits ++ w.takeWhile isDigit, w.dropWhile isDigit) := by
  simp only [List.cons_append, fraction?, takeWhile_digits h.2, dropWhile_digits h.2,
    List.append_eq_nil_iff, h.1, false_and, if_false]

/-- The fraction of a numeral as it is written, with what follows. -/
theorem attempt_fraction?_written {n : Numeral} (h : n.Valid) (hdigit : char? isDigit w = none)
    (hfraction : n.fraction = none → fraction? w = none) :
    attempt fraction? (n.fraction.elim [] ('.' :: ·) ++ w) = (n.fraction, w) := by
  cases hwritten : n.fraction with
  | some digits =>
      have hread := fraction?_append (h.fraction digits hwritten) w
      rw [takeWhile_of_char?_none hdigit, dropWhile_of_char?_none hdigit,
        List.append_nil] at hread
      exact attempt_of_some hread
  | none => exact attempt_of_none (hfraction hwritten)

theorem fraction_stops (n : Numeral) (hdigit : char? isDigit w = none) :
    char? isDigit (n.fraction.elim [] ('.' :: ·) ++ w) = none := by
  cases n.fraction with
  | none => exact hdigit
  | some digits => rfl

/-- Behind what is written up to the exponent of a numeral, the exponent is read. -/
theorem numeral?_front {n : Numeral} (h : n.Valid) (hdigit : char? isDigit w = none)
    (hfraction : n.fraction = none → fraction? w = none) :
    numeral? (n.front ++ w) =
      some ({ n with exponent := (attempt exponent? w).1 }, (attempt exponent? w).2) := by
  have hsign : attempt (char? isSign) (n.front ++ w) =
      (n.sign, n.whole ++ n.fraction.elim [] ('.' :: ·) ++ w) := by
    rw [Numeral.front, List.append_assoc]
    exact attempt_sign h.sign h.front_not_sign
  have htake := takeWhile_append_stop h.whole (fraction_stops n hdigit)
  have hdrop := dropWhile_append_stop h.whole (fraction_stops n hdigit)
  have hsome : ¬ (n.whole = [] ∧ n.fraction = none) := fun hnone =>
    h.digit.elim (absurd hnone.1) (absurd hnone.2)
  simp only [numeral?, hsign, List.append_assoc, htake, hdrop,
    attempt_fraction?_written h hdigit hfraction, hsome, if_false]

/-- An exponent takes the digits that go on with it. -/
theorem exponent?_append {sign : Option Char} {digits : List Char} {marker : Char}
    (hmarker : isExponentMarker marker = true) (hsign : ∀ c, sign = some c → isSign c = true)
    (hdigits : Digits digits) (w : List Char) :
    exponent? (marker :: (sign.toList ++ digits) ++ w) =
      some (sign.toList ++ (digits ++ w.takeWhile isDigit), w.dropWhile isDigit) := by
  simp only [exponent?, List.cons_append, List.append_assoc, char?_of_accept hmarker,
    attempt_sign hsign (not_sign_of_digits hdigits), takeWhile_digits hdigits.2,
    dropWhile_digits hdigits.2, List.append_eq_nil_iff, hdigits.1, false_and, if_false]

/-- The exponent of a numeral as it is written, with what follows. -/
theorem attempt_exponent?_written {n : Numeral} (h : n.Valid) (hw : n.StopsAt w) :
    attempt exponent? (n.exponent.elim [] ('e' :: ·) ++ w) = (n.exponent, w) := by
  cases hexponent : n.exponent with
  | none => exact attempt_of_none (hw.exponent hexponent)
  | some written =>
      obtain ⟨sign, digits, rfl, hsign, hdigits⟩ := h.exponent written hexponent
      have hmarker : isExponentMarker 'e' = true := rfl
      have hread := exponent?_append hmarker hsign hdigits w
      rw [takeWhile_of_char?_none hw.digit, dropWhile_of_char?_none hw.digit,
        List.append_nil] at hread
      exact attempt_of_some hread

theorem exponent_stops {n : Numeral} (hw : n.StopsAt w) :
    char? isDigit (n.exponent.elim [] ('e' :: ·) ++ w) = none := by
  cases n.exponent with
  | none => exact hw.digit
  | some written => rfl

/-- The literal of a numeral reads back before what does not go on with it. -/
theorem numeral?_text {n : Numeral} (h : n.Valid) (hw : n.StopsAt w) :
    numeral? (n.text ++ w) = some (n, w) := by
  have hfraction : n.fraction = none →
      fraction? (n.exponent.elim [] ('e' :: ·) ++ w) = none := by
    intro hfraction
    cases hexponent : n.exponent with
    | none => exact hw.fraction hfraction hexponent
    | some written => rfl
  rw [n.text_eq_front, List.append_assoc, numeral?_front h (exponent_stops hw) hfraction,
    attempt_exponent?_written h hw]

end CssLex.Grammar
