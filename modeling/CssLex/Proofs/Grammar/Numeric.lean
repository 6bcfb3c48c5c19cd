import Mathlib.Data.Option.Basic
import CssLex.Production.Numeric
import CssLex.Proofs.Grammar.Name

/-! The grammar of numbers, percentages and dimensions as functions of a text. -/

namespace CssLex.Grammar

open Production

/-! ## Numerals -/

/-- The parts of a number as it is written. -/
structure Numeral where
  sign : Option Char
  whole : List Char
  fraction : Option (List Char)
  /-- What stands behind the exponent marker. -/
  exponent : Option (List Char)
deriving Repr, DecidableEq

/-- The literal of a number, with the exponent marker in lower case. -/
def Numeral.text (n : Numeral) : List Char := literalOf n.sign n.whole n.fraction n.exponent

/-- A point with the digits behind it. -/
def fraction? : List Char → Option (List Char × List Char)
  | '.' :: text =>
    if text.takeWhile isDigit = [] then none
    else some (text.takeWhile isDigit, text.dropWhile isDigit)
  | _ => none

/-- What stands behind an exponent marker: an optional sign and digits. -/
def exponent? (text : List Char) : Option (List Char × List Char) :=
  match char? isExponentMarker text with
  | some (_, rest) =>
    let sign := attempt (char? isSign) rest
    if sign.2.takeWhile isDigit = [] then none
    else some (sign.1.toList ++ sign.2.takeWhile isDigit, sign.2.dropWhile isDigit)
  | none => none

/-- The longest number, which has a digit before or behind its point. -/
def numeral? (text : List Char) : Option (Numeral × List Char) :=
  let sign := attempt (char? isSign) text
  let whole := sign.2.takeWhile isDigit
  let fraction := attempt fraction? (sign.2.dropWhile isDigit)
  if whole = [] ∧ fraction.1 = none then none
  else
    let exponent := attempt exponent? fraction.2
    some (⟨sign.1, whole, fraction.1, exponent.1⟩, exponent.2)

theorem fraction?_tail {text digits rest : List Char} (h : fraction? text = some (digits, rest)) :
    IsTail rest text := by
  unfold fraction? at h
  split at h
  · next text =>
    split at h
    · cases h
    · cases h
      exact .of_suffix (List.dropWhile_suffix _) (.cons '.' text)
  · cases h

theorem exponent?_tail {text written rest : List Char}
    (h : exponent? text = some (written, rest)) : IsTail rest text := by
  unfold exponent? at h
  split at h
  · next marker middle heq =>
    dsimp only at h
    split at h
    · cases h
    · cases h
      exact .of_suffix ((List.dropWhile_suffix _).trans (attempt_suffix fun _ _ => char?_tail))
        (char?_tail heq)
  · cases h

theorem numeral?_tail {text rest : List Char} {n : Numeral} (h : numeral? text = some (n, rest)) :
    IsTail rest text := by
  simp only [numeral?] at h
  split at h
  · cases h
  · next hdigit =>
    cases h
    apply IsTail.of_suffix (attempt_suffix fun _ _ => exponent?_tail)
    have hsign : (attempt (char? isSign) text).2 <:+ text :=
      attempt_suffix fun _ _ => char?_tail
    generalize (attempt (char? isSign) text).2 = unsigned at *
    cases hf : fraction? (unsigned.dropWhile isDigit) with
    | some read =>
        simp only [attempt, hf]
        exact (fraction?_tail hf).trans_suffix ((List.dropWhile_suffix _).trans hsign)
    | none =>
        simp only [attempt, hf, and_true] at hdigit ⊢
        exact (dropWhile_tail hdigit).trans_suffix hsign

/-! ## What a numeral is made of -/

/-- A run of digits, at least one. -/
def Digits (text : List Char) : Prop := text ≠ [] ∧ ∀ c ∈ text, isDigit c = true

/-- The parts of a numeral that can be written: a sign, digits with a fraction, and an exponent
of digits with a sign. -/
structure Numeral.Valid (n : Numeral) : Prop where
  sign : ∀ c, n.sign = some c → isSign c = true
  whole : ∀ c ∈ n.whole, isDigit c = true
  fraction : ∀ digits, n.fraction = some digits → Digits digits
  digit : n.whole ≠ [] ∨ n.fraction ≠ none
  exponent : ∀ written, n.exponent = some written →
    ∃ (sign : Option Char) (digits : List Char), written = sign.toList ++ digits ∧
      (∀ c, sign = some c → isSign c = true) ∧ Digits digits

theorem mem_takeWhile_digit {c : Char} {text : List Char} (h : c ∈ text.takeWhile isDigit) :
    isDigit c = true := by
  have hall := List.all_takeWhile (p := isDigit) (l := text)
  exact List.all_eq_true.mp hall c h

theorem sign_of_attempt {text : List Char} {c : Char}
    (h : (attempt (char? isSign) text).1 = some c) : isSign c = true := by
  cases text with
  | nil => cases h
  | cons d text =>
      by_cases hd : isSign d = true
      · simp only [attempt, char?, hd, if_true, Option.some.injEq] at h
        rw [← h]
        exact hd
      · simp [attempt, char?, hd] at h

theorem fraction?_digits {text digits rest : List Char}
    (h : fraction? text = some (digits, rest)) : Digits digits := by
  unfold fraction? at h
  split at h
  · split at h
    · cases h
    · next hne =>
      cases h
      exact ⟨hne, fun _ => mem_takeWhile_digit⟩
  · cases h

theorem exponent?_shape {text written rest : List Char}
    (h : exponent? text = some (written, rest)) :
    ∃ (sign : Option Char) (digits : List Char), written = sign.toList ++ digits ∧
      (∀ c, sign = some c → isSign c = true) ∧ Digits digits := by
  unfold exponent? at h
  split at h
  · dsimp only at h
    split at h
    · cases h
    · next hne =>
      cases h
      exact ⟨_, _, rfl, fun _ => sign_of_attempt, hne, fun _ => mem_takeWhile_digit⟩
  · cases h

theorem numeral?_valid {text rest : List Char} {n : Numeral}
    (h : numeral? text = some (n, rest)) : n.Valid := by
  simp only [numeral?] at h
  split at h
  · cases h
  · next hdigit =>
    cases h
    refine ⟨fun _ => sign_of_attempt, fun _ => mem_takeWhile_digit, ?_, ?_, ?_⟩
    · intro digits hfraction
      simp only [attempt] at hfraction
      split at hfraction
      · next heq =>
        cases hfraction
        exact fraction?_digits heq
      · cases hfraction
    · exact Decidable.not_and_iff_not_or_not.mp hdigit
    · intro written hexponent
      simp only [attempt] at hexponent
      split at hexponent
      · next heq =>
        cases hexponent
        exact exponent?_shape heq
      · cases hexponent

/-! ## The value of a numeral -/

/-- What stands behind the sign of a numeral. -/
def Numeral.unsigned (n : Numeral) : List Char :=
  n.whole ++ (n.fraction.elim [] ('.' :: ·) ++ n.exponent.elim [] ('e' :: ·))

theorem Numeral.text_eq (n : Numeral) : n.text = n.sign.toList ++ n.unsigned := by
  simp only [text, literalOf, unsigned, List.append_assoc]

theorem isSign_eq_true {c : Char} : isSign c = true ↔ c = '+' ∨ c = '-' := by
  simp [isSign]

theorem isExponentMarker_eq_true {c : Char} :
    isExponentMarker c = true ↔ c = 'e' ∨ c = 'E' := by
  simp [isExponentMarker]

theorem not_isSign_of_isDigit {c : Char} (h : isDigit c = true) : isSign c = false := by
  cases hsign : isSign c with
  | false => rfl
  | true =>
      rcases isSign_eq_true.mp hsign with rfl | rfl
      · cases h
      · cases h

/-- Behind its sign a numeral starts with a digit or with its point. -/
theorem Numeral.Valid.unsigned_head {n : Numeral} (h : n.Valid) :
    ∃ c rest, n.unsigned = c :: rest ∧ (isDigit c = true ∨ c = '.') := by
  unfold unsigned
  cases hwhole : n.whole with
  | cons c whole => exact ⟨c, _, rfl, .inl (h.whole c (by rw [hwhole]; exact List.mem_cons_self))⟩
  | nil =>
      cases hfraction : n.fraction with
      | some digits => exact ⟨'.', _, rfl, .inr rfl⟩
      | none => exact absurd h.digit (by simp [hwhole, hfraction])

theorem Numeral.Valid.unsigned_head_not_sign {n : Numeral} (h : n.Valid) :
    ∃ c rest, n.unsigned = c :: rest ∧ isSign c = false := by
  obtain ⟨c, rest, heq, hc⟩ := h.unsigned_head
  refine ⟨c, rest, heq, ?_⟩
  rcases hc with hc | rfl
  · exact not_isSign_of_isDigit hc
  · rfl

theorem splitSign_append {sign : Option Char} {c : Char} {rest : List Char}
    (hsign : ∀ c, sign = some c → isSign c = true) (hc : isSign c = false) :
    Decimal.splitSign (sign.toList ++ c :: rest) = (decide (sign = some '-'), c :: rest) := by
  cases sign with
  | some s =>
      rcases isSign_eq_true.mp (hsign s rfl) with rfl | rfl
      · rfl
      · rfl
  | none =>
      unfold Decimal.splitSign
      split
      · next heq => cases heq; cases hc
      · next heq => cases heq; cases hc
      · rfl

theorem takeWhile_digits {digits rest : List Char} (h : ∀ c ∈ digits, isDigit c = true) :
    (digits ++ rest).takeWhile isDigit = digits ++ rest.takeWhile isDigit :=
  List.takeWhile_append_of_pos h

theorem dropWhile_digits {digits rest : List Char} (h : ∀ c ∈ digits, isDigit c = true) :
    (digits ++ rest).dropWhile isDigit = rest.dropWhile isDigit :=
  List.dropWhile_append_of_pos h

theorem readExponent?_written {n : Numeral} (h : n.Valid) :
    ∃ exponent, Decimal.readExponent? (n.exponent.elim [] ('e' :: ·)) = some exponent ∧
      exponent.isSome = n.exponent.isSome := by
  cases hexponent : n.exponent with
  | none => exact ⟨none, rfl, rfl⟩
  | some written =>
      obtain ⟨sign, digits, rfl, hsign, hne, hdigits⟩ := h.exponent written hexponent
      obtain ⟨c, rest, rfl⟩ := List.exists_cons_of_ne_nil hne
      have hc := not_isSign_of_isDigit (hdigits c List.mem_cons_self)
      have hall : (c :: rest).all isDigit = true := List.all_eq_true.mpr hdigits
      simp [Decimal.readExponent?, splitSign_append hsign hc, hall]

theorem takeWhile_exponent (exponent : Option (List Char)) :
    (exponent.elim [] ('e' :: ·)).takeWhile isDigit = [] := by
  cases exponent <;> rfl

theorem dropWhile_exponent (exponent : Option (List Char)) :
    (exponent.elim [] ('e' :: ·)).dropWhile isDigit = exponent.elim [] ('e' :: ·) := by
  cases exponent <;> rfl

theorem Numeral.Valid.splitSign {n : Numeral} (h : n.Valid) :
    Decimal.splitSign n.text = (decide (n.sign = some '-'), n.unsigned) := by
  obtain ⟨c, rest, hunsigned, hc⟩ := h.unsigned_head_not_sign
  rw [text_eq, hunsigned]
  exact splitSign_append h.sign hc

/-- The literal of a valid numeral is read as its parts. -/
theorem Numeral.Valid.read?_text {n : Numeral} (h : n.Valid) :
    ∃ exponent, Decimal.read? n.text =
        some ⟨decide (n.sign = some '-'), n.whole, n.fraction, exponent⟩ ∧
      exponent.isSome = n.exponent.isSome := by
  obtain ⟨exponent, hexponent, hsome⟩ := readExponent?_written h
  refine ⟨exponent, ?_, hsome⟩
  rw [Decimal.read?, h.splitSign]
  cases hfraction : n.fraction with
  | some digits =>
      have hdigits := h.fraction digits hfraction
      have hunsigned : n.unsigned =
          n.whole ++ '.' :: (digits ++ n.exponent.elim [] ('e' :: ·)) := by
        simp [unsigned, hfraction]
      have htake : n.unsigned.takeWhile isDigit = n.whole := by
        rw [hunsigned, takeWhile_digits h.whole]
        exact List.append_nil _
      have hdrop : n.unsigned.dropWhile isDigit =
          '.' :: (digits ++ n.exponent.elim [] ('e' :: ·)) := by
        rw [hunsigned, dropWhile_digits h.whole]
        rfl
      have htake' : (digits ++ n.exponent.elim [] ('e' :: ·)).takeWhile isDigit = digits := by
        rw [takeWhile_digits hdigits.2, takeWhile_exponent, List.append_nil]
      have hdrop' : (digits ++ n.exponent.elim [] ('e' :: ·)).dropWhile isDigit =
          n.exponent.elim [] ('e' :: ·) := by
        rw [dropWhile_digits hdigits.2, dropWhile_exponent]
      simp [htake, hdrop, htake', hdrop', hexponent, hdigits.1, guard]
  | none =>
      have hwhole : n.whole ≠ [] := by simpa [hfraction] using h.digit
      have hunsigned : n.unsigned = n.whole ++ n.exponent.elim [] ('e' :: ·) := by
        simp [unsigned, hfraction]
      have htake : n.unsigned.takeWhile isDigit = n.whole := by
        rw [hunsigned, takeWhile_digits h.whole, takeWhile_exponent, List.append_nil]
      have hdrop : n.unsigned.dropWhile isDigit = n.exponent.elim [] ('e' :: ·) := by
        rw [hunsigned, dropWhile_digits h.whole, dropWhile_exponent]
      simp only [htake, hdrop]
      cases hwritten : n.exponent with
      | none =>
          rw [hwritten] at hexponent
          simp only [Option.elim_none] at hexponent ⊢
          simp [hexponent, hwhole, guard]
      | some written =>
          rw [hwritten] at hexponent
          simp only [Option.elim_some] at hexponent ⊢
          simp [hexponent, hwhole, guard]

/-- Every valid numeral has a value. -/
theorem Numeral.Valid.value_isSome {n : Numeral} (h : n.Valid) :
    (Number.ofLiteral? n.text).isSome := by
  obtain ⟨exponent, hread, -⟩ := h.read?_text
  rw [Number.ofLiteral?, hread]
  rfl

/-- A number and its literal. -/
def num? (text : List Char) : Option ((Number × List Char) × List Char) :=
  match numeral? text with
  | some (n, rest) =>
    match Number.ofLiteral? n.text with
    | some value => some ((value, n.text), rest)
    | none => none
  | none => none

/-! ## Quantities -/

/-- A lexeme that carries the number of a numeral. -/
def Numeral.lexeme (n : Numeral) (kind : TokenKind) (text : Option String) : Lexeme :=
  { kind, text, number := Number.ofLiteral? n.text, literal := some (String.ofList n.text) }

/-- A number together with what it counts: a percent sign, a unit, or nothing. -/
def quantity (n : Numeral) (text : List Char) : Lexeme × List Char :=
  match mark ['%'] text with
  | (true, rest) => (n.lexeme .percentage (some "%"), rest)
  | (false, _) =>
    match ident? text with
    | some (unit, rest) => (n.lexeme .dimension (some (String.ofList unit)), rest)
    | none => (n.lexeme .number none, text)

theorem quantity_suffix (n : Numeral) (text : List Char) : (quantity n text).2 <:+ text := by
  simp only [quantity]
  split
  · next rest heq =>
    have hmark := mark_suffix ['%'] text
    rw [heq] at hmark
    exact hmark
  · split
    · next heq => exact (ident?_tail heq).1
    · exact List.suffix_rfl

/-- A numeric lexeme. -/
def numeric? (text : List Char) : Option (Lexeme × List Char) :=
  match numeral? text with
  | some (n, rest) => some (quantity n rest)
  | none => none

theorem numeric?_tail {text rest : List Char} {lexeme : Lexeme}
    (h : numeric? text = some (lexeme, rest)) : IsTail rest text := by
  unfold numeric? at h
  split at h
  · next n middle heq =>
    have hquantity := quantity_suffix n middle
    rw [Option.some.inj h] at hquantity
    exact .of_suffix hquantity (numeral?_tail heq)
  · cases h

end CssLex.Grammar
