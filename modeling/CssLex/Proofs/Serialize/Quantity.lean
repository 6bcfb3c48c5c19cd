import CssLex.Proofs.Serialize.Clash
import CssLex.Proofs.Serialize.Lexeme

/-! Numbers, percentages and dimensions read back, unless the unit of a dimension and the digits
behind it make up an exponent. -/

namespace CssLex.Grammar

open Production

variable {n : Numeral} {text w : List Char}

/-! ## Exponents -/

theorem exponent?_marker {marker : Char} (h : isExponentMarker marker = true) :
    exponent? (marker :: text) = none ↔
      char? isDigit (attempt (char? isSign) text).2 = none := by
  rw [char?_eq_none]
  simp [exponent?, char?_of_accept h]

theorem exponent?_of_not_marker {c : Char} (h : isExponentMarker c = false) :
    exponent? (c :: text) = none := by
  simp only [exponent?, char?_of_not_accept h]

theorem isNameStart_of_marker {c : Char} (h : isExponentMarker c = true) :
    isNameStart c = true := by
  rcases isExponentMarker_eq_true.mp h with rfl | rfl
  · rfl
  · rfl

theorem exponent?_of_ident? (h : ident? text = none) : exponent? text = none := by
  cases text with
  | nil => rfl
  | cons c text =>
      apply exponent?_of_not_marker
      cases hmarker : isExponentMarker c with
      | false => rfl
      | true =>
          have hstart := isNameStart_of_marker hmarker
          exact absurd h (ident?_of_unit? (by simp [unit?_of_accept hstart]))

theorem attempt_sign_of_not {c : Char} (h : isSign c = false) :
    (attempt (char? isSign) (c :: text)).2 = c :: text := by
  rw [attempt_of_none (char?_of_not_accept h text)]

theorem nameChar_head (c : Char) : ∃ more, Serialize.nameChar c = '\\' :: more ∨
    Serialize.nameChar c = [c] ∧ isNameChar c = true := by
  unfold Serialize.nameChar
  by_cases hcontrol : isControl c = true
  · exact ⟨lowerHex c.toNat ++ [' '], .inl (by rw [if_pos hcontrol]; rfl)⟩
  · rw [if_neg hcontrol]
    by_cases hname : isNameChar c = true
    · exact ⟨[], .inr ⟨by rw [if_pos hname], hname⟩⟩
    · exact ⟨[c], .inl (by rw [if_neg hname])⟩

theorem char?_digit_of_unit? (h : unit? isNameChar w = none) : char? isDigit w = none := by
  cases w with
  | nil => rfl
  | cons c w =>
      apply char?_of_not_accept
      cases hdigit : isDigit c with
      | false => rfl
      | true =>
          rw [unit?_of_accept (by simp [isNameChar, hdigit])] at h
          cases h

theorem startsExponent_cons {marker d : Char} {rest : List Char}
    (hmarker : isExponentMarker marker = true) :
    Serialize.startsExponent (marker :: d :: rest) = true ↔
      isDigit d = true ∨ d = '-' ∧ rest.head?.any isDigit = true := by
  rcases isExponentMarker_eq_true.mp hmarker with rfl | rfl <;> simp [Serialize.startsExponent]

/-- A name that starts no exponent behind a marker does not start one together with what follows
it, unless the name is empty. -/
theorem name_no_exponent {marker c : Char} {name : List Char}
    (hmarker : isExponentMarker marker = true)
    (hname : ¬ Serialize.startsExponent (marker :: Serialize.name (c :: name)) = true)
    (hw : unit? isNameChar w = none) :
    char? isDigit (attempt (char? isSign) (Serialize.name (c :: name) ++ w)).2 = none := by
  have hcons : Serialize.name (c :: name) = Serialize.nameChar c ++ Serialize.name name := by
    simp [Serialize.name]
  obtain ⟨more, hescaped | ⟨hplain, hc⟩⟩ := nameChar_head c
  · rw [hcons, hescaped]
    rfl
  · rw [hcons, hplain, List.singleton_append, startsExponent_cons hmarker, not_or] at hname
    rw [hcons, hplain, List.singleton_append, List.cons_append]
    cases hsign : isSign c with
    | true =>
        -- only a hyphen is both a sign and a character of a name
        have hhyphen : c = '-' := by
          rcases isSign_eq_true.mp hsign with rfl | rfl
          · cases hc
          · rfl
        rw [attempt_of_some (char?_of_accept hsign _)]
        have hhead : ¬ (Serialize.name name).head?.any isDigit = true := fun hhead =>
          hname.2 ⟨hhyphen, hhead⟩
        cases hrest : Serialize.name name with
        | nil => exact char?_digit_of_unit? hw
        | cons d rest =>
            rw [hrest] at hhead
            exact char?_of_not_accept (by simpa using hhead) _
    | false =>
        rw [attempt_sign_of_not hsign]
        exact char?_of_not_accept (by simpa using hname.1) _

/-- What stands behind a unit that is a marker alone would have to go on with a plus sign. -/
theorem marker_no_exponent (hw : unit? isNameChar w = none)
    (hplus : ∀ rest, w = '+' :: rest → char? isDigit rest = none) :
    char? isDigit (attempt (char? isSign) w).2 = none := by
  cases w with
  | nil => rfl
  | cons d w =>
      cases hsign : isSign d with
      | true =>
          rw [attempt_of_some (char?_of_accept hsign w)]
          rcases isSign_eq_true.mp hsign with rfl | rfl
          · exact hplus w rfl
          · cases hw
      | false =>
          rw [attempt_sign_of_not hsign]
          exact char?_digit_of_unit? hw

/-- A unit starts no exponent, unless it is a marker alone and a plus sign with a digit follows. -/
theorem exponent?_unit {value : List Char} (hvalue : value ≠ []) (hw : unit? isNameChar w = none)
    (hplus : value = ['e'] ∨ value = ['E'] →
      ∀ rest, w = '+' :: rest → char? isDigit rest = none) :
    exponent? (Serialize.unit value ++ w) = none := by
  unfold Serialize.unit
  by_cases hstarts : Serialize.startsExponent (Serialize.identifier value) = true
  · simp only [hstarts, if_true]
    exact exponent?_of_not_marker rfl
  · simp only [hstarts]
    obtain ⟨d, more, htext, -⟩ := identifier_head hvalue
    rw [htext] at hstarts ⊢
    cases hmarker : isExponentMarker d with
    | false => exact exponent?_of_not_marker hmarker
    | true =>
        obtain ⟨name, rfl, rfl⟩ :=
          Serialize.identifier_eq_cons (isNameStart_of_marker hmarker) htext
        apply (exponent?_marker hmarker).mpr
        cases name with
        | nil =>
            apply marker_no_exponent hw
            apply hplus
            rcases isExponentMarker_eq_true.mp hmarker with rfl | rfl
            · exact .inl rfl
            · exact .inr rfl
        | cons c name => exact name_no_exponent hmarker hstarts hw

/-! ## Quantities -/

theorem unit_head {value : List Char} (h : value ≠ []) :
    ∃ d more, Serialize.unit value = d :: more ∧ OpensName d := by
  unfold Serialize.unit
  by_cases hstarts : Serialize.startsExponent (Serialize.identifier value) = true
  · simp only [hstarts, if_true]
    exact ⟨'\\', _, rfl, .inr (.inl rfl)⟩
  · simp only [hstarts]
    exact identifier_head h

theorem OpensName.not_digit {d : Char} (h : OpensName d) : isDigit d = false := by
  cases hdigit : isDigit d with
  | false => rfl
  | true =>
      rcases h with h | rfl | rfl
      · exact absurd h (by simp [not_isNameStart_of_isDigit hdigit])
      · cases hdigit
      · cases hdigit

theorem OpensName.ne {d x : Char} (h : OpensName d)
    (hx : isNameStart x = false ∧ x ≠ '\\' ∧ x ≠ '-') : d ≠ x := by
  rintro rfl
  rcases h with h | h | h
  · rw [hx.1] at h
    cases h
  · exact hx.2.1 h
  · exact hx.2.2 h

/-- Behind its literal a number is told by what follows. -/
theorem lexeme_text (h : n.Valid) (hw : n.StopsAt w) : lexeme (n.text ++ w) = quantity n w :=
  lexeme_of_numeral? (numeral?_text h hw)

theorem Numeral.StopsAt.written (h : n.StopsAt text) (hident : ident? text = none) :
    n.StopsAt (written text) where
  digit := char?_written plain_isDigit h.digit
  fraction hfraction hexponent := fraction?_written (h.fraction hfraction hexponent)
  exponent _ := exponent?_of_ident? (ident?_written hident)

theorem unit_stops {value : List Char} (hvalue : value ≠ []) (hw : unit? isNameChar w = none)
    (hplus : n.exponent = none → value = ['e'] ∨ value = ['E'] →
      ∀ rest, w = '+' :: rest → char? isDigit rest = none) :
    n.StopsAt (Serialize.unit value ++ w) := by
  obtain ⟨d, more, hhead, hd⟩ := unit_head hvalue
  constructor
  · rw [hhead]
    exact char?_of_not_accept hd.not_digit _
  · intro _ _
    apply fraction?_of_head
    rw [hhead]
    simpa using hd.ne (by decide)
  · intro hexponent
    exact exponent?_unit hvalue hw (hplus hexponent)

/-- What a quantity leaves, and what it is. -/
inductive Quantity (n : Numeral) (text : List Char) : Lexeme × List Char → Prop
  | percentage {rest : List Char} : Quantity n text (n.lexeme .percentage (some "%"), rest)
  | dimension {unit rest : List Char} (h : ident? text = some (unit, rest)) :
      Quantity n text (n.lexeme .dimension (some (String.ofList unit)), rest)
  | number (hmark : text.head? ≠ some '%') (h : ident? text = none) :
      Quantity n text (n.lexeme .number none, text)

theorem quantity_cases (n : Numeral) (text : List Char) : Quantity n text (quantity n text) := by
  simp only [quantity]
  split
  · exact .percentage
  · next rest hmark =>
    split
    · next hident => exact .dimension hident
    · next hident =>
      apply Quantity.number _ hident
      intro hhead
      obtain ⟨text, rfl⟩ := List.head?_eq_some_iff.mp hhead
      rw [mark_cons_self] at hmark
      cases hmark

theorem lexeme_percentage (h : n.Valid) (w : List Char) :
    lexeme ((n.lexeme .percentage (some "%")).css ++ w) =
      (n.lexeme .percentage (some "%"), w) := by
  have hstops : n.StopsAt ('%' :: w) := ⟨rfl, fun _ _ => rfl, fun _ => rfl⟩
  rw [n.css_percentage, List.append_assoc, List.singleton_append, lexeme_text h hstops]
  simp only [quantity, mark_cons_self]

theorem lexeme_number (h : n.Valid) (hw : n.StopsAt w) (hmark : w.head? ≠ some '%')
    (hident : ident? w = none) :
    lexeme ((n.lexeme .number none).css ++ w) = (n.lexeme .number none, w) := by
  rw [n.css_number, lexeme_text h hw]
  simp only [quantity, mark_of_head hmark, hident]

theorem lexeme_dimension {value : List Char} (h : n.Valid) (hvalue : value ≠ [])
    (hw : unit? isNameChar w = none)
    (hplus : n.exponent = none → value = ['e'] ∨ value = ['E'] →
      ∀ rest, w = '+' :: rest → char? isDigit rest = none) :
    lexeme ((n.lexeme .dimension (some (String.ofList value))).css ++ w) =
      (n.lexeme .dimension (some (String.ofList value)), w) := by
  obtain ⟨d, more, hhead, hd⟩ := unit_head hvalue
  have hident := Serialize.ident?_unit hvalue hw
  have hpercent : (Serialize.unit value ++ w).head? ≠ some '%' := by
    rw [hhead]
    simpa using hd.ne (by decide)
  rw [n.css_dimension, List.append_assoc, lexeme_text h (unit_stops hvalue hw hplus)]
  simp only [quantity, mark_of_head hpercent, hident]

end CssLex.Grammar
