import CssLex.Proofs.Grammar.Form
import CssLex.Proofs.Grammar.Literal

/-! When nothing is read: where no name and no number starts, and when a character stands for
itself. What is read in front decides the lexeme. -/

namespace CssLex.Grammar

open Production

variable {c : Char} {text : List Char}

/-! ## Names -/

theorem escape?_backslash_eq_none :
    escape? ('\\' :: text) = none ↔ text = [] ∨ text.head? = some '\n' := by
  cases text with
  | nil => simp [escape?]
  | cons c text =>
      simp only [escape?, List.head?_cons, Option.some.injEq, reduceCtorEq, false_or]
      split
      · next h => simp [h]
      · next h => split <;> simp [h]

theorem escape?_of_ne {c : Char} (hc : c ≠ '\\') : escape? (c :: text) = none := by
  unfold escape?
  split
  · next heq => exact absurd (List.cons.inj heq).1 hc
  · rfl

theorem unit?_eq_none {accept : Char → Bool} :
    unit? accept text = none ↔ char? accept text = none ∧ escape? text = none := by
  unfold unit?
  cases char? accept text <;> simp

theorem unit?_of_not_accept {accept : Char → Bool} {c : Char} (h : accept c = false)
    (hc : c ≠ '\\') : unit? accept (c :: text) = none :=
  unit?_eq_none.mpr ⟨char?_of_not_accept h text, escape?_of_ne hc⟩

theorem unit?_nameStart_of_nameChar (h : unit? isNameChar text = none) :
    unit? isNameStart text = none := by
  rw [unit?_eq_none] at h ⊢
  refine ⟨?_, h.2⟩
  cases text with
  | nil => rfl
  | cons c text =>
      refine char?_of_not_accept ?_ text
      cases hstart : isNameStart c with
      | false => rfl
      | true =>
          rw [char?_of_accept (isNameChar_of_isNameStart hstart)] at h
          cases h.1

theorem head?_of_unit?_eq_none {accept : Char → Bool} {c : Char} (h : unit? accept text = none)
    (hc : accept c = true) : text.head? ≠ some c := by
  intro hhead
  obtain ⟨text, rfl⟩ := List.head?_eq_some_iff.mp hhead
  rw [unit?_of_accept hc] at h
  cases h

theorem plainIdent?_eq_none :
    plainIdent? text = none ↔ unit? isNameStart text = none := by
  unfold plainIdent?
  cases unit? isNameStart text <;> simp

theorem plainIdent?_ne_nil {name rest : List Char}
    (h : plainIdent? text = some (name, rest)) : name ≠ [] := by
  unfold plainIdent? at h
  split at h
  · cases h
    simp
  · cases h

theorem ident?_ne_nil {name rest : List Char} (h : ident? text = some (name, rest)) :
    name ≠ [] := by
  unfold ident? at h
  split at h
  · dsimp only at h
    split at h
    · cases h
    · cases h
      simp
  · split at h
    · cases h
      simp
    · cases h
  · exact plainIdent?_ne_nil h

theorem name?_ne_nil {name rest : List Char} (h : name? text = some (name, rest)) : name ≠ [] := by
  simp only [name?] at h
  split at h
  · cases h
  · next hne =>
    rw [Option.some.inj h] at hne
    exact hne

/-- A text that opens a name starts with an identifier. -/
theorem ident?_of_unit? (h : unit? isNameStart text ≠ none) :
    ident? text ≠ none := by
  have hplain : plainIdent? text ≠ none := fun hnone => h (plainIdent?_eq_none.mp hnone)
  obtain ⟨read, hread⟩ := Option.ne_none_iff_exists'.mp hplain
  rw [ident?_plain (head_ne_hyphen_of_plainIdent? hread)]
  exact hplain

theorem ident?_hyphens_eq_none :
    ident? ('-' :: '-' :: text) = none ↔ unit? isNameChar text = none ∧ text ≠ [] := by
  cases hunit : unit? isNameChar text with
  | none => simp [ident?, units_of_none hunit]
  | some found => simp [ident?, units_of_some hunit]

theorem ident?_hyphen_eq_none (h : text.head? ≠ some '-') :
    ident? ('-' :: text) = none ↔ unit? isNameStart text = none := by
  rw [ident?_hyphen h, ← plainIdent?_eq_none]
  cases plainIdent? text <;> simp

theorem ident?_plain_eq_none (h : text.head? ≠ some '-') :
    ident? text = none ↔ unit? isNameStart text = none := by
  rw [ident?_plain h, plainIdent?_eq_none]

/-! ## Behind a name -/

theorem units_stop (accept : Char → Bool) (text : List Char) :
    unit? accept (units accept text).2 = none := by
  fun_induction units accept text with
  | case1 text c rest h _ run ih => exact ih
  | case2 text h => exact h

theorem plainIdent?_stops {name rest : List Char} (h : plainIdent? text = some (name, rest)) :
    unit? isNameChar rest = none := by
  unfold plainIdent? at h
  split at h
  · cases h
    exact units_stop _ _
  · cases h

theorem ident?_stops {name rest : List Char} (h : ident? text = some (name, rest)) :
    unit? isNameChar rest = none := by
  unfold ident? at h
  split at h
  · dsimp only at h
    split at h
    · cases h
    · cases h
      exact units_stop _ _
  · split at h
    · next heq =>
      cases h
      exact plainIdent?_stops heq
    · cases h
  · exact plainIdent?_stops h

theorem name?_stops {name rest : List Char} (h : name? text = some (name, rest)) :
    name ≠ [] ∧ unit? isNameChar rest = none := by
  simp only [name?] at h
  split at h
  · cases h
  · next hne =>
    have hstop := units_stop isNameChar text
    rw [Option.some.inj h] at hne hstop
    exact ⟨hne, hstop⟩

theorem name?_eq_none : name? text = none ↔ unit? isNameChar text = none := by
  cases hunit : unit? isNameChar text with
  | none => simp [name?, units_of_none hunit]
  | some found => simp [name?, units_of_some hunit]

theorem unit?_nameChar_of_nameStart {rest : List Char}
    (h : unit? isNameStart text = some (c, rest)) :
    unit? isNameChar text = some (c, rest) := by
  cases hchar : char? isNameStart text with
  | some found =>
      simp only [unit?, hchar, Option.some.injEq] at h
      subst h
      obtain ⟨rfl, hc⟩ := eq_cons_of_char? hchar
      exact unit?_of_accept (isNameChar_of_isNameStart hc)
  | none =>
      simp only [unit?, hchar] at h
      cases text with
      | nil => cases h
      | cons d text =>
          have hd : d = '\\' := by
            apply Decidable.byContradiction
            intro hd
            rw [escape?_of_ne hd] at h
            cases h
          subst hd
          exact h

theorem units_of_plainIdent? {name rest : List Char} (h : plainIdent? text = some (name, rest)) :
    units isNameChar text = (name, rest) := by
  unfold plainIdent? at h
  split at h
  · next hunit =>
    cases h
    exact units_of_some (unit?_nameChar_of_nameStart hunit)
  · cases h

theorem units_hyphen (text : List Char) : units isNameChar ('-' :: text) =
    ('-' :: (units isNameChar text).1, (units isNameChar text).2) :=
  units_of_some (unit?_of_accept rfl)

/-- An identifier is all of the name that stands there. -/
theorem units_of_ident? {name rest : List Char} (h : ident? text = some (name, rest)) :
    units isNameChar text = (name, rest) := by
  unfold ident? at h
  split at h
  · dsimp only at h
    split at h
    · cases h
    · cases h
      rw [units_hyphen, units_hyphen]
  · split at h
    · next heq =>
      cases h
      rw [units_hyphen, units_of_plainIdent? heq]
    · cases h
  · exact units_of_plainIdent? h

/-! ## Numbers -/

theorem char?_eq_none {accept : Char → Bool} :
    char? accept text = none ↔ text.takeWhile accept = [] := by
  cases text with
  | nil => simp [char?]
  | cons c text => by_cases hc : accept c = true <;> simp [char?, hc]

theorem fraction?_point_eq_none :
    fraction? ('.' :: text) = none ↔ char? isDigit text = none := by
  cases text with
  | nil => simp [fraction?, char?]
  | cons c text => by_cases hc : isDigit c = true <;> simp [fraction?, char?, hc]

theorem fraction?_of_head (h : text.head? ≠ some '.') : fraction? text = none := by
  unfold fraction?
  split
  · exact absurd rfl h
  · rfl

/-- Where no number starts behind a sign. -/
theorem unsigned_eq_none :
    text.takeWhile isDigit = [] ∧ (attempt fraction? (text.dropWhile isDigit)).1 = none ↔
      char? isDigit text = none ∧ fraction? text = none := by
  rw [← char?_eq_none]
  apply and_congr_right
  intro hdigit
  rw [dropWhile_of_char?_none hdigit, attempt]
  cases fraction? text <;> simp

theorem numeral?_eq_none {c : Char} (hc : isSign c = true) :
    numeral? (c :: text) = none ↔ char? isDigit text = none ∧ fraction? text = none := by
  rw [← unsigned_eq_none]
  simp [numeral?, attempt_of_some (char?_of_accept hc text)]

theorem numeral?_point_eq_none :
    numeral? ('.' :: text) = none ↔ char? isDigit text = none := by
  have hpoint := @unsigned_eq_none ('.' :: text)
  rw [fraction?_point_eq_none] at hpoint
  have hunsigned : attempt (char? isSign) ('.' :: text) = (none, '.' :: text) :=
    attempt_of_none rfl
  simp only [numeral?, hunsigned, ite_eq_left_iff, reduceCtorEq, imp_false,
    Decidable.not_not, hpoint]
  exact and_iff_right rfl

theorem numeral?_of_digit (h : isDigit c = true) : numeral? (c :: text) ≠ none := by
  have hsign : attempt (char? isSign) (c :: text) = (none, c :: text) :=
    attempt_of_none (char?_of_not_accept (not_isSign_of_isDigit h) text)
  simp [numeral?, hsign, h]

theorem numeral?_hyphen {rest : List Char} {n : Numeral}
    (h : numeral? ('-' :: text) = some (n, rest)) :
    n.sign = some '-' ∧ n.whole = text.takeWhile isDigit := by
  have hsign : attempt (char? isSign) ('-' :: text) = (some '-', text) := attempt_of_some rfl
  simp only [numeral?, hsign] at h
  split at h
  · cases h
  · cases h
    exact ⟨rfl, rfl⟩

theorem numeric?_eq_none : numeric? text = none ↔ numeral? text = none := by
  unfold numeric?
  cases numeral? text <;> simp

/-! ## Single characters -/

theorem lexemeFrom_backslash (h : escape? ('\\' :: text) = none) :
    lexemeFrom '\\' text = (.ofDelim '\\', text) := by
  have hunit : unit? isNameStart ('\\' :: text) = none :=
    unit?_eq_none.mpr ⟨rfl, h⟩
  have hident : ident? ('\\' :: text) = none := by
    rw [ident?_plain (by simp)]
    exact plainIdent?_eq_none.mpr hunit
  have hstart : Start.of '\\' = .name := rfl
  simp only [lexemeFrom, hstart, orDelim, identLexeme?, hident, Option.getD_none]

theorem lexemeFrom_point (h : char? isDigit text = none) :
    lexemeFrom '.' text = (.ofDelim '.', text) := by
  have hstart : Start.of '.' = .number := rfl
  have hnumeric : numeric? ('.' :: text) = none :=
    numeric?_eq_none.mpr (numeral?_point_eq_none.mpr h)
  simp only [lexemeFrom, hstart, orDelim, hnumeric, Option.getD_none]

/-- A hyphen stands for itself where neither a mark, a number nor a name starts. -/
theorem lexemeFrom_hyphen {rest : List Char} (hmark : mark ['-', '>'] text = (false, rest))
    (hnumeral : numeral? ('-' :: text) = none) (hident : ident? ('-' :: text) = none) :
    lexemeFrom '-' text = (.ofDelim '-', text) := by
  have hstart : Start.of '-' = .hyphen := rfl
  simp only [lexemeFrom, hstart, hmark, orDelim, signedLexeme?, numeric?_eq_none.mpr hnumeral,
    identLexeme?, hident, Option.getD_none]

/-! ## What decides a lexeme -/

theorem mark_cdc_of_ident? (h : ident? ('-' :: text) ≠ none) :
    mark ['-', '>'] text = (false, text) := by
  by_cases hagain : text.head? = some '-'
  · obtain ⟨text, rfl⟩ := List.head?_eq_some_iff.mp hagain
    by_cases hclose : text.head? = some '>'
    · obtain ⟨text, rfl⟩ := List.head?_eq_some_iff.mp hclose
      exact absurd (ident?_hyphens_eq_none.mpr ⟨rfl, by simp⟩) h
    · rw [mark_cons, mark_of_head hclose]
  · exact mark_of_head hagain

theorem numeral?_of_ident? (h : ident? ('-' :: text) ≠ none) : numeral? ('-' :: text) = none := by
  apply (numeral?_eq_none rfl).mpr
  by_cases hagain : text.head? = some '-'
  · obtain ⟨text, rfl⟩ := List.head?_eq_some_iff.mp hagain
    exact ⟨rfl, rfl⟩
  · have hunit : unit? isNameStart text ≠ none := fun hnone =>
      h ((ident?_hyphen_eq_none hagain).mpr hnone)
    obtain ⟨_, hunit⟩ := Option.ne_none_iff_exists'.mp hunit
    obtain ⟨d, more, rfl, hd⟩ := head_of_unit? hunit
    constructor
    · refine char?_of_not_accept ?_ more
      cases hdigit : isDigit d with
      | false => rfl
      | true =>
          rcases hd with hd | rfl
          · exact absurd hd (by simp [not_isNameStart_of_isDigit hdigit])
          · cases hdigit
    · apply fraction?_of_head
      rintro ⟨⟩
      rcases hd with hd | hd <;> cases hd

/-- An identifier in front decides the lexeme. -/
theorem lexemeFrom_of_ident? {name rest : List Char} (h : ident? (c :: text) = some (name, rest)) :
    lexemeFrom c text = identLike name rest := by
  have hlexeme : identLexeme? (c :: text) = some (identLike name rest) := by
    simp only [identLexeme?, h]
  by_cases hc : c = '-'
  · subst hc
    have hident : ident? ('-' :: text) ≠ none := by simp [h]
    have hstart : Start.of '-' = .hyphen := rfl
    have hnumeric := numeric?_eq_none.mpr (numeral?_of_ident? hident)
    simp only [lexemeFrom, hstart, mark_cdc_of_ident? hident, orDelim, signedLexeme?, hnumeric,
      hlexeme, Option.getD_some]
  · rw [ident?_plain (by simpa using hc)] at h
    obtain ⟨d, more, heq, hd⟩ := head_of_plainIdent? h
    cases heq
    simp only [lexemeFrom, Start.of_name hd.symm, orDelim, hlexeme, Option.getD_some]

theorem lexeme_of_ident? {name rest : List Char} (h : ident? text = some (name, rest)) :
    lexeme text = identLike name rest := by
  cases text with
  | nil => cases h
  | cons c text => exact lexemeFrom_of_ident? h

theorem numeral?_starts {n : Numeral} {rest : List Char}
    (h : numeral? (c :: text) = some (n, rest)) : isSign c = true ∨ c = '.' ∨ isDigit c = true := by
  by_cases hsign : isSign c = true
  · exact .inl hsign
  · by_cases hpoint : c = '.'
    · exact .inr (.inl hpoint)
    · cases hdigit : isDigit c with
      | true => exact .inr (.inr rfl)
      | false =>
          have hnone := unsigned_eq_none.mpr
            ⟨char?_of_not_accept hdigit text, fraction?_of_head (by simpa using hpoint)⟩
          have hattempt : attempt (char? isSign) (c :: text) = (none, c :: text) :=
            attempt_of_none (char?_of_not_accept (by simpa using hsign) text)
          simp only [numeral?, hattempt, hnone, and_self, if_true] at h
          cases h

/-- A number in front decides the lexeme. -/
theorem lexemeFrom_of_numeral? {n : Numeral} {rest : List Char}
    (h : numeral? (c :: text) = some (n, rest)) : lexemeFrom c text = quantity n rest := by
  have hnumeric : numeric? (c :: text) = some (quantity n rest) := by simp only [numeric?, h]
  have hstart : Start.of c = .number ∨ c = '-' := by
    rcases numeral?_starts h with hsign | rfl | hdigit
    · rcases isSign_eq_true.mp hsign with rfl | rfl
      · exact .inl rfl
      · exact .inr rfl
    · exact .inl rfl
    · exact .inl (Start.of_digit hdigit)
  rcases hstart with hstart | rfl
  · simp only [lexemeFrom, hstart, orDelim, hnumeric, Option.getD_some]
  · have hhyphen : text.head? ≠ some '-' := by
      intro hhyphen
      obtain ⟨text, rfl⟩ := List.head?_eq_some_iff.mp hhyphen
      rw [(numeral?_eq_none rfl).mpr ⟨rfl, rfl⟩] at h
      cases h
    have hstart : Start.of '-' = .hyphen := rfl
    simp only [lexemeFrom, hstart, mark_of_head hhyphen, orDelim, signedLexeme?, hnumeric,
      Option.getD_some]

theorem lexeme_of_numeral? {n : Numeral} {rest : List Char} (h : numeral? text = some (n, rest)) :
    lexeme text = quantity n rest := by
  cases text with
  | nil => cases h
  | cons c text => exact lexemeFrom_of_numeral? h

end CssLex.Grammar
