import CssLex.Proofs.Serialize.Written

/-! What does not stand in front of a text does not stand in front of the text that is written for
it either. So a lexeme that ends before the one ends before the other. -/

namespace CssLex.Grammar

open Production

variable {text : List Char}

/-! ## First characters -/

theorem head?_written {d : Char} (h : (written text).head? = some d) :
    OpensName d ∨ d = '"' ∨ text.head? = some d := by
  cases text with
  | nil =>
      rw [written_nil] at h
      cases h
  | cons c text =>
      by_cases hname : unit? isNameStart (c :: text) = none
      · obtain ⟨more, hmore⟩ := written_head hname
        rw [hmore, List.head?_cons, Option.some.injEq] at h
        subst h
        by_cases hquote : c = '\''
        · exact .inr (.inl (by rw [opening, if_pos hquote]))
        · exact .inr (.inr (by rw [opening, if_neg hquote]; rfl))
      · obtain ⟨d', more, hmore, hd⟩ := written_head_of_name hname
        rw [hmore, List.head?_cons, Option.some.injEq] at h
        exact .inl (h ▸ hd)

/-- A class of characters that open neither a name nor a string. -/
structure Plain (accept : Char → Bool) : Prop where
  name : ∀ c, isNameStart c = true → accept c = false
  backslash : accept '\\' = false
  hyphen : accept '-' = false
  quote : accept '"' = false

theorem char?_written {accept : Char → Bool} (haccept : Plain accept)
    (h : char? accept text = none) : char? accept (written text) = none := by
  cases hwritten : written text with
  | nil => rfl
  | cons d more =>
      refine char?_of_not_accept ?_ more
      have hhead : (written text).head? = some d := by rw [hwritten]; rfl
      rcases head?_written hhead with (hd | rfl | rfl) | rfl | hd
      · exact haccept.name d hd
      · exact haccept.backslash
      · exact haccept.hyphen
      · exact haccept.quote
      · obtain ⟨rest, rfl⟩ := List.head?_eq_some_iff.mp hd
        cases haccept : accept d with
        | false => rfl
        | true =>
            rw [char?_of_accept haccept] at h
            cases h

theorem plain_isDigit : Plain isDigit where
  name c hc := by
    cases hdigit : isDigit c with
    | false => rfl
    | true =>
        rw [not_isNameStart_of_isDigit hdigit] at hc
        cases hc
  backslash := rfl
  hyphen := rfl
  quote := rfl

/-- Characters that open neither a name nor a string stay in front. -/
theorem head?_written_ne {x : Char} (hname : isNameStart x = false)
    (hx : x ≠ '\\' ∧ x ≠ '-' ∧ x ≠ '"') (h : text.head? ≠ some x) :
    (written text).head? ≠ some x := by
  intro hhead
  rcases head?_written hhead with (hd | hd | hd) | hd | hd
  · rw [hname] at hd
    cases hd
  · exact hx.1 hd
  · exact hx.2.1 hd
  · exact hx.2.2 hd
  · exact h hd

/-! ## Names -/

theorem escape?_backslash_written (h : escape? ('\\' :: text) = none) :
    escape? ('\\' :: written text) = none := by
  rw [escape?_backslash_eq_none] at h ⊢
  rcases h with rfl | hbreak
  · exact .inl written_nil
  · obtain ⟨rest, rfl⟩ := List.head?_eq_some_iff.mp hbreak
    obtain ⟨more, hmore⟩ := written_break rest
    exact .inr (by rw [hmore]; rfl)

theorem escape?_written (h : unit? isNameStart text = none) : escape? (written text) = none := by
  cases text with
  | nil =>
      rw [written_nil]
      rfl
  | cons c text =>
      by_cases hc : c = '\\'
      · subst hc
        have hescape := (unit?_eq_none.mp h).2
        rw [written_cons, lexemeFrom_backslash hescape, Lexeme.css_delim]
        exact escape?_backslash_written hescape
      · obtain ⟨more, hmore⟩ := written_head h
        rw [hmore]
        apply escape?_of_ne
        unfold opening
        split
        · decide
        · exact hc

/-- Where no name starts, what is written starts as the text does. -/
theorem char?_written_of_start {accept : Char → Bool} (hquote : accept '"' = false)
    (hname : unit? isNameStart text = none) (h : char? accept text = none) :
    char? accept (written text) = none := by
  cases text with
  | nil =>
      rw [written_nil]
      rfl
  | cons c text =>
      obtain ⟨more, hmore⟩ := written_head hname
      rw [hmore]
      refine char?_of_not_accept ?_ more
      unfold opening
      split
      · exact hquote
      · cases hc : accept c with
        | false => rfl
        | true =>
            rw [char?_of_accept hc] at h
            cases h

theorem unit?_nameStart_written (h : unit? isNameStart text = none) :
    unit? isNameStart (written text) = none :=
  unit?_eq_none.mpr
    ⟨char?_written_of_start rfl h (unit?_eq_none.mp h).1, escape?_written h⟩

theorem unit?_nameChar_written (h : unit? isNameChar text = none) :
    unit? isNameChar (written text) = none :=
  have hstart := unit?_nameStart_of_nameChar h
  unit?_eq_none.mpr
    ⟨char?_written_of_start rfl hstart (unit?_eq_none.mp h).1, escape?_written hstart⟩

/-! ## Numbers -/

theorem fraction?_written (h : fraction? text = none) : fraction? (written text) = none := by
  by_cases hpoint : text.head? = some '.'
  · obtain ⟨text, rfl⟩ := List.head?_eq_some_iff.mp hpoint
    have hdigit := fraction?_point_eq_none.mp h
    rw [written_cons, lexemeFrom_point hdigit, Lexeme.css_delim, List.singleton_append]
    exact fraction?_point_eq_none.mpr (char?_written plain_isDigit hdigit)
  · exact fraction?_of_head (head?_written_ne rfl (by decide) hpoint)

/-! ## Identifiers -/

theorem head?_written_hyphen (hname : unit? isNameStart text = none) (h : text.head? ≠ some '-') :
    (written text).head? ≠ some '-' := by
  cases text with
  | nil => simp [written_nil]
  | cons c text =>
      obtain ⟨more, hmore⟩ := written_head hname
      rw [hmore, List.head?_cons, ne_eq, Option.some.injEq, opening]
      split
      · decide
      · simpa using h

/-- A number that starts with a hyphen is written with a digit or a point behind it. -/
theorem written_of_numeral? {rest : List Char} {n : Numeral}
    (hmark : mark ['-', '>'] text = (false, text)) (h : numeral? ('-' :: text) = some (n, rest)) :
    ∃ c more, written ('-' :: text) = '-' :: c :: more ∧
      (isDigit c = true ∧ text.head? = some c ∨ c = '.') := by
  have hstart : Start.of '-' = .hyphen := rfl
  have hnumeric : numeric? ('-' :: text) = some (quantity n rest) := by simp only [numeric?, h]
  have hlexeme : lexemeFrom '-' text = quantity n rest := by
    simp only [lexemeFrom, hstart, hmark, orDelim, signedLexeme?, hnumeric, Option.getD_some]
  obtain ⟨more, hcss⟩ := css_quantity n rest
  obtain ⟨hsign, hwhole⟩ := numeral?_hyphen h
  have hvalid := numeral?_valid h
  rw [written_cons, hlexeme, hcss, n.text_eq, hsign, Numeral.unsigned]
  cases hdigits : n.whole with
  | cons c whole =>
      have hc : isDigit c = true := hvalid.whole c (by rw [hdigits]; exact List.mem_cons_self)
      refine ⟨c, _, rfl, .inl ⟨hc, ?_⟩⟩
      rw [hwhole] at hdigits
      cases text with
      | nil => cases hdigits
      | cons d text =>
          cases hd : isDigit d with
          | true =>
              rw [List.takeWhile_cons_of_pos hd] at hdigits
              rw [(List.cons.inj hdigits).1]
              rfl
          | false => simp [hd] at hdigits
  | nil =>
      obtain ⟨digits, hfraction⟩ :=
        Option.ne_none_iff_exists'.mp (hvalid.digit.resolve_left (absurd hdigits))
      rw [hfraction]
      exact ⟨'.', _, rfl, .inr rfl⟩

/-- A hyphen that is followed by no character of a name is a number with a point, or it stands
for itself. -/
theorem written_hyphen (h : unit? isNameChar text = none) :
    (∃ more, written ('-' :: text) = '-' :: '.' :: more) ∨
      written ('-' :: text) = '-' :: written text := by
  have hhyphen : text.head? ≠ some '-' := head?_of_unit?_eq_none h rfl
  have hmark : mark ['-', '>'] text = (false, text) := mark_of_head hhyphen
  cases hnumeral : numeral? ('-' :: text) with
  | some found =>
      obtain ⟨c, more, hwritten, hc⟩ := written_of_numeral? hmark hnumeral
      rcases hc with ⟨hdigit, hhead⟩ | rfl
      · exact absurd hhead (head?_of_unit?_eq_none h (by simp [isNameChar, hdigit]))
      · exact .inl ⟨more, hwritten⟩
  | none =>
      have hident : ident? ('-' :: text) = none :=
        (ident?_hyphen_eq_none hhyphen).mpr (unit?_nameStart_of_nameChar h)
      right
      rw [written_cons, lexemeFrom_hyphen hmark hnumeral hident, Lexeme.css_delim]
      rfl

theorem ident?_hyphen_written (h : ident? ('-' :: text) = none) :
    ident? ('-' :: written text) = none := by
  by_cases hagain : text.head? = some '-'
  · obtain ⟨text, rfl⟩ := List.head?_eq_some_iff.mp hagain
    obtain ⟨hunit, hne⟩ := ident?_hyphens_eq_none.mp h
    rcases written_hyphen hunit with ⟨more, hmore⟩ | hmore
    · rw [hmore]
      exact ident?_hyphens_eq_none.mpr ⟨rfl, by simp⟩
    · rw [hmore]
      exact ident?_hyphens_eq_none.mpr
        ⟨unit?_nameChar_written hunit, fun hnil => hne (written_eq_nil.mp hnil)⟩
  · have hname := (ident?_hyphen_eq_none hagain).mp h
    exact (ident?_hyphen_eq_none (head?_written_hyphen hname hagain)).mpr
      (unit?_nameStart_written hname)

theorem mark_cdc_written (h : ident? ('-' :: text) = none)
    (hmark : mark ['-', '>'] text = (false, text)) :
    mark ['-', '>'] (written text) = (false, written text) := by
  by_cases hagain : text.head? = some '-'
  · obtain ⟨text, rfl⟩ := List.head?_eq_some_iff.mp hagain
    obtain ⟨hunit, hne⟩ := ident?_hyphens_eq_none.mp h
    rcases written_hyphen hunit with ⟨more, hmore⟩ | hmore
    · rw [hmore]
      rfl
    · have hclose : text.head? ≠ some '>' := by
        intro hclose
        obtain ⟨text, rfl⟩ := List.head?_eq_some_iff.mp hclose
        cases hmark
      have hwritten := head?_written_ne rfl (by decide) hclose
      rw [hmore, mark_cons, mark_of_head hwritten]
  · have hname := (ident?_hyphen_eq_none hagain).mp h
    exact mark_of_head (head?_written_hyphen hname hagain)

theorem ident?_written (h : ident? text = none) : ident? (written text) = none := by
  by_cases hhyphen : text.head? = some '-'
  · obtain ⟨text, rfl⟩ := List.head?_eq_some_iff.mp hhyphen
    cases hmark : mark ['-', '>'] text with
    | mk found rest =>
        cases found with
        | true =>
            have hstart : Start.of '-' = .hyphen := rfl
            have hlexeme : lexemeFrom '-' text = (.ofText .cdc ['-', '-', '>'], rest) := by
              simp only [lexemeFrom, hstart, hmark]
            have hcss : (Lexeme.ofText .cdc ['-', '-', '>']).css = ['-', '-', '>'] := by
              simp [Lexeme.css, Lexeme.ofText, Lexeme.content]
            rw [written_cons, hlexeme, hcss]
            exact ident?_hyphens_eq_none.mpr ⟨rfl, by simp⟩
        | false =>
            rw [eq_of_mark_false hmark] at hmark
            cases hnumeral : numeral? ('-' :: text) with
            | some found =>
                obtain ⟨c, more, hwritten, hc⟩ := written_of_numeral? hmark hnumeral
                have hname : isNameStart c = false ∧ c ≠ '-' ∧ c ≠ '\\' := by
                  rcases hc with ⟨hdigit, -⟩ | rfl
                  · refine ⟨not_isNameStart_of_isDigit hdigit, ?_, ?_⟩
                    · rintro rfl
                      cases hdigit
                    · rintro rfl
                      cases hdigit
                  · decide
                rw [hwritten, ident?_hyphen_eq_none (by simpa using hname.2.1)]
                exact unit?_of_not_accept hname.1 hname.2.2
            | none =>
                rw [written_cons, lexemeFrom_hyphen hmark hnumeral h, Lexeme.css_delim]
                exact ident?_hyphen_written h
  · have hname := (ident?_plain_eq_none hhyphen).mp h
    exact (ident?_plain_eq_none (head?_written_hyphen hname hhyphen)).mpr
      (unit?_nameStart_written hname)

end CssLex.Grammar
