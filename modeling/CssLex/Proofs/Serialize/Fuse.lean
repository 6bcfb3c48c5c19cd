import CssLex.Proofs.Serialize.Quantity

/-! When lexemes fuse: the lexemes behind a first one tell how the text that is written for them
starts. -/

namespace CssLex

namespace Lexeme

theorem css_of_isNumeric {l : Lexeme} (h : l.kind.isNumeric = true) :
    ∃ more, l.css = l.numberCss ++ more := by
  unfold css
  cases hkind : l.kind with
  | number => exact ⟨[], (List.append_nil _).symm⟩
  | percentage => exact ⟨['%'], rfl⟩
  | dimension => exact ⟨Serialize.unit l.content.toList, rfl⟩
  | _ =>
      rw [hkind] at h
      cases h

end Lexeme

namespace Grammar

open Production

variable {c : Char} {text : List Char}

theorem lexemes_head (text : List Char) : ∃ rest, lexemes text = (lexeme text).1 :: rest := by
  by_cases h : text = []
  · subst h
    exact ⟨[], lexemes_nil⟩
  · exact ⟨_, lexemes_cons h⟩

/-! ## A plus sign and a digit -/

theorem written_of_addsDigit (h : (lexeme text).1.addsDigit = true) :
    ∃ d rest, written text = '+' :: d :: rest ∧ isDigit d = true := by
  obtain ⟨rest, hlexemes⟩ := lexemes_head text
  unfold Lexeme.addsDigit at h
  simp only [Bool.and_eq_true] at h
  obtain ⟨hnumeric, hnumber⟩ := h
  obtain ⟨more, hcss⟩ := Lexeme.css_of_isNumeric hnumeric
  split at hnumber
  · next d digits heq =>
    refine ⟨d, digits ++ (more ++ rest.flatMap Lexeme.css), ?_, hnumber⟩
    rw [written, hlexemes, List.flatMap_cons, hcss, heq]
    simp
  · cases hnumber

theorem head?_of_written {x : Char} {rest : List Char} (h : written text = x :: rest)
    (hname : isNameStart x = false) (hx : x ≠ '\\' ∧ x ≠ '-' ∧ x ≠ '"') :
    ∃ more, text = x :: more := by
  by_cases hhead : text.head? = some x
  · exact List.head?_eq_some_iff.mp hhead
  · exact absurd (by rw [h]; rfl) (head?_written_ne hname hx hhead)

theorem quantity_numberCss (n : Numeral) (text : List Char) :
    (quantity n text).1.numberCss = n.text := by
  have hcases := quantity_cases n text
  generalize quantity n text = found at hcases ⊢
  cases hcases <;> exact n.numberCss_lexeme _ _

theorem numeral?_signed {n : Numeral} {rest : List Char} (hc : isSign c = true)
    (h : numeral? (c :: text) = some (n, rest)) :
    ∃ digits, n.text = c :: digits ∧ digits ≠ [] := by
  obtain ⟨more, htext⟩ := numeral?_head h
  obtain ⟨x, digits, hunsigned, hx⟩ := (numeral?_valid h).unsigned_head_not_sign
  refine ⟨more, htext, ?_⟩
  rintro rfl
  rw [n.text_eq, hunsigned] at htext
  cases hsign : n.sign with
  | none =>
      rw [hsign] at htext
      rw [(List.cons.inj htext).1, hc] at hx
      cases hx
  | some sign =>
      rw [hsign] at htext
      cases (List.cons.inj htext).2

theorem addsDigit_of_written {d : Char} {rest : List Char} (h : written text = '+' :: d :: rest)
    (hd : isDigit d = true) : (lexeme text).1.addsDigit = true := by
  obtain ⟨text, rfl⟩ := head?_of_written h rfl (by decide)
  cases hnumeral : numeral? ('+' :: text) with
  | none =>
      have hstart : Start.of '+' = .number := rfl
      have hlexeme : lexemeFrom '+' text = (.ofDelim '+', text) := by
        simp only [lexemeFrom, hstart, orDelim, numeric?_eq_none.mpr hnumeral, Option.getD_none]
      have hdigit := char?_written plain_isDigit ((numeral?_eq_none rfl).mp hnumeral).1
      rw [written_cons, hlexeme, Lexeme.css_delim, List.singleton_append] at h
      rw [(List.cons.inj h).2, char?_of_accept hd] at hdigit
      cases hdigit
  | some found =>
      obtain ⟨n, after⟩ := found
      obtain ⟨digits, htext⟩ := numeral?_signed rfl hnumeral
      obtain ⟨more, hcss⟩ := css_quantity n after
      have hlexeme : lexemeFrom '+' text = quantity n after := lexemeFrom_of_numeral? hnumeral
      rw [written_cons, hlexeme, hcss, htext.1] at h
      cases digits with
      | nil => exact absurd rfl htext.2
      | cons x digits =>
          have hx : x = d := (List.cons.inj (List.cons.inj h).2).1
          simp only [lexeme, hlexeme, Lexeme.addsDigit, quantity_isNumeric, quantity_numberCss,
            htext.1, hx, hd, Bool.and_self]

/-! ## Two hyphens -/

theorem startChar_hyphen {more : List Char} (h : Serialize.startChar c = '-' :: more) :
    c = '-' := by
  unfold Serialize.startChar at h
  split at h
  · cases h
  · unfold Serialize.nameChar at h
    split at h
    · cases h
    · split at h
      · exact (List.cons.inj h).1
      · cases h

/-- Only a name that starts with two hyphens is written with them in front. -/
theorem identifier_hyphens {name w more : List Char}
    (h : Serialize.identifier name ++ w = '-' :: '-' :: more) (hname : name ≠ []) :
    ∃ c rest, name = '-' :: '-' :: c :: rest := by
  have hstart : ∀ {c : Char} {rest more : List Char},
      Serialize.startChar c ++ rest = '-' :: more → c = '-' := by
    intro c rest more heq
    obtain ⟨d, tail, hc, -⟩ := startChar_head c
    rw [hc] at heq
    exact startChar_hyphen (hc.trans (congrArg (· :: tail) (List.cons.inj heq).1))
  unfold Serialize.identifier at h
  split at h
  · exact absurd rfl hname
  · cases h
  · cases h
  · next c rest hlong =>
    simp only [List.cons_append, List.append_assoc] at h
    have hc := hstart (List.cons.inj h).2
    subst hc
    cases rest with
    | nil => exact absurd rfl (hlong rfl)
    | cons d rest => exact ⟨d, rest, rfl⟩
  · next c rest hsingle _ hlonger =>
    rw [List.append_assoc] at h
    have hc := hstart h
    subst hc
    cases rest with
    | nil => exact absurd rfl (hsingle rfl)
    | cons d rest => exact absurd rfl (hlonger d rest rfl)

theorem opensWithHyphens_ofText {kind : TokenKind} (hkind : kind = .ident ∨ kind = .function)
    (c : Char) (rest : List Char) :
    (Lexeme.ofText kind ('-' :: '-' :: c :: rest)).opensWithHyphens = true := by
  have hcontent : (Lexeme.ofText kind ('-' :: '-' :: c :: rest)).content.toList =
      '-' :: '-' :: c :: rest := String.toList_ofList
  rcases hkind with rfl | rfl <;>
    simp only [Lexeme.opensWithHyphens, hcontent] <;> rfl

theorem identLike_hyphens {name rest w more : List Char} (hname : name ≠ [])
    (h : (identLike name rest).1.css ++ w = '-' :: '-' :: more) :
    (identLike name rest).1.opensWithHyphens = true := by
  unfold identLike at h ⊢
  split at h
  · split at h
    · unfold ofBody at h
      split at h
      · rw [Lexeme.css_url] at h
        cases h
      · rw [Lexeme.css_badUrl] at h
        cases h
    · next hurl =>
      rw [if_neg hurl]
      rw [Lexeme.css_function, List.append_assoc] at h
      obtain ⟨c, rest, rfl⟩ := identifier_hyphens h hname
      exact opensWithHyphens_ofText (.inr rfl) c rest
  · rw [Lexeme.css_ident] at h
    obtain ⟨c, rest, rfl⟩ := identifier_hyphens h hname
    exact opensWithHyphens_ofText (.inl rfl) c rest

theorem opensWithHyphens_of_written {more rest : List Char}
    (hmark : mark ['-', '-'] text = (false, rest)) (h : written text = '-' :: '-' :: more) :
    (lexeme text).1.opensWithHyphens = true := by
  cases text with
  | nil =>
      rw [written_nil] at h
      cases h
  | cons c text =>
      cases hident : ident? (c :: text) with
      | some found =>
          have hlexeme : lexemeFrom c text = identLike found.1 found.2 :=
            lexemeFrom_of_ident? hident
          rw [written_cons, hlexeme] at h
          rw [lexeme, hlexeme]
          exact identLike_hyphens (ident?_ne_nil hident) h
      | none =>
          -- no name starts here, so a hyphen in front stands for itself
          have hname : unit? isNameStart (c :: text) = none := by
            by_cases hname : unit? isNameStart (c :: text) = none
            · exact hname
            · exact absurd hident (ident?_of_unit? hname)
          have hc : c = '-' := by
            obtain ⟨tail, htail⟩ := written_head hname
            have hopening : opening c = '-' := (List.cons.inj (htail.symm.trans h)).1
            unfold opening at hopening
            split at hopening
            · cases hopening
            · exact hopening
          subst hc
          have hsecond : text.head? ≠ some '-' := by
            intro hsecond
            obtain ⟨text, rfl⟩ := List.head?_eq_some_iff.mp hsecond
            rw [mark_cons, mark_cons_self] at hmark
            cases hmark
          have hclose : mark ['-', '>'] text = (false, text) := mark_of_head hsecond
          cases hnumeral : numeral? ('-' :: text) with
          | some found =>
              obtain ⟨x, rest, hwritten, hx⟩ := written_of_numeral? hclose hnumeral
              rw [hwritten] at h
              cases h
              rcases hx with ⟨hx, -⟩ | hx <;> cases hx
          | none =>
              rw [written_cons, lexemeFrom_hyphen hclose hnumeral hident, Lexeme.css_delim] at h
              have hrest : written text = '-' :: more := (List.cons.inj h).2
              have hstart := (ident?_hyphen_eq_none hsecond).mp hident
              exact absurd (by rw [hrest]; rfl) (head?_written_hyphen hstart hsecond)

/-! ## The opening mark of a comment in markup -/

theorem lexemeFrom_other (h : Start.of c = .other) (text : List Char) :
    lexemeFrom c text = (.ofDelim c, text) := by
  simp only [lexemeFrom, h]

theorem lexemes_other (h : Start.of c = .other) (text : List Char) :
    lexemes (c :: text) = .ofDelim c :: lexemes text := by
  rw [lexemes_cons (by simp), lexeme, lexemeFrom_other h]

theorem written_other (h : Start.of c = .other) (text : List Char) :
    written (c :: text) = c :: written text := by
  rw [written_cons, lexemeFrom_other h, Lexeme.css_delim]
  rfl

theorem less_fuses_of_mark {rest more : List Char} (h : mark ['!', '-', '-'] text = (false, rest))
    (hwritten : mark ['!', '-', '-'] (written text) = (true, more)) :
    (Lexeme.ofDelim '<').fuses (lexemes text) = true := by
  have hfront : written text = '!' :: '-' :: '-' :: more := eq_of_mark_true hwritten
  obtain ⟨text, rfl⟩ := head?_of_written hfront rfl (by decide)
  rw [written_other rfl] at hfront
  have hhyphens : mark ['-', '-'] text = (false, text) := by
    cases hmark : mark ['-', '-'] text with
    | mk found after =>
        cases found with
        | true =>
            rw [mark_cons, hmark] at h
            cases h
        | false => rw [eq_of_mark_false hmark]
  have hopens := opensWithHyphens_of_written hhyphens (List.cons.inj hfront).2
  obtain ⟨after, hlexemes⟩ := lexemes_head text
  rw [lexemes_other rfl, hlexemes]
  simp [Lexeme.fuses, Lexeme.ofDelim, Lexeme.ofText, hopens]

/-- What stands behind `<` where it fuses: an exclamation mark and a name with two hyphens in
front. The name is an identifier or, with its parenthesis, a function. -/
inductive Hyphened : List Char → Prop
  | ident {name rest : List Char} {text : List Char} (hname : name ≠ [])
      (hstop : unit? isNameChar rest = none) (hopen : rest.head? ≠ some '(')
      (hlength : rest.length ≤ text.length)
      (hlexemes : lexemes text = .ofText .ident ('-' :: '-' :: name) :: lexemes rest) :
      Hyphened ('!' :: text)
  | function {name rest : List Char} {text : List Char} (hname : name ≠ [])
      (hlength : rest.length ≤ text.length)
      (hlexemes : lexemes text = .ofText .function ('-' :: '-' :: name) :: lexemes rest) :
      Hyphened ('!' :: text)

theorem content_ofText (kind : TokenKind) (text : List Char) :
    (Lexeme.ofText kind text).content.toList = text := String.toList_ofList

theorem of_opensWithHyphens {l : Lexeme} (h : l.opensWithHyphens = true) :
    (l.kind = .ident ∨ l.kind = .function) ∧
      ∃ c rest, l.content.toList = '-' :: '-' :: c :: rest := by
  unfold Lexeme.opensWithHyphens at h
  simp only [Bool.and_eq_true, Bool.or_eq_true, decide_eq_true_eq] at h
  obtain ⟨hkind, hcontent⟩ := h
  split at hcontent
  · next c rest heq => exact ⟨hkind, c, rest, heq⟩
  · cases hcontent

theorem hyphened_of_opens (h : (lexeme text).1.opensWithHyphens = true) :
    Hyphened ('!' :: text) := by
  obtain ⟨hkind, c', name, hcontent⟩ := of_opensWithHyphens h
  have hlength := (lexeme_suffix text).length_le
  cases text with
  | nil => rcases hkind with hkind | hkind <;> cases hkind
  | cons c text =>
      have hlexemes : lexemes (c :: text) = _ := lexemes_cons (by simp)
      obtain ⟨found, rest, hident, heq⟩ := (lexemeFrom_form c text).of_name hkind
      have hstop := ident?_stops hident
      rw [show lexeme (c :: text) = identLike found rest from heq]
        at hkind hcontent hlength hlexemes
      unfold identLike at hkind hcontent hlength hlexemes
      split at hkind
      · next rest' hmark =>
        split at hkind
        · rcases ofBody_kind .url .badUrl (urlBody rest').1 with h | h <;> simp [h] at hkind
        · next hurl =>
          simp only [hmark, hurl, if_false] at hcontent hlength hlexemes
          rw [content_ofText] at hcontent
          rw [hcontent] at hlexemes
          exact .function (by simp) hlength hlexemes
      · next hmark =>
        simp only [hmark] at hcontent hlength hlexemes
        rw [content_ofText] at hcontent
        rw [hcontent] at hlexemes
        refine .ident (by simp) hstop ?_ hlength hlexemes
        intro hhead
        obtain ⟨rest, rfl⟩ := List.head?_eq_some_iff.mp hhead
        rw [mark_cons_self] at hmark
        cases hmark

theorem hyphened_of_less_fuses (h : (Lexeme.ofDelim '<').fuses (lexemes text) = true) :
    Hyphened text := by
  obtain ⟨rest, hlexemes⟩ := lexemes_head text
  rw [hlexemes] at h
  simp only [Lexeme.fuses, Bool.or_eq_true, Bool.and_eq_true, decide_eq_true_eq] at h
  obtain ⟨hexponent, -⟩ | ⟨⟨-, hkind⟩, hopens⟩ := h
  · cases hexponent
  · cases text with
    | nil => cases hkind
    | cons c text =>
        obtain ⟨rfl, -⟩ := (lexemeFrom_form c text).of_delim hkind
        have hrest : rest = lexemes text := by
          rw [lexemes_other rfl] at hlexemes
          exact (List.cons.inj hlexemes).2.symm
        obtain ⟨after, hafter⟩ := lexemes_head text
        rw [hrest, hafter] at hopens
        exact hyphened_of_opens hopens

end Grammar
end CssLex
