import CssLex.Proofs.Serialize.Plain
import CssLex.Proofs.Token.Literal

/-! The shape of lexemes. What a lexeme carries depends on its kind alone, and its text and its
literal are restricted by the kind; every lexeme of a preprocessed text has this shape. -/

namespace CssLex

open Production

/-! ## What a lexeme carries -/

/-- A character that neither starts a blank, a string, a number or a name nor is replaced in
preprocessing. -/
structure StandsAlone (c : Char) : Prop where
  replaced : c ≠ '\r' ∧ c ≠ '\x0c' ∧ c ≠ '\x00'
  blank : c ≠ ' ' ∧ c ≠ '\t' ∧ c ≠ '\n'
  quote : c ≠ '"' ∧ c ≠ '\''
  digit : isDigit c = false
  letter : isLetter c = false
  underscore : c ≠ '_'
  below : c.toNat < 160

/-- What the text of a lexeme of this kind is like. -/
def TokenKind.Carries : TokenKind → List Char → Prop
  | ident, text | atKeyword, text | hash, text | dimension, text => text ≠ []
  | function, text => text ≠ [] ∧ text.map lowerLetter ≠ ['u', 'r', 'l']
  | comment, text | badComment, text => ¬ ['*', '/'] <:+: text
  | whitespace, text => text ≠ [] ∧ ∀ c ∈ text, c = ' ' ∨ c = '\t' ∨ c = '\n'
  | delim c, text => text = [c] ∧ StandsAlone c
  | _, _ => True

/-- A lexeme that carries what its kind asks for. Only a number and the end carry no text, and only
numeric kinds carry a value and a literal. -/
structure Lexeme.WellFormed (l : Lexeme) : Prop where
  text_eq_none : l.text = none ↔ l.kind = .number ∨ l.kind = .eof
  number : l.number.isSome ↔ l.kind.isNumeric
  literal : l.literal.isSome ↔ l.kind.isNumeric
  matches_pattern : ∀ literal, l.literal = some literal →
    literal.toList ∈ Literal.pattern.matches'
  carries : ∀ text, l.text = some text → l.kind.Carries text.toList

namespace Grammar

variable {c : Char} {text : List Char}

theorem wellFormed_eof : ({ kind := .eof } : Lexeme).WellFormed where
  text_eq_none := by simp
  number := by simp [TokenKind.isNumeric]
  literal := by simp [TokenKind.isNumeric]
  matches_pattern := nofun
  carries := nofun

theorem wellFormed_ofText {kind : TokenKind} (hnumeric : kind.isNumeric = false)
    (heof : kind ≠ .eof) (h : kind.Carries text) : (Lexeme.ofText kind text).WellFormed where
  text_eq_none := by
    have hnumber : kind ≠ .number := by
      rintro rfl
      cases hnumeric
    simp [Lexeme.ofText, hnumber, heof]
  number := by simp [Lexeme.ofText, hnumeric]
  literal := by simp [Lexeme.ofText, hnumeric]
  matches_pattern := nofun
  carries := by
    rintro _ ⟨⟩
    rwa [String.toList_ofList]

theorem wellFormed_ofBody {kind bad : TokenKind} {body : Body}
    (hnumeric : kind.isNumeric = false ∧ bad.isNumeric = false)
    (heof : kind ≠ .eof ∧ bad ≠ .eof) (h : kind.Carries body.text) (h' : bad.Carries body.text) :
    (ofBody kind bad body).WellFormed := by
  unfold ofBody
  split
  · exact wellFormed_ofText hnumeric.1 heof.1 h
  · exact wellFormed_ofText hnumeric.2 heof.2 h'

/-- A number carries its value and its literal, whatever it counts. -/
theorem wellFormed_numeral {n : Numeral} {kind : TokenKind} {text : Option String} (h : n.Valid)
    (hnumeric : kind.isNumeric = true) (hnone : text = none ↔ kind = .number)
    (hcarries : ∀ value, text = some value → kind.Carries value.toList) :
    (n.lexeme kind text).WellFormed where
  text_eq_none := by
    have heof : kind ≠ .eof := by
      rintro rfl
      cases hnumeric
    simp [Numeral.lexeme, hnone, heof]
  number := by simp [Numeral.lexeme, h.value_isSome, hnumeric]
  literal := by simp [Numeral.lexeme, hnumeric]
  matches_pattern := by
    rintro _ ⟨⟩
    rw [String.toList_ofList]
    exact Literal.pattern_matches_iff.mpr ⟨n, h, rfl⟩
  carries := hcarries

theorem wellFormed_quantity {n : Numeral} (h : n.Valid) (text : List Char) :
    (quantity n text).1.WellFormed := by
  have hquantity := quantity_cases n text
  generalize quantity n text = found at hquantity
  cases hquantity with
  | percentage => exact wellFormed_numeral h rfl (by simp) fun _ _ => trivial
  | @dimension unit rest hunit =>
      refine wellFormed_numeral h rfl (by simp) ?_
      rintro _ ⟨⟩
      rw [String.toList_ofList]
      exact ident?_ne_nil hunit
  | number => exact wellFormed_numeral h rfl (by simp) nofun

theorem wellFormed_identLike {name : List Char} (h : name ≠ []) (text : List Char) :
    (identLike name text).1.WellFormed := by
  unfold identLike
  split
  · split
    · exact wellFormed_ofBody ⟨rfl, rfl⟩ (by simp) trivial trivial
    · next hurl => exact wellFormed_ofText rfl (by simp) ⟨h, hurl⟩
  · exact wellFormed_ofText rfl (by simp) h

/-- A comment is read up to its first closing mark. -/
theorem commentRun_no_mark (text : List Char) : ¬ ['*', '/'] <:+: (commentRun text).1.1 := by
  fun_induction commentRun text with
  | case1 => simp
  | case2 text => simp
  | case3 c text hopen run ih =>
      intro hmark
      rcases List.infix_cons_iff.mp hmark with hfront | hmark
      · obtain ⟨rfl, hslash⟩ := List.cons_prefix_cons.mp hfront
        obtain ⟨rest, hrest⟩ := hslash.trans (commentRun_front text)
        exact hopen rest rfl hrest.symm
      · exact ih hmark

/-- A character that is a lexeme of its own stands alone, since the productions that it might start
have read nothing. -/
theorem standsAlone_of_delim (h : lexemeFrom c text = (.ofDelim c, text))
    (hc : Scanner.preprocess c = c) : StandsAlone c := by
  have hblank : isBlank c = false := by
    rw [Bool.eq_false_iff]
    intro hblank
    have hstart : Start.of c = .blank := by rw [Start.of, if_pos hblank]
    rw [lexemeFrom, hstart] at h
    cases h
  have hquote : (c = '"' || c = '\'') = false := by
    rw [Bool.eq_false_iff]
    intro hquote
    have hstart : Start.of c = .quote := by
      rw [Start.of, if_neg (by simp [hblank]), if_pos hquote]
    rw [lexemeFrom, hstart] at h
    exact ofBody_ne_delim _ (by simp) (by simp) (congrArg Prod.fst h)
  have hdigit : isDigit c = false := by
    rw [Bool.eq_false_iff]
    exact fun hdigit => numeral?_of_digit hdigit (numeral?_of_delim h)
  have hname : isNameStart c = false := by
    rw [Bool.eq_false_iff]
    intro hname
    exact ident?_of_unit? (by simp [unit?_of_accept hname]) (ident?_of_delim h)
  simp only [isBlank, Bool.or_eq_false_iff, decide_eq_false_iff_not] at hblank
  simp only [Bool.or_eq_false_iff, decide_eq_false_iff_not] at hquote
  simp only [isNameStart, Bool.or_eq_false_iff, decide_eq_false_iff_not, Nat.not_le] at hname
  refine ⟨⟨?_, ?_, ?_⟩, ⟨hblank.1.1, hblank.1.2, hblank.2⟩, hquote, hdigit, hname.1.1, hname.1.2,
    hname.2⟩ <;>
  · rintro rfl
    exact absurd hc (by decide)

/-- The first lexeme of a preprocessed text is well formed. -/
theorem wellFormed_lexeme (h : Preprocessed text) : (lexeme text).1.WellFormed := by
  cases text with
  | nil => exact wellFormed_eof
  | cons c text =>
      have hform := lexemeFrom_form c text
      change (lexemeFrom c text).1.WellFormed
      generalize hfound : lexemeFrom c text = found at hform
      cases hform with
      | blank hblank =>
          refine wellFormed_ofText rfl (by simp) ⟨by simp, List.forall_mem_cons.mpr ⟨?_, ?_⟩⟩
          · simpa [isBlank, or_assoc] using hblank
          · intro d hd
            simpa [isBlank, or_assoc] using List.all_eq_true.mp List.all_takeWhile d hd
      | string => exact wellFormed_ofBody ⟨rfl, rfl⟩ (by simp) trivial trivial
      | hash hname => exact wellFormed_ofText rfl (by simp) (name?_ne_nil hname)
      | atKeyword hname => exact wellFormed_ofText rfl (by simp) (ident?_ne_nil hname)
      | @comment inside =>
          exact wellFormed_ofBody ⟨rfl, rfl⟩ (by simp) (commentRun_no_mark inside)
            (commentRun_no_mark inside)
      | @fixed kind _ hkind =>
          cases kind <;> first
            | exact absurd rfl hkind
            | exact wellFormed_ofText rfl (by simp) trivial
      | quantity hnumeral => exact wellFormed_quantity (numeral?_valid hnumeral) _
      | name hname => exact wellFormed_identLike (ident?_ne_nil hname) _
      | delim =>
          have hc := h c List.mem_cons_self
          exact wellFormed_ofText rfl (by simp) ⟨rfl, standsAlone_of_delim hfound hc⟩

end Grammar
end CssLex
