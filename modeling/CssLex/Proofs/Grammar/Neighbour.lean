import CssLex.Proofs.Serialize.Step

/-! What stands behind a lexeme. A production reads as far as it can, so the text that it leaves
starts with nothing that the lexeme would have gone on with. -/

namespace CssLex

open Production

/-- What the text behind a lexeme of this kind is like. -/
def TokenKind.StopsBefore : TokenKind → List Char → Prop
  | badComment, rest => rest = []
  | badString, rest => rest = [] ∨ rest.head? = some '\n' ∨ rest = ['\\']
  | delim c, rest => c = '\\' → rest = [] ∨ rest.head? = some '\n'
  | whitespace, rest => Grammar.char? isBlank rest = none
  | number, rest => rest.head? ≠ some '%' ∧ Grammar.ident? rest = none
  | ident, rest | atKeyword, rest | hash, rest | dimension, rest =>
    Grammar.unit? isNameChar rest = none
  | _, _ => True

/-- What a text that starts with a lexeme of this kind is like. -/
def TokenKind.StartsWith : TokenKind → List Char → Prop
  | whitespace, text => Grammar.char? isBlank text ≠ none
  | ident, text | function, text | url, text | badUrl, text => Grammar.ident? text ≠ none
  | number, text | percentage, text | dimension, text => Grammar.numeral? text ≠ none
  | delim c, text => text.head? = some c
  | _, _ => True

namespace Grammar

variable {c : Char} {text : List Char}

/-! ## Where a lexeme ends -/

theorem ofBody_stopsBefore {kind bad : TokenKind} {body : Body} {rest : List Char}
    (h : kind.StopsBefore rest) (h' : body.closed = false → bad.StopsBefore rest) :
    (ofBody kind bad body).kind.StopsBefore rest := by
  unfold ofBody
  cases hclosed : body.closed with
  | true => exact h
  | false => exact h' hclosed

theorem quantity_stopsBefore (n : Numeral) (text : List Char) :
    (quantity n text).1.kind.StopsBefore (quantity n text).2 := by
  have hquantity := quantity_cases n text
  generalize quantity n text = found at hquantity
  cases hquantity with
  | percentage => trivial
  | dimension hunit => exact ident?_stops hunit
  | number hmark hnone => exact ⟨hmark, hnone⟩

theorem identLike_stopsBefore {name rest : List Char} (h : unit? isNameChar rest = none) :
    (identLike name rest).1.kind.StopsBefore (identLike name rest).2 := by
  unfold identLike
  split
  · split
    · exact ofBody_stopsBefore trivial fun _ => trivial
    · trivial
  · exact h

/-- A backslash that stands for itself starts no escape. -/
theorem delim_stopsBefore (h : lexemeFrom c text = (.ofDelim c, text)) :
    (TokenKind.delim c).StopsBefore text := by
  rintro rfl
  have hident := ident?_of_delim h
  rw [ident?_plain_eq_none (by simp)] at hident
  exact escape?_backslash_eq_none.mp (unit?_eq_none.mp hident).2

/-- A lexeme stops before a text that does not go on with it. -/
theorem lexeme_stopsBefore (text : List Char) :
    (lexeme text).1.kind.StopsBefore (lexeme text).2 := by
  cases text with
  | nil => trivial
  | cons c text =>
      have hform := lexemeFrom_form c text
      change (lexemeFrom c text).1.kind.StopsBefore (lexemeFrom c text).2
      generalize hfound : lexemeFrom c text = found at hform
      cases hform with
      | blank => exact char?_dropWhile isBlank text
      | string => exact ofBody_stopsBefore trivial stringRun_open
      | hash hname => exact (name?_stops hname).2
      | atKeyword hname => exact ident?_stops hname
      | comment =>
          refine ofBody_stopsBefore trivial fun hopen => ?_
          exact congrArg Prod.snd (commentRun_open hopen)
      -- a mark is read by its characters alone, whatever follows
      | @fixed kind _ hkind => cases kind <;> trivial
      | quantity => exact quantity_stopsBefore _ _
      | name hname => exact identLike_stopsBefore (ident?_stops hname)
      | delim => exact delim_stopsBefore hfound

/-! ## Where a lexeme starts -/

theorem ofBody_startsWith {kind bad : TokenKind} (body : Body) (h : kind.StartsWith text)
    (h' : bad.StartsWith text) : (ofBody kind bad body).kind.StartsWith text := by
  rcases ofBody_kind kind bad body with hkind | hkind
  · rwa [hkind]
  · rwa [hkind]

theorem quantity_startsWith {n : Numeral} (h : numeral? text ≠ none) (rest : List Char) :
    (quantity n rest).1.kind.StartsWith text := by
  have hnumeric := quantity_isNumeric n rest
  generalize (quantity n rest).1.kind = kind at hnumeric
  cases kind <;> first | exact h | cases hnumeric

theorem identLike_startsWith {name : List Char} (h : ident? text ≠ none) (rest : List Char) :
    (identLike name rest).1.kind.StartsWith text := by
  rcases identLike_kind name rest with hkind | hkind | hkind | hkind <;>
  · rw [hkind]
    exact h

/-- The kind of a lexeme tells what the text starts with. -/
theorem lexeme_startsWith (text : List Char) : (lexeme text).1.kind.StartsWith text := by
  cases text with
  | nil => trivial
  | cons c text =>
      have hform := lexemeFrom_form c text
      change (lexemeFrom c text).1.kind.StartsWith (c :: text)
      generalize lexemeFrom c text = found at hform
      cases hform with
      | blank hblank =>
          change char? isBlank (c :: text) ≠ none
          simp [char?_of_accept hblank]
      | string => exact ofBody_startsWith _ trivial trivial
      | hash => trivial
      | atKeyword => trivial
      | comment => exact ofBody_startsWith _ trivial trivial
      | @fixed kind _ hkind => cases kind <;> trivial
      | quantity hnumeral => exact quantity_startsWith (by simp [hnumeral]) _
      | name hname => exact identLike_startsWith (by simp [hname]) _
      | delim => rfl

/-- A literal starts as the text does. -/
theorem head?_literal (h : (lexeme text).1.kind.isNumeric = true) :
    ∃ literal c, (lexeme text).1.literal = some literal ∧
      literal.toList.head? = some c ∧ text.head? = some c := by
  cases text with
  | nil => cases h
  | cons c text =>
      obtain ⟨n, rest, hnumeral, hfound⟩ := (lexemeFrom_form c text).of_isNumeric h
      obtain ⟨more, htext⟩ := numeral?_head hnumeral
      refine ⟨String.ofList n.text, c, ?_, ?_, rfl⟩
      · change (lexemeFrom c text).1.literal = _
        rw [hfound, quantity_literal]
      · rw [String.toList_ofList, htext]
        rfl

/-! ## Behind a name -/

/-- Behind a name there is neither another name nor a number that starts with a digit or a
hyphen. -/
theorem ident?_of_stop (h : unit? isNameChar text = none) : ident? text = none := by
  rw [ident?_plain_eq_none (head?_of_unit?_eq_none h rfl)]
  exact unit?_nameStart_of_nameChar h

theorem head?_of_stop (h : unit? isNameChar text = none) (hc : text.head? = some c) :
    isDigit c = false ∧ c ≠ '-' := by
  have hnot : isNameChar c = false := by
    rw [Bool.eq_false_iff]
    exact fun hname => head?_of_unit?_eq_none h hname hc
  simp only [isNameChar, Bool.or_eq_false_iff, decide_eq_false_iff_not] at hnot
  exact ⟨hnot.1.2, hnot.2⟩

end Grammar
end CssLex
