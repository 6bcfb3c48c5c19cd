import CssLex.Proofs.Grammar.Absent
import CssLex.Proofs.Serialize.ReadBack
import CssLex.Token.Css

/-! The text that is written for the lexemes of a text, and what its front has in common with the
front of that text. -/

namespace CssLex

open Production Grammar

/-! ## The text of single lexemes -/

namespace Lexeme

theorem css_ident (name : List Char) : (ofText .ident name).css = Serialize.identifier name := by
  simp [css, ofText, content]

theorem css_function (name : List Char) :
    (ofText .function name).css = Serialize.identifier name ++ ['('] := by
  simp [css, ofText, content]

theorem css_delim (c : Char) : (ofDelim c).css = [c] := by
  simp [css, ofDelim, ofText, content]

theorem css_hash (name : List Char) : (ofText .hash name).css = '#' :: Serialize.name name := by
  simp [css, ofText, content]

theorem css_atKeyword (name : List Char) :
    (ofText .atKeyword name).css = '@' :: Serialize.identifier name := by
  simp [css, ofText, content]

theorem css_whitespace (run : List Char) : (ofText .whitespace run).css = run := by
  simp [css, ofText, content]

theorem css_string (text : List Char) :
    (ofText .string text).css = '"' :: (text.flatMap Serialize.stringChar ++ ['"']) := by
  simp [css, ofText, content, Serialize.string, Serialize.openString]

theorem css_badString (text : List Char) :
    (ofText .badString text).css = '"' :: text.flatMap Serialize.stringChar := by
  simp [css, ofText, content, Serialize.openString]

theorem css_url (text : List Char) : (ofText .url text).css =
    'u' :: 'r' :: 'l' :: '(' :: '"' :: (text.flatMap Serialize.stringChar ++ ['"', ')']) := by
  simp [css, ofText, content, Serialize.string, Serialize.openString]

theorem css_badUrl (text : List Char) : (ofText .badUrl text).css =
    'u' :: 'r' :: 'l' :: '(' :: '"' ::
      (text.flatMap Serialize.stringChar ++ ['"', '/', '*', '*', '/']) := by
  simp [css, ofText, content, Serialize.string, Serialize.openString]

theorem css_comment (text : List Char) :
    (ofText .comment text).css = '/' :: '*' :: (text ++ ['*', '/']) := by
  simp [css, ofText, content]

theorem css_badComment (text : List Char) :
    (ofText .badComment text).css = '/' :: '*' :: text := by
  simp [css, ofText, content]

end Lexeme

namespace Grammar

/-! ## How a lexeme is written in front -/

/-- The first character of what is written for a lexeme that opens no name: a string always
starts with a quotation mark. -/
def opening (c : Char) : Char := if c = '\'' then '"' else c

theorem opening_of_ne {c : Char} (h : c ≠ '\'') : opening c = c := if_neg h

/-- The first character of a name as it is written. -/
def OpensName (c : Char) : Prop := isNameStart c = true ∨ c = '\\' ∨ c = '-'

theorem startChar_head (c : Char) : ∃ d more, Serialize.startChar c = d :: more ∧ OpensName d := by
  unfold Serialize.startChar
  by_cases hdigit : isDigit c = true
  · exact ⟨'\\', _, by rw [if_pos hdigit]; rfl, .inr (.inl rfl)⟩
  · rw [if_neg hdigit, Serialize.nameChar]
    by_cases hcontrol : isControl c = true
    · exact ⟨'\\', _, by rw [if_pos hcontrol]; rfl, .inr (.inl rfl)⟩
    · rw [if_neg hcontrol]
      by_cases hname : isNameChar c = true
      · refine ⟨c, [], by rw [if_pos hname], ?_⟩
        have hcases : isNameStart c = true ∨ c = '-' := by simpa [isNameChar, hdigit] using hname
        exact hcases.imp_right .inr
      · exact ⟨'\\', [c], by rw [if_neg hname], .inr (.inl rfl)⟩

theorem identifier_head {name : List Char} (h : name ≠ []) :
    ∃ d more, Serialize.identifier name = d :: more ∧ OpensName d := by
  unfold Serialize.identifier
  split
  · exact absurd rfl h
  · exact ⟨'\\', ['-'], rfl, .inr (.inl rfl)⟩
  · exact ⟨'-', ['\\', '-'], rfl, .inr (.inr rfl)⟩
  · next c rest _ => exact ⟨'-', Serialize.startChar c ++ Serialize.name rest, rfl, .inr (.inr rfl)⟩
  · next c rest _ _ _ =>
    obtain ⟨d, more, hstart, hd⟩ := startChar_head c
    exact ⟨d, more ++ Serialize.name rest, by rw [hstart]; rfl, hd⟩

theorem identLike_head {name : List Char} (h : name ≠ []) (text : List Char) :
    ∃ d more, (identLike name text).1.css = d :: more ∧ OpensName d := by
  obtain ⟨d, more, hname, hd⟩ := identifier_head h
  unfold identLike
  split
  · split
    · unfold ofBody
      split
      · exact ⟨'u', _, Lexeme.css_url _, .inl rfl⟩
      · exact ⟨'u', _, Lexeme.css_badUrl _, .inl rfl⟩
    · exact ⟨d, more ++ ['('], by rw [Lexeme.css_function, hname]; rfl, hd⟩
  · exact ⟨d, more, by rw [Lexeme.css_ident, hname], hd⟩

theorem Numeral.numberCss_lexeme (n : Numeral) (kind : TokenKind) (text : Option String) :
    (n.lexeme kind text).numberCss = n.text := by
  simp [Numeral.lexeme, Lexeme.numberCss]

theorem Numeral.css_percentage (n : Numeral) :
    (n.lexeme .percentage (some "%")).css = n.text ++ ['%'] := by
  rw [← n.numberCss_lexeme .percentage (some "%")]
  rfl

theorem Numeral.css_dimension (n : Numeral) (unit : List Char) :
    (n.lexeme .dimension (some (String.ofList unit))).css = n.text ++ Serialize.unit unit := by
  simp [Numeral.lexeme, Lexeme.css, Lexeme.numberCss, Lexeme.content]

theorem Numeral.css_number (n : Numeral) : (n.lexeme .number none).css = n.text := by
  rw [← n.numberCss_lexeme .number none]
  rfl

/-- A quantity is written with its number in front. -/
theorem css_quantity (n : Numeral) (text : List Char) :
    ∃ more, (quantity n text).1.css = n.text ++ more := by
  simp only [quantity]
  split
  · exact ⟨['%'], n.css_percentage⟩
  · split
    · next unit _ _ => exact ⟨Serialize.unit unit, n.css_dimension unit⟩
    · exact ⟨[], by rw [n.css_number, List.append_nil]⟩

theorem numeral?_head {c : Char} {text rest : List Char} {n : Numeral}
    (h : numeral? (c :: text) = some (n, rest)) : ∃ more, n.text = c :: more := by
  simp only [numeral?] at h
  split at h
  · cases h
  · next hdigit =>
    cases h
    rw [Numeral.text_eq]
    cases hsign : isSign c with
    | true =>
        rw [attempt_of_some (char?_of_accept hsign text)]
        exact ⟨_, rfl⟩
    | false =>
        rw [attempt_of_none (char?_of_not_accept hsign text)] at hdigit ⊢
        cases hc : isDigit c with
        | true => exact ⟨_, by simp [Numeral.unsigned, hc]; rfl⟩
        | false =>
            simp only [List.takeWhile_cons, List.dropWhile_cons, hc, Bool.false_eq_true,
              if_false, true_and] at hdigit ⊢
            cases hfraction : fraction? (c :: text) with
            | none => exact absurd (by rw [attempt_of_none hfraction]) hdigit
            | some found =>
                rw [attempt_of_some hfraction]
                unfold fraction? at hfraction
                split at hfraction
                · next heq =>
                  cases heq
                  exact ⟨_, rfl⟩
                · cases hfraction

theorem numeric?_head {c : Char} {text rest : List Char} {lexeme : Lexeme}
    (h : numeric? (c :: text) = some (lexeme, rest)) : ∃ more, lexeme.css = c :: more := by
  unfold numeric? at h
  split at h
  · next n middle hnumeral =>
    obtain ⟨more, htext⟩ := numeral?_head hnumeral
    obtain ⟨more', hcss⟩ := css_quantity n middle
    rw [Option.some.inj h, htext] at hcss
    exact ⟨more ++ more', hcss⟩
  · cases h

theorem lexemeFrom_name_head {c : Char} {text : List Char}
    (h : unit? isNameStart (c :: text) ≠ none) :
    ∃ d more, (lexemeFrom c text).1.css = d :: more ∧ OpensName d := by
  obtain ⟨⟨name, rest⟩, hident⟩ := Option.ne_none_iff_exists'.mp (ident?_of_unit? h)
  obtain ⟨_, hunit⟩ := Option.ne_none_iff_exists'.mp h
  obtain ⟨d, more, heq, hd⟩ := head_of_unit? hunit
  cases heq
  have hstart : Start.of c = .name := Start.of_name hd.symm
  have hlexeme : identLexeme? (c :: text) = some (identLike name rest) := by
    simp only [identLexeme?, hident]
  simp only [lexemeFrom, hstart, orDelim, hlexeme, Option.getD_some]
  exact identLike_head (ident?_ne_nil hident) rest

theorem ident?_of_hyphen {text name rest : List Char}
    (h : ident? ('-' :: text) = some (name, rest)) : ∃ c more, name = '-' :: c :: more := by
  by_cases hagain : text.head? = some '-'
  · obtain ⟨text, rfl⟩ := List.head?_eq_some_iff.mp hagain
    simp only [ident?] at h
    split at h
    · cases h
    · cases h
      exact ⟨'-', _, rfl⟩
  · rw [ident?_hyphen hagain] at h
    split at h
    · next hplain =>
      cases h
      obtain ⟨c, more, rfl⟩ := List.exists_cons_of_ne_nil (plainIdent?_ne_nil hplain)
      exact ⟨c, more, rfl⟩
    · cases h

theorem identifier_of_hyphen (c : Char) (rest : List Char) :
    ∃ more, Serialize.identifier ('-' :: c :: rest) = '-' :: more := by
  unfold Serialize.identifier
  split
  · next heq => cases heq
  · next heq => cases heq
  · exact ⟨_, rfl⟩
  · next heq =>
    cases heq
    exact ⟨_, rfl⟩
  · next hnot heq =>
    cases heq
    exact absurd rfl (hnot c rest rfl)

theorem identLexeme?_of_hyphen {text rest : List Char} {lexeme : Lexeme}
    (h : identLexeme? ('-' :: text) = some (lexeme, rest)) :
    ∃ more, lexeme.css = '-' :: more := by
  unfold identLexeme? at h
  split at h
  · next name middle hident =>
    obtain ⟨c, more, rfl⟩ := ident?_of_hyphen hident
    obtain ⟨more', hname⟩ := identifier_of_hyphen c more
    have hurl : ¬ ('-' :: c :: more).map lowerLetter = ['u', 'r', 'l'] := by
      intro heq
      cases (List.cons.inj heq).1
    have hlike : (identLike ('-' :: c :: more) middle).1.css = lexeme.css :=
      congrArg Lexeme.css (congrArg Prod.fst (Option.some.inj h))
    rw [← hlike]
    unfold identLike
    split
    · rw [if_neg hurl]
      exact ⟨more' ++ ['('], by rw [Lexeme.css_function, hname]; rfl⟩
    · exact ⟨more', by rw [Lexeme.css_ident, hname]⟩
  · cases h

theorem signedLexeme?_of_hyphen {text rest : List Char} {lexeme : Lexeme}
    (h : signedLexeme? ('-' :: text) = some (lexeme, rest)) :
    ∃ more, lexeme.css = '-' :: more := by
  unfold signedLexeme? at h
  split at h
  · next heq => exact numeric?_head (heq.trans h)
  · exact identLexeme?_of_hyphen h

theorem orDelim_head {read : List Char → Option (Lexeme × List Char)} {c : Char}
    {text : List Char} (h : ∀ lexeme rest, read (c :: text) = some (lexeme, rest) →
      ∃ more, lexeme.css = c :: more) : ∃ more, (orDelim read c text).1.css = c :: more := by
  unfold orDelim
  cases hread : read (c :: text) with
  | none => exact ⟨[], Lexeme.css_delim c⟩
  | some found => exact h found.1 found.2 hread

theorem css_operator {c : Char} {kind : TokenKind} (h : Start.of c = .operator kind)
    (text : List Char) : (Lexeme.ofText kind text).css = text := by
  have hadmits := Start.admits_of c
  rw [h] at hadmits
  rcases hadmits with ⟨-, rfl⟩ | ⟨-, rfl⟩ | ⟨-, rfl⟩ | ⟨-, rfl⟩ <;>
    simp [Lexeme.css, Lexeme.ofText, Lexeme.content]

theorem marked_head {c : Char} {kind : TokenKind}
    {read : List Char → Option (List Char × List Char)} (text : List Char)
    (h : ∀ name, ∃ more, (Lexeme.ofText kind name).css = c :: more) :
    ∃ more, (marked c kind read text).1.css = c :: more := by
  unfold marked
  split
  · exact h _
  · exact ⟨[], Lexeme.css_delim c⟩

theorem operator_head {first second : Char} {kind : TokenKind} (text : List Char)
    (h : ∀ text, (Lexeme.ofText kind text).css = text) :
    ∃ more, (operator first second kind text).1.css = first :: more := by
  unfold operator
  split
  · exact ⟨[second], h _⟩
  · exact ⟨[], Lexeme.css_delim first⟩

theorem ofBody_head {kind bad : TokenKind} {c : Char} (body : Body)
    (h : ∃ more, (Lexeme.ofText kind body.text).css = c :: more)
    (hbad : ∃ more, (Lexeme.ofText bad body.text).css = c :: more) :
    ∃ more, (ofBody kind bad body).css = c :: more := by
  unfold ofBody
  split
  · exact h
  · exact hbad

theorem lexemeFrom_head {c : Char} {text : List Char}
    (h : unit? isNameStart (c :: text) = none) :
    ∃ more, (lexemeFrom c text).1.css = opening c :: more := by
  have hadmits := Start.admits_of c
  unfold lexemeFrom
  cases hstart : Start.of c with
  | blank =>
      rw [hstart] at hadmits
      have hquote : c ≠ '\'' := by rintro rfl; cases hadmits
      rw [opening_of_ne hquote]
      exact ⟨_, Lexeme.css_whitespace _⟩
  | quote =>
      rw [hstart] at hadmits
      have hopening : opening c = '"' := by rcases hadmits with rfl | rfl <;> rfl
      rw [hopening]
      exact ofBody_head _ ⟨_, Lexeme.css_string _⟩ ⟨_, Lexeme.css_badString _⟩
  | hash =>
      rw [hstart] at hadmits
      subst hadmits
      exact marked_head text fun name => ⟨_, Lexeme.css_hash name⟩
  | atSign =>
      rw [hstart] at hadmits
      subst hadmits
      exact marked_head text fun name => ⟨_, Lexeme.css_atKeyword name⟩
  | operator kind =>
      have hquote : c ≠ '\'' := by rintro rfl; cases hstart
      rw [opening_of_ne hquote]
      exact operator_head text fun _ => css_operator hstart _
  | bar =>
      rw [hstart] at hadmits
      subst hadmits
      simp only
      split
      · exact ⟨['='], by simp [Lexeme.css, Lexeme.ofText, Lexeme.content, opening]⟩
      · exact operator_head text fun _ => by simp [Lexeme.css, Lexeme.ofText, Lexeme.content]
  | slash =>
      rw [hstart] at hadmits
      subst hadmits
      simp only
      split
      · exact ofBody_head _ ⟨_, Lexeme.css_comment _⟩ ⟨_, Lexeme.css_badComment _⟩
      · exact ⟨[], Lexeme.css_delim '/'⟩
  | less =>
      rw [hstart] at hadmits
      subst hadmits
      simp only
      split
      · exact ⟨['!', '-', '-'], by simp [Lexeme.css, Lexeme.ofText, Lexeme.content, opening]⟩
      · exact ⟨[], Lexeme.css_delim '<'⟩
  | hyphen =>
      rw [hstart] at hadmits
      subst hadmits
      simp only
      split
      · exact ⟨['-', '>'], by simp [Lexeme.css, Lexeme.ofText, Lexeme.content, opening]⟩
      · exact orDelim_head fun _ _ => signedLexeme?_of_hyphen
  | number =>
      rw [hstart] at hadmits
      have hquote : c ≠ '\'' := by rintro rfl; cases hstart
      rw [opening_of_ne hquote]
      exact orDelim_head fun _ _ => numeric?_head
  | name =>
      rw [hstart] at hadmits
      rcases hadmits with rfl | hname
      · have hident : ident? ('\\' :: text) = none := by
          rw [ident?_plain (by simp)]
          exact plainIdent?_eq_none.mpr h
        simp only [orDelim, identLexeme?, hident, Option.getD_none]
        exact ⟨[], Lexeme.css_delim '\\'⟩
      · rw [unit?_of_accept hname] at h
        cases h
  | other =>
      have hquote : c ≠ '\'' := by rintro rfl; cases hstart
      rw [opening_of_ne hquote]
      exact ⟨[], Lexeme.css_delim c⟩

/-! ## The written text -/

/-- The text that is written for the lexemes of a text. -/
def written (text : List Char) : List Char := (lexemes text).flatMap Lexeme.css

theorem written_nil : written [] = [] := by
  simp [written, lexemes_nil, Lexeme.css]

theorem written_cons (c : Char) (text : List Char) :
    written (c :: text) = (lexemeFrom c text).1.css ++ written (lexemeFrom c text).2 := by
  rw [written, lexemes_cons (by simp), List.flatMap_cons]
  rfl

theorem written_head {c : Char} {text : List Char} (h : unit? isNameStart (c :: text) = none) :
    ∃ more, written (c :: text) = opening c :: more := by
  obtain ⟨more, hcss⟩ := lexemeFrom_head h
  exact ⟨_, by rw [written_cons, hcss, List.cons_append]⟩

theorem written_break (text : List Char) : ∃ more, written ('\n' :: text) = '\n' :: more :=
  written_head rfl

theorem written_head_of_name {c : Char} {text : List Char}
    (h : unit? isNameStart (c :: text) ≠ none) :
    ∃ d more, written (c :: text) = d :: more ∧ OpensName d := by
  obtain ⟨d, more, hcss, hd⟩ := lexemeFrom_name_head h
  exact ⟨d, _, by rw [written_cons, hcss, List.cons_append], hd⟩

theorem written_eq_nil {text : List Char} : written text = [] ↔ text = [] := by
  constructor
  · intro h
    cases text with
    | nil => rfl
    | cons c text =>
        by_cases hname : unit? isNameStart (c :: text) = none
        · obtain ⟨more, hmore⟩ := written_head hname
          rw [hmore] at h
          cases h
        · obtain ⟨d, more, hmore, -⟩ := written_head_of_name hname
          rw [hmore] at h
          cases h
  · rintro rfl
    exact written_nil

end Grammar
end CssLex
