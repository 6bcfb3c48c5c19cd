import CssLex.Proofs.Grammar.Form
import CssLex.Proofs.Grammar.Url
import CssLex.Proofs.Serialize.Front

/-! Each lexeme reads back before a text that does not go on with it, and what is written for
the rest of a text does not. -/

namespace CssLex.Grammar

open Production

variable {c : Char} {text w : List Char}

/-! ## White space, strings and comments -/

theorem plain_isBlank : Plain isBlank where
  name c hc := by
    cases hblank : isBlank c with
    | false => rfl
    | true =>
        simp only [isBlank, Bool.or_eq_true, decide_eq_true_eq] at hblank
        rcases hblank with (rfl | rfl) | rfl <;> cases hc
  backslash := rfl
  hyphen := rfl
  quote := rfl

theorem lexeme_whitespace (h : isBlank c = true) (text : List Char) (hw : char? isBlank w = none) :
    lexeme ((Lexeme.ofText .whitespace (c :: text.takeWhile isBlank)).css ++ w) =
      (.ofText .whitespace (c :: text.takeWhile isBlank), w) := by
  have hstart : Start.of c = .blank := by rw [Start.of, if_pos h]
  have hrun : ∀ d ∈ text.takeWhile isBlank, isBlank d = true :=
    List.all_eq_true.mp List.all_takeWhile
  rw [Lexeme.css_whitespace, List.cons_append, lexeme, lexemeFrom]
  simp only [hstart, takeWhile_append_stop hrun hw, dropWhile_append_stop hrun hw]

/-- An open string ends at the end of its line or text, or before a last backslash. -/
theorem stringRun_open {quote : Char} (h : (stringRun quote text).1.2 = false) :
    (stringRun quote text).2 = [] ∨ (stringRun quote text).2.head? = some '\n' ∨
      (stringRun quote text).2 = ['\\'] := by
  fun_induction stringRun quote text with
  | case1 text c rest heq _ run ih => exact ih h
  | case2 text closed rest heq =>
      subst h
      unfold stringTurn at heq
      split at heq
      · cases heq
        exact .inl rfl
      · next d text =>
        split at heq
        · next hbreak =>
          cases heq
          exact .inr (.inl (by rw [hbreak]; rfl))
        · split at heq
          · next hbackslash =>
            subst hbackslash
            split at heq
            · cases heq
            · next hescape =>
              rcases escape?_backslash_eq_none.mp hescape with rfl | hhead
              · cases heq
                exact .inr (.inr rfl)
              · obtain ⟨text, rfl⟩ := List.head?_eq_some_iff.mp hhead
                rw [mark_cons_self] at heq
                cases heq
          · split at heq <;> cases heq

theorem stringTurn_written (h : text = [] ∨ text.head? = some '\n' ∨ text = ['\\']) :
    stringTurn '"' (written text) = (.stop false, written text) := by
  rcases h with rfl | hbreak | rfl
  · rw [written_nil]
    rfl
  · obtain ⟨text, rfl⟩ := List.head?_eq_some_iff.mp hbreak
    obtain ⟨more, hmore⟩ := written_break text
    rw [hmore]
    rfl
  · have hwritten : written ['\\'] = ['\\'] := by
      rw [written_cons, lexemeFrom_backslash rfl, Lexeme.css_delim, written_nil]
      rfl
    rw [hwritten]
    rfl

theorem lexeme_quote {quote : Char} {value rest : List Char} {closed : Bool}
    (hquote : quote = '"' ∨ quote = '\'') (h : stringRun quote text = ((value, closed), rest)) :
    lexeme (quote :: text) = (.ofText (if closed then .string else .badString) value, rest) := by
  have hstart : Start.of quote = .quote := by rcases hquote with rfl | rfl <;> rfl
  simp only [lexeme, lexemeFrom, hstart, stringBody, h, ofBody]

theorem lexeme_string (body : Body)
    (hw : body.closed = false → stringTurn '"' w = (.stop false, w)) :
    lexeme ((ofBody .string .badString body).css ++ w) = (ofBody .string .badString body, w) := by
  obtain ⟨value, closed⟩ := body
  cases closed with
  | true =>
      simp only [ofBody, if_true]
      rw [Lexeme.css_string, List.cons_append, List.append_assoc]
      exact lexeme_quote (.inl rfl) (Serialize.stringRun_string _)
  | false =>
      simp only [ofBody, Bool.false_eq_true, if_false]
      rw [Lexeme.css_badString, List.cons_append]
      exact lexeme_quote (.inl rfl) (Serialize.stringRun_openString _ (hw rfl))

theorem commentRun_closed (h : (commentRun text).1.2 = true) :
    text = (commentRun text).1.1 ++ '*' :: '/' :: (commentRun text).2 := by
  fun_induction commentRun text with
  | case1 => cases h
  | case2 text => rfl
  | case3 c text _ run ih => rw [List.cons_append, ← ih h]

theorem commentRun_open (h : (commentRun text).1.2 = false) :
    commentRun text = ((text, false), []) := by
  fun_induction commentRun text with
  | case1 => rfl
  | case2 text => cases h
  | case3 c text _ run ih => simp only [run, ih h]

/-- What stands behind a closed comment does not matter to it. -/
theorem commentRun_append (h : (commentRun text).1.2 = true) (w : List Char) :
    commentRun ((commentRun text).1.1 ++ '*' :: '/' :: w) =
      (((commentRun text).1.1, true), w) := by
  fun_induction commentRun text with
  | case1 => cases h
  | case2 text => rfl
  | case3 c text hnot run ih =>
      have htext := commentRun_closed h
      rw [List.cons_append, commentRun.eq_3, ih h]
      intro rest hstar hslash
      -- the run starts as the comment does, and that has no end here
      cases hrun : (commentRun text).1.1 with
      | nil =>
          rw [hrun] at hslash
          cases hslash
      | cons d more =>
          rw [hrun] at hslash htext
          cases hslash
          exact hnot _ hstar htext

theorem lexeme_slash {value rest : List Char} {closed : Bool}
    (h : commentRun text = ((value, closed), rest)) :
    lexeme ('/' :: '*' :: text) =
      (.ofText (if closed then .comment else .badComment) value, rest) := by
  have hstart : Start.of '/' = .slash := rfl
  simp only [lexeme, lexemeFrom, hstart, mark_cons_self, commentBody, h, ofBody]

theorem lexeme_comment (text : List Char) (hw : (commentRun text).1.2 = false → w = []) :
    lexeme ((ofBody .comment .badComment (commentBody text).1).css ++ w) =
      (ofBody .comment .badComment (commentBody text).1, w) := by
  cases hclosed : (commentRun text).1.2 with
  | true =>
      simp only [commentBody, ofBody, hclosed, if_true]
      rw [Lexeme.css_comment, List.cons_append, List.cons_append, List.append_assoc]
      exact lexeme_slash (commentRun_append hclosed w)
  | false =>
      have hopen := commentRun_open hclosed
      simp only [commentBody, hopen, ofBody, Bool.false_eq_true, if_false]
      rw [Lexeme.css_badComment, hw hclosed, List.append_nil]
      exact lexeme_slash hopen

/-! ## Names -/

theorem lexeme_hash {name : List Char} (hname : name ≠ []) (hw : unit? isNameChar w = none) :
    lexeme ((Lexeme.ofText .hash name).css ++ w) = (.ofText .hash name, w) := by
  have hstart : Start.of '#' = .hash := rfl
  have hread : name? (Serialize.name name ++ w) = some (name, w) := by
    simp only [name?, Serialize.units_name name hw, hname, if_false]
  rw [Lexeme.css_hash]
  simp only [List.cons_append, lexeme, lexemeFrom, hstart, marked, hread]

theorem lexeme_atKeyword {name : List Char} (hname : name ≠ [])
    (hw : unit? isNameChar w = none) :
    lexeme ((Lexeme.ofText .atKeyword name).css ++ w) = (.ofText .atKeyword name, w) := by
  have hstart : Start.of '@' = .atSign := rfl
  have hread := Serialize.ident?_identifier hname hw
  rw [Lexeme.css_atKeyword]
  simp only [List.cons_append, lexeme, lexemeFrom, hstart, marked, hread]

theorem lexeme_identifier {name : List Char} (hname : name ≠ [])
    (hw : unit? isNameChar w = none) :
    lexeme (Serialize.identifier name ++ w) = identLike name w := by
  have hident := Serialize.ident?_identifier hname hw
  obtain ⟨d, more, hhead, -⟩ := identifier_head hname
  rw [hhead] at hident ⊢
  exact lexemeFrom_of_ident? hident

/-- A url is written in quotation marks, with its end behind them. -/
theorem lexeme_url (value w : List Char) :
    lexeme ('u' :: 'r' :: 'l' :: '(' :: '"' :: (value.flatMap Serialize.stringChar ++ '"' :: w)) =
      (ofBody .url .badUrl (closeUrl value w).1, (closeUrl value w).2) := by
  have hbody : urlBody ('"' :: (value.flatMap Serialize.stringChar ++ '"' :: w)) =
      closeUrl value w := by
    rw [urlBody_quote (.inl rfl), Serialize.stringRun_string, if_pos rfl]
  have hname : ['u', 'r', 'l'].map lowerLetter = ['u', 'r', 'l'] := by decide
  have hlexeme : lexeme (Serialize.identifier ['u', 'r', 'l'] ++
      '(' :: '"' :: (value.flatMap Serialize.stringChar ++ '"' :: w)) = identLike ['u', 'r', 'l']
        ('(' :: '"' :: (value.flatMap Serialize.stringChar ++ '"' :: w)) :=
    lexeme_identifier (by simp) rfl
  apply hlexeme.trans
  simp only [identLike, mark_cons_self, hname, if_true, hbody]

/-! ## Single characters -/

theorem mark_written {x : Char} {expected rest : List Char} (hname : isNameStart x = false)
    (hx : x ≠ '\\' ∧ x ≠ '-' ∧ x ≠ '"') (h : mark [x] text = (false, rest)) :
    mark (x :: expected) (written text) = (false, written text) := by
  refine mark_of_head (head?_written_ne hname hx ?_)
  intro hhead
  obtain ⟨text, rfl⟩ := List.head?_eq_some_iff.mp hhead
  rw [mark_cons_self] at h
  cases h

theorem ofBody_ne_delim {kind bad : TokenKind} (body : Body) (hkind : kind ≠ .delim c)
    (hbad : bad ≠ .delim c) : ofBody kind bad body ≠ .ofDelim c := by
  intro h
  exact ofBody_kind_ne body hkind hbad (congrArg Lexeme.kind h)

theorem numeral?_of_delim (h : lexemeFrom c text = (.ofDelim c, text)) :
    numeral? (c :: text) = none := by
  cases hnumeral : numeral? (c :: text) with
  | none => rfl
  | some found =>
      have hnumeric := quantity_isNumeric found.1 found.2
      rw [← lexemeFrom_of_numeral? hnumeral, h] at hnumeric
      cases hnumeric

theorem ident?_of_delim (h : lexemeFrom c text = (.ofDelim c, text)) :
    ident? (c :: text) = none := by
  cases hident : ident? (c :: text) with
  | none => rfl
  | some found =>
      have hkind := identLike_kind found.1 found.2
      rw [← lexemeFrom_of_ident? hident, h] at hkind
      rcases hkind with hkind | hkind | hkind | hkind <;> cases hkind

theorem numeral?_written (h : numeral? (c :: text) = none) (hc : isSign c = true ∨ c = '.') :
    numeral? (c :: written text) = none := by
  rcases hc with hsign | rfl
  · obtain ⟨hdigit, hfraction⟩ := (numeral?_eq_none hsign).mp h
    exact (numeral?_eq_none hsign).mpr
      ⟨char?_written plain_isDigit hdigit, fraction?_written hfraction⟩
  · exact numeral?_point_eq_none.mpr
      (char?_written plain_isDigit (numeral?_point_eq_none.mp h))

theorem marked_written {kind : TokenKind} {read : List Char → Option (List Char × List Char)}
    (hkind : kind ≠ .delim c) (hread : read text = none → read (written text) = none)
    (h : marked c kind read text = (.ofDelim c, text)) :
    marked c kind read (written text) = (.ofDelim c, written text) := by
  cases hfound : read text with
  | none => simp only [marked, hread hfound]
  | some found =>
      simp only [marked, hfound] at h
      exact absurd (congrArg (·.1.kind) h) hkind

theorem operator_written {second : Char} {kind : TokenKind} (hkind : kind ≠ .delim c)
    (hname : isNameStart second = false) (hsecond : second ≠ '\\' ∧ second ≠ '-' ∧ second ≠ '"')
    (h : operator c second kind text = (.ofDelim c, text)) :
    operator c second kind (written text) = (.ofDelim c, written text) := by
  unfold operator at h
  split at h
  · exact absurd (congrArg (·.1.kind) h) hkind
  · next hmark => simp only [operator, mark_written hname hsecond hmark]

/-- A character that stands for itself does so before what is written, too. Only the opening mark
of a comment in markup may come about anew. -/
theorem lexemeFrom_delim (h : lexemeFrom c text = (.ofDelim c, text))
    (hless : c = '<' → mark ['!', '-', '-'] (written text) = (false, written text)) :
    lexemeFrom c (written text) = (.ofDelim c, written text) := by
  have hnumeral := numeral?_of_delim h
  have hident := ident?_of_delim h
  have hadmits := Start.admits_of c
  unfold lexemeFrom at h ⊢
  cases hstart : Start.of c with
  | blank =>
      rw [hstart] at h
      cases h
  | quote =>
      rw [hstart] at h
      exact absurd (congrArg Prod.fst h) (ofBody_ne_delim _ (by simp) (by simp))
  | hash =>
      rw [hstart] at h
      refine marked_written TokenKind.noConfusion (fun hname => ?_) h
      exact name?_eq_none.mpr (unit?_nameChar_written (name?_eq_none.mp hname))
  | atSign =>
      rw [hstart] at h
      exact marked_written TokenKind.noConfusion ident?_written h
  | operator kind =>
      rw [hstart] at h hadmits
      refine operator_written ?_ rfl (by decide) h
      rcases hadmits with ⟨-, rfl⟩ | ⟨-, rfl⟩ | ⟨-, rfl⟩ | ⟨-, rfl⟩ <;> simp
  | bar =>
      rw [hstart] at h hadmits
      subst hadmits
      simp only at h ⊢
      split at h
      · cases h
      · next hmark =>
        simp only [mark_written rfl (by decide) hmark]
        exact operator_written TokenKind.noConfusion rfl (by decide) h
  | slash =>
      rw [hstart] at h
      simp only at h ⊢
      split at h
      · exact absurd (congrArg Prod.fst h) (ofBody_ne_delim _ (by simp) (by simp))
      · next hmark => simp only [mark_written rfl (by decide) hmark]
  | less =>
      rw [hstart] at hadmits
      simp only [hless hadmits]
  | hyphen =>
      rw [hstart] at h hadmits
      subst hadmits
      simp only at h
      split at h
      · cases h
      · next hmark =>
        rw [eq_of_mark_false hmark] at hmark
        have hlexeme := lexemeFrom_hyphen (mark_cdc_written hident hmark)
          (numeral?_written hnumeral (.inl rfl)) (ident?_hyphen_written hident)
        rwa [lexemeFrom, hstart] at hlexeme
  | number =>
      rw [hstart] at hadmits
      have hpoint : isSign c = true ∨ c = '.' := by
        rcases hadmits with rfl | rfl | hdigit
        · exact .inl rfl
        · exact .inr rfl
        · exact absurd hnumeral (numeral?_of_digit hdigit)
      simp only [orDelim, numeric?_eq_none.mpr (numeral?_written hnumeral hpoint),
        Option.getD_none]
  | name =>
      rw [hstart] at hadmits
      rcases hadmits with rfl | hname
      · rw [ident?_plain (by simp)] at hident
        have hescape := (unit?_eq_none.mp (plainIdent?_eq_none.mp hident)).2
        have hlexeme := lexemeFrom_backslash (escape?_backslash_written hescape)
        rwa [lexemeFrom, hstart] at hlexeme
      · exact absurd hident (ident?_of_unit? (by simp [unit?_of_accept hname]))
  | other => rfl

end CssLex.Grammar
