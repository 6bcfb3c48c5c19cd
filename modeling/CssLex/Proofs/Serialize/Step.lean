import CssLex.Proofs.Serialize.Fuse

/-! One step through a text and through the text that is written for it: the first lexeme reads
back exactly if it does not fuse with those behind it. -/

namespace CssLex.Grammar

open Production

variable {c : Char} {text w : List Char} {n : Numeral}

/-! ## Which dimensions take an exponent -/

theorem takesExponent_dimension (h : n.Valid) (unit : List Char) :
    (n.lexeme .dimension (some (String.ofList unit))).takesExponent = true ↔
      n.exponent = none ∧ (unit = ['e'] ∨ unit = ['E']) := by
  have hunit : ∀ text : List Char,
      String.ofList unit = String.ofList text ↔ unit = text := fun text => String.ofList_inj
  have hcontent : (n.lexeme .dimension (some (String.ofList unit))).content = String.ofList unit :=
    rfl
  have hlower : "e" = String.ofList ['e'] := rfl
  have hupper : "E" = String.ofList ['E'] := rfl
  rw [Lexeme.takesExponent, n.numberCss_lexeme, h.contains_marker, hcontent, hlower, hupper]
  simp only [hunit, Bool.and_eq_true, Bool.or_eq_true, decide_eq_true_eq, Bool.not_eq_true',
    Option.isSome_eq_false_iff, Option.isNone_iff_eq_none]
  constructor
  · rintro ⟨⟨-, hmarker⟩, hexponent⟩
    exact ⟨hexponent, hmarker⟩
  · rintro ⟨hexponent, hmarker⟩
    exact ⟨⟨rfl, hmarker⟩, hexponent⟩

theorem fuses_of_ne_less {l : Lexeme} (h : l.kind ≠ .delim '<') (text : List Char) :
    l.fuses (lexemes text) = (l.takesExponent && (lexeme text).1.addsDigit) := by
  obtain ⟨rest, hlexemes⟩ := lexemes_head text
  simp [hlexemes, Lexeme.fuses, h]

/-! ## Lexemes that read back -/

theorem lexemes_of_lexeme {l : Lexeme} (h : lexeme (l.css ++ w) = (l, w)) (heof : l.kind ≠ .eof)
    (hbad : l.kind ≠ .badUrl) : lexemes (l.css ++ w) = l.readBack ++ lexemes w := by
  have hne : l.css ++ w ≠ [] := by
    intro hnil
    rw [hnil] at h
    exact heof (congrArg (·.1.kind) h).symm
  rw [lexemes_cons hne, h, Lexeme.readBack, if_neg hbad]
  rfl

theorem lexemes_empty_comment (w : List Char) :
    lexemes ('/' :: '*' :: '*' :: '/' :: w) = .ofText .comment [] :: lexemes w :=
  lexemes_cons (by simp)

theorem closeUrl_slash (value w : List Char) :
    closeUrl value ('/' :: w) = ({ text := value, closed := false }, '/' :: w) := rfl

/-- A url reads back with its end. A broken one is told by the comment behind it. -/
theorem lexemes_url (body : Body) (w : List Char) :
    lexemes ((ofBody .url .badUrl body).css ++ w) =
      (ofBody .url .badUrl body).readBack ++ lexemes w := by
  obtain ⟨value, closed⟩ := body
  cases closed with
  | true =>
      apply lexemes_of_lexeme _ TokenKind.noConfusion TokenKind.noConfusion
      have hread := lexeme_url value (')' :: w)
      rw [closeUrl_parenthesis] at hread
      have hcss : (ofBody .url .badUrl ⟨value, true⟩).css = _ := Lexeme.css_url value
      rw [hcss]
      simpa using hread
  | false =>
      have hread := lexeme_url value ('/' :: '*' :: '*' :: '/' :: w)
      rw [closeUrl_slash] at hread
      have hcss : (ofBody .url .badUrl ⟨value, false⟩).css = _ := Lexeme.css_badUrl value
      rw [hcss]
      simp only [List.cons_append, List.append_assoc, List.nil_append]
      rw [lexemes_cons (by simp), hread, lexemes_empty_comment]
      rfl

/-- An identifier reads back before what is no part of a name and opens no arguments. A function
or a url ends by itself. -/
theorem lexemes_identLike {name : List Char} (hname : name ≠ []) (text : List Char)
    (hw : (identLike name text).1.kind = .ident →
      unit? isNameChar w = none ∧ w.head? ≠ some '(') :
    lexemes ((identLike name text).1.css ++ w) =
      (identLike name text).1.readBack ++ lexemes w := by
  unfold identLike at hw ⊢
  split
  · next rest hmark =>
    split
    · exact lexemes_url _ _
    · next hurl =>
      apply lexemes_of_lexeme _ TokenKind.noConfusion TokenKind.noConfusion
      rw [Lexeme.css_function, List.append_assoc, List.singleton_append,
        lexeme_identifier hname rfl]
      simp only [identLike, mark_cons_self, hurl, if_false]
  · next rest hmark =>
    simp only [hmark] at hw
    obtain ⟨hunit, hhead⟩ := hw rfl
    apply lexemes_of_lexeme _ TokenKind.noConfusion TokenKind.noConfusion
    rw [Lexeme.css_ident, lexeme_identifier hname hunit, identLike_of_head hhead]

theorem lexemes_quantity (h : n.Valid) (hstops : n.StopsAt text)
    (hfuses : (quantity n text).1.fuses (lexemes (quantity n text).2) = false) :
    lexemes ((quantity n text).1.css ++ written (quantity n text).2) =
      (quantity n text).1.readBack ++ lexemes (written (quantity n text).2) := by
  have hcases := quantity_cases n text
  generalize quantity n text = found at hcases hfuses ⊢
  cases hcases with
  | percentage =>
      exact lexemes_of_lexeme (lexeme_percentage h _) TokenKind.noConfusion TokenKind.noConfusion
  | number hmark hident =>
      have hpercent := head?_written_ne rfl (by decide) hmark
      exact lexemes_of_lexeme
        (lexeme_number h (hstops.written hident) hpercent (ident?_written hident))
        TokenKind.noConfusion TokenKind.noConfusion
  | @dimension unit rest hident =>
      apply lexemes_of_lexeme _ TokenKind.noConfusion TokenKind.noConfusion
      apply lexeme_dimension h (ident?_ne_nil hident) (unit?_nameChar_written (ident?_stops hident))
      intro hexponent hmarker after hafter
      have htakes := (takesExponent_dimension h unit).mpr ⟨hexponent, hmarker⟩
      rw [fuses_of_ne_less TokenKind.noConfusion, htakes, Bool.true_and] at hfuses
      cases after with
      | nil => rfl
      | cons d after =>
          apply char?_of_not_accept
          cases hd : isDigit d with
          | false => rfl
          | true =>
              rw [addsDigit_of_written hafter hd] at hfuses
              cases hfuses

theorem fixed_css {kind : TokenKind} (h : fixed kind ≠ []) :
    (Lexeme.ofText kind (fixed kind)).css = fixed kind := by
  cases kind <;>
    first | exact absurd rfl h | simp [Lexeme.css, Lexeme.ofText, Lexeme.content, fixed]

theorem fixed_kind {kind : TokenKind} (h : fixed kind ≠ []) : kind ≠ .eof ∧ kind ≠ .badUrl := by
  constructor
  · rintro rfl
    exact h rfl
  · rintro rfl
    exact h rfl

theorem mark_of_less (h : lexemeFrom '<' text = (.ofDelim '<', text))
    (hfuses : (Lexeme.ofDelim '<').fuses (lexemes text) = false) :
    mark ['!', '-', '-'] (written text) = (false, written text) := by
  have hstart : Start.of '<' = .less := rfl
  cases hwritten : mark ['!', '-', '-'] (written text) with
  | mk found more =>
      cases found with
      | false => rw [eq_of_mark_false hwritten]
      | true =>
          simp only [lexemeFrom, hstart] at h
          split at h
          · cases h
          · next hmark =>
            rw [less_fuses_of_mark hmark hwritten] at hfuses
            cases hfuses

/-- The first lexeme reads back if it does not fuse with those behind it. -/
theorem lexemes_written_cons {found : Lexeme × List Char} (h : lexemeFrom c text = found)
    (hfuses : found.1.fuses (lexemes found.2) = false) :
    lexemes (written (c :: text)) = found.1.readBack ++ lexemes (written found.2) := by
  have hform := lexemeFrom_form c text
  have heof := hform.kind_ne_eof
  rw [written_cons]
  rw [h] at hform heof ⊢
  cases hform with
  | blank hblank =>
      have hstop := char?_written plain_isBlank (char?_dropWhile isBlank text)
      exact lexemes_of_lexeme (lexeme_whitespace hblank text hstop) heof TokenKind.noConfusion
  | string =>
      have hstop : (stringRun c text).1.2 = false → _ := fun hopen =>
        stringTurn_written (stringRun_open hopen)
      exact lexemes_of_lexeme (lexeme_string _ hstop) heof (ofBody_kind_ne _ (by simp) (by simp))
  | hash hname =>
      obtain ⟨hne, hstop⟩ := name?_stops hname
      exact lexemes_of_lexeme (lexeme_hash hne (unit?_nameChar_written hstop)) heof
        TokenKind.noConfusion
  | atKeyword hname =>
      have hstop := unit?_nameChar_written (ident?_stops hname)
      exact lexemes_of_lexeme (lexeme_atKeyword (ident?_ne_nil hname) hstop) heof
        TokenKind.noConfusion
  | @comment inside =>
      have hstop (hopen : (commentRun inside).1.2 = false) :
          written (commentBody inside).2 = [] := by
        rw [commentBody, commentRun_open hopen, written_nil]
      exact lexemes_of_lexeme (lexeme_comment inside hstop) heof
        (ofBody_kind_ne _ (by simp) (by simp))
  | fixed hkind =>
      apply lexemes_of_lexeme _ heof (fixed_kind hkind).2
      rw [fixed_css hkind]
      exact lexeme_fixed hkind _
  | quantity hnumeral =>
      exact lexemes_quantity (numeral?_valid hnumeral) (numeral?_stops hnumeral) hfuses
  | @name name rest hname =>
      refine lexemes_identLike (ident?_ne_nil hname) rest fun hkind => ?_
      have hhead := head_of_identLike hkind
      rw [identLike_of_head hhead]
      exact ⟨unit?_nameChar_written (ident?_stops hname), head?_written_ne rfl (by decide) hhead⟩
  | delim =>
      apply lexemes_of_lexeme _ heof TokenKind.noConfusion
      rw [Lexeme.css_delim]
      apply lexemeFrom_delim h
      rintro rfl
      exact mark_of_less h hfuses

/-! ## Lexemes that fuse -/

theorem quantity_literal (n : Numeral) (text : List Char) :
    (quantity n text).1.literal = some (String.ofList n.text) := by
  have hcases := quantity_cases n text
  generalize quantity n text = found at hcases ⊢
  cases hcases <;> rfl

theorem exponent?_plus {unit rest : List Char} {d : Char} (hunit : unit = ['e'] ∨ unit = ['E'])
    (hd : isDigit d = true) : exponent? (unit ++ '+' :: d :: rest) ≠ none := by
  have hmarker : ∀ marker, isExponentMarker marker = true →
      exponent? (marker :: '+' :: d :: rest) ≠ none := by
    intro marker hmarker hnone
    rw [exponent?_marker hmarker, attempt_of_some (char?_of_accept rfl _),
      char?_of_accept hd] at hnone
    cases hnone
  rcases hunit with rfl | rfl
  · exact hmarker 'e' rfl
  · exact hmarker 'E' rfl

/-- Digits with a plus sign behind a unit that is a marker become the exponent. -/
theorem lexeme_dimension_fused {unit rest : List Char} {d : Char} (h : n.Valid)
    (hexponent : n.exponent = none) (hunit : unit = ['e'] ∨ unit = ['E']) (hd : isDigit d = true) :
    ∃ longer after, n.text ≠ longer.text ∧
      lexeme ((n.lexeme .dimension (some (String.ofList unit))).css ++ '+' :: d :: rest) =
        quantity longer after := by
  have htext : n.text = n.front := by
    rw [n.text_eq_front, hexponent]
    exact List.append_nil _
  have hwritten : Serialize.unit unit = unit := by
    rcases hunit with rfl | rfl
    · rfl
    · rfl
  obtain ⟨⟨exponent, after⟩, hread⟩ := Option.ne_none_iff_exists'.mp (exponent?_plus hunit hd)
  have hstart : char? isDigit (unit ++ '+' :: d :: rest) = none ∧
      fraction? (unit ++ '+' :: d :: rest) = none := by
    rcases hunit with rfl | rfl
    · exact ⟨rfl, rfl⟩
    · exact ⟨rfl, rfl⟩
  have hnumeral := numeral?_front h hstart.1 fun _ => hstart.2
  rw [attempt_of_some hread] at hnumeral
  refine ⟨{ n with exponent := some exponent }, after, ?_, ?_⟩
  · intro heq
    rw [htext, Numeral.text_eq_front] at heq
    have hnil := List.append_right_eq_self.mp heq.symm
    cases hnil
  · rw [n.css_dimension, htext, hwritten, List.append_assoc, lexeme_of_numeral? hnumeral]

/-- A lexeme that takes an exponent reads back with another literal. -/
theorem lexeme_written_of_takesExponent {found : Lexeme × List Char}
    (h : lexemeFrom c text = found) (htakes : found.1.takesExponent = true)
    (hadds : (lexeme found.2).1.addsDigit = true) :
    ∃ n rest, lexeme (written (c :: text)) = quantity n rest ∧ (quantity n rest).1 ≠ found.1 := by
  have hform := lexemeFrom_form c text
  rw [written_cons]
  rw [h] at hform ⊢
  obtain ⟨d, rest, hwritten, hd⟩ := written_of_addsDigit hadds
  have hdimension : found.1.kind = .dimension := by
    simp only [Lexeme.takesExponent, Bool.and_eq_true, decide_eq_true_eq] at htakes
    exact htakes.1.1
  obtain ⟨n, after, hnumeral, rfl⟩ := hform.of_isNumeric (by rw [hdimension]; rfl)
  have hvalid := numeral?_valid hnumeral
  have hcases := quantity_cases n after
  have hliteral := quantity_literal n after
  generalize quantity n after = found at hcases hdimension htakes hwritten hliteral ⊢
  cases hcases with
  | percentage => cases hdimension
  | number => cases hdimension
  | @dimension unit rest' =>
      obtain ⟨hexponent, hunit⟩ := (takesExponent_dimension hvalid unit).mp htakes
      obtain ⟨longer, after', hne, hlexeme⟩ :=
        @lexeme_dimension_fused n unit rest d hvalid hexponent hunit hd
      rw [hwritten]
      refine ⟨longer, after', hlexeme, ?_⟩
      intro heq
      apply hne
      rw [← heq, quantity_literal] at hliteral
      exact (String.ofList_inj.mp (Option.some.inj hliteral)).symm

end CssLex.Grammar
