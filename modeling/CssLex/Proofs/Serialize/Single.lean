import CssLex.Proofs.Serialize.RoundTrip

/-! A single token as a text of its own. It reads back alone, whatever stood behind it. -/

namespace CssLex

open Grammar

namespace Grammar

open Production

variable {c : Char} {text : List Char} {n : Numeral}

/-- A character that stands for itself somewhere does so at the end of a text. -/
theorem lexemeFrom_delim_nil (h : lexemeFrom c text = (.ofDelim c, text)) :
    lexemeFrom c [] = (.ofDelim c, []) := by
  have hnumeral := numeral?_of_delim h
  have hident := ident?_of_delim h
  have hadmits := Start.admits_of c
  unfold lexemeFrom at h ⊢
  cases hstart : Start.of c with
  | blank =>
      rw [hstart] at h
      cases h
  | quote =>
      rw [hstart] at h
      exact absurd (congrArg Prod.fst h) (ofBody_ne_delim _ (by simp) (by simp))
  | hyphen =>
      rw [hstart] at hadmits
      subst hadmits
      rfl
  | number =>
      rw [hstart] at hadmits
      rcases hadmits with rfl | rfl | hdigit
      · rfl
      · rfl
      · exact absurd hnumeral (numeral?_of_digit hdigit)
  | name =>
      rw [hstart] at hadmits
      rcases hadmits with rfl | hname
      · rfl
      · exact absurd hident (ident?_of_unit? (by simp [unit?_of_accept hname]))
  | hash =>
      have hname : name? [] = none := name?_eq_none.mpr rfl
      simp only [marked, hname]
  | atSign | operator | bar | slash | less | other => rfl

theorem lexemes_css_quantity (h : n.Valid) (rest : List Char) :
    lexemes ((quantity n rest).1.css ++ []) = (quantity n rest).1.readBack ++ lexemes [] := by
  have hcases := quantity_cases n rest
  generalize quantity n rest = found at hcases ⊢
  cases hcases with
  | percentage =>
      exact lexemes_of_lexeme (lexeme_percentage h []) TokenKind.noConfusion TokenKind.noConfusion
  | number =>
      exact lexemes_of_lexeme (lexeme_number h n.stopsAt_nil (by simp) rfl) TokenKind.noConfusion
        TokenKind.noConfusion
  | dimension hident =>
      exact lexemes_of_lexeme (lexeme_dimension h (ident?_ne_nil hident) rfl (by simp))
        TokenKind.noConfusion TokenKind.noConfusion

/-- What is written for a first lexeme has that lexeme and nothing behind it. -/
theorem lexemes_css {found : Lexeme × List Char} (h : lexemeFrom c text = found) :
    lexemes found.1.css = found.1.readBack ++ [{ kind := .eof }] := by
  have hform := lexemeFrom_form c text
  have heof := hform.kind_ne_eof
  rw [h] at hform heof
  suffices hread : lexemes (found.1.css ++ []) = found.1.readBack ++ lexemes [] by
    rwa [List.append_nil, lexemes_nil] at hread
  cases hform with
  | blank hblank =>
      exact lexemes_of_lexeme (lexeme_whitespace hblank text rfl) heof TokenKind.noConfusion
  | string =>
      exact lexemes_of_lexeme (lexeme_string _ fun _ => rfl) heof
        (ofBody_kind_ne _ (by simp) (by simp))
  | hash hname =>
      exact lexemes_of_lexeme (lexeme_hash (name?_stops hname).1 rfl) heof TokenKind.noConfusion
  | atKeyword hname =>
      exact lexemes_of_lexeme (lexeme_atKeyword (ident?_ne_nil hname) rfl) heof
        TokenKind.noConfusion
  | @comment inside =>
      exact lexemes_of_lexeme (lexeme_comment inside fun _ => rfl) heof
        (ofBody_kind_ne _ (by simp) (by simp))
  | fixed hkind =>
      apply lexemes_of_lexeme _ heof (fixed_kind hkind).2
      rw [fixed_css hkind]
      exact lexeme_fixed hkind []
  | quantity hnumeral => exact lexemes_css_quantity (numeral?_valid hnumeral) _
  | name hname => exact lexemes_identLike (ident?_ne_nil hname) _ fun _ => ⟨rfl, by simp⟩
  | delim =>
      apply lexemes_of_lexeme _ heof TokenKind.noConfusion
      rw [Lexeme.css_delim]
      exact lexemeFrom_delim_nil h

/-- Only white space is written with a line feed in front, and that as it was read. -/
theorem countable_css {found : Lexeme × List Char} (h : lexemeFrom c text = found)
    (htext : Countable (c :: text)) (hlength : found.1.css.length ≤ characterLimit) :
    Countable found.1.css := by
  by_cases hc : c = '\n'
  · have hstart : Start.of c = .blank := by rw [hc]; rfl
    have hcss : found.1.css = c :: text.takeWhile isBlank := by
      rw [← h, lexemeFrom, hstart]
      exact Lexeme.css_whitespace _
    rw [hcss]
    have hsub : (c :: text.takeWhile isBlank).Sublist (c :: text) :=
      (List.takeWhile_sublist isBlank).cons_cons c
    exact htext.of_sublist hsub
  · obtain ⟨d, more, hcss, hd⟩ : ∃ d more, found.1.css = d :: more ∧ d ≠ '\n' := by
      rw [← h]
      by_cases hname : unit? isNameStart (c :: text) = none
      · obtain ⟨more, hcss⟩ := lexemeFrom_head hname
        refine ⟨opening c, more, hcss, ?_⟩
        unfold opening
        split
        · decide
        · exact hc
      · obtain ⟨d, more, hcss, hd⟩ := lexemeFrom_name_head hname
        exact ⟨d, more, hcss, hd.ne (by decide)⟩
    rw [hcss] at hlength ⊢
    exact countable_of_head (by simpa using hd) hlength

theorem mem_lexemes {l : Lexeme} (h : l ∈ lexemes text) (hkind : l.kind ≠ .eof) :
    ∃ c rest, c :: rest <:+ text ∧ l = (lexemeFrom c rest).1 := by
  fun_induction lexemes text with
  | case1 =>
      rw [List.mem_singleton.mp h] at hkind
      exact absurd rfl hkind
  | case2 text hne _ ih =>
      rcases List.mem_cons.mp h with rfl | h
      · obtain ⟨c, rest, rfl⟩ := List.exists_cons_of_ne_nil hne
        exact ⟨c, rest, List.suffix_rfl, rfl⟩
      · obtain ⟨c, rest, hsuffix, heq⟩ := ih h
        exact ⟨c, rest, hsuffix.trans (lexeme_suffix text), heq⟩

end Grammar

namespace CommandLine

/-- Source text that is written for one token reads back as that token, and as nothing else but
the comment that ends a broken url. It can be read unless it is too long. -/
theorem toCss_reads_back (text : String) {found : List Token}
    (h : (Tokenizer.ofString text).tokenize = .ok found) {t : Token} (ht : t ∈ found)
    (hkind : t.kind ≠ .eof) :
    if t.toCss.length ≤ characterLimit then
      ∃ again, (Tokenizer.ofString t.toCss).tokenize = .ok again ∧
        said again =
          if t.kind = .badUrl then [t.toLexeme, .ofText .comment [], { kind := .eof }]
          else [t.toLexeme, { kind := .eof }]
    else (Tokenizer.ofString t.toCss).tokenize = .error .tooLong := by
  have htokenize := Tokenizer.tokenize_text text
  rw [h] at htokenize
  split at htokenize <;> cases htokenize
  next hcountable =>
  have hmem : t.toLexeme ∈ lexemes (normalize text.toList) := by
    rw [← tokens_map_lexeme 0 1]
    exact List.mem_map_of_mem ht
  obtain ⟨c, rest, hsuffix, heq⟩ := mem_lexemes hmem hkind
  have htext : Preprocessed (c :: rest) :=
    (preprocessed_normalize text.toList).of_subset hsuffix.subset
  have hcss : t.toCss.toList = (lexemeFrom c rest).1.css := by
    rw [← heq]
    exact String.toList_ofList
  have hnormal : normalize t.toCss.toList = (lexemeFrom c rest).1.css := by
    rw [hcss]
    exact ((lexemeFrom_form c rest).preprocessed htext).normalize_eq
  rw [Tokenizer.tokenize_text, hnormal, ← String.length_toList, hcss]
  split
  · next hlength =>
    have hread := countable_css rfl (hcountable.of_sublist hsuffix.sublist) hlength
    refine ⟨tokens 0 1 (lexemeFrom c rest).1.css, if_pos hread, ?_⟩
    rw [said_tokens, lexemes_css rfl, ← heq, Lexeme.readBack]
    split <;> rfl
  · next hlength => exact if_neg fun hread => hlength hread.1

/-- The tokens of a url that a blank breaks off. -/
def brokenUrlTokens : List Token :=
  [⟨.ofText .badUrl ['a'], ⟨0, 6⟩, 1⟩, ⟨.ofText .ident ['b'], ⟨6, 7⟩, 1⟩,
    ⟨{ kind := .eof }, ⟨7, 7⟩, 1⟩]

theorem tokenize_brokenUrl : (Tokenizer.ofString "url(a b").tokenize = .ok brokenUrlTokens := by
  have hcountable : Countable (normalize "url(a b".toList) := by cbv
  rw [Tokenizer.tokenize_text, if_pos hcountable]
  cbv

theorem toCss_reads_back_of_brokenUrl :
    ∃ again, (Tokenizer.ofString "url(\"a\"/**/").tokenize = .ok again ∧
      said again = [.ofText .badUrl ['a'], .ofText .comment [], { kind := .eof }] :=
  toCss_reads_back "url(a b" tokenize_brokenUrl List.mem_cons_self TokenKind.noConfusion

end CommandLine
end CssLex
