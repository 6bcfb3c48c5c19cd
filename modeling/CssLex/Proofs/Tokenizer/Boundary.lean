import Mathlib
import CssLex.Proofs.Grammar.Horizon
import CssLex.Proofs.Serialize.Plain
import CssLex.Proofs.Tokenizer.Tokens

/-! Tokens do not depend on one another. Behind a token the tokenizer goes on as it would at the
start of a text, and a token alone is the text of one token. -/

namespace CssLex

/-- A token that stands further on in a text, by some characters and some lines. -/
def Token.moved (offset lines : Nat) (t : Token) : Token where
  toLexeme := t.toLexeme
  span := ⟨t.span.start + offset, t.span.stop + offset⟩
  line := t.line + lines

/-- The token of the end of a text. -/
def Token.atEnd (offset line : Nat) : Token := ⟨{ kind := .eof }, ⟨offset, offset⟩, line⟩

/-- The characters of a text that a span holds. -/
def Span.slice (span : Span) (text : List Char) : List Char :=
  (text.drop span.start).take span.size

theorem Span.slice_sublist (span : Span) (text : List Char) : (span.slice text).Sublist text :=
  (List.take_sublist _ _).trans (List.drop_sublist _ _)

namespace Grammar

theorem token_nil (start line : Nat) : token start line [] = Token.atEnd start line := rfl

/-- A text is taken apart lexeme by lexeme. -/
@[elab_as_elim]
theorem lexemeInduction {motive : List Char → Prop} (nil : motive [])
    (cons : ∀ (part rest : List Char) (l : Lexeme), part ≠ [] → lexeme (part ++ rest) = (l, rest) →
      motive rest → motive (part ++ rest)) (text : List Char) : motive text := by
  generalize hn : text.length = n
  induction n using Nat.strongRecOn generalizing text with
  | ind n ih =>
      by_cases h : text = []
      · exact h ▸ nil
      · have hless := lexeme_length_lt h
        obtain ⟨part, hpart⟩ := lexeme_suffix text
        have hne : part ≠ [] := by
          rintro rfl
          exact absurd (congrArg List.length hpart) (Nat.ne_of_lt hless)
        rw [← hpart]
        exact cons part _ (lexeme text).1 hne (by rw [hpart]) (ih _ (hn ▸ hless) _ rfl)

theorem tokens_of_lexeme {start line : Nat} {part rest : List Char} {l : Lexeme} (hne : part ≠ [])
    (h : lexeme (part ++ rest) = (l, rest)) :
    tokens start line (part ++ rest) = ⟨l, ⟨start, start + part.length⟩, line⟩ ::
      tokens (start + part.length) (line + part.count '\n') rest := by
  have htoken : token start line (part ++ rest) = ⟨l, ⟨start, start + part.length⟩, line⟩ := by
    rw [token, h, List.length_append, Nat.add_sub_cancel]
  rw [tokens_cons (by simp [hne]), htoken, h, List.count_append, Nat.add_sub_cancel]

theorem tokens_moved (start line offset lines : Nat) (text : List Char) :
    tokens (start + offset) (line + lines) text =
      (tokens start line text).map (·.moved offset lines) := by
  induction text using lexemeInduction generalizing start line with
  | nil => rw [tokens_nil, tokens_nil]; rfl
  | cons part rest l hne hlexeme ih =>
      rw [tokens_of_lexeme hne hlexeme, tokens_of_lexeme hne hlexeme, List.map_cons, ← ih,
        Nat.add_right_comm start, Nat.add_right_comm line]
      rfl

/-- The tokens from some token on are those of a text that some characters stand before. -/
theorem tokens_split {start line : Nat} {text : List Char} {before after : List Token} {t : Token}
    (h : tokens start line text = before ++ t :: after) :
    ∃ front rest, text = front ++ rest ∧
      t :: after = tokens (start + front.length) (line + front.count '\n') rest := by
  induction text using lexemeInduction generalizing start line before with
  | nil =>
      cases before with
      | nil => exact ⟨[], [], rfl, h.symm⟩
      | cons first before => simp [tokens_nil] at h
  | cons part rest l hne hlexeme ih =>
      cases before with
      | nil => exact ⟨[], part ++ rest, rfl, h.symm⟩
      | cons first before =>
          rw [tokens_of_lexeme hne hlexeme] at h
          obtain ⟨front, rest, rfl, hafter⟩ := ih (List.cons.inj h).2
          refine ⟨part ++ front, rest, (List.append_assoc ..).symm, ?_⟩
          rw [hafter, List.length_append, List.count_append, Nat.add_assoc, Nat.add_assoc]

/-- The token of the end stands at the end, and nothing follows it. -/
theorem tokens_atEnd {start line : Nat} {text : List Char} {after : List Token} {t : Token}
    (h : t :: after = tokens start line text) (hkind : t.kind = .eof) :
    text = [] ∧ t = Token.atEnd start line ∧ after = [] := by
  by_cases hne : text = []
  · subst hne
    rw [tokens_nil] at h
    exact ⟨rfl, List.cons.inj h⟩
  · rw [tokens_cons hne] at h
    obtain ⟨rfl, -⟩ := List.cons.inj h
    exact absurd (lexeme_kind_eq_eof.mp hkind) hne

/-- The characters of a token that is not the last one, and what follows it. -/
theorem tokens_part {start line : Nat} {text : List Char} {after : List Token} {t : Token}
    (h : t :: after = tokens start line text) (hkind : t.kind ≠ .eof) :
    ∃ part rest, part ≠ [] ∧ text = part ++ rest ∧ lexeme (part ++ rest) = (t.toLexeme, rest) ∧
      t.span = ⟨start, start + part.length⟩ ∧
      after = tokens (start + part.length) (line + part.count '\n') rest := by
  cases text using lexemeInduction with
  | nil =>
      rw [tokens_nil] at h
      obtain ⟨rfl, -⟩ := List.cons.inj h
      exact absurd rfl hkind
  | cons part rest l hne hlexeme =>
      rw [tokens_of_lexeme hne hlexeme] at h
      obtain ⟨rfl, rfl⟩ := List.cons.inj h
      exact ⟨part, rest, hne, rfl, hlexeme, rfl, rfl⟩

end Grammar

namespace Tokenizer

open Grammar

/-- The text from some token on, with what stands before it. -/
theorem tokenize_split {text : String} {before after : List Token} {t : Token}
    (h : (ofString text).tokenize = .ok (before ++ t :: after)) :
    ∃ front rest, normalize text.toList = front ++ rest ∧ Countable (front ++ rest) ∧
      t :: after = tokens front.length (1 + front.count '\n') rest := by
  rw [tokenize_text] at h
  split at h
  · next hcountable =>
    obtain ⟨front, rest, htext, hafter⟩ := tokens_split (Except.ok.inj h)
    rw [Nat.zero_add] at hafter
    exact ⟨front, rest, htext, htext ▸ hcountable, hafter⟩
  · cases h

/-- Part of a preprocessed text as a text of its own. -/
theorem tokenize_ofList {text part : List Char} (hplain : Preprocessed text)
    (hcountable : Countable text) (hpart : part.Sublist text) :
    (ofString (String.ofList part)).tokenize = .ok (tokens 0 1 part) := by
  have hnormal : normalize part = part := (hplain.of_subset hpart.subset).normalize_eq
  rw [tokenize_text, String.toList_ofList, hnormal, if_pos (hcountable.of_sublist hpart)]

/-- Tokenizing may start again behind each token: it gives the tokens that follow, which stand
further on by what was left out. Behind the end of the text there is only the end. -/
theorem tokenize_restart {text : String} {before after : List Token} {t : Token}
    (h : (ofString text).tokenize = .ok (before ++ t :: after)) :
    ∃ again,
      (ofString (String.ofList ((normalize text.toList).drop t.span.stop))).tokenize = .ok again ∧
      if t.kind = .eof then again = [Token.atEnd 0 1]
      else after = again.map
        (·.moved t.span.stop (((normalize text.toList).take t.span.stop).count '\n')) := by
  obtain ⟨front, rest, htext, hcountable, hafter⟩ := tokenize_split h
  have hplain := preprocessed_normalize text.toList
  rw [htext] at hplain ⊢
  refine ⟨_, tokenize_ofList hplain hcountable (List.drop_sublist _ _), ?_⟩
  split
  · next hkind =>
    obtain ⟨rfl, rfl, -⟩ := tokens_atEnd hafter hkind
    rw [List.append_nil, show (Token.atEnd front.length _).span.stop = front.length from rfl,
      List.drop_length, tokens_nil]
    rfl
  · next hkind =>
    obtain ⟨part, rest, -, rfl, -, hspan, rfl⟩ := tokens_part hafter hkind
    have hstop : t.span.stop = (front ++ part).length := by
      rw [hspan, List.length_append]
    rw [hstop, ← List.append_assoc, List.drop_left, List.take_left, ← tokens_moved,
      List.length_append, List.count_append]
    congr 1 <;> omega

/-- The tokens of a name, a line end in two characters and a comment without an end. -/
def breakTokens : List Token :=
  [⟨.ofText .ident ['a'], ⟨0, 1⟩, 1⟩, ⟨.ofText .whitespace ['\n'], ⟨1, 2⟩, 1⟩,
    ⟨.ofText .badComment ['b'], ⟨2, 5⟩, 2⟩, Token.atEnd 5 2]

theorem tokenize_break : (ofString "a\r\n/*b").tokenize = .ok breakTokens := by
  have hcountable : Countable (normalize "a\r\n/*b".toList) := by cbv
  rw [tokenize_text, if_pos hcountable]
  cbv

theorem tokenize_restart_of_break :
    (ofString "a\r\n/*b").tokenize = .ok breakTokens ∧
      ∃ again,
        (ofString (String.ofList ((normalize "a\r\n/*b".toList).drop 2))).tokenize = .ok again ∧
          [⟨.ofText .badComment ['b'], ⟨2, 5⟩, 2⟩, Token.atEnd 5 2] = again.map (·.moved 2 1) := by
  have hbreak : (ofString "a\r\n/*b").tokenize =
      .ok (breakTokens.take 1 ++ ⟨.ofText .whitespace ['\n'], ⟨1, 2⟩, 1⟩ :: breakTokens.drop 2) :=
    tokenize_break
  obtain ⟨again, hok, hagain⟩ := tokenize_restart hbreak
  exact ⟨tokenize_break, again, hok, hagain⟩

/-- A token alone is a text of this token and of the end. -/
theorem tokenize_alone {text : String} {before after : List Token} {t : Token}
    (h : (ofString text).tokenize = .ok (before ++ t :: after)) (hkind : t.kind ≠ .eof) :
    let part := t.span.slice (normalize text.toList)
    (ofString (String.ofList part)).tokenize =
      .ok [⟨t.toLexeme, ⟨0, part.length⟩, 1⟩, Token.atEnd part.length (1 + part.count '\n')] := by
  obtain ⟨front, rest, htext, hcountable, hafter⟩ := tokenize_split h
  obtain ⟨part, rest, hne, rfl, hlexeme, hspan, -⟩ := tokens_part hafter hkind
  have hplain := preprocessed_normalize text.toList
  have hpart : t.span.slice (front ++ (part ++ rest)) = part := by
    simp [hspan, Span.slice, Span.size]
  rw [htext] at hplain ⊢
  have htokens := tokenize_ofList hplain hcountable (t.span.slice_sublist _)
  rw [hpart] at htokens
  simp only [hpart]
  -- the lexeme is what it was, with nothing behind it
  have halone := lexeme_exchange hne (.inl rfl) hlexeme
  have hpieces := @tokens_of_lexeme 0 1 part [] _ hne halone
  rw [List.append_nil, Nat.zero_add, tokens_nil, token_nil] at hpieces
  exact htokens.trans (congrArg _ hpieces)

/-- The tokens of a string that a line end breaks off. -/
def brokenStringTokens : List Token :=
  [⟨.ofText .badString ['a'], ⟨0, 2⟩, 1⟩, ⟨.ofText .whitespace ['\n'], ⟨2, 3⟩, 1⟩, Token.atEnd 3 2]

theorem tokenize_brokenString : (ofString "'a\r\n").tokenize = .ok brokenStringTokens := by
  have hcountable : Countable (normalize "'a\r\n".toList) := by cbv
  rw [tokenize_text, if_pos hcountable]
  cbv

theorem tokenize_alone_of_brokenString :
    (ofString "'a\r\n").tokenize = .ok brokenStringTokens ∧ TokenKind.badString ≠ .eof ∧
      (ofString (String.ofList (Span.slice ⟨0, 2⟩ (normalize "'a\r\n".toList)))).tokenize =
        .ok [⟨.ofText .badString ['a'], ⟨0, 2⟩, 1⟩, Token.atEnd 2 1] := by
  have hbroken : (ofString "'a\r\n").tokenize =
      .ok ([] ++ ⟨.ofText .badString ['a'], ⟨0, 2⟩, 1⟩ :: brokenStringTokens.drop 1) :=
    tokenize_brokenString
  have hkind : TokenKind.badString ≠ .eof := by decide
  have hpart : Span.slice ⟨0, 2⟩ (normalize "'a\r\n".toList) = ['\'', 'a'] := by cbv
  have halone := tokenize_alone hbroken hkind
  simp only [hpart] at halone
  refine ⟨tokenize_brokenString, hkind, ?_⟩
  rw [hpart]
  exact halone

end Tokenizer
end CssLex
