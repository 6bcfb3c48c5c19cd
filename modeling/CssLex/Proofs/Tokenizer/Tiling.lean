import CssLex.Proofs.Tokenizer.Tokens

/-! Tokens tile the preprocessed text: each one starts where the one before it ends, the last one
is the end of the text, and lines count the line feeds before a token. -/

namespace CssLex

namespace Grammar

/-! ## The tokens of a text -/

theorem tokens_head (start line : Nat) (text : List Char) :
    (tokens start line text)[0]? = some (token start line text) := by
  by_cases h : text = []
  · rw [h, tokens_nil]
    rfl
  · rw [tokens_cons h]
    rfl

theorem tokens_consecutive {start line i : Nat} {text : List Char} {a b : Token}
    (ha : (tokens start line text)[i]? = some a)
    (hb : (tokens start line text)[i + 1]? = some b) : b.span.start = a.span.stop := by
  fun_induction tokens start line text generalizing i with
  | case1 start line => simp at hb
  | case2 start line text h _ ih =>
      rw [List.getElem?_cons_succ] at hb
      cases i with
      | zero =>
          rw [tokens_head] at hb
          cases ha
          cases hb
          rfl
      | succ i => exact ih ha hb

theorem token_start_lt_stop {start line : Nat} {text : List Char} (h : text ≠ []) :
    (token start line text).span.start < (token start line text).span.stop := by
  have := lexeme_length_lt h
  simp only [token]
  omega

theorem tokens_start_lt_stop {start line : Nat} {text : List Char} {a : Token}
    (ha : a ∈ tokens start line text) (hkind : a.kind ≠ .eof) : a.span.start < a.span.stop := by
  fun_induction tokens start line text with
  | case1 start line =>
      rw [List.mem_singleton.mp ha] at hkind
      exact absurd rfl hkind
  | case2 start line text h _ ih =>
      rcases List.mem_cons.mp ha with rfl | ha
      · exact token_start_lt_stop h
      · exact ih ha

theorem tokens_end (start line : Nat) (text : List Char) :
    ∃ body last, tokens start line text = body ++ [last] ∧ (∀ a ∈ body, a.kind ≠ .eof) ∧
      last.kind = .eof ∧ last.span = ⟨start + text.length, start + text.length⟩ := by
  fun_induction tokens start line text with
  | case1 start line => exact ⟨[], token start line [], rfl, by simp, rfl, rfl⟩
  | case2 start line text h hlt ih =>
      obtain ⟨body, last, heq, hbody, hkind, hspan⟩ := ih
      refine ⟨token start line text :: body, last, by rw [heq]; rfl, ?_, hkind, ?_⟩
      · intro a ha
        rcases List.mem_cons.mp ha with rfl | ha
        · exact fun heof => h (lexeme_kind_eq_eof.mp heof)
        · exact hbody a ha
      · have hstop : (token start line text).span.stop + (lexeme text).2.length =
            start + text.length := by
          simp only [token]
          omega
        rw [hspan, hstop]

/-- A token's line counts the line feeds before its start, also those before the text itself. -/
theorem tokens_line (front : List Char) {text : List Char} {a : Token}
    (ha : a ∈ tokens front.length (1 + front.count '\n') text) :
    a.line = 1 + ((front ++ text).take a.span.start).count '\n' := by
  generalize hn : text.length = n
  induction n using Nat.strongRecOn generalizing front text with
  | ind n ih =>
      by_cases h : text = []
      · subst h
        rw [tokens_nil] at ha
        rw [List.mem_singleton.mp ha]
        simp [token]
      · rw [tokens_cons h] at ha
        rcases List.mem_cons.mp ha with rfl | ha
        · simp [token]
        · obtain ⟨read, hread⟩ := lexeme_suffix text
          have hlength := congrArg List.length hread
          have hcount := congrArg (List.count '\n') hread
          rw [List.length_append] at hlength
          rw [List.count_append] at hcount
          have hstop : (token front.length (1 + front.count '\n') text).span.stop =
              (front ++ read).length := by
            simp only [token, List.length_append]
            omega
          have hline : 1 + front.count '\n' + (text.count '\n' - (lexeme text).2.count '\n') =
              1 + (front ++ read).count '\n' := by
            rw [List.count_append]
            omega
          rw [hstop, hline] at ha
          have hrest := ih _ (hn ▸ lexeme_length_lt h) _ ha rfl
          rwa [List.append_assoc, hread] at hrest

end Grammar

/-! ## The tokens of a tokenizer -/

open Grammar

/-- Tokens that tile a text. -/
structure Tiling (text : List Char) (found : List Token) : Prop where
  first : found.head?.map (·.span.start) = some 0
  consecutive : ∀ i a b, found[i]? = some a → found[i + 1]? = some b →
    b.span.start = a.span.stop
  nonempty : ∀ a ∈ found, a.kind ≠ .eof → a.span.start < a.span.stop
  last : ∃ body last, found = body ++ [last] ∧ (∀ a ∈ body, a.kind ≠ .eof) ∧
    last.kind = .eof ∧ last.span = ⟨text.length, text.length⟩
  line : ∀ a ∈ found, a.line = 1 + (text.take a.span.start).count '\n'

theorem tokens_tiling (text : List Char) : Tiling text (tokens 0 1 text) where
  first := by
    rw [List.head?_eq_getElem?, tokens_head]
    rfl
  consecutive _ _ _ ha hb := tokens_consecutive ha hb
  nonempty _ ha hkind := tokens_start_lt_stop ha hkind
  last := by
    have hend := tokens_end 0 1 text
    rwa [Nat.zero_add] at hend
  line _ ha := tokens_line [] ha

namespace Tokenizer

/-- The tokens of a text tile the preprocessed text. -/
theorem tokenize_tiling (text : String)
    (h : (normalize text.toList).length < characterLimit) :
    ∃ found, (ofString text).tokenize = .ok found ∧ Tiling (normalize text.toList) found := by
  have hreliable := Source.reliable_ofString text
  have hchars : (Source.ofString text).chars = text.toList := Source.chars_ofString text
  have hfits := Scanner.fits_start hreliable (hchars ▸ h)
  have htokenize := tokenize_of_fits (t := ofString text) (Scanner.sound_start hreliable) rfl hfits
  refine ⟨_, htokenize, ?_⟩
  have hunread := Scanner.unread_start hreliable
  rw [hchars] at hunread
  rw [← hunread]
  exact tokens_tiling _

/-- A line end in two characters, a string that it breaks off, and a comment without an end. -/
theorem tokenize_tiling_of_broken_string :
    (normalize "a\r\n'b\r\n/*".toList).length < characterLimit ∧
      ∃ found, (ofString "a\r\n'b\r\n/*").tokenize = .ok found ∧
        Tiling (normalize "a\r\n'b\r\n/*".toList) found :=
  have h : (normalize "a\r\n'b\r\n/*".toList).length < characterLimit := by
    simp [normalize, characterLimit]
  ⟨h, tokenize_tiling _ h⟩

end Tokenizer
end CssLex
