import CssLex.Proofs.Production.Backlog
import CssLex.Proofs.Tokenizer.Boundary
import CssLex.Proofs.Tokenizer.Cursor

/-! Early tokens are final. No production looks further ahead than four characters behind the token
that it reads, and between two tokens no more than four entries are pushed back. -/

namespace CssLex

namespace Grammar

theorem tokens_start_le {start line : Nat} {text : List Char} {t : Token}
    (ht : t ∈ tokens start line text) : start ≤ t.span.stop := by
  induction text using lexemeInduction generalizing start line with
  | nil =>
      rw [tokens_nil, List.mem_singleton] at ht
      rw [ht]
      exact Nat.le_add_right start _
  | cons part rest l hne hlexeme ih =>
      rw [tokens_of_lexeme hne hlexeme] at ht
      rcases List.mem_cons.mp ht with rfl | ht
      · exact Nat.le_add_right start _
      · exact Nat.le_trans (Nat.le_add_right start _) (ih ht)

/-- The tokens that end four characters before the end of a text stay when the text goes on. -/
theorem tokens_final (start line : Nat) (text more : List Char) :
    (tokens start line text).filter (fun t => t.span.stop + 4 ≤ start + text.length) <+:
      tokens start line (text ++ more) := by
  induction text using lexemeInduction generalizing start line with
  | nil =>
      have hlate : ¬ start + 4 ≤ start := by omega
      simp [tokens_nil, token_nil, Token.atEnd, hlate]
  | cons part rest l hne hlexeme ih =>
      by_cases hrest : 4 ≤ rest.length
      · have hstands : StandsIn 4 (rest ++ more) rest := .inr (List.take_append_of_le_length hrest)
        have hexchange := lexeme_exchange hne hstands hlexeme
        rw [tokens_of_lexeme hne hlexeme, List.append_assoc, tokens_of_lexeme hne hexchange,
          List.length_append, List.filter_cons_of_pos (by simp; omega), ← Nat.add_assoc]
        exact (List.prefix_cons_inj _).mpr (ih _ _)
      · -- all tokens of the rest end later than the first one
        have hnone : (tokens start line (part ++ rest)).filter
            (fun t => t.span.stop + 4 ≤ start + (part ++ rest).length) = [] := by
          rw [List.filter_eq_nil_iff]
          intro t ht
          rw [tokens_of_lexeme hne hlexeme] at ht
          have hstop : start + part.length ≤ t.span.stop := by
            rcases List.mem_cons.mp ht with rfl | ht
            · exact Nat.le_refl _
            · exact tokens_start_le ht
          simp only [List.length_append, decide_eq_true_eq]
          omega
        rw [hnone]
        exact List.nil_prefix

end Grammar

/-! ## What is pushed back -/

/-- A state that every call leads on to holds behind any calls. -/
theorem answers_keeps {σ : Type} {P : σ → Prop} {call : Call → EStateM LexError σ (Option Token)}
    (hcall : ∀ c, Keeps P (call c)) (calls : List Call) {s : σ} (hs : P s) :
    P (answers call calls s).2 := by
  induction calls generalizing s with
  | nil => exact hs
  | cons c calls ih =>
      have hstep := hcall c s hs
      unfold answers
      cases hc : call c s with
      | ok answer s' =>
          rw [hc] at hstep
          exact ih hstep
      | error e s' =>
          rw [hc] at hstep
          exact ih hstep

namespace Tokenizer

open Grammar

/-- At most four entries are pushed back. -/
def Bounded (t : Tokenizer) : Prop := t.scanner.pending ≤ 4

theorem scanToken_keeps : Keeps Bounded scanToken := by
  intro t ht
  have hlexeme := Production.lexeme_leaves t.scanner ht
  unfold scanToken
  cases hread : Production.lexeme t.scanner with
  | error e s =>
      rw [hread] at hlexeme
      exact hlexeme
  | ok l s =>
      rw [hread] at hlexeme
      exact hlexeme

theorem fetch_keeps : Keeps Bounded fetch := by
  intro t ht
  unfold fetch
  cases t.replaying with
  | false => exact scanToken_keeps _ ht
  | true =>
      cases t.current with
      | none => exact scanToken_keeps _ ht
      | some token => exact ht

theorem next_keeps : Keeps Bounded next := by
  intro t ht
  fun_induction next t with
  | case1 t e t' h =>
      have hfetch := fetch_keeps t ht
      rw [h] at hfetch
      exact hfetch
  | case2 t token t' h _ _ ih =>
      have hfetch := fetch_keeps t ht
      rw [h] at hfetch
      exact ih hfetch
  | case3 t token t' h _ =>
      have hfetch := fetch_keeps t ht
      rw [h] at hfetch
      exact hfetch

theorem pushBack_keeps : Keeps Bounded pushBack := by
  intro t ht
  unfold pushBack
  cases t.replaying with
  | true => exact ht
  | false => cases t.current <;> exact ht

theorem call_keeps (c : Call) : Keeps Bounded (call c) := by
  cases c with
  | next => exact next_keeps.map some
  | fetch => exact fetch_keeps.map some
  | pushBack => exact pushBack_keeps.map fun _ => none

/-! ## Texts that go on -/

theorem preprocessed_of_ne {text : List Char}
    (h : ∀ c ∈ text, c ≠ '\r' ∧ c ≠ '\x0c' ∧ c ≠ '\x00') : Preprocessed text := by
  intro c hc
  obtain ⟨hreturn, hfeed, hnul⟩ := h c hc
  simp [Scanner.preprocess, hreturn, hfeed, hnul]

/-- The tokens that end four characters before the end of a text are the first ones of every text
that goes on from it. Whatever a tokenizer is asked for, it never keeps more than four entries
pushed back. -/
theorem tokenize_final (text more : String)
    (hplain : ∀ c ∈ text.toList ++ more.toList, c ≠ '\r' ∧ c ≠ '\x0c' ∧ c ≠ '\x00')
    (hlength : text.length + more.length < characterLimit) :
    (∃ found extended, (ofString text).tokenize = .ok found ∧
      (ofString (text ++ more)).tokenize = .ok extended ∧
      found.filter (fun t => t.span.stop + 4 ≤ text.length) <+: extended) ∧
    ∀ (source : Source) (calls : List Call),
      (answers call calls (ofSource source)).2.scanner.pending ≤ 4 := by
  refine ⟨?_, fun source calls =>
    answers_keeps call_keeps calls (show Bounded _ from Nat.zero_le 4)⟩
  have hpreprocessed := preprocessed_of_ne hplain
  have htext := hpreprocessed.of_subset (List.subset_append_left text.toList more.toList)
  have hcountable : Countable (text.toList ++ more.toList) :=
    countable_of_length_lt (by simpa [← String.length_toList] using hlength)
  have hfinal := tokens_final 0 1 text.toList more.toList
  rw [Nat.zero_add, String.length_toList] at hfinal
  refine ⟨_, _, ?_, ?_, hfinal⟩
  · have hfirst := hcountable.of_sublist (List.sublist_append_left text.toList more.toList)
    rw [tokenize_text, htext.normalize_eq, if_pos hfirst]
  · rw [tokenize_text, String.toList_append, hpreprocessed.normalize_eq, if_pos hcountable]

/-- A number, and behind it two hyphens that would go on with a unit but for a line feed. -/
theorem tokenize_final_of_hyphens :
    (∀ c ∈ "1--\\\n".toList ++ "a".toList, c ≠ '\r' ∧ c ≠ '\x0c' ∧ c ≠ '\x00') ∧
      "1--\\\n".length + "a".length < characterLimit ∧
      (∃ found extended, (ofString "1--\\\n").tokenize = .ok found ∧
        (ofString ("1--\\\n" ++ "a")).tokenize = .ok extended ∧
        found.filter (fun t => t.span.stop + 4 ≤ 5) <+: extended) ∧
      ∀ (source : Source) (calls : List Call),
        (answers call calls (ofSource source)).2.scanner.pending ≤ 4 := by
  have hplain : ∀ c ∈ "1--\\\n".toList ++ "a".toList, c ≠ '\r' ∧ c ≠ '\x0c' ∧ c ≠ '\x00' := by
    simp
  have hlength : "1--\\\n".length + "a".length < characterLimit := by decide
  exact ⟨hplain, hlength, tokenize_final _ _ hplain hlength⟩

/-- Behind the at sign all four entries are pushed back. -/
example : (answers call [.fetch] (ofString "@--\\\n")).2.scanner.pending = 4 := by rfl

end Tokenizer
end CssLex
