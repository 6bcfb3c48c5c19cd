import CssLex.Proofs.Grammar.Neighbour
import CssLex.Proofs.Tokenizer.Boundary

/-! Which tokens stand next to one another. What a token stops before rules out the kinds that start
with something else. -/

namespace CssLex

/-! ## Neighbours -/

/-- The kinds that start with a name. -/
def TokenKind.named : List TokenKind := [.ident, .function, .url, .badUrl]

/-- The first of some tokens, if there is one, is as a property says. -/
def Leads (P : Token → Prop) (after : List Token) : Prop := ∀ t ∈ after.head?, P t

/-- Only the end of the input is left. -/
def AtLast (after : List Token) : Prop := after.map (·.kind) = [.eof]

/-- The line ends here: white space follows that starts with a line feed. -/
def AtBreak (after : List Token) : Prop :=
  ∃ t more, after = t :: more ∧ t.kind = .whitespace ∧ t.content.toList.head? = some '\n'

/-- What stands behind a token, by its kind. -/
structure Adjoins (t : Token) (after : List Token) : Prop where
  badComment : t.kind = .badComment → AtLast after
  badString : t.kind = .badString → AtLast after ∨ AtBreak after ∨
    ∃ backslash more, after = backslash :: more ∧ backslash.kind = .delim '\\' ∧ AtLast more
  backslash : t.kind = .delim '\\' → AtLast after ∨ AtBreak after
  whitespace : t.kind = .whitespace → Leads (·.kind ≠ .whitespace) after
  number : t.kind = .number → Leads (fun t' => t'.kind ∉ .delim '%' :: TokenKind.named) after
  name : t.kind ∈ [.ident, .atKeyword, .hash, .dimension] →
    Leads (fun t' => t'.kind ∉ TokenKind.named ∧
      (t'.kind.isNumeric = true → ∃ literal c, t'.literal = some literal ∧
        literal.toList.head? = some c ∧ isDigit c = false ∧ c ≠ '-')) after

namespace Grammar

variable {start line : Nat} {c : Char} {text : List Char}

theorem leads_tokens {P : Token → Prop} (h : ∀ span, P ⟨(lexeme text).1, span, line⟩) :
    Leads P (tokens start line text) := by
  by_cases htext : text = []
  · rw [htext, tokens_nil]
    rintro - ⟨⟩
    exact htext ▸ h _
  · rw [tokens_cons htext]
    rintro - ⟨⟩
    exact h _

theorem atLast_tokens (h : text = []) : AtLast (tokens start line text) := by
  rw [h, tokens_nil]
  rfl

theorem atBreak_tokens (h : text.head? = some '\n') : AtBreak (tokens start line text) := by
  obtain ⟨rest, rfl⟩ := List.head?_eq_some_iff.mp h
  rw [tokens_cons (by simp)]
  exact ⟨_, _, rfl, rfl, congrArg List.head? String.toList_ofList⟩

/-- Where no name starts there is no token of a name. -/
theorem kind_not_mem_named (h : ident? text = none) : (lexeme text).1.kind ∉ TokenKind.named := by
  have hstart := lexeme_startsWith text
  intro hmem
  generalize (lexeme text).1.kind = kind at hstart hmem
  cases kind <;> first | exact hstart h | simp [TokenKind.named] at hmem

theorem kind_ne_delim (h : text.head? ≠ some c) : (lexeme text).1.kind ≠ .delim c := by
  have hstart := lexeme_startsWith text
  intro hkind
  rw [hkind] at hstart
  exact h hstart

/-- The tokens of a text adjoin a token that stops before the text. -/
theorem adjoins_tokens {t : Token} (h : t.kind.StopsBefore text) :
    Adjoins t (tokens start line text) := by
  constructor
  case badComment =>
    intro hkind
    rw [hkind] at h
    exact atLast_tokens h
  case badString =>
    intro hkind
    rw [hkind] at h
    rcases h with hend | hbreak | rfl
    · exact .inl (atLast_tokens hend)
    · exact .inr (.inl (atBreak_tokens hbreak))
    · right; right
      rw [tokens_cons (by simp)]
      exact ⟨_, _, rfl, rfl, atLast_tokens rfl⟩
  case backslash =>
    intro hkind
    rw [hkind] at h
    exact (h rfl).imp atLast_tokens atBreak_tokens
  case whitespace =>
    intro hkind
    rw [hkind] at h
    refine leads_tokens fun span hblank => ?_
    have hstart := lexeme_startsWith text
    rw [show (lexeme text).1.kind = .whitespace from hblank] at hstart
    exact hstart h
  case number =>
    intro hkind
    rw [hkind] at h
    refine leads_tokens fun span => ?_
    rw [List.mem_cons, not_or]
    exact ⟨kind_ne_delim h.1, kind_not_mem_named h.2⟩
  case name =>
    intro hmem
    have hstop : unit? isNameChar text = none := by
      generalize t.kind = kind at h hmem
      cases kind <;> first | exact h | simp at hmem
    refine leads_tokens fun span => ⟨kind_not_mem_named (ident?_of_stop hstop), fun hnumeric => ?_⟩
    obtain ⟨literal, c, hliteral, hhead, hc⟩ := head?_literal hnumeric
    exact ⟨literal, c, hliteral, hhead, head?_of_stop hstop hc⟩

end Grammar

namespace Tokenizer

open Grammar

/-- Each token of a text, with the tokens behind it. -/
theorem tokenize_adjoins {text : String} {before after : List Token} {t : Token}
    (h : (ofString text).tokenize = .ok (before ++ t :: after)) : Adjoins t after := by
  obtain ⟨front, rest, -, -, hafter⟩ := tokenize_split h
  by_cases hkind : t.kind = .eof
  · constructor <;> simp [hkind]
  · obtain ⟨part, rest, -, -, hlexeme, -, rfl⟩ := tokens_part hafter hkind
    have hstop := lexeme_stopsBefore (part ++ rest)
    rw [hlexeme] at hstop
    exact adjoins_tokens hstop

/-- The tokens of a string that breaks off before a last backslash. -/
def lastBackslashTokens : List Token :=
  [⟨.ofText .badString ['a'], ⟨0, 2⟩, 1⟩, ⟨.ofDelim '\\', ⟨2, 3⟩, 1⟩, Token.atEnd 3 1]

theorem tokenize_adjoins_of_lastBackslash :
    (ofString "'a\\").tokenize = .ok lastBackslashTokens ∧
      Adjoins ⟨.ofText .badString ['a'], ⟨0, 2⟩, 1⟩ (lastBackslashTokens.drop 1) := by
  have htokens : (ofString "'a\\").tokenize =
      .ok ([] ++ ⟨.ofText .badString ['a'], ⟨0, 2⟩, 1⟩ :: lastBackslashTokens.drop 1) := by
    have hcountable : Countable (normalize "'a\\".toList) := by cbv
    rw [tokenize_text, if_pos hcountable]
    cbv
  exact ⟨htokens, tokenize_adjoins htokens⟩

end Tokenizer
end CssLex
