import CssLex.Proofs.Token.Json
import CssLex.Proofs.Token.Value
import CssLex.Proofs.Tokenizer.Failure
import CssLex.Proofs.Tokenizer.Shape

/-! The numbers of tokens. Every literal that is read has a value, so no number is ever malformed,
and a token carries the exact value of its literal. -/

namespace CssLex

namespace Production

/-- In any scanner, over a source that may fail, what is read as a number has a value. -/
theorem num_denotes (s : Scanner) :
    match num s with
    | .ok (some (value, literal)) _ =>
      literal ∈ Literal.pattern.matches' ∧ Literal.Denotes literal value
    | .ok none _ => True
    | .error e _ => e.OfReading := by
  have houtcome := Scan.Tracks.outcome num_tracks s
  cases hnum : num s with
  | error e s' =>
      rw [hnum] at houtcome
      exact houtcome
  | ok found s' =>
      rw [hnum] at houtcome
      cases found with
      | none => trivial
      | some found =>
          obtain ⟨value, literal⟩ := found
          obtain ⟨_, hread, -⟩ := houtcome
          obtain ⟨n, hvalid, rfl, hvalue⟩ := hread value literal rfl
          have hmatches := Literal.pattern_matches_iff.mpr ⟨n, hvalid, rfl⟩
          obtain ⟨value', hvalue', hdenotes⟩ := Literal.exists_denotes hmatches
          rw [hvalue] at hvalue'
          exact ⟨hmatches, Option.some.inj hvalue' ▸ hdenotes⟩

end Production

namespace Lexeme

/-- The literal of a lexeme denotes its number. -/
theorem exists_number {l : Lexeme} (hformed : l.WellFormed) (hvalued : l.Valued) {literal : String}
    (h : l.literal = some literal) :
    ∃ value, l.number = some value ∧ Literal.Denotes literal.toList value := by
  obtain ⟨value, hvalue, hdenotes⟩ :=
    Literal.exists_denotes (hformed.matches_pattern literal h)
  refine ⟨value, ?_, hdenotes⟩
  rw [hvalued, h]
  exact hvalue

end Lexeme

namespace Tokenizer

/-- No number is ever malformed: not where one is read in any scanner, not in the answers of a
tokenizer over a source, failing or not, and not in its list of tokens. Every token with a literal
has the number that the literal denotes. -/
theorem numbers_exact (source : Source) :
    (∀ s, match Production.num s with
      | .ok (some (value, literal)) _ =>
        literal ∈ Literal.pattern.matches' ∧ Literal.Denotes literal value
      | .ok none _ => True
      | .error e _ => ∀ literal, e ≠ .malformedNumber literal) ∧
    (∀ calls literal,
      .error (.malformedNumber literal) ∉ (answers call calls (ofSource source)).1) ∧
    (∀ calls skipping literal, (answers call calls (ofSource source)).2.collect skipping ≠
      .error (.malformedNumber literal)) ∧
    ∀ token, Given source token → ∀ literal, token.literal = some literal →
      ∃ value, token.number = some value ∧ Literal.Denotes literal.toList value := by
  refine ⟨fun s => ?_, fun calls literal hmem => ?_, fun calls skipping literal h => ?_,
    fun token h literal hliteral => ?_⟩
  · have hnum := Production.num_denotes s
    split at hnum
    · exact hnum
    · trivial
    · rintro literal rfl
      cases hnum
  · rcases FailsWith.answers call_fails calls _ hmem with hreading | hreplay
    · cases hreading
    · cases hreplay
  · cases collectFrom_fails h
  · obtain ⟨hformed, hvalued⟩ := h.holds (Q := fun l => l.WellFormed ∧ l.Valued)
      fun text htext => ⟨Grammar.wellFormed_lexeme htext, Grammar.valued_lexeme text⟩
    exact Lexeme.exists_number hformed hvalued hliteral

end Tokenizer
end CssLex
