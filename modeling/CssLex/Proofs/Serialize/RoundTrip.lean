import Mathlib
import CssLex.CommandLine.Run
import CssLex.Proofs.Serialize.Plain
import CssLex.Proofs.Serialize.Run
import CssLex.Proofs.Tokenizer.Tiling

/-! Tokens that are written as source text and read again. -/

namespace CssLex

open Grammar

namespace Tokenizer

theorem tokenize_ofString (text : String) :
    match (ofString text).tokenize with
    | .ok found => found = tokens 0 1 (normalize text.toList)
    | .error e => e = .tooLong ∧ characterLimit ≤ (normalize text.toList).length := by
  rw [tokenize_text]
  split
  · next h =>
    split at h <;> cases h
    rfl
  · next h =>
    split at h <;> cases h
    next hcountable =>
    exact ⟨rfl, Nat.le_of_not_lt fun hlength => hcountable (countable_of_length_lt hlength)⟩

end Tokenizer

namespace CommandLine

/-- What the tokens of a list say. -/
def said (found : List Token) : List Lexeme := found.map (·.toLexeme)

theorem said_tokens (start line : Nat) (text : List Char) :
    said (tokens start line text) = lexemes text := tokens_map_lexeme start line text

theorem toList_emit_css (found : List Token) :
    (emit .css found).toList = (said found).flatMap Lexeme.css := by
  rw [emit, String.toList_join, List.flatMap_map, said, List.flatMap_map]
  simp only [Lexeme.toCss, String.toList_ofList]

/-- Source text that is written for all tokens of a text has the same significant tokens as that
text, exactly if no tokens clash. Literals are compared too, since numbers that fuse may keep their
values by chance, as zeros and numbers that are too large do. -/
theorem emit_css_reads_back (text : String) {found : List Token}
    (h : (Tokenizer.ofString text).tokenize = .ok found) :
    match (Tokenizer.ofString (emit .css found)).tokenize with
    | .ok again =>
      (significant (said again) = significant (said found) ↔ clashes (said found) = false) ∧
        (clashes (said found) = false →
          (significant (said again)).map (fun l => (l.kind, l.text, l.number)) =
            (significant (said found)).map (fun l => (l.kind, l.text, l.number)))
    | .error e => e = .tooLong ∧ characterLimit ≤ (emit .css found).length := by
  have hfound := Tokenizer.tokenize_ofString text
  rw [h] at hfound
  have hsaid : said found = lexemes (normalize text.toList) := by
    rw [hfound, said_tokens]
  have hcss : (emit .css found).toList = written (normalize text.toList) := by
    rw [toList_emit_css, hsaid, written]
  have hnormal : normalize (emit .css found).toList = written (normalize text.toList) := by
    rw [hcss]
    exact (preprocessed_written (preprocessed_normalize text.toList)).normalize_eq
  have hagain := Tokenizer.tokenize_ofString (emit .css found)
  rw [hnormal] at hagain
  cases htokenize : (Tokenizer.ofString (emit .css found)).tokenize with
  | error e =>
      rw [htokenize, ← hcss, String.length_toList] at hagain
      exact hagain
  | ok again =>
      rw [htokenize] at hagain
      have hiff : significant (said again) = significant (said found) ↔
          clashes (said found) = false := by
        rw [hagain, said_tokens, hsaid]
        exact significant_written _
      exact ⟨hiff, fun hclashes => congrArg _ (hiff.mpr hclashes)⟩

/-- The tokens of a number with an escaped unit and of another number. -/
def exponentTokens : List Token :=
  [⟨{ kind := .dimension, text := some "e", number := some (.integer 1), literal := some "1" },
      ⟨0, 4⟩, 1⟩,
    ⟨{ kind := .number, number := some (.integer 5), literal := some "+5" }, ⟨4, 6⟩, 1⟩,
    ⟨{ kind := .eof }, ⟨6, 6⟩, 1⟩]

theorem tokenize_exponent : (Tokenizer.ofString "1\\65+5").tokenize = .ok exponentTokens := by
  have hcountable : Countable (normalize "1\\65+5".toList) := by cbv
  rw [Tokenizer.tokenize_text, if_pos hcountable]
  cbv

theorem lexemes_exponent :
    (significant (lexemes ['1', 'e', '+', '5'])).map (·.kind) = [.number, .eof] := by
  have hkind : (lexeme ['1', 'e', '+', '5']).1.kind = .number := rfl
  have hrest : (lexeme ['1', 'e', '+', '5']).2 = [] := rfl
  have hfirst : (lexeme ['1', 'e', '+', '5']).1.kind.isInsignificant = false := rfl
  rw [significant_lexemes (by simp) hfirst, hrest, lexemes_nil, List.map_cons, hkind]
  rfl

/-- Without its escape the unit becomes an exponent: the two tokens read back as one number. -/
theorem emit_css_reads_back_of_exponent :
    (Tokenizer.ofString "1\\65+5").tokenize = .ok exponentTokens ∧
      (significant (said exponentTokens)).map (·.kind) = [.dimension, .number, .eof] ∧
      ∃ again, (Tokenizer.ofString (emit .css exponentTokens)).tokenize = .ok again ∧
        significant (said again) ≠ significant (said exponentTokens) ∧
        (significant (said again)).map (·.kind) = [.number, .eof] := by
  have hread := emit_css_reads_back "1\\65+5" tokenize_exponent
  have hagain := Tokenizer.tokenize_ofString (emit .css exponentTokens)
  have hclashes : clashes (said exponentTokens) = true := by cbv
  have hlength : (emit .css exponentTokens).length < characterLimit := by cbv
  have hnormal : normalize (emit .css exponentTokens).toList = ['1', 'e', '+', '5'] := by cbv
  refine ⟨tokenize_exponent, rfl, ?_⟩
  cases htokenize : (Tokenizer.ofString (emit .css exponentTokens)).tokenize with
  | ok again =>
      rw [htokenize] at hread hagain
      refine ⟨again, rfl, ?_, ?_⟩
      · intro heq
        rw [hread.1.mp heq] at hclashes
        cases hclashes
      · rw [hagain, said_tokens, hnormal, lexemes_exponent]
  | error e =>
      rw [htokenize] at hread
      exact absurd hread.2 (Nat.not_le_of_lt hlength)

end CommandLine
end CssLex
