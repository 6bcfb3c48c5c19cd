import CssLex.Proofs.Serialize.Plain
import CssLex.Proofs.Tokenizer.Failure

/-! How long a text may be. Offsets count up to the limit and so do lines, which start at one: the
text of as many line feeds as there may be characters has a line too many. -/

namespace CssLex

open Scanner

/-- As many line feeds as there may be characters. -/
def lineFeeds : List Char := List.replicate characterLimit '\n'

theorem countable_iff {text : List Char} :
    Countable text ↔ text.length ≤ characterLimit ∧ text ≠ lineFeeds := by
  refine and_congr_right fun hlength => ?_
  have hcount : text.count '\n' ≤ text.length := List.count_le_length
  constructor
  · rintro hlines rfl
    exact absurd hlines (by rw [lineFeeds, List.count_replicate_self]; exact Nat.lt_irrefl _)
  · intro hne
    by_contra hlines
    have heq : text.count '\n' = text.length := by omega
    refine hne (List.eq_replicate_iff.mpr ⟨by omega, fun c hc => ?_⟩)
    exact (List.count_eq_length.mp heq c hc).symm

namespace Tokenizer

/-- A text fails to be counted exactly if it is longer than the limit or the one text of as many
line feeds. Every other text has its tokens, and however they are asked for nothing is too long. -/
theorem tokenize_limit (text : String) :
    if (normalize text.toList).length ≤ characterLimit ∧ normalize text.toList ≠ lineFeeds
    then (∃ found, (ofString text).tokenize = .ok found) ∧
      ∀ calls, .error .tooLong ∉ (answers call calls (ofString text)).1
    else (ofString text).tokenize = .error .tooLong := by
  have htokenize := tokenize_text text
  split
  · next hwithin =>
    rw [if_pos (countable_iff.mpr hwithin)] at htokenize
    refine ⟨⟨_, htokenize⟩, fun calls => ?_⟩
    obtain ⟨T, -, hstart⟩ := Follows.start (Source.reliable_ofString text) htokenize
    change .error .tooLong ∉ (answers call calls (ofSource (.ofString text))).1
    rw [(hstart.answers calls).1]
    exact fun hmem => nomatch FailsWith.answers (Cursor.call_fails T) calls {} hmem
  · next hbeyond => rwa [if_neg (mt countable_iff.mp hbeyond)] at htokenize

/-- They are no longer than the limit, and too long. -/
theorem tokenize_lineFeeds :
    (normalize (String.ofList lineFeeds).toList).length ≤ characterLimit ∧
      (ofString (String.ofList lineFeeds)).tokenize = .error .tooLong := by
  have hplain : Preprocessed lineFeeds := by
    intro c hc
    rw [List.eq_of_mem_replicate hc]
    decide
  have hnormal : normalize (String.ofList lineFeeds).toList = lineFeeds := by
    rw [String.toList_ofList, hplain.normalize_eq]
  rw [tokenize_text, hnormal, if_neg fun hcountable => (countable_iff.mp hcountable).2 rfl]
  exact ⟨Nat.le_of_eq List.length_replicate, rfl⟩

end Tokenizer
end CssLex
