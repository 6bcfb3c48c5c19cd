import CssLex.Proofs.Serialize.Plain
import CssLex.Proofs.Tokenizer.Boundary
import CssLex.Proofs.Tokenizer.Tiling

/-! The normalized text, which is shown next to the tokens, is what a scanner reads. It is
normalized once and for all: its tokens are those of the text it comes from, and their spans lie in
it. -/

namespace CssLex

open Grammar Scan

namespace Scanner

/-- Reads all characters up to the end of the input. -/
def drain : Scan (List Char) := do
  let (text, _) ← (Loop.repeating next next_spends).run
  pure text

theorem next_tries : Tries next (char? fun _ => true) := by
  intro whole rest
  cases rest with
  | nil => exact next_gives_none
  | cons c rest => exact next_gives_some c

theorem drain_reads : Reads drain fun text => (text, []) := by
  have hrun : Reads (Loop.repeating next next_spends).run fun text => ((text, ()), []) := by
    refine Loop.repeating_reads (fun text => (text, [])) next_tries ?_ ?_
    · intro text c rest h
      cases text <;> cases h
      rfl
    · intro text h
      cases text <;> cases h
      rfl
  exact hrun.bind fun _ => .pure _

/-- Draining a scanner gives the preprocessed text of its source and counts all of it, provided that
this can be counted. -/
theorem drain_start {source : Source} (h : source.Reliable) :
    (Countable (normalize source.chars) →
      ∃ s, drain { source } = .ok (normalize source.chars) s ∧
        s.position = (normalize source.chars).length ∧
        s.line = 1 + (normalize source.chars).count '\n') ∧
    (¬ Countable (normalize source.chars) → ∃ s, drain { source } = .error .tooLong s) := by
  have hsound := sound_start h
  have hunread := unread_start h
  have hread := drain_reads _ _ ({ source } : Scanner) { source } hunread hunread (.refl hsound)
  rw [← fits_iff_countable h]
  cases hdrain : drain { source } with
  | error e s =>
      rw [hdrain] at hread
      obtain ⟨rfl, hfits⟩ := hread
      exact ⟨fun h => absurd h hfits, fun _ => ⟨s, rfl⟩⟩
  | ok text s =>
      rw [hdrain] at hread
      obtain ⟨rfl, hend, hreaches⟩ := hread
      have hfits := hreaches.fits_iff.mp (hreaches.sound.fits_of_unread_nil hend)
      refine ⟨fun _ => ⟨s, rfl, ?_, ?_⟩, fun h => absurd hfits h⟩
      · have hposition := hreaches.position
        rw [hend, hunread] at hposition
        exact hposition.trans (Nat.zero_add _)
      · have hline := hreaches.line
        rw [hend, hunread] at hline
        exact hline

end Scanner

theorem normalize_idem (text : List Char) : normalize (normalize text) = normalize text :=
  (preprocessed_normalize text).normalize_eq

/-- The spans of the tokens of a text lie in the text. -/
theorem Grammar.tokens_span {start line : Nat} {text : List Char} {t : Token}
    (ht : t ∈ tokens start line text) :
    t.span.start ≤ t.span.stop ∧ t.span.stop ≤ start + text.length := by
  induction text using lexemeInduction generalizing start line with
  | nil =>
      rw [tokens_nil, List.mem_singleton] at ht
      rw [ht]
      exact ⟨Nat.le_refl _, Nat.le_refl _⟩
  | cons part rest l hne hlexeme ih =>
      rw [tokens_of_lexeme hne hlexeme] at ht
      rw [List.length_append, ← Nat.add_assoc]
      rcases List.mem_cons.mp ht with rfl | ht
      · exact ⟨Nat.le_add_right start _, Nat.le_add_right _ _⟩
      · exact ih ht

namespace Tokenizer

/-- What a scanner reads of a text is the normalized text, and its position counts the characters of
that; only a text that is too long to be counted cannot be read. To normalize once more changes
nothing. The tokens of the normalized text are those of the text, and they tile it with their
spans. -/
theorem tokenize_normalized (text : String) :
    (Countable (normalize text.toList) →
      ∃ s, Scanner.drain { source := .ofString text } = .ok (normalize text.toList) s ∧
        s.position = (normalize text.toList).length) ∧
    (¬ Countable (normalize text.toList) →
      ∃ s, Scanner.drain { source := .ofString text } = .error .tooLong s) ∧
    normalize (normalize text.toList) = normalize text.toList ∧
    (ofString (String.ofList (normalize text.toList))).tokenize = (ofString text).tokenize ∧
    ∀ found, (ofString text).tokenize = .ok found → Tiling (normalize text.toList) found ∧
      ∀ t ∈ found, t.span.start ≤ t.span.stop ∧ t.span.stop ≤ (normalize text.toList).length := by
  obtain ⟨hread, hlong⟩ := Scanner.drain_start (Source.reliable_ofString text)
  rw [Source.chars_ofString] at hread hlong
  refine ⟨fun h => ?_, hlong, normalize_idem _, ?_, fun found hfound => ?_⟩
  · obtain ⟨s, hdrain, hposition, -⟩ := hread h
    exact ⟨s, hdrain, hposition⟩
  · rw [tokenize_text, tokenize_text, String.toList_ofList, normalize_idem]
  · rw [tokenize_text] at hfound
    split at hfound
    · cases hfound
      refine ⟨tokens_tiling _, fun t ht => ?_⟩
      have hspan := tokens_span ht
      rwa [Nat.zero_add] at hspan
    · cases hfound

/-- Carriage returns, line feeds and a form feed make four line ends, and NUL is replaced. -/
theorem tokenize_normalized_of_mixedBreaks :
    (∃ s, Scanner.drain { source := .ofString "\r\r\n\n\x0c\x00" } =
        .ok ['\n', '\n', '\n', '\n', replacement] s ∧ s.position = 5) ∧
      (ofString (String.ofList ['\n', '\n', '\n', '\n', replacement])).tokenize =
        (ofString "\r\r\n\n\x0c\x00").tokenize := by
  have hnormal : normalize "\r\r\n\n\x0c\x00".toList = ['\n', '\n', '\n', '\n', replacement] := by
    rfl
  obtain ⟨hread, -, -, hsame, -⟩ := tokenize_normalized "\r\r\n\n\x0c\x00"
  rw [hnormal] at hread hsame
  exact ⟨hread (by decide), hsame⟩

end Tokenizer
end CssLex
