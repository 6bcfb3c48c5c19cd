import CssLex.Proofs.Production.Reads
import CssLex.Proofs.Scanner.Reached

/-! A production that declines leaves no trace: the same characters are still to come, at the same
offset and line. -/

namespace CssLex.Production

open Scan Scanner

/-- Behind a less-than sign, characters that do not complete the mark of a comment in markup are
not read. -/
theorem less_untouched {s s' : Scanner} (hs : s.Sound)
    (h : lexemeFrom '<' s = .ok (.ofDelim '<') s') : s.Untouched s' := by
  obtain ⟨found, s₁, hrest, h⟩ := bind_eq_ok.mp h
  cases found with
  | true =>
      obtain ⟨hkind, -⟩ := pure_eq_ok.mp h
      cases congrArg Lexeme.kind hkind
  | false =>
      obtain ⟨-, rfl⟩ := pure_eq_ok.mp h
      exact cdoRest_reads.untouched_of_mark hs hrest

/-- The productions that look ahead, at any scanner that reading and handing back lead to. -/
theorem declined_untouched {source : Source} (hsource : source.Reliable)
    {history : List (Option Char)} {s s' : Scanner} (hs : Reached source history s) :
    (ident s = .ok none s' → s.Untouched s') ∧
      (num s = .ok none s' → s.Untouched s') ∧
      (numeric s = .ok none s' → s.Untouched s') ∧
      (escape s = .ok none s' → s.Untouched s') ∧
      (unit isNameChar s = .ok none s' → s.Untouched s') ∧
      (unit isNameStart s = .ok none s' → s.Untouched s') ∧
      (∀ c, eat c s = .ok false s' → s.Untouched s') ∧
      (lexemeFrom '<' s = .ok (.ofDelim '<') s' → s.Untouched s') := by
  have hsound := (hs.traced hsource).sound
  exact ⟨ident_tries.untouched hsound, num_tries.untouched hsound,
    numeric_tries.untouched hsound, escape_tries.untouched hsound,
    (unit_tries _).untouched hsound, (unit_tries _).untouched hsound,
    fun c => (eat_reads c).untouched_of_mark hsound, less_untouched hsound⟩

/-- Two hyphens, and a backslash before a line feed, behind a character that was read. -/
theorem declined_untouched_of_hyphens :
    ∃ s s', (Source.ofString "a--\\\n").Reliable ∧
      Reached (Source.ofString "a--\\\n") [some 'a'] s ∧ ident s = .ok none s' ∧
      s.Untouched s' :=
  have hsource := Source.reliable_ofString "a--\\\n"
  have hs : Reached (Source.ofString "a--\\\n") [some 'a'] _ := .next .start rfl
  ⟨_, _, hsource, hs, rfl, (declined_untouched hsource hs).1 rfl⟩

end CssLex.Production
