import CssLex.Proofs.Grammar.Spelling
import CssLex.Proofs.Production.Reads

/-! The identifiers that are read. They open as identifiers do and take the longest run, and where
none opens nothing is read. -/

namespace CssLex.Production

open Grammar Scan Scanner

/-- An identifier is read exactly if the unread characters open one. It takes the longest run of
characters of names and escapes, and it is what the run spells. -/
theorem ident_spells {s : Scanner} (hs : s.Sound) :
    match ident s with
    | .ok (some name) s' => OpensIdentifier s.unread ∧
        LongestRun isNameChar s.unread name s'.unread ∧ s.Reaches s'
    | .ok none s' => ¬ OpensIdentifier s.unread ∧ s.Untouched s'
    | .error e _ => e = .tooLong ∧ ¬ s.Fits := by
  have hident := ident_tries.outcome hs
  generalize ident s = result at hident ⊢
  split at hident
  · obtain ⟨hread, hreaches⟩ := hident
    obtain ⟨hopens, hlongest⟩ := ident?_iff.mp hread
    exact ⟨hopens, hlongest, hreaches⟩
  · obtain ⟨hnone, huntouched⟩ := hident
    exact ⟨fun hopens => opensIdentifier_iff.mp hopens hnone, huntouched⟩
  · exact hident

/-- Two hyphens, an escape with the blank that ends it, and a blank that ends the run. -/
theorem ident_spells_of_escape :
    ∃ s s', Scanner.Sound s ∧ s.unread = "--\\41 b c".toList ∧
      ident s = .ok (some "--Ab".toList) s' ∧ OpensIdentifier s.unread ∧
      LongestRun isNameChar s.unread "--Ab".toList s'.unread ∧ s.Reaches s' := by
  have hlength : "--\\41 b c".toList.length < characterLimit := by decide
  obtain ⟨s, hs, hunread, hfits⟩ := exists_scanner rfl hlength
  have hescape : unit? isNameChar "\\41 b c".toList = some ('A', "b c".toList) := rfl
  have hchar : unit? isNameChar "b c".toList = some ('b', " c".toList) := rfl
  have hstop : unit? isNameChar " c".toList = none := rfl
  have hread : ident? "--\\41 b c".toList = some ("--Ab".toList, " c".toList) := by
    change ident? ('-' :: '-' :: "\\41 b c".toList) = _
    rw [ident?, units_of_some hescape, units_of_some hchar, units_of_none hstop]
    rfl
  obtain ⟨s', hident⟩ := ident_tries.ok_of_fits hs hfits
  rw [hunread, attempt_of_some hread] at hident
  have hspells := ident_spells hs
  rw [hident] at hspells
  exact ⟨s, s', hs, hunread, hident, hspells⟩

end CssLex.Production
