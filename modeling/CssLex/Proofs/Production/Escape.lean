import CssLex.Proofs.Production.Reads
import CssLex.Proofs.Serialize.ReadBack

/-! The escapes that are read. Digits write a character by its number and take one blank with them
where there is room for a further digit, so that a written escape keeps to itself. -/

namespace CssLex.Production

open Grammar Scan Scanner

/-- Reading an escape gives a character and leaves these characters. It fails only where the text
is too long to be counted. -/
def Decodes (s : Scanner) (c : Char) (left : List Char) : Prop :=
  match escape s with
  | .ok found s' => found = some c ∧ s'.unread = left ∧ s.Reaches s'
  | .error e _ => e = .tooLong ∧ ¬ s.Fits

theorem decodes_of_escape? {s : Scanner} (hs : s.Sound) {c : Char} {left : List Char}
    (h : escape? s.unread = some (c, left)) : Decodes s c left := by
  have hescape := escape_tries.outcome hs
  unfold Decodes
  generalize escape s = result at hescape ⊢
  split at hescape
  · obtain ⟨hread, hreaches⟩ := hescape
    rw [h] at hread
    cases hread
    exact ⟨rfl, rfl, hreaches⟩
  · obtain ⟨hnone, -⟩ := hescape
    rw [h] at hnone
    cases hnone
  · exact hescape

/-- Up to six digits write the character with their number, and fewer than six take one blank with
them. What is written for a character of at most five digits reads back as that character, before
any text. -/
theorem hexEscape_decodes {s : Scanner} (hs : s.Sound) :
    (∀ digits rest, s.unread = '\\' :: (digits ++ rest) →
      (∀ d ∈ digits, isHexDigit d = true) → 1 ≤ digits.length → digits.length ≤ 6 →
      (digits.length < 6 → ∀ d ∈ rest.head?, isHexDigit d = false) →
      ∃ c, Numbered (hexMagnitude digits) c ∧
        Decodes s c (if digits.length < 6 ∧ rest.head?.any isBlank then rest.tail else rest)) ∧
    ∀ c rest, c.toNat < 0x100000 → s.unread = Serialize.hexEscaped c ++ rest →
      Decodes s c rest := by
  constructor
  · intro digits rest hunread hdigits hleast hmost hstop
    refine ⟨scalarOrReplacement (hexMagnitude digits), numbered_iff.mpr rfl, ?_⟩
    apply decodes_of_escape? hs
    have hne : digits ≠ [] := List.ne_nil_of_length_pos hleast
    have hnone : digits.length < 6 → char? isHexDigit rest = none := by
      intro hlt
      cases rest with
      | nil => rfl
      | cons d rest => exact char?_of_not_accept (hstop hlt d rfl) rest
    rw [hunread, escape?_digits hdigits hne hmost hnone]
    by_cases hlt : digits.length < 6
    · cases rest with
      | nil => simp [attempt, char?]
      | cons d rest => cases hd : isBlank d <;> simp [attempt, char?, hlt, hd]
    · simp only [hlt, false_and, if_false]
  · intro c rest hc hunread
    apply decodes_of_escape? hs
    rw [hunread, Serialize.escape?_hexEscaped hc]

/-- Five digits, and the blank that keeps a sixth one from them. -/
theorem hexEscape_decodes_of_digit :
    ∃ s : Scanner, s.Sound ∧ s.Fits ∧ s.unread = "\\1f600 a".toList ∧
      (∃ c, Numbered 0x1f600 c ∧ Decodes s c ['a']) ∧ Decodes s '😀' ['a'] := by
  have hlength : "\\1f600 a".toList.length < characterLimit := by decide
  obtain ⟨s, hs, hunread, hfits⟩ := exists_scanner rfl hlength
  have hdecodes := hexEscape_decodes hs
  have hdigits : ∀ d ∈ "1f600".toList, isHexDigit d = true := List.all_eq_true.mp rfl
  have hstop : ∀ d ∈ " a".toList.head?, isHexDigit d = false := by
    rintro d ⟨⟩
    rfl
  have hnumber := hdecodes.1 "1f600".toList " a".toList hunread hdigits (by decide) (by decide)
    fun _ => hstop
  have hwritten := hdecodes.2 '😀' ['a'] (by decide) hunread
  exact ⟨s, hs, hfits, hunread, hnumber, hwritten⟩

end CssLex.Production
