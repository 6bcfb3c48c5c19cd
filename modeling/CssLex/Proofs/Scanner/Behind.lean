import CssLex.Scanner.Basic

/-! Offset and line. They count the characters that were read and not handed back: handing back the
entry that was read last undoes what reading it has counted, and nothing is rounded. -/

namespace CssLex.Scanner

/-- The characters among some entries. -/
def charsOf (entries : List (Option Char)) : List Char := entries.filterMap id

theorem charsOf_cons (entry : Option Char) (entries : List (Option Char)) :
    charsOf (entry :: entries) = entry.toList ++ charsOf entries := by
  cases entry <;> rfl

/-- Offset and line are those behind the characters of a history, which started at some offset and
behind some lines. -/
structure Behind (offset lines : Nat) (history : List (Option Char)) (s : Scanner) : Prop where
  position : s.position = offset + (charsOf history).length
  line : s.line = 1 + lines + (charsOf history).count '\n'
  position_le : s.position ≤ characterLimit
  line_le : s.line ≤ characterLimit

/-- The scanner behind a character that was counted. -/
def advanced (s : Scanner) (c : Char) : Scanner :=
  { s with position := s.position + 1, line := s.line + if c = '\n' then 1 else 0 }

/-- A character cannot be counted any more. -/
def Full (s : Scanner) (c : Char) : Prop :=
  s.position = characterLimit ∨ c = '\n' ∧ s.line = characterLimit

variable {s s' : Scanner} {c : Char} {offset lines : Nat} {history : List (Option Char)}

theorem count_of_full (h : s.Full c) : ∃ s', count c s = .error .tooLong s' := by
  unfold count
  by_cases hposition : s.position = characterLimit
  · exact ⟨s, by rw [if_pos hposition]⟩
  · obtain ⟨hc, hline⟩ := h.resolve_left hposition
    exact ⟨{ s with position := s.position + 1 }, by rw [if_neg hposition, if_pos hc, if_pos hline]⟩

theorem count_of_room (h : ¬ s.Full c) : count c s = .ok () (s.advanced c) := by
  obtain ⟨hposition, hline⟩ := not_or.mp h
  unfold count advanced
  rw [if_neg hposition]
  by_cases hc : c = '\n'
  · rw [if_pos hc, if_neg (not_and.mp hline hc), if_pos hc]
  · rw [if_neg hc, if_neg hc]
    rfl

theorem next_of_take_none (h : take s = .ok none s') : next s = .ok none s' := by
  simp only [next, Bind.bind, EStateM.bind, h]
  rfl

theorem next_of_room (h : take s = .ok (some c) s') (hroom : ¬ s'.Full c) :
    next s = .ok (some c) (s'.advanced c) := by
  simp only [next, Bind.bind, EStateM.bind, h, count_of_room hroom]
  rfl

theorem next_of_full (h : take s = .ok (some c) s') (hfull : s'.Full c) :
    ∃ s'', next s = .error .tooLong s'' := by
  obtain ⟨s'', hcount⟩ := count_of_full hfull
  exact ⟨s'', by simp only [next, Bind.bind, EStateM.bind, h, hcount]⟩

theorem next_of_take_error {e : LexError} (h : take s = .error e s') : next s = .error e s' := by
  simp only [next, Bind.bind, EStateM.bind, h]

/-- A character that cannot be counted moves the offset at most, and not past its limit. -/
theorem count_error {e : LexError} (h : count c s = .error e s') :
    ∃ position, s' = { s with position } ∧
      (s.position ≤ characterLimit → position ≤ characterLimit) := by
  unfold count at h
  by_cases hposition : s.position = characterLimit
  · rw [if_pos hposition] at h
    cases h
    exact ⟨s.position, rfl, id⟩
  · rw [if_neg hposition] at h
    refine ⟨s.position + 1, ?_, fun hle => Nat.lt_of_le_of_ne hle hposition⟩
    dsimp only at h
    split at h
    · split at h
      · cases h
        rfl
      · cases h
    · cases h

/-- Where a read fails, the source has failed, or the character that was taken cannot be counted. -/
theorem next_error_cases {e : LexError} (h : next s = .error e s') :
    take s = .error e s' ∨ ∃ c s₁ position, take s = .ok (some c) s₁ ∧ s' = { s₁ with position } ∧
      (s₁.position ≤ characterLimit → position ≤ characterLimit) := by
  simp only [next, Bind.bind, EStateM.bind] at h
  cases htake : take s with
  | error e' s₁ =>
      rw [htake] at h
      cases h
      exact .inl rfl
  | ok entry s₁ =>
      rw [htake] at h
      cases entry with
      | none => cases h
      | some c =>
          simp only [EStateM.bind] at h
          cases hcount : count c s₁ with
          | ok _ s₂ => simp only [hcount] at h; cases h
          | error e' s₂ =>
              simp only [hcount] at h
              cases h
              obtain ⟨position, hs, hle⟩ := count_error hcount
              exact .inr ⟨c, s₁, position, rfl, hs, hle⟩

/-- Only offset and line matter. -/
theorem Behind.congr (h : s.Behind offset lines history) (hposition : s'.position = s.position)
    (hline : s'.line = s.line) : s'.Behind offset lines history :=
  ⟨hposition ▸ h.position, hline ▸ h.line, hposition ▸ h.position_le, hline ▸ h.line_le⟩

theorem Behind.none (h : s.Behind offset lines history) :
    s.Behind offset lines (Option.none :: history) :=
  ⟨h.position, h.line, h.position_le, h.line_le⟩

theorem Behind.advanced (h : s.Behind offset lines history) (hroom : ¬ s.Full c) :
    (s.advanced c).Behind offset lines (some c :: history) := by
  obtain ⟨hposition, hline, hle, hline_le⟩ := h
  obtain ⟨hroom, hbreak⟩ := not_or.mp hroom
  have hchars : charsOf (some c :: history) = c :: charsOf history := rfl
  have hlast : c = '\n' → s.line < characterLimit :=
    fun hc => Nat.lt_of_le_of_ne hline_le (not_and.mp hbreak hc)
  constructor
  · rw [hchars, List.length_cons, ← Nat.add_assoc, ← hposition]
    rfl
  · rw [hchars, List.count_cons, Scanner.advanced, hline]
    simp only [beq_iff_eq]
    omega
  · exact Nat.lt_of_le_of_ne hle hroom
  · change (s.line + if c = '\n' then 1 else 0) ≤ _
    split
    · next hc => exact hlast hc
    · exact hline_le

/-- Handing back the last entry goes back to where it was read. -/
theorem Behind.pushBack {entry : Option Char} (h : s.Behind offset lines (entry :: history)) :
    ∃ position line, pushBack entry s =
        .ok () { s with deferred := entry :: s.deferred, position, line } ∧
      ({ s with deferred := entry :: s.deferred, position, line } : Scanner).Behind offset lines
        history := by
  obtain ⟨hposition, hline, hle, hline_le⟩ := h
  cases entry with
  | none => exact ⟨s.position, s.line, rfl, hposition, hline, hle, hline_le⟩
  | some c =>
      rw [charsOf_cons, Option.toList_some, List.singleton_append, List.length_cons] at hposition
      rw [charsOf_cons, Option.toList_some, List.singleton_append, List.count_cons] at hline
      simp only [beq_iff_eq] at hline
      refine ⟨_, _, rfl, ?_, ?_, ?_, ?_⟩
      · change s.position - 1 = _
        omega
      · change (if c = '\n' then max (s.line - 1) 1 else s.line) = _
        split at hline
        · next hbreak =>
          rw [if_pos hbreak]
          omega
        · next hother =>
          rw [if_neg hother]
          omega
      · change s.position - 1 ≤ _
        omega
      · change (if c = '\n' then max (s.line - 1) 1 else s.line) ≤ _
        split <;> omega

end CssLex.Scanner
