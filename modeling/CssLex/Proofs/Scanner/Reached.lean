import CssLex.Proofs.Scanner.Gives

/-! The scanners that reading and handing back lead to. Productions move a scanner in no other
way: they read entries, and hand back what they read, the last entry first. -/

namespace CssLex.Scanner

open Scan

/-- A scanner over a source after some reading and handing back. The history holds the entries
that were read and not handed back, the last one in front. -/
inductive Reached (source : Source) : List (Option Char) → Scanner → Prop where
  | start : Reached source [] { source }
  | next {history : List (Option Char)} {s s' : Scanner} {entry : Option Char} :
      Reached source history s → next s = .ok entry s' → Reached source (entry :: history) s'
  | pushBack {history : List (Option Char)} {s s' : Scanner} {entry : Option Char} :
      Reached source (entry :: history) s → pushBack entry s = .ok () s' →
      Reached source history s'

/-- The end of the input is read only behind all characters. -/
structure Traced (history : List (Option Char)) (s : Scanner) : Prop where
  sound : s.Sound
  history : ∃ (ends : Nat) (chars : List Char),
    history = List.replicate ends none ++ List.map some chars ∧ (ends ≠ 0 → s.unread = [])

theorem Traced.next {history : List (Option Char)} {s s' : Scanner} {entry : Option Char}
    (h : s.Traced history) (hnext : next s = .ok entry s') : s'.Traced (entry :: history) := by
  obtain ⟨hsound, ends, chars, hhistory, hends⟩ := h
  cases hunread : s.unread with
  | nil =>
      have hgives := next_gives_none s s hunread hunread (.refl hsound)
      rw [hnext] at hgives
      obtain ⟨rfl, hunread', hreaches⟩ := hgives
      refine ⟨hreaches.sound, ends + 1, chars, ?_, fun _ => hunread'⟩
      rw [hhistory]
      rfl
  | cons c rest =>
      have hgives := next_gives_some c s s hunread hunread (.refl hsound)
      rw [hnext] at hgives
      obtain ⟨rfl, hunread', hreaches⟩ := hgives
      have hnone : ends = 0 := by
        by_cases h : ends = 0
        · exact h
        · simp [hends h] at hunread
      subst hnone
      exact ⟨hreaches.sound, 0, c :: chars, by rw [hhistory]; rfl, by simp⟩

theorem Traced.pushBack {history : List (Option Char)} {s s' : Scanner} {entry : Option Char}
    (h : s.Traced (entry :: history)) (hback : pushBack entry s = .ok () s') :
    s'.Traced history := by
  obtain ⟨hsound, ends, chars, hhistory, hends⟩ := h
  cases ends with
  | succ ends =>
      obtain ⟨rfl, rfl⟩ := List.cons.inj hhistory
      have hunread := hends (by simp)
      have hgives := pushBack_gives_none s s hunread hunread (.refl hsound)
      rw [hback] at hgives
      exact ⟨hgives.2.2.sound, ends, chars, rfl, fun _ => hgives.2.1⟩
  | zero =>
      cases chars with
      | nil => cases hhistory
      | cons c chars =>
          obtain ⟨rfl, rfl⟩ := List.cons.inj hhistory
          obtain ⟨s₁, hback₁, hsound₁, -⟩ := hsound.pushBack_some c
          rw [hback] at hback₁
          cases hback₁
          exact ⟨hsound₁, 0, chars, rfl, by simp⟩

/-- A sound scanner that reads an entry had it in front of what it has left. -/
theorem Traced.unread_of_next {history : List (Option Char)} {s s' : Scanner}
    {entry : Option Char} (h : s.Traced history) (hnext : Scanner.next s = .ok entry s') :
    s.unread = entry.toList ++ s'.unread := by
  cases hunread : s.unread with
  | nil =>
      have hgives := next_gives_none s s hunread hunread (.refl h.sound)
      rw [hnext] at hgives
      obtain ⟨rfl, hunread', -⟩ := hgives
      exact hunread'.symm
  | cons c rest =>
      have hgives := next_gives_some c s s hunread hunread (.refl h.sound)
      rw [hnext] at hgives
      obtain ⟨rfl, rfl, -⟩ := hgives
      rfl

/-- What is handed back comes to be in front of what is left. -/
theorem Traced.unread_of_pushBack {history : List (Option Char)} {s s' : Scanner}
    {entry : Option Char} (h : s.Traced (entry :: history))
    (hback : Scanner.pushBack entry s = .ok () s') : s'.unread = entry.toList ++ s.unread := by
  cases entry with
  | some c =>
      obtain ⟨s₁, hback₁, -, hunread, -⟩ := h.sound.pushBack_some c
      rw [hback] at hback₁
      cases hback₁
      exact hunread
  | none =>
      obtain ⟨hsound, ends, chars, hhistory, hends⟩ := h
      have hunread : s.unread = [] := by
        cases ends with
        | succ ends => exact hends (by simp)
        | zero => cases chars <;> cases hhistory
      rw [hunread]
      cases hback
      exact (hsound.defer_none hunread).2

theorem Reached.traced {source : Source} (hsource : source.Reliable)
    {history : List (Option Char)} {s : Scanner} (h : Reached source history s) :
    s.Traced history := by
  induction h with
  | start => exact ⟨sound_start hsource, 0, [], rfl, by simp⟩
  | next _ hnext ih => exact ih.next hnext
  | pushBack _ hback ih => exact ih.pushBack hback

end CssLex.Scanner
