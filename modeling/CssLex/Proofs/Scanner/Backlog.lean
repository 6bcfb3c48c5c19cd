import CssLex.Scanner.Loop

/-! How many entries are pushed back. Reading takes one of them away and handing back adds one, so
what a scan leaves is bounded by what it starts with and by its result. -/

namespace CssLex

/-- Whatever a computation comes to, it leads from a state with `P` to a state with `P`. -/
def Keeps {σ α : Type} (P : σ → Prop) (p : EStateM LexError σ α) : Prop :=
  ∀ s, P s →
    match p s with
    | .ok _ s' => P s'
    | .error _ s' => P s'

theorem Keeps.map {σ α β : Type} {P : σ → Prop} {p : EStateM LexError σ α} (h : Keeps P p)
    (f : α → β) : Keeps P (f <$> p) := by
  intro s hs
  have hp := h s hs
  simp only [Functor.map, EStateM.map]
  cases hps : p s with
  | error e s₁ =>
      rw [hps] at hp
      exact hp
  | ok a s₁ =>
      rw [hps] at hp
      exact hp

namespace Scan

open Scanner

variable {α β : Type} {m n : Nat}

/-- From at most `n` entries that were pushed back, the scan leaves at most `left a` with the
result `a`, and at most four where it fails. -/
def Leaves (n : Nat) (p : Scan α) (left : α → Nat) : Prop :=
  ∀ s : Scanner, s.pending ≤ n →
    match p s with
    | .ok a s' => s'.pending ≤ left a
    | .error _ s' => s'.pending ≤ 4

theorem Leaves.pure {left : α → Nat} {a : α} (h : n ≤ left a) :
    Leaves n (Pure.pure a : Scan α) left :=
  fun _ hs => Nat.le_trans hs h

theorem Leaves.error {left : α → Nat} {e : LexError} (h : n ≤ 4) :
    Leaves n (throw e : Scan α) left :=
  fun _ hs => Nat.le_trans hs h

theorem Leaves.bind {p : Scan α} {k : α → Scan β} {middle : α → Nat} {left : β → Nat}
    (hp : Leaves n p middle) (hk : ∀ a, Leaves (middle a) (k a) left) :
    Leaves n (p >>= k) left := by
  intro s hs
  have h := hp s hs
  simp only [Bind.bind, EStateM.bind]
  cases hps : p s with
  | error e s₁ =>
      rw [hps] at h
      exact h
  | ok a s₁ =>
      rw [hps] at h
      exact hk a s₁ h

theorem Leaves.mono {p : Scan α} {left left' : α → Nat} (h : Leaves n p left) (hm : m ≤ n)
    (hleft : ∀ a, left a ≤ left' a) : Leaves m p left' := by
  intro s hs
  have hn := h s (Nat.le_trans hs hm)
  cases hps : p s with
  | error e s₁ =>
      rw [hps] at hn
      exact hn
  | ok a s₁ =>
      rw [hps] at hn
      exact Nat.le_trans hn (hleft a)

end Scan

namespace Scanner

open Scan

variable {n : Nat}

/-! Reading from the source leaves alone what was pushed back. -/

variable (deferred : List (Option Char))

theorem readRaw_keeps : Keeps (fun s : Scanner => s.deferred = deferred) readRaw := by
  intro s hs
  unfold readRaw
  cases s.source.read <;> exact hs

theorem readUncoupled_keeps : Keeps (fun s : Scanner => s.deferred = deferred) readUncoupled := by
  intro s hs
  have hraw := readRaw_keeps deferred s hs
  unfold readUncoupled
  cases hread : readRaw s with
  | error e s₁ =>
      rw [hread] at hraw
      exact hraw
  | ok c s₁ =>
      rw [hread] at hraw
      by_cases hpass : (s.afterReturn && c == some '\n') = true
      · -- the line feed of a carriage return is passed over
        simp only [hpass, if_true]
        exact readRaw_keeps deferred { s₁ with afterReturn := false } hraw
      · simp only [hpass]
        exact hraw

theorem readPreprocessed_keeps :
    Keeps (fun s : Scanner => s.deferred = deferred) readPreprocessed := by
  intro s hs
  have huncoupled := readUncoupled_keeps deferred s hs
  unfold readPreprocessed
  cases hread : readUncoupled s with
  | error e s₁ =>
      rw [hread] at huncoupled
      exact huncoupled
  | ok c s₁ =>
      rw [hread] at huncoupled
      exact huncoupled

theorem take_leaves : Leaves n take fun _ => n - 1 := by
  intro s hs
  unfold take
  cases hdeferred : s.deferred with
  | cons entry deferred =>
      simp only [pending, hdeferred, List.length_cons] at hs ⊢
      omega
  | nil =>
      have hsource := readPreprocessed_keeps [] s hdeferred
      cases hread : readPreprocessed s with
      | error e s₁ =>
          rw [hread] at hsource
          simp [pending, show s₁.deferred = [] from hsource]
      | ok c s₁ =>
          rw [hread] at hsource
          simp [pending, show s₁.deferred = [] from hsource]

theorem count_leaves (c : Char) (hn : n ≤ 4) : Leaves n (count c) fun _ => n := by
  intro s hs
  simp only [count]
  by_cases hposition : s.position = characterLimit
  · rw [if_pos hposition]
    exact Nat.le_trans hs hn
  rw [if_neg hposition]
  by_cases hbreak : c = '\n'
  · rw [if_pos hbreak]
    by_cases hline : s.line = characterLimit
    · rw [if_pos hline]
      exact Nat.le_trans hs hn
    · rw [if_neg hline]
      exact hs
  · rw [if_neg hbreak]
    exact hs

/-- Reading takes away an entry, if there is one. -/
theorem next_leaves (hn : n ≤ 4) : Leaves n next fun _ => n - 1 := by
  refine take_leaves.bind fun c => ?_
  cases c with
  | none => exact .pure (Nat.le_refl _)
  | some c => exact (count_leaves c (by omega)).bind fun _ => .pure (Nat.le_refl _)

theorem pushBack_leaves (entry : Option Char) : Leaves n (pushBack entry) fun _ => n + 1 := by
  intro s hs
  cases entry <;> exact Nat.succ_le_succ hs

theorem takeIf_leaves (accept : Char → Bool) (hpos : 1 ≤ n) (hn : n ≤ 4) :
    Leaves n (takeIf accept) fun c => n - c.isSome.toNat := by
  refine (next_leaves hn).bind fun c => ?_
  cases c with
  | none => exact (pushBack_leaves none).bind fun _ => .pure (by simp; omega)
  | some c =>
      simp only
      split
      · exact .pure (by simp)
      · exact (pushBack_leaves (some c)).bind fun _ => .pure (by simp; omega)

theorem eat_leaves (c : Char) (hpos : 1 ≤ n) (hn : n ≤ 4) :
    Leaves n (eat c) fun eaten => n - eaten.toNat := by
  refine (next_leaves hn).bind fun entry => ?_
  split
  · exact .pure (by simp)
  · exact (pushBack_leaves entry).bind fun _ => .pure (by simp; omega)

end Scanner

namespace Loop

open Scan Scanner

variable {α β : Type} {n : Nat}

/-- What the turns of a loop keep is kept by the loop. -/
theorem run_leaves {loop : Loop α β} (h : Leaves n loop.turn fun _ => n) :
    Leaves n loop.run fun _ => n := by
  intro s hs
  unfold run
  generalize ([] : List α) = read
  fun_induction runFrom loop read s with
  | case1 read s e s₁ h₁ =>
      have hturn := h s hs
      rw [h₁] at hturn
      exact hturn
  | case2 read s last s₁ h₁ =>
      have hturn := h s hs
      rw [h₁] at hturn
      exact hturn
  | case3 read s item s₁ h₁ _ ih =>
      have hturn := h s hs
      rw [h₁] at hturn
      exact ih hturn

/-- A reader that is repeated hands back what it does not take. -/
theorem repeating_leaves {reader : Scan (Option α)}
    (hreader : Scan.Spends reader fun item => if item.isSome then 1 else 0)
    (h : Leaves n reader fun item => n - item.isSome.toNat) :
    Leaves n (Loop.repeating reader hreader).run fun _ => n := by
  refine run_leaves (h.bind fun item => ?_)
  cases item <;> exact .pure (Nat.sub_le _ _)

end Loop
end CssLex
