import CssLex.Scanner.Basic

/-!
How many characters a scan uses up. A scan may read ahead and hand characters back; what counts is
by how much the number of characters still to come has fallen once it is done.
-/

namespace CssLex
namespace Scan

variable {α β : Type}

/-- Whenever `p` gives `a`, at least `cost a` fewer characters are to come than before. -/
def Spends (p : Scan α) (cost : α → Int) : Prop :=
  ∀ s a s', p s = .ok a s' → (s'.remaining : Int) + cost a ≤ s.remaining

theorem bind_eq_ok {p : Scan α} {k : α → Scan β} {s s' : Scanner} {b : β} :
    (p >>= k) s = .ok b s' ↔ ∃ a s₁, p s = .ok a s₁ ∧ k a s₁ = .ok b s' := by
  simp only [Bind.bind, EStateM.bind]
  constructor
  · intro h
    split at h
    · next a s₁ h₁ => exact ⟨a, s₁, h₁, h⟩
    · cases h
  · rintro ⟨a, s₁, h₁, h₂⟩
    rw [h₁]
    exact h₂

theorem pure_eq_ok {a b : α} {s s' : Scanner} :
    (Pure.pure a : Scan α) s = .ok b s' ↔ a = b ∧ s = s' := by
  simp [Pure.pure, EStateM.pure]

theorem Spends.bind {p : Scan α} {k : α → Scan β} {first : α → Int} {cost : β → Int}
    (hp : Spends p first) (hk : ∀ a, Spends (k a) (fun b => cost b - first a)) :
    Spends (p >>= k) cost := by
  intro s b s' h
  obtain ⟨a, s₁, h₁, h⟩ := bind_eq_ok.mp h
  have h₂ := hp s a s₁ h₁
  have h₃ : (s'.remaining : Int) + (cost b - first a) ≤ s₁.remaining := hk a s₁ b s' h
  omega

theorem Spends.pure {cost : α → Int} {a : α} (h : cost a ≤ 0) :
    Spends (Pure.pure a : Scan α) cost := by
  intro s b s' h'
  cases h'
  omega

theorem Spends.error {cost : α → Int} {e : LexError} :
    Spends (throw e : Scan α) cost := by
  intro s a s' h
  cases h

theorem Spends.mono {p : Scan α} {cost least : α → Int} (hp : Spends p cost)
    (h : ∀ a, least a ≤ cost a) : Spends p least := by
  intro s a s' hs
  have := hp s a s' hs
  have := h a
  omega

/-- What reading an entry uses up: a character counts, the end of the input does not. -/
def costOf (entry : Option Char) : Int := if entry.isSome then 1 else 0

@[simp] theorem costOf_none : costOf none = 0 := rfl

@[simp] theorem costOf_some (c : Char) : costOf (some c) = 1 := rfl

end Scan

namespace Scanner

open Scan

theorem readRaw_remaining {s s' : Scanner} {c : Option Char} (h : readRaw s = .ok c s') :
    s'.deferred = s.deferred ∧ (s'.source.size : Int) + costOf c ≤ s.source.size := by
  unfold readRaw at h
  split at h
  · next heq =>
    cases h
    have := Source.read_size heq
    refine ⟨rfl, ?_⟩
    cases c <;>
      simp only [Option.toList_none, Option.toList_some, List.length_nil, List.length_singleton,
        costOf_none, costOf_some] at this ⊢ <;> omega
  · cases h

theorem readUncoupled_remaining {s s' : Scanner} {c : Option Char}
    (h : readUncoupled s = .ok c s') :
    s'.deferred = s.deferred ∧ (s'.source.size : Int) + costOf c ≤ s.source.size := by
  unfold readUncoupled at h
  split at h
  · cases h
  · next c₁ s₁ h₁ =>
    have h₁ := readRaw_remaining h₁
    split at h
    · have h₂ := readRaw_remaining h
      have hc : 0 ≤ costOf c₁ := by cases c₁ <;> simp
      exact ⟨h₂.1.trans h₁.1, by simp only at h₂; omega⟩
    · cases h
      exact h₁

theorem take_spends : Spends take costOf := by
  intro s c s' h
  unfold take at h
  split at h
  · next entry deferred heq =>
    cases h
    cases c <;>
      simp only [remaining, heq, List.countP_cons, Option.isSome_none, Option.isSome_some,
        Bool.false_eq_true, if_true, if_false, costOf_none, costOf_some] <;> omega
  · unfold readPreprocessed at h
    split at h
    · cases h
    · next c₁ s₁ h₁ =>
      cases h
      have hless := readUncoupled_remaining h₁
      simp only [remaining, hless.1]
      cases c₁ <;>
        simp only [Option.map_none, Option.map_some, costOf_none, costOf_some] at hless ⊢ <;> omega

theorem count_spends (c : Char) : Spends (count c) (fun _ => 0) := by
  intro s u s' h
  simp only [count] at h
  repeat' split at h
  all_goals cases h
  all_goals simp [remaining]

theorem next_spends : Spends next costOf := by
  refine take_spends.bind fun c => ?_
  cases c with
  | none => exact .pure (by simp)
  | some c => exact (count_spends c).bind fun _ => .pure (by simp)

theorem pushBack_spends (entry : Option Char) :
    Spends (pushBack entry) (fun _ => -costOf entry) := by
  intro s u s' h
  unfold pushBack at h
  split at h <;> cases h <;>
    simp only [remaining, List.countP_cons, Option.isSome_none, Option.isSome_some,
      Bool.false_eq_true, if_true, if_false, costOf_none, costOf_some] <;> omega

theorem takeIf_spends (accept : Char → Bool) : Spends (takeIf accept) costOf := by
  refine next_spends.bind fun c => ?_
  cases c with
  | none => exact (pushBack_spends none).bind fun _ => .pure (by simp)
  | some c =>
    simp only
    split
    · exact .pure (by simp)
    · exact (pushBack_spends (some c)).bind fun _ => .pure (by simp)

theorem eat_spends (c : Char) : Spends (eat c) (fun eaten => if eaten then 1 else 0) := by
  refine next_spends.bind fun entry => ?_
  split
  · exact .pure (by simp_all)
  · exact (pushBack_spends entry).bind fun _ => .pure (by simp)

/-- A poised scanner has a next character. -/
theorem next_of_poised {s s' : Scanner} {entry : Option Char} (hs : s.Poised)
    (h : next s = .ok entry s') : ∃ c, entry = some c := by
  obtain ⟨top, s₁, h₁, h⟩ := bind_eq_ok.mp h
  unfold take at h₁
  split at h₁
  · next first deferred heq =>
    cases h₁
    cases top with
    | none => simp [Poised, heq] at hs
    | some c =>
      obtain ⟨_, _, _, h⟩ := bind_eq_ok.mp h
      exact ⟨c, (pure_eq_ok.mp h).1.symm⟩
  · next heq => simp [Poised, heq] at hs

theorem poised_pushBack {s s' : Scanner} {c : Char} {u : Unit}
    (h : pushBack (some c) s = .ok u s') : s'.Poised := by
  cases h
  simp [Poised]

/-- A poised scanner stays so when its character is not accepted. -/
theorem poised_takeIf {accept : Char → Bool} {s s' : Scanner} (hs : s.Poised)
    (h : takeIf accept s = .ok none s') : s'.Poised := by
  obtain ⟨entry, s₁, h₁, h⟩ := bind_eq_ok.mp h
  obtain ⟨c, rfl⟩ := next_of_poised hs h₁
  simp only at h
  split at h
  · simp [pure_eq_ok] at h
  · obtain ⟨_, _, h₂, h⟩ := bind_eq_ok.mp h
    obtain ⟨_, rfl⟩ := pure_eq_ok.mp h
    exact poised_pushBack h₂

/-- A poised scanner stays so when its character is not the expected one. -/
theorem poised_eat {c : Char} {s s' : Scanner} (hs : s.Poised)
    (h : eat c s = .ok false s') : s'.Poised := by
  obtain ⟨entry, s₁, h₁, h⟩ := bind_eq_ok.mp h
  obtain ⟨c, rfl⟩ := next_of_poised hs h₁
  split at h
  · simp [pure_eq_ok] at h
  · obtain ⟨_, _, h₂, h⟩ := bind_eq_ok.mp h
    obtain ⟨_, rfl⟩ := pure_eq_ok.mp h
    exact poised_pushBack h₂

end Scanner
end CssLex
