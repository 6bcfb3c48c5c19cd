import CssLex.Proofs.Scanner.Behind
import CssLex.Proofs.Scanner.Pairing

/-! What computations fail with. Reading an entry fails where the source does and where a character
cannot be counted, and a scan that reads and hands back fails with nothing else. -/

namespace CssLex

/-- The errors that come from reading a source. -/
inductive LexError.OfReading : LexError → Prop
  | unreadable (reason : String) : OfReading (.unreadable reason)
  | tooLong : OfReading .tooLong

/-- Whatever the computation fails with has this property. -/
def FailsWith {σ α : Type} (E : LexError → Prop) (p : EStateM LexError σ α) : Prop :=
  ∀ s e s', p s = .error e s' → E e

theorem FailsWith.mono {σ α : Type} {E E' : LexError → Prop} {p : EStateM LexError σ α}
    (h : FailsWith E p) (hE : ∀ e, E e → E' e) : FailsWith E' p :=
  fun s e s' herror => hE e (h s e s' herror)

theorem FailsWith.pure {σ α : Type} {E : LexError → Prop} (a : α) :
    FailsWith E (Pure.pure a : EStateM LexError σ α) :=
  nofun

theorem FailsWith.bind {σ α β : Type} {E : LexError → Prop} {p : EStateM LexError σ α}
    {k : α → EStateM LexError σ β} (hp : FailsWith E p) (hk : ∀ a, FailsWith E (k a)) :
    FailsWith E (p >>= k) := by
  intro s e s' h
  simp only [Bind.bind, EStateM.bind] at h
  split at h
  · exact hk _ _ _ _ h
  · next heq =>
    cases h
    exact hp _ _ _ heq

theorem FailsWith.map {σ α β : Type} {E : LexError → Prop} {p : EStateM LexError σ α}
    (h : FailsWith E p) (f : α → β) : FailsWith E (f <$> p) := by
  rw [map_eq_pure_bind]
  exact h.bind fun a => .pure (f a)

namespace Scanner

open Scan

theorem readRaw_fails : FailsWith LexError.OfReading readRaw := by
  intro s e s' h
  unfold readRaw at h
  split at h
  · cases h
  · cases h
    exact .unreadable _

theorem readUncoupled_fails : FailsWith LexError.OfReading readUncoupled := by
  intro s e s' h
  unfold readUncoupled at h
  split at h
  · next heq =>
    cases h
    exact readRaw_fails _ _ _ heq
  · split at h
    · exact readRaw_fails _ _ _ h
    · cases h

theorem readPreprocessed_fails : FailsWith LexError.OfReading readPreprocessed := by
  intro s e s' h
  unfold readPreprocessed at h
  split at h
  · next heq =>
    cases h
    exact readUncoupled_fails _ _ _ heq
  · cases h

theorem take_fails : FailsWith LexError.OfReading take := by
  intro s e s' h
  unfold take at h
  split at h
  · cases h
  · exact readPreprocessed_fails _ _ _ h

theorem count_fails (c : Char) : FailsWith LexError.OfReading (count c) := by
  intro s e s' h
  unfold count at h
  split at h
  · cases h
    exact .tooLong
  · dsimp only at h
    split at h
    · split at h
      · cases h
        exact .tooLong
      · cases h
    · cases h

theorem next_fails : FailsWith LexError.OfReading next := by
  refine take_fails.bind fun entry => ?_
  cases entry with
  | none => exact .pure none
  | some c => exact (count_fails c).bind fun _ => .pure (some c)

/-- A scanner beside itself. -/
def mirrored : Pairing where
  Along _ s f := f = s
  Failed e _ _ := e.OfReading
  Alone e _ := e.OfReading

theorem mirrored_inStep : mirrored.InStep where
  next := by
    rintro history s _ ⟨⟩
    cases hnext : Scanner.next s with
    | error e s' => exact .failed (next_fails _ _ _ hnext)
    | ok entry s' => exact .ok rfl rfl
  pushBack := by
    rintro entry history s _ ⟨⟩
    cases entry with
    | none => exact .ok rfl rfl
    | some c => exact .ok rfl rfl

end Scanner

namespace Scan

open Scanner

variable {α : Type} {p : Scan α} {left : α → List (Option Char) → Prop}

/-- What a scan that goes in step comes to in any scanner, reliable or not. -/
theorem Tracks.outcome (h : Tracks [] p left) (s : Scanner) :
    match p s with
    | .ok a _ => ∃ kept, left a kept
    | .error e _ => e.OfReading := by
  have hcomes := h mirrored mirrored_inStep [] s s rfl
  cases hresult : p s with
  | ok a s' =>
      rw [hresult] at hcomes
      cases hcomes with
      | ok hleft _ => exact ⟨_, hleft⟩
  | error e s' =>
      rw [hresult] at hcomes
      cases hcomes with
      | failed hfailed => exact hfailed
      | alone halone => exact halone

/-- A scan that reads and hands back fails only where reading does. -/
theorem Roams.fails (h : Roams p) : FailsWith LexError.OfReading p := by
  intro s e s' herror
  have houtcome := Tracks.outcome (h []) s
  rw [herror] at houtcome
  exact houtcome

end Scan
end CssLex
