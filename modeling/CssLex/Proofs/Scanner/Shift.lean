import CssLex.Proofs.Scanner.Behind
import CssLex.Proofs.Scanner.Pairing
import CssLex.Proofs.Scanner.Upcoming

/-! Scanners further on in a text. A scanner that stands some characters and lines further on than
another one goes in step with it as long as the same comes to both, and reports the same failures;
only the largest offset and the largest line come to it earlier. -/

namespace CssLex.Scanner

open Outcomes Scan

/-- The same comes to both scanners, and the first one stands further on. -/
structure Ahead (offset lines : Nat) (history : List (Option Char)) (s f : Scanner) : Prop where
  deferred : s.deferred = f.deferred
  upcoming : s.upcoming = f.upcoming
  ahead : s.Behind offset lines history
  behind : f.Behind 0 0 history

variable {offset lines : Nat} {history : List (Option Char)} {s f : Scanner}

theorem Ahead.position (h : s.Ahead offset lines history f) : s.position = f.position + offset := by
  rw [h.ahead.position, h.behind.position, Nat.zero_add, Nat.add_comm]

theorem Ahead.line (h : s.Ahead offset lines history f) : s.line = f.line + lines := by
  rw [h.ahead.line, h.behind.line, Nat.add_zero, Nat.add_right_comm]

theorem Ahead.take (h : s.Ahead offset lines history f) :
    match take s with
    | .ok entry s' => ∃ f', take f = .ok entry f' ∧ s'.Ahead offset lines history f'
    | .error e s' => ∃ f', take f = .error e f' ∧ s'.Ahead offset lines history f' := by
  obtain ⟨hdeferred, hupcoming, hahead, hbehind⟩ := h
  cases hs : s.deferred with
  | cons entry deferred =>
      have hf : f.deferred = entry :: deferred := hdeferred ▸ hs
      simp only [Scanner.take, hs, hf]
      exact ⟨_, rfl, rfl, hupcoming, hahead.congr rfl rfl, hbehind.congr rfl rfl⟩
  | nil =>
      have hf : f.deferred = [] := hdeferred ▸ hs
      obtain ⟨source, afterReturn, hrest, hread⟩ := readPreprocessed_upcoming s
      obtain ⟨source', afterReturn', hrest', hread'⟩ := readPreprocessed_upcoming f
      have halong : ({ s with source, afterReturn } : Scanner).Ahead offset lines history
          { f with source := source', afterReturn := afterReturn' } :=
        ⟨hdeferred, by rw [hrest, hrest', hupcoming], hahead.congr rfl rfl, hbehind.congr rfl rfl⟩
      rw [take_of_deferred_nil hs, take_of_deferred_nil hf, hread, hread', hupcoming]
      rcases f.upcoming with - | ⟨reason | c, rest⟩ <;> exact ⟨_, rfl, halong⟩

/-- Where the first scanner can count a character, so can the other one. -/
theorem Ahead.room (h : s.Ahead offset lines history f) {c : Char} (hroom : ¬ s.Full c) :
    ¬ f.Full c := by
  obtain ⟨hposition, hbreak⟩ := not_or.mp hroom
  rintro (hfull | ⟨hc, hfull⟩)
  · have := h.position
    have := h.ahead.position_le
    omega
  · have := h.line
    have := h.ahead.line_le
    exact hbreak ⟨hc, by omega⟩

/-- Two scanners of which the first one stands further on. -/
def shifting (offset lines : Nat) : Pairing where
  Along := Ahead offset lines
  Failed _ s f := ∃ history, s.Ahead offset lines history f
  Alone e _ := e = .tooLong

theorem shifting_inStep (offset lines : Nat) : (shifting offset lines).InStep where
  next := by
    intro history s f h
    have htake := Ahead.take h
    cases hresult : Scanner.take s with
    | error e s' =>
        rw [hresult] at htake
        obtain ⟨f', hresult', h'⟩ := htake
        rw [next_of_take_error hresult, next_of_take_error hresult']
        exact .failed ⟨_, h'⟩
    | ok entry s' =>
        rw [hresult] at htake
        obtain ⟨f', hresult', h'⟩ := htake
        cases entry with
        | none =>
            rw [next_of_take_none hresult, next_of_take_none hresult']
            exact .ok rfl ⟨h'.deferred, h'.upcoming, h'.ahead.none, h'.behind.none⟩
        | some c =>
            by_cases hfull : s'.Full c
            · obtain ⟨s'', hnext⟩ := next_of_full hresult hfull
              rw [hnext]
              exact .alone rfl
            · have hroom := h'.room hfull
              rw [next_of_room hresult hfull, next_of_room hresult' hroom]
              exact .ok rfl ⟨h'.deferred, h'.upcoming, h'.ahead.advanced hfull,
                h'.behind.advanced hroom⟩
  pushBack := by
    intro entry history s f h
    obtain ⟨position, line, hback, hahead⟩ := h.ahead.pushBack
    obtain ⟨position', line', hback', hbehind⟩ := h.behind.pushBack
    rw [hback, hback']
    exact .ok rfl ⟨congrArg (entry :: ·) h.deferred, h.upcoming, hahead, hbehind⟩

/-- What goes in step comes to the same further on, unless it comes to the limits there. -/
theorem Ahead.of_roams {α : Type} {p : Scan α} (hp : Roams p)
    (h : s.Ahead offset lines history f) :
    match p s with
    | .ok a s' => ∃ f' history, p f = .ok a f' ∧ s'.Ahead offset lines history f'
    | .error e s' =>
        e = .tooLong ∨ ∃ f' history, p f = .error e f' ∧ s'.Ahead offset lines history f' := by
  have hcomes := hp [] (shifting offset lines) (shifting_inStep offset lines) history s f h
  cases hresult : p s with
  | error e s' =>
      rw [hresult] at hcomes
      generalize p f = second at hcomes
      cases hcomes with
      | failed hfailed =>
          obtain ⟨history, h'⟩ := hfailed
          exact .inr ⟨_, history, rfl, h'⟩
      | alone halone => exact .inl halone
  | ok a s' =>
      rw [hresult] at hcomes
      generalize p f = second at hcomes
      cases hcomes with
      | ok _ halong => exact ⟨_, _, rfl, halong⟩

end CssLex.Scanner
