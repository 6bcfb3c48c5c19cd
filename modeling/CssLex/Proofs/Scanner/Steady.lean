import CssLex.Proofs.Scanner.Behind
import CssLex.Proofs.Scanner.Pairing
import CssLex.Proofs.Scanner.Reached
import CssLex.Proofs.Scanner.Upcoming
import CssLex.Proofs.Serialize.Plain

/-! A scanner up to the next failure of its source. As long as no read fails, it goes in step with a
scanner over a text that is in memory, the preprocessed characters that come before the failure. So
what is known of texts holds of every source, and from each failure on once more. -/

namespace CssLex

namespace Outcomes

/-- The characters in front of the first failure. -/
def untilFailure : List (Except String Char) → List Char
  | .ok c :: rest => c :: untilFailure rest
  | _ => []

theorem preprocessed_of_mem {afterReturn : Bool} {outcomes : List (Except String Char)} {c : Char}
    (h : .ok c ∈ preprocessed afterReturn outcomes) : Scanner.preprocess c = c := by
  fun_induction preprocessed afterReturn outcomes with
  | case1 => cases h
  | case2 _ reason rest ih => exact ih ((List.mem_cons.mp h).resolve_left (by simp))
  | case3 _ d rest _ ih => exact ih h
  | case4 _ d rest _ ih =>
      rcases List.mem_cons.mp h with h | h
      · rw [Except.ok.inj h]
        exact preprocess_idem d
      · exact ih h

theorem mem_of_untilFailure {outcomes : List (Except String Char)} {c : Char}
    (h : c ∈ untilFailure outcomes) : .ok c ∈ outcomes := by
  fun_induction untilFailure outcomes with
  | case1 d rest ih =>
      rcases List.mem_cons.mp h with rfl | h
      · exact List.mem_cons_self
      · exact List.mem_cons_of_mem _ (ih h)
  | case2 => cases h

end Outcomes

namespace Scanner

open Outcomes Scan

variable {s s' : Scanner} {entry : Option Char} {history : List (Option Char)} {c : Char}

/-- The scanner over the preprocessed text that comes before the next failure. -/
def steady (s : Scanner) : Scanner :=
  { s with source := .text (untilFailure s.upcoming), afterReturn := false }

theorem preprocessed_untilFailure (s : Scanner) : Preprocessed (untilFailure s.upcoming) :=
  fun _ hc => preprocessed_of_mem (mem_of_untilFailure hc)

/-- A text that is preprocessed is read as it stands. -/
theorem readPreprocessed_text (hc : preprocess c = c) (rest : List Char) :
    readPreprocessed { s with source := .text (c :: rest), afterReturn := false } =
      .ok (some c) { s with source := .text rest, afterReturn := false } := by
  have hreturn : (some c == some '\r') = false := by
    rw [beq_eq_false_iff_ne]
    rintro ⟨⟩
    cases hc
  change EStateM.Result.ok (some (preprocess c))
    { s with source := .text rest, afterReturn := some c == some '\r' } = _
  rw [hc, hreturn]

/-- As long as no read fails, the same is taken from both scanners. A failing read has found nothing
handed back, and moves nothing but the source. -/
theorem take_steady (s : Scanner) :
    match take s with
    | .ok entry s' => take s.steady = .ok entry s'.steady
    | .error _ s' => s'.deferred = [] ∧ s'.position = s.position ∧ s'.line = s.line := by
  have hpreprocessed := s.preprocessed_untilFailure
  cases hdeferred : s.deferred with
  | cons entry deferred =>
      simp only [take, steady, hdeferred]
      rfl
  | nil =>
      obtain ⟨source, afterReturn, htail, hread⟩ := s.readPreprocessed_upcoming
      rw [take_of_deferred_nil hdeferred, take_of_deferred_nil (s := s.steady) hdeferred, hread,
        steady]
      cases hcoming : s.upcoming with
      | nil =>
          rw [hcoming] at htail
          simp only [steady, htail]
          rfl
      | cons outcome rest =>
          rw [hcoming] at htail hpreprocessed
          cases outcome with
          | error reason => exact ⟨hdeferred, rfl, rfl⟩
          | ok c =>
              have hc := hpreprocessed c List.mem_cons_self
              simp only [steady, htail, List.tail_cons]
              exact readPreprocessed_text hc _

/-! ## One call -/

/-- The steady scanner is sound behind a history, and all that is read is preprocessed. -/
structure Composed (history : List (Option Char)) (s : Scanner) : Prop where
  traced : s.steady.Traced history
  preprocessed : Preprocessed (charsOf history ++ s.steady.unread)

/-- What was read before need not be known. -/
theorem composed_of_sound (h : s.steady.Sound) (hunread : Preprocessed s.steady.unread) :
    s.Composed [] :=
  ⟨⟨h, 0, [], rfl, by simp⟩, hunread⟩

theorem Composed.forget (h : s.Composed history) : s.Composed [] :=
  composed_of_sound h.traced.sound (h.preprocessed.of_subset (List.subset_append_right _ _))

/-- The steady scanner reads the same entry. -/
theorem next_steady (hnext : Scanner.next s = .ok entry s') :
    Scanner.next s.steady = .ok entry s'.steady := by
  have htaken := take_steady s
  cases htake : take s with
  | error e s₁ =>
      rw [next_of_take_error htake] at hnext
      cases hnext
  | ok first s₁ =>
      rw [htake] at htaken
      cases first with
      | none =>
          rw [next_of_take_none htake] at hnext
          cases hnext
          exact next_of_take_none htaken
      | some c =>
          by_cases hfull : s₁.Full c
          · obtain ⟨s₂, herror⟩ := next_of_full htake hfull
            rw [herror] at hnext
            cases hnext
          · rw [next_of_room htake hfull] at hnext
            cases hnext
            exact next_of_room htaken hfull

theorem Composed.next (h : s.Composed history) (hnext : Scanner.next s = .ok entry s') :
    Scanner.next s.steady = .ok entry s'.steady ∧ s'.Composed (entry :: history) := by
  have hsteady := next_steady hnext
  refine ⟨hsteady, h.traced.next hsteady, ?_⟩
  have hpreprocessed := h.preprocessed
  rw [h.traced.unread_of_next hsteady] at hpreprocessed
  rw [charsOf_cons]
  exact hpreprocessed.of_subset (by simp)

/-- A failure leaves a composed scanner too, with no history. -/
theorem Composed.of_error {e : LexError} (h : s.Composed history)
    (hnext : Scanner.next s = .error e s') : s'.Composed [] := by
  have hsound := h.traced.sound
  have htaken := take_steady s
  rcases next_error_cases hnext with htake | ⟨c, s₁, position, htake, rfl, hle⟩
  -- The read failed: nothing was handed back, so the steady scanner starts behind the failure.
  · rw [htake] at htaken
    obtain ⟨hdeferred, hposition, hline⟩ := htaken
    have hcounted : Counted s'.position s'.line := by
      rw [hposition, hline]
      exact hsound.counted
    have hsteady : s'.steady.Sound := ⟨trivial, ⟨[], 0, hdeferred, by simp⟩, hcounted⟩
    refine composed_of_sound hsteady ?_
    rw [unread_deferred_nil (s := s'.steady) hsteady.reliable hdeferred]
    exact preprocessed_normalize _
  -- A character was read that cannot be counted, and it is lost.
  · rw [htake] at htaken
    obtain ⟨s₂, htake₂, hsound₂, hrest, -⟩ := take_of_sound hsound
    rw [htaken] at htake₂
    obtain ⟨-, rfl⟩ := EStateM.Result.ok.inj htake₂
    obtain ⟨hposition, hpositive, hline⟩ := hsound₂.counted
    obtain ⟨hsteady, hunread⟩ := hsound₂.move ⟨hle hposition, hpositive, hline⟩
    have hmoved : ({ s₁ with position } : Scanner).steady.unread = s.steady.unread.tail :=
      hunread.trans hrest
    refine composed_of_sound hsteady (h.forget.preprocessed.of_subset ?_)
    rw [hmoved]
    exact (List.tail_suffix _).subset

theorem Composed.pushBack (h : s.Composed (entry :: history)) :
    ∃ s', pushBack entry s = .ok () s' ∧ pushBack entry s.steady = .ok () s'.steady ∧
      s'.Composed history := by
  obtain ⟨s', hback, hsteady⟩ : ∃ s', Scanner.pushBack entry s = .ok () s' ∧
      Scanner.pushBack entry s.steady = .ok () s'.steady := by
    cases entry <;> exact ⟨_, rfl, rfl⟩
  refine ⟨s', hback, hsteady, h.traced.pushBack hsteady, ?_⟩
  rw [h.traced.unread_of_pushBack hsteady]
  have hpreprocessed := h.preprocessed
  rw [charsOf_cons] at hpreprocessed
  exact hpreprocessed.of_subset (by simp)

/-! ## Whole scans -/

/-- A scanner that is composed, next to its steady one. -/
def steadying : Pairing where
  Along history s f := f = s.steady ∧ s.Composed history
  Failed _ s _ := s.Composed []
  Alone _ s := s.Composed []

theorem steadying_inStep : steadying.InStep where
  next := by
    rintro history s _ ⟨rfl, h⟩
    cases hnext : Scanner.next s with
    | error e s' => exact .alone (h.of_error hnext)
    | ok entry s' =>
        obtain ⟨hsteady, h'⟩ := h.next hnext
        rw [hsteady]
        exact .ok rfl ⟨rfl, h'⟩
  pushBack := by
    rintro entry history s _ ⟨rfl, h⟩
    obtain ⟨s', hback, hsteady, h'⟩ := h.pushBack
    rw [hback, hsteady]
    exact .ok rfl ⟨rfl, h'⟩

/-- What a scan gives, it has read from a preprocessed text. Whether it gives anything or fails, it
leaves a composed scanner. -/
theorem Composed.of_reads {α : Type} {p : Scan α} {f : List Char → α × List Char} (hp : Roams p)
    (hf : Reads p f) (h : s.Composed []) :
    match p s with
    | .ok a s' => (∃ text, Preprocessed text ∧ a = (f text).1) ∧ s'.Composed []
    | .error _ s' => s'.Composed [] := by
  have hcomes := hp [] steadying steadying_inStep [] s s.steady ⟨rfl, h⟩
  cases hresult : p s with
  | error e s' =>
      rw [hresult] at hcomes
      generalize p s.steady = second at hcomes
      cases hcomes with
      | failed hfailed => exact hfailed
      | alone halone => exact halone
  | ok a s' =>
      rw [hresult] at hcomes
      generalize hsecond : p s.steady = second at hcomes
      cases hcomes with
      | ok _ halong =>
          obtain ⟨rfl, h'⟩ := halong
          obtain ⟨hread, -⟩ := hf.of_ok h.traced.sound hsecond
          exact ⟨⟨s.steady.unread, h.preprocessed, by rw [hread]⟩, h'.forget⟩

end Scanner
end CssLex
