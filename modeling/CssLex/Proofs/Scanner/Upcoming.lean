import CssLex.Proofs.Source.Failing
import CssLex.Proofs.Scanner.Unread

/-! What comes to a scanner from a source that may fail. Preprocessing passes failures on in their
places; a line feed belongs to a carriage return also where failures stand between them. -/

namespace CssLex

namespace Outcomes

/-- The characters among some outcomes. -/
def chars (outcomes : List (Except String Char)) : List Char := outcomes.filterMap Except.toOption

/-- The outcomes after preprocessing, behind a carriage return or not. -/
def preprocessed : Bool → List (Except String Char) → List (Except String Char)
  | _, [] => []
  | afterReturn, .error reason :: rest => .error reason :: preprocessed afterReturn rest
  | afterReturn, .ok c :: rest =>
    if afterReturn && c == '\n' then preprocessed false rest
    else .ok (Scanner.preprocess c) :: preprocessed (c == '\r') rest

/-- The outcomes without the line feed, behind failures or not, that their first character is. -/
def withoutLineFeed : List (Except String Char) → List (Except String Char)
  | [] => []
  | .error reason :: rest => .error reason :: withoutLineFeed rest
  | .ok c :: rest => if c = '\n' then rest else .ok c :: rest

/-- Behind a carriage return the first line feed is as good as not there. -/
theorem preprocessed_withoutLineFeed (outcomes : List (Except String Char)) :
    preprocessed true outcomes = preprocessed false (withoutLineFeed outcomes) := by
  induction outcomes with
  | nil => rfl
  | cons outcome outcomes ih =>
      cases outcome with
      | error reason => rw [withoutLineFeed, preprocessed, preprocessed, ih]
      | ok c => by_cases hc : c = '\n' <;> simp [withoutLineFeed, preprocessed, hc]

end Outcomes

namespace Scanner

open Outcomes

variable {s : Scanner} {source : Source} {afterReturn : Bool}

/-- What comes from the source of a scanner. -/
def upcoming (s : Scanner) : List (Except String Char) :=
  preprocessed s.afterReturn s.source.outcomes

/-- The source from which the next character is taken, and whether it stands behind a carriage
return. The line feed of a carriage return is passed over. -/
inductive Settles (s : Scanner) : Source → Bool → Prop where
  | stays (h : ∀ source, s.source.read = .ok (some '\n') source → s.afterReturn = false) :
      Settles s s.source s.afterReturn
  | passes {source : Source} (hreturn : s.afterReturn = true)
      (h : s.source.read = .ok (some '\n') source) : Settles s source false

theorem exists_settles (s : Scanner) : ∃ source afterReturn, s.Settles source afterReturn := by
  by_cases h : s.afterReturn = true ∧ ∃ source, s.source.read = .ok (some '\n') source
  · obtain ⟨hreturn, source, hread⟩ := h
    exact ⟨source, false, .passes hreturn hread⟩
  · refine ⟨_, _, .stays fun source hread => Bool.eq_false_iff.mpr fun hreturn => ?_⟩
    exact h ⟨hreturn, source, hread⟩

theorem Settles.upcoming (h : s.Settles source afterReturn) :
    s.upcoming = preprocessed afterReturn source.outcomes := by
  cases h with
  | stays => rfl
  | passes hreturn hread =>
      rw [Scanner.upcoming, Source.outcomes_of_char hread, hreturn, preprocessed]
      rfl

theorem Settles.not_lineFeed (h : s.Settles source afterReturn) {source' : Source}
    (hread : source.read = .ok (some '\n') source') : afterReturn = false := by
  cases h with
  | stays hnot => exact hnot source' hread
  | passes => rfl

/-- What the settled source gives is not passed over. -/
theorem Settles.kept (h : s.Settles source afterReturn) {c : Option Char} {source' : Source}
    (hread : source.read = .ok c source') : (afterReturn && c == some '\n') = false := by
  by_cases hc : c = some '\n'
  · rw [h.not_lineFeed (hc ▸ hread)]
    rfl
  · rw [beq_eq_false_iff_ne.mpr hc, Bool.and_false]

/-- The settled source gives the next character. -/
theorem Settles.readPreprocessed (h : s.Settles source afterReturn) :
    readPreprocessed s =
      match source.read with
      | .ok c source' =>
        .ok (c.map preprocess) { s with source := source', afterReturn := c == some '\r' }
      | .error reason source' =>
        .error (.unreadable reason) { s with source := source', afterReturn } := by
  have hkept := @h.kept
  cases h with
  | stays =>
      unfold Scanner.readPreprocessed readUncoupled readRaw
      cases hread : s.source.read with
      | error reason source' => rfl
      | ok c source' => simp only [hkept hread, Bool.false_eq_true, if_false]
  | passes hreturn hread =>
      unfold Scanner.readPreprocessed readUncoupled readRaw
      simp only [hread, hreturn, Bool.true_and, beq_self_eq_true, if_true]
      cases source.read <;> rfl

/-- Reading takes the first of what comes, and nothing but the source is moved. -/
theorem readPreprocessed_upcoming (s : Scanner) :
    ∃ source afterReturn,
      ({ s with source, afterReturn } : Scanner).upcoming = s.upcoming.tail ∧
      readPreprocessed s =
        match s.upcoming with
        | [] => .ok none { s with source, afterReturn }
        | .ok c :: _ => .ok (some c) { s with source, afterReturn }
        | .error reason :: _ => .error (.unreadable reason) { s with source, afterReturn } := by
  obtain ⟨source, afterReturn, h⟩ := exists_settles s
  have houtcomes := source.read_outcomes
  rw [h.readPreprocessed, h.upcoming]
  cases hread : source.read with
  | error reason source' =>
      rw [hread] at houtcomes
      rw [houtcomes, preprocessed]
      exact ⟨source', afterReturn, rfl, rfl⟩
  | ok c source' =>
      rw [hread] at houtcomes
      cases c with
      | none =>
          refine ⟨source', false, ?_⟩
          rw [houtcomes.1, Scanner.upcoming, houtcomes.2, preprocessed, preprocessed]
          exact ⟨rfl, rfl⟩
      | some c =>
          have hkept : (afterReturn && c == '\n') = false := h.kept hread
          refine ⟨source', some c == some '\r', ?_⟩
          rw [houtcomes, preprocessed, hkept]
          exact ⟨rfl, rfl⟩

end Scanner

/-! ## What has come -/

namespace Outcomes

/-- Of all outcomes, the ones before those of the source come to this text. -/
def Delivered (all : List (Except String Char)) (text : List Char) (source : Source)
    (afterReturn : Bool) : Prop :=
  ∃ before, all = before ++ source.outcomes ∧ normalize (chars before) = text ∧
    (source.outcomes = [] ∨ afterReturn = ((chars before).getLast? == some '\r'))

variable {all : List (Except String Char)} {text : List Char} {source source' : Source}
  {afterReturn : Bool}

theorem chars_concat_ok (before : List (Except String Char)) (c : Char) :
    chars (before ++ [.ok c]) = chars before ++ [c] := by
  simp [chars, Except.toOption]

theorem chars_concat_error (before : List (Except String Char)) (reason : String) :
    chars (before ++ [.error reason]) = chars before := by
  simp [chars, Except.toOption]

theorem Delivered.char {c : Char} (h : Delivered all text source afterReturn)
    (hread : source.read = .ok (some c) source') (hkept : c = '\n' → afterReturn = false) :
    Delivered all (text ++ [Scanner.preprocess c]) source' (some c == some '\r') := by
  obtain ⟨before, rfl, rfl, hreturn⟩ := h
  have houtcomes := Source.outcomes_of_char hread
  refine ⟨before ++ [.ok c], by simp [houtcomes], ?_, .inr (by simp [chars_concat_ok])⟩
  have hsplit : ¬ ((chars before).getLast? = some '\r' ∧ c = '\n') := by
    rintro ⟨hlast, hc⟩
    simp [houtcomes, hlast, hkept hc] at hreturn
  rw [chars_concat_ok, normalize_concat, if_neg hsplit]

theorem Delivered.ended (h : Delivered all text source afterReturn)
    (hread : source.read = .ok none source') (afterReturn' : Bool) :
    Delivered all text source' afterReturn' := by
  obtain ⟨before, rfl, rfl, -⟩ := h
  have houtcomes := source.read_outcomes
  rw [hread] at houtcomes
  exact ⟨before, by rw [houtcomes.1, houtcomes.2], rfl, .inl houtcomes.2⟩

/-- A failure comes in its place, and reading goes on behind it. -/
theorem Delivered.failure {reason : String} (h : Delivered all text source afterReturn)
    (hread : source.read = .error reason source') :
    Delivered all text source' afterReturn ∧
      ∃ before, all = before ++ .error reason :: source'.outcomes ∧
        normalize (chars before) = text ∧
        afterReturn = ((chars before).getLast? == some '\r') := by
  obtain ⟨before, rfl, rfl, hreturn⟩ := h
  have houtcomes := Source.outcomes_of_failure hread
  have hreturn : afterReturn = ((chars before).getLast? == some '\r') := by
    simpa [houtcomes] using hreturn
  refine ⟨⟨before ++ [.error reason], by simp [houtcomes], ?_, .inr ?_⟩, before,
    by rw [houtcomes], rfl, hreturn⟩
  · rw [chars_concat_error]
  · rw [chars_concat_error, hreturn]

/-- The line feed of a carriage return adds nothing. -/
theorem Delivered.settles {s : Scanner} (h : Delivered all text s.source s.afterReturn)
    (hsettles : s.Settles source afterReturn) : Delivered all text source afterReturn := by
  cases hsettles with
  | stays => exact h
  | passes hreturn hread =>
      obtain ⟨before, rfl, rfl, hlast⟩ := h
      have houtcomes := Source.outcomes_of_char hread
      have hlast : (chars before).getLast? = some '\r' := by
        simpa [houtcomes, hreturn] using hlast
      refine ⟨before ++ [.ok '\n'], by simp [houtcomes], ?_, .inr (by simp [chars_concat_ok])⟩
      rw [chars_concat_ok, normalize_concat, if_pos ⟨hlast, rfl⟩]

end Outcomes

theorem Source.Within.settles {capacity : Nat} {script : List Delivery} {s : Scanner}
    {source : Source} {afterReturn : Bool} (h : s.source.Within capacity script)
    (hsettles : s.Settles source afterReturn) : source.Within capacity script := by
  cases hsettles with
  | stays => exact h
  | passes _ hread =>
      have hwithin := h.read
      rw [hread] at hwithin
      exact hwithin.2

end CssLex
