import CssLex.Proofs.Source.Reliable
import CssLex.Scanner.Spending
import CssLex.Text.Normalize

/-! What a scanner still has to deliver. The characters that come are those that were pushed
back, and then the preprocessed rest of the source. -/

namespace CssLex

/-! ## Preprocessing character by character -/

/-- Takes off the line feed that belongs to a carriage return before it. -/
def dropLineFeed : List Char → List Char
  | '\n' :: rest => rest
  | raw => raw

theorem dropLineFeed_of_ne {c : Char} (h : c ≠ '\n') (rest : List Char) :
    dropLineFeed (c :: rest) = c :: rest := by
  unfold dropLineFeed
  split
  · next heq => exact absurd (List.cons.inj heq).1 h
  · rfl

theorem normalize_cons (c : Char) (rest : List Char) :
    normalize (c :: rest) =
      Scanner.preprocess c :: normalize (if c = '\r' then dropLineFeed rest else rest) := by
  by_cases hc : c = '\r'
  · subst hc
    cases rest with
    | nil => rfl
    | cons d rest =>
        by_cases hd : d = '\n'
        · subst hd; rfl
        · rw [normalize.eq_3 _ _ (by simp [hd]), if_pos rfl, dropLineFeed_of_ne hd]
  · rw [normalize.eq_3 _ _ (by simp [hc]), if_neg hc]

/-- A line feed behind a carriage return adds nothing to a preprocessed text. -/
theorem normalize_concat (raw : List Char) (c : Char) :
    normalize (raw ++ [c]) =
      if raw.getLast? = some '\r' ∧ c = '\n' then normalize raw
      else normalize raw ++ [Scanner.preprocess c] := by
  have hsingle : ∀ c, normalize [c] = [Scanner.preprocess c] := by
    intro c
    rw [normalize_cons]
    split <;> rfl
  fun_induction normalize raw with
  | case1 => simp [hsingle]
  | case2 rest ih =>
      have hsplit : normalize ('\r' :: '\n' :: rest ++ [c]) = '\n' :: normalize (rest ++ [c]) := rfl
      rw [hsplit, ih]
      cases rest with
      | nil => simp
      | cons d rest => split <;> simp_all
  | case3 first rest hnot ih =>
      cases rest with
      | nil =>
          by_cases hbreak : first = '\r' ∧ c = '\n'
          · obtain ⟨rfl, rfl⟩ := hbreak
            rfl
          · have hkept : (if first = '\r' then dropLineFeed [c] else [c]) = [c] := by
              split
              · next hreturn => exact dropLineFeed_of_ne (fun hc => hbreak ⟨hreturn, hc⟩) []
              · rfl
            rw [if_neg (by simpa using hbreak), List.singleton_append, normalize_cons, hkept,
              hsingle]
            rfl
      | cons d rest =>
          have hsplit : normalize (first :: d :: rest ++ [c]) =
              Scanner.preprocess first :: normalize (d :: rest ++ [c]) := by
            rw [List.cons_append]
            exact normalize.eq_3 _ _ (by simpa using hnot)
          rw [hsplit, ih]
          split <;> simp_all

namespace Scanner

open Scan

/-- The characters that a scanner still delivers before the end of the input. -/
def unread (s : Scanner) : List Char :=
  match h : take s with
  | .ok (some c) s' =>
    have : s'.remaining < s.remaining := by
      have := take_spends s _ s' h
      simp only [costOf_some] at this
      omega
    c :: s'.unread
  | _ => []
termination_by s.remaining

/-- The preprocessed characters that the source has left. -/
def fresh (s : Scanner) : List Char :=
  normalize (if s.afterReturn then dropLineFeed s.source.chars else s.source.chars)

/-- An offset and a line that can be counted. -/
structure Counted (position line : Nat) : Prop where
  position_le : position ≤ characterLimit
  line_pos : 0 < line
  line_le : line ≤ characterLimit

/-- A scanner whose source does not fail, and whose pushed back entries are characters with
marks of the end below them; there are such marks only where the source has ended. -/
structure Sound (s : Scanner) : Prop where
  reliable : s.source.Reliable
  deferred : ∃ chars ends, s.deferred = List.map some chars ++ List.replicate ends none ∧
    (ends ≠ 0 → s.fresh = [])
  counted : Counted s.position s.line

theorem unread_of_take_some {s s' : Scanner} {c : Char} (h : take s = .ok (some c) s') :
    s.unread = c :: s'.unread := by
  rw [unread]
  split
  · next h' => rw [h] at h'; cases h'; rfl
  · next hnot => exact absurd h (hnot c s')

theorem unread_of_take_none {s s' : Scanner} (h : take s = .ok none s') : s.unread = [] := by
  rw [unread]
  split
  · next h' => rw [h] at h'; cases h'
  · rfl

/-! ## Reading one entry -/

theorem readRaw_of_reliable {s : Scanner} (h : s.source.Reliable) :
    ∃ source, readRaw s = .ok s.source.chars.head? { s with source } ∧ source.Reliable ∧
      source.chars = s.source.chars.tail := by
  obtain ⟨source, hread, hreliable, hchars⟩ := Source.read_of_reliable h
  exact ⟨source, by simp [readRaw, hread], hreliable, hchars⟩

/-- The scanner without the carriage return, whose line feed was left out. -/
theorem readUncoupled_of_reliable {s : Scanner} (h : s.source.Reliable) :
    ∃ source,
      readUncoupled s =
        .ok (if s.afterReturn then dropLineFeed s.source.chars else s.source.chars).head?
          { s with source, afterReturn := false } ∧
      source.Reliable ∧
      source.chars =
        (if s.afterReturn then dropLineFeed s.source.chars else s.source.chars).tail := by
  obtain ⟨source, hread, hreliable, hchars⟩ := readRaw_of_reliable h
  unfold readUncoupled
  rw [hread]
  by_cases hcoupled : (s.afterReturn && s.source.chars.head? == some '\n') = true
  · obtain ⟨hreturn, hhead⟩ := by simpa using hcoupled
    obtain ⟨rest, hrest⟩ : ∃ rest, s.source.chars = '\n' :: rest := by
      cases hs : s.source.chars with
      | nil => simp [hs] at hhead
      | cons c rest => simp [hs] at hhead; exact ⟨rest, by rw [hhead]⟩
    obtain ⟨source', hread', hreliable', hchars'⟩ :=
      readRaw_of_reliable (s := { s with source, afterReturn := false }) hreliable
    refine ⟨source', ?_, hreliable', ?_⟩
    · dsimp only
      rw [if_pos hcoupled, hread', if_pos hreturn]
      simp only [hchars, hrest, dropLineFeed, List.tail_cons]
    · simp only [hchars', hchars, hreturn, if_true, hrest, dropLineFeed, List.tail_cons]
  · have hsame : (if s.afterReturn then dropLineFeed s.source.chars else s.source.chars) =
        s.source.chars := by
      split
      · next hreturn =>
        cases hs : s.source.chars with
        | nil => rfl
        | cons c rest =>
            refine dropLineFeed_of_ne ?_ rest
            rintro rfl
            simp [hreturn, hs] at hcoupled
      · rfl
    exact ⟨source, by simp [hcoupled, hsame], hreliable, by rw [hchars, hsame]⟩

theorem readPreprocessed_of_reliable {s : Scanner} (h : s.source.Reliable) :
    ∃ source afterReturn, readPreprocessed s = .ok s.fresh.head? { s with source, afterReturn } ∧
      source.Reliable ∧ ({ s with source, afterReturn } : Scanner).fresh = s.fresh.tail := by
  obtain ⟨source, hread, hreliable, hchars⟩ := readUncoupled_of_reliable h
  unfold readPreprocessed
  rw [hread]
  unfold fresh
  generalize (if s.afterReturn then dropLineFeed s.source.chars else s.source.chars) = raw at *
  refine ⟨source, raw.head? == some '\r', ?_, hreliable, ?_⟩
  · cases raw with
    | nil => simp [normalize]
    | cons c raw => simp [normalize_cons]
  · cases raw with
    | nil => simp [hchars, normalize]
    | cons c raw =>
        by_cases hc : c = '\r' <;> simp [normalize_cons, hchars, hc]

theorem unread_deferred_some (s : Scanner) (c : Char) (deferred : List (Option Char)) :
    ({ s with deferred := some c :: deferred } : Scanner).unread =
      c :: ({ s with deferred } : Scanner).unread :=
  unread_of_take_some rfl

theorem unread_deferred_none (s : Scanner) (deferred : List (Option Char)) :
    ({ s with deferred := none :: deferred } : Scanner).unread = [] :=
  have htake : take { s with deferred := none :: deferred } = .ok none { s with deferred } := rfl
  unread_of_take_none htake

theorem take_of_deferred_nil {s : Scanner} (h : s.deferred = []) :
    take s = readPreprocessed s := by
  simp only [take, h]

theorem unread_deferred_nil {s : Scanner} (hreliable : s.source.Reliable)
    (hdeferred : s.deferred = []) : s.unread = s.fresh := by
  generalize hv : s.fresh = v
  induction v generalizing s with
  | nil =>
      obtain ⟨source, afterReturn, hread, _, _⟩ := readPreprocessed_of_reliable hreliable
      rw [hv] at hread
      exact unread_of_take_none ((take_of_deferred_nil hdeferred).trans hread)
  | cons c v ih =>
      obtain ⟨source, afterReturn, hread, hsource, hfresh⟩ :=
        readPreprocessed_of_reliable hreliable
      rw [hv] at hread hfresh
      rw [unread_of_take_some ((take_of_deferred_nil hdeferred).trans hread),
        ih (s := { s with source, afterReturn }) hsource hdeferred hfresh]

theorem unread_with_deferred {s : Scanner} (hreliable : s.source.Reliable) (chars : List Char)
    {ends : Nat} (hends : ends ≠ 0 → s.fresh = []) :
    ({ s with deferred := List.map some chars ++ List.replicate ends none } : Scanner).unread =
      chars ++ s.fresh := by
  induction chars with
  | cons c chars ih =>
      rw [List.map_cons, List.cons_append, unread_deferred_some, ih, List.cons_append]
  | nil =>
      cases ends with
      | zero => exact unread_deferred_nil (s := { s with deferred := [] }) hreliable rfl
      | succ ends =>
          rw [hends (by simp)]
          exact unread_deferred_none s (List.replicate ends none)

theorem unread_of_deferred {s : Scanner} (hreliable : s.source.Reliable) {chars : List Char}
    {ends : Nat} (hdeferred : s.deferred = List.map some chars ++ List.replicate ends none)
    (hends : ends ≠ 0 → s.fresh = []) : s.unread = chars ++ s.fresh := by
  rw [← unread_with_deferred hreliable chars hends, ← hdeferred]

/-- A sound scanner delivers the first of its unread characters and keeps the others. -/
theorem take_of_sound {s : Scanner} (h : s.Sound) :
    ∃ s', take s = .ok s.unread.head? s' ∧ s'.Sound ∧ s'.unread = s.unread.tail ∧
      s'.position = s.position ∧ s'.line = s.line := by
  obtain ⟨hreliable, ⟨chars, ends, hdeferred, hends⟩, hcounted⟩ := h
  rw [unread_of_deferred hreliable hdeferred hends]
  cases chars with
  | cons c chars =>
      refine ⟨{ s with deferred := List.map some chars ++ List.replicate ends none }, ?_,
        ⟨hreliable, ⟨chars, ends, rfl, hends⟩, hcounted⟩, ?_, rfl, rfl⟩
      · simp [take, hdeferred]
      · exact unread_with_deferred hreliable chars hends
  | nil =>
      cases ends with
      | succ ends =>
          have hfresh := hends (by simp)
          refine ⟨{ s with deferred := List.replicate ends none }, ?_,
            ⟨hreliable, ⟨[], ends, rfl, fun _ => hfresh⟩, hcounted⟩, ?_, rfl, rfl⟩
          · simp [take, hdeferred, List.replicate_succ, hfresh]
          · have hends : ends ≠ 0 → s.fresh = [] := fun _ => hfresh
            simpa [hfresh] using unread_with_deferred hreliable [] hends
      | zero =>
          obtain ⟨source, afterReturn, hread, hsource, hfresh⟩ :=
            readPreprocessed_of_reliable hreliable
          refine ⟨{ s with source, afterReturn }, ?_,
            ⟨hsource, ⟨[], 0, hdeferred, by simp⟩, hcounted⟩, ?_, rfl, rfl⟩
          · exact (take_of_deferred_nil hdeferred).trans hread
          · rw [unread_deferred_nil (s := { s with source, afterReturn }) hsource hdeferred, hfresh]
            rfl

/-- Offset and line have no part in what is delivered. -/
theorem Sound.move {s : Scanner} (h : s.Sound) {position line : Nat}
    (hcounted : Counted position line) :
    ({ s with position, line } : Scanner).Sound ∧
      ({ s with position, line } : Scanner).unread = s.unread := by
  obtain ⟨hreliable, ⟨chars, ends, hdeferred, hends⟩, _⟩ := h
  refine ⟨⟨hreliable, ⟨chars, ends, hdeferred, hends⟩, hcounted⟩, ?_⟩
  rw [unread_of_deferred hreliable hdeferred hends,
    unread_of_deferred (s := { s with position, line }) hreliable hdeferred hends]
  rfl

/-- A character that is pushed back is the next one to come. -/
theorem Sound.defer_some {s : Scanner} (h : s.Sound) (c : Char) :
    ({ s with deferred := some c :: s.deferred } : Scanner).Sound ∧
      ({ s with deferred := some c :: s.deferred } : Scanner).unread = c :: s.unread := by
  obtain ⟨hreliable, ⟨chars, ends, hdeferred, hends⟩, hcounted⟩ := h
  exact ⟨⟨hreliable, ⟨c :: chars, ends, by simp [hdeferred], hends⟩, hcounted⟩,
    unread_deferred_some s c s.deferred⟩

/-- The end of the input can be pushed back where nothing is left to come. -/
theorem Sound.defer_none {s : Scanner} (h : s.Sound) (hunread : s.unread = []) :
    ({ s with deferred := none :: s.deferred } : Scanner).Sound ∧
      ({ s with deferred := none :: s.deferred } : Scanner).unread = [] := by
  obtain ⟨hreliable, ⟨chars, ends, hdeferred, hends⟩, hcounted⟩ := h
  rw [unread_of_deferred hreliable hdeferred hends] at hunread
  obtain ⟨rfl, hfresh⟩ := List.append_eq_nil_iff.mp hunread
  refine ⟨⟨hreliable, ⟨[], ends + 1, ?_, fun _ => hfresh⟩, hcounted⟩,
    unread_deferred_none s s.deferred⟩
  simp [hdeferred, List.replicate_succ]

/-- A scanner over a reliable source starts with the preprocessed text of the source. -/
theorem sound_start {source : Source} (h : source.Reliable) : ({ source } : Scanner).Sound :=
  ⟨h, ⟨[], 0, rfl, by simp⟩, Nat.zero_le _, Nat.one_pos, Nat.le_of_ble_eq_true rfl⟩

theorem unread_start {source : Source} (h : source.Reliable) :
    ({ source } : Scanner).unread = normalize source.chars :=
  unread_deferred_nil (s := { source }) h rfl

end Scanner
end CssLex
