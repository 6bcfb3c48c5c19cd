import CssLex.Proofs.Source.Segments

/-! Reading a stream that fails now and then, one read after the other. A read that fails leaves the
stream at its script behind the failure. -/

namespace CssLex

/-! ## Scripts for outcomes -/

namespace Utf8

open Utf8Reader

theorem unfinished_encode (c : Char) (rest : List UInt8) :
    unfinished (String.utf8EncodeChar c ++ rest) = false := by
  rw [Bool.eq_false_iff]
  intro hunfinished
  have hchar := char?_encode c rest
  cases hbytes : String.utf8EncodeChar c ++ rest with
  | nil =>
      rw [hbytes] at hchar
      cases hchar
  | cons lead bytes =>
      rw [hbytes] at hchar hunfinished
      rw [char?_unfinished hunfinished] at hchar
      obtain ⟨rfl, rfl⟩ := Prod.mk.inj (Option.some.inj hchar)
      -- what replaces a cut sequence is not cut itself
      have hwhole : unfinished (String.utf8EncodeChar replacement ++ []) = false := by decide
      rw [hbytes, hunfinished] at hwhole
      cases hwhole

theorem complete_bytes (text : List Char) : complete (bytes text) = text := by
  induction text with
  | nil => exact complete_of_unfinished rfl
  | cons c text ih =>
      have hsplit : bytes (c :: text) = String.utf8EncodeChar c ++ bytes text := List.flatMap_cons
      rw [hsplit, complete_of_char? (unfinished_encode c _) (char?_encode c _), ih]

end Utf8

/-- A delivery that comes to one outcome. -/
def Delivery.ofOutcome : Except String Char → Delivery
  | .ok c => .bytes (String.utf8EncodeChar c)
  | .error reason => .failed reason

namespace Source

variable {capacity : Nat} {script : List Delivery}

theorem outcomes_ofOutcome_append (capacity : Nat) (text : List Char)
    (outcomes : List (Except String Char)) :
    (ofDeliveries capacity ((text.map Except.ok ++ outcomes).map Delivery.ofOutcome)).outcomes =
      text.map .ok ++ outcomes := by
  have hreliable : ∀ text : List Char,
      ByteReader.Reliable ((text.map Except.ok).map Delivery.ofOutcome) := by
    simp [ByteReader.Reliable, Delivery.ofOutcome]
  have hcontent : ∀ text : List Char,
      ((text.map Except.ok).map Delivery.ofOutcome).flatMap Delivery.content = Utf8.bytes text := by
    intro text
    rw [List.map_map, List.flatMap_map]
    rfl
  induction outcomes generalizing text with
  | nil =>
      rw [List.append_nil, outcomes_of_serves ⟨hreliable text, hcontent text⟩, Utf8.chars_bytes]
  | cons outcome outcomes ih =>
      cases outcome with
      | ok c => simpa using ih (text ++ [c])
      | error reason =>
          have hbehind := Utf8Reader.failsBehind_start capacity (hreliable text) reason
            (outcomes.map Delivery.ofOutcome)
          have hrest := ih []
          rw [List.map_nil, List.nil_append] at hrest
          have houtcomes := outcomes_of_failsBehind hbehind
          rw [hcontent, Utf8.complete_bytes, hrest] at houtcomes
          rw [List.map_append]
          exact houtcomes

/-- Whatever is to be delivered, some stream delivers it. -/
theorem outcomes_ofOutcome (capacity : Nat) (outcomes : List (Except String Char)) :
    (ofDeliveries capacity (outcomes.map Delivery.ofOutcome)).outcomes = outcomes :=
  outcomes_ofOutcome_append capacity [] outcomes

end Source

/-! ## Reading one character -/

theorem ByteReader.reliable_or_fails (script : List Delivery) :
    Reliable script ∨ ∃ segment reason after,
      Reliable segment ∧ script = segment ++ .failed reason :: after := by
  have hcons : ∀ {delivery : Delivery} {segment : List Delivery},
      (∀ reason, delivery ≠ .failed reason) → Reliable segment →
        Reliable (delivery :: segment) := by
    intro delivery segment hdelivery hsegment reason hmem
    rcases List.mem_cons.mp hmem with heq | hmem
    · exact hdelivery reason heq.symm
    · exact hsegment reason hmem
  induction script with
  | nil => exact .inl nofun
  | cons delivery script ih =>
      cases delivery with
      | failed reason => exact .inr ⟨[], reason, script, nofun, rfl⟩
      | interrupted =>
          rcases ih with hreliable | ⟨segment, reason, after, hsegment, rfl⟩
          · exact .inl (hcons (by simp) hreliable)
          · exact .inr ⟨_ :: segment, reason, after, hcons (by simp) hsegment, rfl⟩
      | bytes chunk =>
          rcases ih with hreliable | ⟨segment, reason, after, hsegment, rfl⟩
          · exact .inl (hcons (by simp) hreliable)
          · exact .inr ⟨_ :: segment, reason, after, hcons (by simp) hsegment, rfl⟩

namespace Source

variable {capacity : Nat} {script : List Delivery} {s : Source}

/-- What is left of a stream over a script: it does not fail any more, or it fails next with some
end of the script behind the failure. -/
def Within (capacity : Nat) (script : List Delivery) (s : Source) : Prop :=
  s.Reliable ∨ ∃ reader bytes reason after, s = .stream reader ∧
    reader.FailsBehind capacity bytes reason after ∧ .failed reason :: after <:+ script

theorem within_stream (reader : Utf8Reader) :
    (stream reader).Within reader.bytes.capacity reader.bytes.script := by
  rcases ByteReader.reliable_or_fails reader.bytes.script with
    hreliable | ⟨segment, reason, after, hsegment, hscript⟩
  · exact .inl hreliable
  · refine .inr ⟨reader, _, reason, after, rfl, ⟨rfl, segment, hsegment, hscript, rfl⟩, ?_⟩
    rw [hscript]
    exact List.suffix_append _ _

theorem Within.of_suffix {part : List Delivery} (h : s.Within capacity part)
    (hpart : part <:+ script) : s.Within capacity script := by
  rcases h with hreliable | ⟨reader, bytes, reason, after, hs, hbehind, hsuffix⟩
  · exact .inl hreliable
  · exact .inr ⟨reader, bytes, reason, after, hs, hbehind, hsuffix.trans hpart⟩

/-- A read takes the first outcome. A failure leaves the stream at its script behind the failure,
with nothing kept of the bytes before. -/
theorem Within.read (h : s.Within capacity script) :
    match s.read with
    | .ok none s' => s.outcomes = [] ∧ s'.outcomes = [] ∧ s'.Within capacity script
    | .ok (some c) s' => s.outcomes = .ok c :: s'.outcomes ∧ s'.Within capacity script
    | .error reason s' => s.outcomes = .error reason :: s'.outcomes ∧
        ∃ after, .failed reason :: after <:+ script ∧ s' = ofDeliveries capacity after := by
  rcases h with hreliable | ⟨reader, bytes, reason, after, rfl, hbehind, hsuffix⟩
  · obtain ⟨s', hread, hreliable', hrest⟩ := read_of_reliable hreliable
    cases hchars : s.chars with
    | nil =>
        rw [hchars] at hread hrest
        rw [hread]
        refine ⟨outcomes_of_end hread, ?_, .inl hreliable'⟩
        rw [outcomes_of_reliable hreliable', hrest]
        rfl
    | cons c chars =>
        rw [hchars] at hread
        rw [hread]
        exact ⟨outcomes_of_char hread, .inl hreliable'⟩
  · by_cases hunfinished : Utf8.unfinished bytes = true
    · have hread := read_fails hbehind hunfinished
      rw [hread]
      exact ⟨outcomes_of_failure hread, after, hsuffix, rfl⟩
    · obtain ⟨c, rest, reader', -, hread, hbehind'⟩ :=
        read_serves hbehind (Bool.eq_false_iff.mpr hunfinished)
      rw [hread]
      exact ⟨outcomes_of_char hread, .inr ⟨reader', rest, reason, after, rfl, hbehind', hsuffix⟩⟩

/-- A read takes the first outcome, and behind the end there is nothing. -/
theorem read_outcomes (s : Source) :
    match s.read with
    | .ok none s' => s.outcomes = [] ∧ s'.outcomes = []
    | .ok (some c) s' => s.outcomes = .ok c :: s'.outcomes
    | .error reason s' => s.outcomes = .error reason :: s'.outcomes := by
  have hwithin : ∃ capacity script, s.Within capacity script := by
    cases s with
    | text rest => exact ⟨0, [], .inl trivial⟩
    | window unread => exact ⟨0, [], .inl trivial⟩
    | stream reader => exact ⟨_, _, within_stream reader⟩
  obtain ⟨capacity, script, hwithin⟩ := hwithin
  have hread := hwithin.read
  cases h : s.read with
  | error reason s' =>
      rw [h] at hread
      exact hread.1
  | ok c s' =>
      rw [h] at hread
      cases c with
      | none => exact ⟨hread.1, hread.2.1⟩
      | some c => exact hread.1

end Source
end CssLex
