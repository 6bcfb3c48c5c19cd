import CssLex.Proofs.Source.Faithful

/-! Streams whose reads fail now and then. The bytes between two failures are a segment. A failure
loses the sequence that it cuts off at the end of its segment, and nothing else. -/

namespace CssLex

namespace Utf8

open Utf8Reader

variable {bytes rest : List UInt8} {c : Char} {lead : UInt8} {count : Nat}

/-- So many continuation bytes were asked for, and the bytes end before they are there. -/
def short (count : Nat) (bytes : List UInt8) : Bool :=
  bytes.all isContinuation && bytes.length < count

/-- No whole character stands at the front: the bytes end before it, or inside its sequence. -/
def unfinished : List UInt8 → Bool
  | [] => true
  | lead :: bytes => short ((followers? lead).getD 0) bytes

/-- The bytes end inside a sequence: behind its lead byte continuation bytes are missing. -/
def cutOff : List UInt8 → Bool
  | [] => false
  | lead :: bytes => unfinished (lead :: bytes) || cutOff bytes

/-- The characters of some bytes without the one of a sequence that is cut off. -/
def complete (bytes : List UInt8) : List Char :=
  if cutOff bytes then (chars bytes).dropLast else chars bytes

theorem followers?_of_isContinuation (h : isContinuation lead = true) : followers? lead = none := by
  have hbounds := toNat_of_isContinuation h
  cases hlead : followers? lead with
  | none => rfl
  | some followers =>
      have := toNat_of_followers? hlead
      omega

theorem sequence_of_short (h : short count bytes = true) : sequence count bytes = (none, []) := by
  induction bytes generalizing count with
  | nil =>
      cases count with
      | zero => simp [short] at h
      | succ count => rfl
  | cons byte bytes ih =>
      simp only [short, List.all_cons, List.length_cons, Bool.and_eq_true, decide_eq_true_eq] at h
      obtain ⟨⟨hbyte, hbytes⟩, hlength⟩ := h
      cases count with
      | zero => cases hlength
      | succ count =>
          have hrest : short count bytes = true := by
            simpa [short, hbytes] using Nat.lt_of_succ_lt_succ hlength
          simp [sequence, hbyte, ih hrest]

theorem char?_unfinished (h : unfinished (lead :: bytes) = true) :
    char? (lead :: bytes) = some (replacement, []) := by
  cases hlead : followers? lead with
  | none => simp [unfinished, hlead, short] at h
  | some followers =>
      simp only [unfinished, hlead, Option.getD_some] at h
      simp [char?, hlead, sequence_of_short h]

theorem chars_unfinished (h : unfinished (lead :: bytes) = true) :
    chars (lead :: bytes) = [replacement] := by
  rw [chars_of_char?_some (char?_unfinished h), chars_nil]

theorem cutOff_continuations {taken : List UInt8}
    (h : ∀ byte ∈ taken, isContinuation byte = true) (rest : List UInt8) :
    cutOff (taken ++ rest) = cutOff rest := by
  induction taken with
  | nil => rfl
  | cons byte taken ih =>
      have hbyte := followers?_of_isContinuation (h byte List.mem_cons_self)
      have hrest := ih fun b hb => h b (List.mem_cons_of_mem _ hb)
      simp [cutOff, unfinished, hbyte, short, hrest]

/-- A whole character at the front does not matter to how the bytes end. -/
theorem cutOff_of_char? (hbytes : unfinished bytes = false) (h : char? bytes = some (c, rest)) :
    cutOff bytes = cutOff rest := by
  cases bytes with
  | nil => cases h
  | cons lead bytes =>
      rw [cutOff, hbytes, Bool.false_or]
      cases hlead : followers? lead with
      | none =>
          simp only [char?, hlead, Option.some.injEq, Prod.mk.injEq] at h
          rw [h.2]
      | some followers =>
          simp only [char?, hlead, Option.some.injEq, Prod.mk.injEq] at h
          obtain ⟨taken, hsplit, htaken, -⟩ := sequence_split followers bytes
          rw [hsplit, cutOff_continuations htaken, h.2]

theorem chars_ne_nil (h : bytes ≠ []) : chars bytes ≠ [] := by
  cases hchar : char? bytes with
  | none => exact absurd (eq_nil_of_char?_none hchar) h
  | some found => simp [chars_of_char?_some hchar]

theorem complete_of_unfinished (h : unfinished bytes = true) : complete bytes = [] := by
  cases bytes with
  | nil => simp [complete, cutOff, chars_nil]
  | cons lead bytes => simp [complete, cutOff, h, chars_unfinished h]

theorem complete_of_char? (hbytes : unfinished bytes = false) (h : char? bytes = some (c, rest)) :
    complete bytes = c :: complete rest := by
  unfold complete
  rw [cutOff_of_char? hbytes h, chars_of_char?_some h]
  split
  · next hcut =>
    have hrest : rest ≠ [] := by
      rintro rfl
      cases hcut
    exact List.dropLast_cons_of_ne_nil (chars_ne_nil hrest)
  · rfl

theorem cutOff_split (h : cutOff bytes = true) :
    ∃ front lead tail, bytes = front ++ lead :: tail ∧ unfinished (lead :: tail) = true := by
  induction bytes with
  | nil => cases h
  | cons lead bytes ih =>
      by_cases hlead : unfinished (lead :: bytes) = true
      · exact ⟨[], lead, bytes, rfl, hlead⟩
      · rw [cutOff, Bool.eq_false_iff.mpr hlead, Bool.false_or] at h
        obtain ⟨front, lead', tail, rfl, htail⟩ := ih h
        exact ⟨lead :: front, lead', tail, rfl, htail⟩

/-- What `complete` leaves out is one sequence that the bytes end inside, if there is one. -/
theorem exists_lost (bytes : List UInt8) :
    ∃ front lost, bytes = front ++ lost ∧ complete bytes = chars front ∧
      chars bytes = chars front ++ chars lost ∧ lost.length ≤ 3 ∧
      if cutOff bytes then lost ≠ [] ∧ unfinished lost = true ∧ chars lost = [replacement]
      else lost = [] := by
  by_cases hcut : cutOff bytes = true
  · obtain ⟨front, lead, tail, hbytes, hunfinished⟩ := cutOff_split hcut
    have hlost := chars_unfinished hunfinished
    simp only [unfinished, short, Bool.and_eq_true, decide_eq_true_eq] at hunfinished
    obtain ⟨followers, hlead⟩ : ∃ followers, followers? lead = some followers := by
      cases hlead : followers? lead with
      | none => simp [hlead] at hunfinished
      | some followers => exact ⟨followers, rfl⟩
    -- the bytes lost begin with a lead byte, so what is in front of them is decoded apart
    have hstarts : Starts (lead :: tail) := by
      rw [Starts.cons_iff, Bool.eq_false_iff]
      intro hcontinues
      rw [followers?_of_isContinuation hcontinues] at hlead
      cases hlead
    have hchars : chars bytes = chars front ++ chars (lead :: tail) := by
      rw [hbytes, chars_append_starts hstarts]
    refine ⟨front, lead :: tail, hbytes, ?_, hchars, ?_, ?_⟩
    · rw [complete, if_pos hcut, hchars, hlost, List.dropLast_concat]
    · have hbounds := toNat_of_followers? hlead
      simp only [hlead, Option.getD_some] at hunfinished
      simp only [List.length_cons]
      omega
    · rw [if_pos hcut]
      exact ⟨by simp, by simpa [unfinished, short] using hunfinished, hlost⟩
  · refine ⟨bytes, [], (List.append_nil _).symm, by rw [complete, if_neg hcut], ?_, by simp, ?_⟩
    · rw [chars_nil, List.append_nil]
    · rw [if_neg hcut]

end Utf8

/-! ## Readers in front of a failure -/

namespace ByteReader

variable {capacity : Nat} {reason : String} {segment after : List Delivery} {byte : UInt8}
  {bytes : List UInt8}

theorem fetch_fails (h : Reliable segment) (hcontent : segment.flatMap Delivery.content = [])
    (room : Nat) : fetch room (segment ++ .failed reason :: after) = .error reason after := by
  induction segment with
  | nil => rfl
  | cons delivery segment ih =>
      rw [List.flatMap_cons, List.append_eq_nil_iff] at hcontent
      cases delivery with
      | interrupted => exact ih h.tail hcontent.2
      | failed reason => exact absurd List.mem_cons_self (h reason)
      | bytes chunk =>
          cases chunk with
          | nil => exact ih h.tail hcontent.2
          | cons byte chunk => cases hcontent.1

theorem fetch_serves (h : Reliable segment)
    (hcontent : segment.flatMap Delivery.content = byte :: bytes) (room : Nat) (reason : String)
    (after : List Delivery) :
    ∃ buffer segment', fetch room (segment ++ .failed reason :: after) =
        .ok (byte :: buffer) (segment' ++ .failed reason :: after) ∧
      Reliable segment' ∧ buffer ++ segment'.flatMap Delivery.content = bytes := by
  induction segment with
  | nil => cases hcontent
  | cons delivery segment ih =>
      cases delivery with
      | interrupted => exact ih h.tail hcontent
      | failed reason => exact absurd List.mem_cons_self (h reason)
      | bytes chunk =>
          cases chunk with
          | nil => exact ih h.tail hcontent
          | cons first chunk =>
              rw [List.flatMap_cons, Delivery.content, List.cons_append] at hcontent
              obtain ⟨rfl, rfl⟩ := List.cons.inj hcontent
              refine ⟨chunk.take (room - 1), .bytes (chunk.drop (room - 1)) :: segment, rfl, ?_, ?_⟩
              · intro reason hmem
                rcases List.mem_cons.mp hmem with hmem | hmem
                · cases hmem
                · exact h.tail reason hmem
              · simp only [List.flatMap_cons, Delivery.content, ← List.append_assoc,
                  List.take_append_drop]

end ByteReader

namespace Utf8Reader

variable {capacity count : Nat} {reason : String} {after : List Delivery} {byte : UInt8}
  {bytes : List UInt8} {r : Utf8Reader}

/-- A reader at the start of a stream. -/
def start (capacity : Nat) (script : List Delivery) : Utf8Reader where
  bytes := { capacity, script }

/-- The reader decodes these bytes, and then its read fails with what is left of the script. -/
structure FailsBehind (r : Utf8Reader) (capacity : Nat) (bytes : List UInt8) (reason : String)
    (after : List Delivery) : Prop where
  capacity : r.bytes.capacity = capacity
  script : ∃ segment, ByteReader.Reliable segment ∧
    r.bytes.script = segment ++ .failed reason :: after ∧
    r.pending.toList ++ (r.bytes.buffer ++ segment.flatMap Delivery.content) = bytes

theorem failsBehind_start (capacity : Nat) {segment : List Delivery}
    (h : ByteReader.Reliable segment) (reason : String) (after : List Delivery) :
    (start capacity (segment ++ .failed reason :: after)).FailsBehind capacity
      (segment.flatMap Delivery.content) reason after :=
  ⟨rfl, segment, h, rfl, rfl⟩

theorem FailsBehind.nextByte_fails (h : r.FailsBehind capacity [] reason after) :
    nextByte r = .error reason (start capacity after) := by
  obtain ⟨⟨capacity', script, buffer⟩, pending⟩ := r
  obtain ⟨rfl, segment, hsegment, rfl, hbytes⟩ := h
  simp only [List.append_eq_nil_iff, Option.toList_eq_nil_iff] at hbytes
  obtain ⟨rfl, rfl, hcontent⟩ := hbytes
  simp only [nextByte, ByteReader.next, ByteReader.fetch_fails hsegment hcontent]
  rfl

theorem FailsBehind.nextByte_serves (h : r.FailsBehind capacity (byte :: bytes) reason after) :
    ∃ r', nextByte r = .ok (some byte) r' ∧ r'.pending = none ∧
      r'.FailsBehind capacity bytes reason after := by
  obtain ⟨⟨capacity', script, buffer⟩, pending⟩ := r
  obtain ⟨rfl, segment, hsegment, rfl, hbytes⟩ := h
  cases pending with
  | some first =>
      obtain ⟨rfl, rfl⟩ := List.cons.inj hbytes
      exact ⟨_, rfl, rfl, rfl, segment, hsegment, rfl, rfl⟩
  | none =>
      cases buffer with
      | cons first buffer =>
          obtain ⟨rfl, rfl⟩ := List.cons.inj hbytes
          exact ⟨_, rfl, rfl, rfl, segment, hsegment, rfl, rfl⟩
      | nil =>
          obtain ⟨buffer, segment', hfetch, hsegment', rfl⟩ :=
            ByteReader.fetch_serves hsegment hbytes capacity' reason after
          simp only [nextByte, ByteReader.next, hfetch]
          exact ⟨_, rfl, rfl, rfl, segment', hsegment', rfl, rfl⟩

/-- A failure inside a sequence loses the bytes of it that were read. -/
theorem FailsBehind.continuation_fails (h : r.FailsBehind capacity bytes reason after)
    (hshort : Utf8.short count bytes = true) :
    continuation count r = .error reason (start capacity after) := by
  induction bytes generalizing r count with
  | nil =>
      cases count with
      | zero => simp [Utf8.short] at hshort
      | succ count => simp only [continuation, h.nextByte_fails]
  | cons byte bytes ih =>
      cases count with
      | zero => simp [Utf8.short] at hshort
      | succ count =>
          obtain ⟨r₁, hbyte, -, h₁⟩ := h.nextByte_serves
          simp only [Utf8.short, List.all_cons, List.length_cons, Bool.and_eq_true,
            decide_eq_true_eq] at hshort
          obtain ⟨⟨hcontinues, hbytes⟩, hlength⟩ := hshort
          have hrest : Utf8.short count bytes = true := by
            simpa [Utf8.short, hbytes] using Nat.lt_of_succ_lt_succ hlength
          simp only [continuation, hbyte, hcontinues, if_true, ih h₁ hrest]

theorem FailsBehind.continuation_serves (h : r.FailsBehind capacity bytes reason after)
    (hlong : Utf8.short count bytes = false) :
    ∃ r', continuation count r = .ok (Utf8.sequence count bytes).1 r' ∧
      r'.FailsBehind capacity (Utf8.sequence count bytes).2 reason after := by
  induction count generalizing r bytes with
  | zero => exact ⟨r, by rw [Utf8.sequence]; rfl, by rwa [Utf8.sequence]⟩
  | succ count ih =>
      cases bytes with
      | nil => simp [Utf8.short] at hlong
      | cons byte bytes =>
          obtain ⟨r₁, hbyte, hpending, h₁⟩ := h.nextByte_serves
          by_cases hcontinues : isContinuation byte = true
          · have hrest : Utf8.short count bytes = false := by
              simpa [Utf8.short, hcontinues] using hlong
            obtain ⟨r₂, htail, h₂⟩ := ih h₁ hrest
            simp only [continuation, hbyte, hcontinues, if_true, htail, Utf8.sequence]
            exact ⟨r₂, rfl, h₂⟩
          · -- the byte that breaks the sequence off waits in front of the buffer
            simp only [continuation, hbyte, hcontinues, Utf8.sequence]
            obtain ⟨hcapacity, segment, hsegment, hscript, rfl⟩ := h₁
            refine ⟨_, rfl, hcapacity, segment, hsegment, hscript, ?_⟩
            simp [hpending]

theorem FailsBehind.next_fails (h : r.FailsBehind capacity bytes reason after)
    (hunfinished : Utf8.unfinished bytes = true) :
    next r = .error reason (start capacity after) := by
  cases bytes with
  | nil => simp only [next, h.nextByte_fails]
  | cons lead bytes =>
      obtain ⟨r₁, hlead, -, h₁⟩ := h.nextByte_serves
      cases hfollowers : followers? lead with
      | none => simp [Utf8.unfinished, Utf8.short, hfollowers] at hunfinished
      | some followers =>
          simp only [Utf8.unfinished, hfollowers, Option.getD_some] at hunfinished
          simp only [next, hlead, hfollowers, h₁.continuation_fails hunfinished]

theorem FailsBehind.next_serves (h : r.FailsBehind capacity bytes reason after)
    (hfinished : Utf8.unfinished bytes = false) :
    ∃ c rest r', Utf8.char? bytes = some (c, rest) ∧ next r = .ok (some c) r' ∧
      r'.FailsBehind capacity rest reason after := by
  cases bytes with
  | nil => cases hfinished
  | cons lead bytes =>
      obtain ⟨r₁, hlead, -, h₁⟩ := h.nextByte_serves
      cases hfollowers : followers? lead with
      | none =>
          simp only [next, hlead, hfollowers, Utf8.char?]
          exact ⟨_, _, r₁, rfl, rfl, h₁⟩
      | some followers =>
          simp only [Utf8.unfinished, hfollowers, Option.getD_some] at hfinished
          obtain ⟨r₂, htail, h₂⟩ := h₁.continuation_serves hfinished
          simp only [next, hlead, hfollowers, htail, Utf8.char?]
          exact ⟨_, _, r₂, rfl, rfl, h₂⟩

end Utf8Reader

namespace Source

variable {capacity : Nat} {r : Utf8Reader} {bytes : List UInt8} {reason : String}
  {after : List Delivery}

theorem read_fails (h : r.FailsBehind capacity bytes reason after)
    (hunfinished : Utf8.unfinished bytes = true) :
    (stream r).read = .error reason (ofDeliveries capacity after) := by
  simp only [read, h.next_fails hunfinished]
  rfl

theorem read_serves (h : r.FailsBehind capacity bytes reason after)
    (hfinished : Utf8.unfinished bytes = false) :
    ∃ c rest r', Utf8.char? bytes = some (c, rest) ∧
      (stream r).read = .ok (some c) (stream r') ∧
      r'.FailsBehind capacity rest reason after := by
  obtain ⟨c, rest, r', hchar, hnext, h'⟩ := h.next_serves hfinished
  exact ⟨c, rest, r', hchar, by simp only [read, hnext], h'⟩

theorem outcomes_of_failsBehind {r : Utf8Reader} {bytes : List UInt8}
    (h : r.FailsBehind capacity bytes reason after) :
    (stream r).outcomes =
      (Utf8.complete bytes).map .ok ++ .error reason :: (ofDeliveries capacity after).outcomes := by
  by_cases hunfinished : Utf8.unfinished bytes = true
  · rw [outcomes_of_failure (read_fails h hunfinished), Utf8.complete_of_unfinished hunfinished]
    rfl
  · have hfinished := Bool.eq_false_iff.mpr hunfinished
    obtain ⟨c, rest, r', hchar, hread, h'⟩ := read_serves h hfinished
    have := Utf8.char?_length hchar
    rw [outcomes_of_char hread, outcomes_of_failsBehind h', Utf8.complete_of_char? hfinished hchar]
    rfl
termination_by bytes.length

/-- Each failure of a stream surfaces once and in its place, behind the whole characters of its
segment, and each segment is decoded on its own. What a failure loses is one sequence, which its
segment ends inside, of at most three bytes. -/
theorem outcomes_of_segments (capacity : Nat) (segments : List (List Delivery × String))
    (last : List Delivery) (hsegments : ∀ segment ∈ segments, ByteReader.Reliable segment.1)
    (hlast : ByteReader.Reliable last) :
    (ofDeliveries capacity
        (segments.flatMap (fun segment => segment.1 ++ [.failed segment.2]) ++ last)).outcomes =
      segments.flatMap (fun segment =>
        (Utf8.complete (segment.1.flatMap Delivery.content)).map .ok ++ [.error segment.2]) ++
        (Utf8.chars (last.flatMap Delivery.content)).map .ok ∧
    ∀ bytes, ∃ front lost, bytes = front ++ lost ∧ Utf8.complete bytes = Utf8.chars front ∧
      Utf8.chars bytes = Utf8.chars front ++ Utf8.chars lost ∧ lost.length ≤ 3 ∧
      if Utf8.cutOff bytes then
        lost ≠ [] ∧ Utf8.unfinished lost = true ∧ Utf8.chars lost = [replacement]
      else lost = [] := by
  refine ⟨?_, Utf8.exists_lost⟩
  induction segments with
  | nil => exact outcomes_of_serves ⟨hlast, rfl⟩ capacity
  | cons segment segments ih =>
      obtain ⟨deliveries, reason⟩ := segment
      have hfirst : ByteReader.Reliable deliveries := hsegments _ List.mem_cons_self
      have hrest := ih fun s hs => hsegments s (List.mem_cons_of_mem _ hs)
      have hbehind := Utf8Reader.failsBehind_start capacity hfirst reason
        (segments.flatMap (fun s => s.1 ++ [.failed s.2]) ++ last)
      simp only [List.flatMap_cons, List.append_assoc, List.cons_append]
      rw [← hrest]
      exact outcomes_of_failsBehind hbehind

/-- Two failures inside a euro sign lose its first bytes. The last one is decoded as it stands. -/
theorem outcomes_of_segments_of_euro :
    (ofDeliveries 2 [.bytes [0x61, 0xE2, 0x82], .failed "reset", .failed "gone",
        .bytes [0xAC, 0x62]]).outcomes =
      [.ok 'a', .error "reset", .error "gone", .ok replacement, .ok 'b'] := by
  have hreliable : ∀ bytes, ByteReader.Reliable [.bytes bytes] := by simp [ByteReader.Reliable]
  have hsegments : ∀ segment ∈ [([.bytes [0x61, 0xE2, 0x82]], "reset"), ([], "gone")],
      ByteReader.Reliable segment.1 := by
    simp [ByteReader.Reliable]
  have houtcomes := (outcomes_of_segments 2 _ _ hsegments (hreliable [0xAC, 0x62])).1
  have hfirst : Utf8.complete [0x61, 0xE2, 0x82] = ['a'] := by
    rw [Utf8.complete_of_char? rfl (show Utf8.char? _ = some ('a', [0xE2, 0x82]) from rfl),
      Utf8.complete_of_unfinished rfl]
  have hsecond : Utf8.complete [] = [] := Utf8.complete_of_unfinished rfl
  have hlast : Utf8.chars [0xAC, 0x62] = [replacement, 'b'] := by
    rw [Utf8.chars_of_char?_some (show Utf8.char? _ = some (replacement, [0x62]) from rfl),
      Utf8.chars_of_char?_some (show Utf8.char? _ = some ('b', []) from rfl), Utf8.chars_nil]
  simpa [Delivery.content, hfirst, hsecond, hlast] using houtcomes

end Source
end CssLex
