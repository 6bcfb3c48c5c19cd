import CssLex.Source.Basic

/-! Sources that never fail. Such a source delivers one fixed list of raw characters, and once
it has ended it stays at its end. -/

namespace CssLex

namespace ByteReader

/-- No read of the stream fails. Interrupted reads are allowed. -/
def Reliable (script : List Delivery) : Prop := ∀ reason, Delivery.failed reason ∉ script

theorem Reliable.tail {delivery : Delivery} {script : List Delivery}
    (h : Reliable (delivery :: script)) : Reliable script :=
  fun reason hmem => h reason (List.mem_cons_of_mem _ hmem)

theorem fetch_of_reliable (room : Nat) {script : List Delivery} (h : Reliable script) :
    ∃ bytes script', fetch room script = .ok bytes script' ∧ Reliable script' ∧
      (bytes = [] → script' = []) := by
  fun_induction fetch room script with
  | case1 => exact ⟨[], [], rfl, h, fun _ => rfl⟩
  | case2 script ih => exact ih h.tail
  | case3 reason script => exact absurd List.mem_cons_self (h reason)
  | case4 script ih => exact ih h.tail
  | case5 byte chunk script =>
      refine ⟨_, _, rfl, ?_, by simp⟩
      intro reason hmem
      rcases List.mem_cons.mp hmem with hmem | hmem
      · cases hmem
      · exact h.tail reason hmem

theorem next_of_reliable {r : ByteReader} (h : Reliable r.script) :
    ∃ byte r', next r = .ok byte r' ∧ Reliable r'.script ∧
      (byte = none → r'.buffer = [] ∧ r'.script = []) := by
  unfold next
  split
  · exact ⟨_, _, rfl, h, by simp⟩
  · next hbuffer =>
    obtain ⟨bytes, script', hfetch, hscript, hend⟩ := fetch_of_reliable r.capacity h
    rw [hfetch]
    cases bytes with
    | nil => exact ⟨_, _, rfl, hscript, fun _ => ⟨hbuffer, hend rfl⟩⟩
    | cons byte buffer => exact ⟨_, _, rfl, hscript, by simp⟩

end ByteReader

namespace Utf8Reader

/-- Nothing is left to decode, and nothing is left to read. -/
structure Ended (r : Utf8Reader) : Prop where
  pending : r.pending = none
  buffer : r.bytes.buffer = []
  script : r.bytes.script = []

theorem nextByte_of_reliable {r : Utf8Reader} (h : ByteReader.Reliable r.bytes.script) :
    ∃ byte r', nextByte r = .ok byte r' ∧ ByteReader.Reliable r'.bytes.script ∧
      (byte = none → r'.Ended) := by
  unfold nextByte
  split
  · exact ⟨_, _, rfl, h, by simp⟩
  · next hpending =>
    obtain ⟨byte, bytes, hnext, hscript, hend⟩ := ByteReader.next_of_reliable h
    rw [hnext]
    exact ⟨_, _, rfl, hscript, fun hb => ⟨hpending, (hend hb).1, (hend hb).2⟩⟩

theorem continuation_of_reliable (count : Nat) {r : Utf8Reader}
    (h : ByteReader.Reliable r.bytes.script) :
    ∃ tail r', continuation count r = .ok tail r' ∧ ByteReader.Reliable r'.bytes.script := by
  induction count generalizing r with
  | zero => exact ⟨_, _, rfl, h⟩
  | succ count ih =>
      obtain ⟨byte, r₁, hbyte, h₁, _⟩ := nextByte_of_reliable h
      simp only [continuation, hbyte]
      cases byte with
      | none => exact ⟨_, _, rfl, h₁⟩
      | some byte =>
          by_cases hc : isContinuation byte = true
          · obtain ⟨tail, r₂, htail, h₂⟩ := ih h₁
            simp only [hc, if_true, htail]
            exact ⟨_, _, rfl, h₂⟩
          · simp only [hc]
            exact ⟨_, _, rfl, h₁⟩

theorem next_of_reliable {r : Utf8Reader} (h : ByteReader.Reliable r.bytes.script) :
    ∃ c r', next r = .ok c r' ∧ ByteReader.Reliable r'.bytes.script ∧ (c = none → r'.Ended) := by
  obtain ⟨lead, r₁, hlead, h₁, hend⟩ := nextByte_of_reliable h
  unfold next
  rw [hlead]
  cases lead with
  | none => exact ⟨_, _, rfl, h₁, fun _ => hend rfl⟩
  | some lead =>
      cases hf : followers? lead with
      | none => exact ⟨some replacement, r₁, by simp [hf], h₁, by simp⟩
      | some followers =>
          obtain ⟨tail, r₂, htail, h₂⟩ := continuation_of_reliable followers h₁
          exact ⟨some (tail.elim replacement (decode lead)), r₂, by simp [hf, htail], h₂, by simp⟩

theorem next_of_ended {r : Utf8Reader} (h : r.Ended) : ∃ r', next r = .ok none r' := by
  unfold next nextByte ByteReader.next
  simp [h.pending, h.buffer, h.script, ByteReader.fetch]

end Utf8Reader

namespace Window

theorem rest_eq (w : Window) : w.rest = (w.chars.toList.drop w.index).take w.remaining := by
  rw [rest, Array.toList_extract, List.extract_eq_take_drop, remaining]

theorem rest_read (w : Window) :
    w.rest = w.read.1.toList ++ w.read.2.rest ∧ (w.read.1 = none → w.read.2.rest = []) := by
  have hsize := w.limit_le_size
  unfold read
  split
  · next h =>
    have hindex : w.index < w.chars.toList.length := by
      rw [Array.length_toList]
      omega
    have hremaining : w.limit - w.index = w.limit - (w.index + 1) + 1 := by omega
    refine ⟨?_, by simp⟩
    rw [rest_eq, rest_eq, List.drop_eq_getElem_cons hindex, remaining, hremaining,
      List.take_succ_cons]
    rfl
  · next h =>
    have hend : w.rest = [] := by
      rw [rest_eq, remaining, Nat.sub_eq_zero_of_le (Nat.le_of_not_lt h), List.take_zero]
    exact ⟨rfl, fun _ => hend⟩

end Window

namespace Source

/-- A source whose reads never fail; only streams have reads that can. -/
def Reliable : Source → Prop
  | text _ => True
  | window _ => True
  | stream reader => ByteReader.Reliable reader.bytes.script

/-- The raw characters that a source delivers before its end. -/
def chars (s : Source) : List Char :=
  match h : s.read with
  | .ok (some c) s' =>
    have : s'.size < s.size := by
      have := read_size h
      simp only [Option.toList_some, List.length_singleton] at this
      omega
    c :: s'.chars
  | _ => []
termination_by s.size

theorem chars_of_read_some {s s' : Source} {c : Char} (h : s.read = .ok (some c) s') :
    s.chars = c :: s'.chars := by
  rw [chars]
  split
  · next h' => rw [h] at h'; cases h'; rfl
  · next hnot => exact absurd h (hnot c s')

theorem chars_of_read_none {s s' : Source} (h : s.read = .ok none s') : s.chars = [] := by
  rw [chars]
  split
  · next h' => rw [h] at h'; cases h'
  · rfl

theorem chars_of_read_end {s s' : Source} (hs : s.Reliable) (h : s.read = .ok none s') :
    s'.chars = [] := by
  cases s with
  | text rest => cases rest <;> cases h; exact chars_of_read_none rfl
  | window w =>
      simp only [read] at h
      unfold Window.read at h
      split at h
      · cases h
      · next hw =>
        cases h
        have hend : (window w).read = .ok none (window w) := by simp [read, Window.read, hw]
        exact chars_of_read_none hend
  | stream reader =>
      simp only [read] at h
      obtain ⟨c, reader', hnext, _, hend⟩ := Utf8Reader.next_of_reliable hs
      rw [hnext] at h
      cases h
      obtain ⟨reader'', hnext'⟩ := Utf8Reader.next_of_ended (hend rfl)
      have hend : (stream reader').read = .ok none (stream reader'') := by simp [read, hnext']
      exact chars_of_read_none hend

/-- A reliable source reads off its list of characters. -/
theorem read_of_reliable {s : Source} (h : s.Reliable) :
    ∃ s', s.read = .ok s.chars.head? s' ∧ s'.Reliable ∧ s'.chars = s.chars.tail := by
  have hread : ∃ c s', s.read = .ok c s' ∧ s'.Reliable := by
    cases s with
    | text rest => cases rest <;> exact ⟨_, _, rfl, trivial⟩
    | window w => exact ⟨_, _, rfl, trivial⟩
    | stream reader =>
        obtain ⟨c, reader', hnext, hscript, _⟩ := Utf8Reader.next_of_reliable h
        exact ⟨c, stream reader', by simp [read, hnext], hscript⟩
  obtain ⟨c, s', hc, hs'⟩ := hread
  cases c with
  | none =>
      rw [chars_of_read_none hc]
      exact ⟨s', hc, hs', chars_of_read_end h hc⟩
  | some c =>
      rw [chars_of_read_some hc]
      exact ⟨s', hc, hs', rfl⟩

@[simp] theorem chars_text (rest : List Char) : (text rest).chars = rest := by
  induction rest with
  | nil =>
      have hread : (text []).read = .ok none (text []) := rfl
      exact chars_of_read_none hread
  | cons c rest ih =>
      have hread : (text (c :: rest)).read = .ok (some c) (text rest) := rfl
      rw [chars_of_read_some hread, ih]

@[simp] theorem chars_ofString (s : String) : (ofString s).chars = s.toList := chars_text _

@[simp] theorem chars_window (w : Window) : (window w).chars = w.rest := by
  obtain ⟨hrest, hend⟩ := w.rest_read
  have hread : (window w).read = .ok w.read.1 (window w.read.2) := rfl
  cases hfirst : w.read.1 with
  | none =>
      rw [hfirst] at hread hrest
      rw [chars_of_read_none hread, hrest, hend hfirst]
      rfl
  | some c =>
      have : w.read.2.remaining < w.remaining := by
        have := w.remaining_read
        rw [hfirst, Option.toList_some, List.length_singleton] at this
        omega
      rw [hfirst] at hread hrest
      rw [chars_of_read_some hread, chars_window w.read.2, hrest]
      rfl
termination_by w.remaining

@[simp] theorem reliable_ofString (s : String) : (ofString s).Reliable := trivial

end Source
end CssLex
