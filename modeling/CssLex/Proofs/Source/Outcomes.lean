import CssLex.Proofs.Source.Reliable

/-! What reading a source to its end comes to: characters, and the failures between them. A
failure surfaces once, and reading goes on behind it. -/

namespace CssLex

namespace ByteReader

/-- How many reads of the stream are still to fail. -/
def failures : List Delivery → Nat
  | [] => 0
  | .failed _ :: script => failures script + 1
  | _ :: script => failures script

end ByteReader

/-- A computation that uses up a failure where it fails, and only there. -/
def UsesUp {σ α : Type} (failures : σ → Nat) (p : EStateM String σ α) : Prop :=
  ∀ s,
    match p s with
    | .ok _ s' => failures s' = failures s
    | .error _ s' => failures s' < failures s

namespace ByteReader

theorem fetch_usesUp (room : Nat) : UsesUp failures (fetch room) := by
  intro script
  fun_induction fetch room script with
  | case1 => rfl
  | case2 script ih => exact ih
  | case3 reason script => exact Nat.lt_succ_self _
  | case4 script ih => exact ih
  | case5 byte chunk script => rfl

theorem next_usesUp : UsesUp (fun r => failures r.script) next := by
  intro r
  have hfetch := fetch_usesUp r.capacity r.script
  unfold next
  cases r.buffer with
  | cons byte buffer => rfl
  | nil =>
      cases h : fetch r.capacity r.script with
      | error reason script =>
          rw [h] at hfetch
          exact hfetch
      | ok fetched script =>
          rw [h] at hfetch
          cases fetched <;> exact hfetch

end ByteReader

namespace Utf8Reader

/-- How many reads of the stream are still to fail. -/
def failures (r : Utf8Reader) : Nat := ByteReader.failures r.bytes.script

theorem nextByte_usesUp : UsesUp failures nextByte := by
  intro r
  have hnext := ByteReader.next_usesUp r.bytes
  unfold nextByte
  cases r.pending with
  | some byte => rfl
  | none =>
      cases h : r.bytes.next with
      | error reason bytes =>
          rw [h] at hnext
          exact hnext
      | ok byte bytes =>
          rw [h] at hnext
          exact hnext

theorem continuation_usesUp (count : Nat) : UsesUp failures (continuation count) := by
  induction count with
  | zero => exact fun r => rfl
  | succ count ih =>
      intro r
      have hbyte := nextByte_usesUp r
      unfold continuation
      cases h : nextByte r with
      | error reason r₁ =>
          rw [h] at hbyte
          exact hbyte
      | ok byte r₁ =>
          rw [h] at hbyte
          cases byte with
          | none => exact hbyte
          | some byte =>
              by_cases hcontinues : isContinuation byte = true
              · have hrest := ih r₁
                simp only [if_pos hcontinues]
                cases h₁ : continuation count r₁ with
                | error reason r₂ =>
                    rw [h₁] at hrest
                    exact Nat.lt_of_lt_of_eq hrest hbyte
                | ok tail r₂ =>
                    rw [h₁] at hrest
                    exact hrest.trans hbyte
              · simp only [if_neg hcontinues]
                exact hbyte

theorem next_usesUp : UsesUp failures next := by
  intro r
  have hbyte := nextByte_usesUp r
  unfold next
  cases h : nextByte r with
  | error reason r₁ =>
      rw [h] at hbyte
      exact hbyte
  | ok lead r₁ =>
      rw [h] at hbyte
      cases lead with
      | none => exact hbyte
      | some lead =>
          cases hfollowers : followers? lead with
          | none =>
              simp only [hfollowers]
              exact hbyte
          | some followers =>
              have hrest := continuation_usesUp followers r₁
              simp only [hfollowers]
              cases h₁ : continuation followers r₁ with
              | error reason r₂ =>
                  rw [h₁] at hrest
                  exact Nat.lt_of_lt_of_eq hrest hbyte
              | ok tail r₂ =>
                  rw [h₁] at hrest
                  exact hrest.trans hbyte

end Utf8Reader

namespace Source

/-- How many reads of a source are still to fail. -/
def failures : Source → Nat
  | stream reader => reader.failures
  | _ => 0

theorem read_usesUp : UsesUp failures read := by
  intro s
  cases s with
  | text rest => cases rest <;> rfl
  | window unread => rfl
  | stream reader =>
      have hnext := Utf8Reader.next_usesUp reader
      simp only [read]
      cases h : reader.next with
      | error reason reader' =>
          rw [h] at hnext
          exact hnext
      | ok c reader' =>
          rw [h] at hnext
          exact hnext

/-- What reading a source to its end comes to: its characters, and where its reads fail the
reasons. -/
def outcomes (s : Source) : List (Except String Char) :=
  match h : s.read with
  | .ok (some c) s' =>
    have hfailures : s'.failures ≤ s.failures := by
      have := read_usesUp s
      rw [h] at this
      exact Nat.le_of_eq this
    have hsize : s'.size < s.size := Nat.lt_of_succ_le (read_size h)
    .ok c :: s'.outcomes
  | .ok none _ => []
  | .error reason s' =>
    have hfailures : s'.failures < s.failures := by
      have := read_usesUp s
      rwa [h] at this
    .error reason :: s'.outcomes
termination_by (s.failures, s.size)
decreasing_by
  · exact Prod.Lex.right' _ hfailures hsize
  · exact Prod.Lex.left _ _ hfailures

variable {s s' : Source} {c : Char} {reason : String}

theorem outcomes_of_char (h : s.read = .ok (some c) s') : s.outcomes = .ok c :: s'.outcomes := by
  rw [outcomes]
  split
  · next h' => rw [h] at h'; cases h'; rfl
  · next h' => rw [h] at h'; cases h'
  · next h' => rw [h] at h'; cases h'

theorem outcomes_of_end (h : s.read = .ok none s') : s.outcomes = [] := by
  rw [outcomes]
  split
  · next h' => rw [h] at h'; cases h'
  · rfl
  · next h' => rw [h] at h'; cases h'

theorem outcomes_of_failure (h : s.read = .error reason s') :
    s.outcomes = .error reason :: s'.outcomes := by
  rw [outcomes]
  split
  · next h' => rw [h] at h'; cases h'
  · next h' => rw [h] at h'; cases h'
  · next h' => rw [h] at h'; cases h'; rfl

/-- A reliable source comes to its characters. -/
theorem outcomes_of_reliable (h : s.Reliable) : s.outcomes = s.chars.map .ok := by
  generalize hchars : s.chars = chars
  induction chars generalizing s with
  | nil =>
      obtain ⟨s', hread, -, -⟩ := read_of_reliable h
      rw [hchars] at hread
      exact outcomes_of_end hread
  | cons c chars ih =>
      obtain ⟨s', hread, hreliable, hrest⟩ := read_of_reliable h
      rw [hchars] at hread hrest
      rw [outcomes_of_char hread, ih hreliable hrest, List.map_cons]

end Source
end CssLex
