import CssLex.Alphabet
import CssLex.Source.ByteReader

/-!
Decoding a byte stream as UTF-8. Every malformed sequence gives one replacement character, and a
byte that breaks a sequence starts the next character.
-/

namespace CssLex

/-- A byte stream that is read as UTF-8. -/
structure Utf8Reader where
  bytes : ByteReader
  /-- A byte that broke off a sequence and is still to be decoded. -/
  pending : Option UInt8 := none
deriving Repr, DecidableEq

namespace Utf8Reader

-- Powers are those of the core library, whatever is imported beside this module.
attribute [local instance (high)] instPowNat instNatPowNat

/-- The number of bytes that are still to be decoded. -/
def size (r : Utf8Reader) : Nat := r.pending.toList.length + r.bytes.size

/-- The next byte to decode. -/
def nextByte : EStateM String Utf8Reader (Option UInt8) := fun r =>
  match r.pending with
  | some byte => .ok (some byte) { r with pending := none }
  | none =>
    match r.bytes.next with
    | .ok byte bytes => .ok byte { r with bytes }
    | .error reason bytes => .error reason { r with bytes }

/-- A byte that can only stand inside a sequence. -/
def isContinuation (byte : UInt8) : Bool := 0x80 ≤ byte && byte ≤ 0xBF

/-- How many continuation bytes a lead byte asks for; `none` if no sequence starts with it. -/
def followers? (lead : UInt8) : Option Nat :=
  if lead ≤ 0x7F then some 0
  else if 0xC0 ≤ lead && lead ≤ 0xDF then some 1
  else if 0xE0 ≤ lead && lead ≤ 0xEF then some 2
  else if 0xF0 ≤ lead && lead ≤ 0xF7 then some 3
  else none

/-- The least number that needs a sequence with this many continuation bytes. -/
def leastScalar : Nat → Nat
  | 0 => 0
  | 1 => 0x80
  | 2 => 0x800
  | _ => 0x10000

/-- The payload bits of a lead byte with this many continuation bytes. -/
def leadBits (lead : UInt8) : Nat → Nat
  | 0 => lead.toNat
  | followers => lead.toNat % 2 ^ (6 - followers)

/-- The character of a complete sequence. Overlong forms, surrogates and numbers beyond the last
scalar value are replaced. -/
def decode (lead : UInt8) (tail : List UInt8) : Char :=
  let n := tail.foldl (fun n byte => n * 64 + byte.toNat % 64) (leadBits lead tail.length)
  if n < leastScalar tail.length then replacement else scalarOrReplacement n

/-- Reads this many continuation bytes. At another byte, which then stays pending, or at the end
of the stream the sequence is broken and the result is `none`. -/
def continuation : Nat → EStateM String Utf8Reader (Option (List UInt8))
  | 0 => fun r => .ok (some []) r
  | count + 1 => fun r =>
    match r.nextByte with
    | .error reason r => .error reason r
    | .ok none r => .ok none r
    | .ok (some byte) r =>
      if isContinuation byte then
        match continuation count r with
        | .error reason r => .error reason r
        | .ok tail r => .ok (tail.map (byte :: ·)) r
      else .ok none { r with pending := some byte }

/-- The next character, or `none` at the end. A failed read loses the bytes of the sequence in
progress. -/
def next : EStateM String Utf8Reader (Option Char) := fun r =>
  match r.nextByte with
  | .error reason r => .error reason r
  | .ok none r => .ok none r
  | .ok (some lead) r =>
    match followers? lead with
    | none => .ok (some replacement) r
    | some followers =>
      match continuation followers r with
      | .error reason r => .error reason r
      | .ok tail r => .ok (some (tail.elim replacement (decode lead))) r

theorem nextByte_size {r r' : Utf8Reader} {byte : Option UInt8} (h : nextByte r = .ok byte r') :
    r'.size + byte.toList.length = r.size := by
  unfold nextByte at h
  split at h
  · cases h
    simp_all [size]
    omega
  · split at h
    · next heq =>
      cases h
      have := ByteReader.next_size heq
      simp_all [size]
    · cases h

theorem continuation_size {count : Nat} {r r' : Utf8Reader} {tail : Option (List UInt8)}
    (hr : r.pending = none) (h : continuation count r = .ok tail r') : r'.size ≤ r.size := by
  induction count generalizing r tail with
  | zero => cases h; exact Nat.le_refl _
  | succ count ih =>
    simp only [continuation] at h
    have hnone : ∀ {byte r₁}, nextByte r = .ok byte r₁ → r₁.pending = none := by
      intro byte r₁ h₁
      simp only [nextByte, hr] at h₁
      split at h₁ <;> cases h₁
      rfl
    split at h
    · cases h
    · next heq =>
      cases h
      have := nextByte_size heq
      omega
    · next byte r₁ heq =>
      have hsize := nextByte_size heq
      have hpending := hnone heq
      simp only [Option.toList_some, List.length_singleton] at hsize
      split at h
      · split at h
        · cases h
        · next heq' =>
          cases h
          have := ih hpending heq'
          omega
      · cases h
        simp only [size, hpending, Option.toList_none, List.length_nil, Option.toList_some,
          List.length_singleton] at hsize ⊢
        omega

/-- A character takes at least one byte. -/
theorem next_size {r r' : Utf8Reader} {c : Option Char} (h : next r = .ok c r') :
    r'.size + c.toList.length ≤ r.size := by
  unfold next at h
  split at h
  · cases h
  · next heq =>
    cases h
    have := nextByte_size heq
    simp_all
  · next lead r₁ heq =>
    have hsize := nextByte_size heq
    have hpending : r₁.pending = none := by
      unfold nextByte at heq
      split at heq
      · cases heq; rfl
      · split at heq <;> cases heq
        assumption
    simp only [Option.toList_some, List.length_singleton] at hsize
    split at h
    · cases h
      simp
      omega
    · split at h
      · cases h
      · next heq' =>
        cases h
        have := continuation_size hpending heq'
        simp
        omega

end Utf8Reader
end CssLex
