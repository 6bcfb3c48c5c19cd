import CssLex.Proofs.Source.Decoding
import CssLex.Proofs.Source.Outcomes

/-! Decoding is self-synchronizing. Whatever stands before it, a byte that cannot go on with a
sequence starts a new character, so bytes may be cut in front of such a byte and decoded apart. -/

namespace CssLex

/-- The script serves these bytes, in any deliveries, and no read of it fails. -/
structure ByteReader.Serves (script : List Delivery) (bytes : List UInt8) : Prop where
  reliable : Reliable script
  content : script.flatMap Delivery.content = bytes

namespace Utf8

open Utf8Reader

variable {x y rest : List UInt8} {c : Char}

/-- No byte at the front can go on with a sequence. -/
def Starts (bytes : List UInt8) : Prop := ∀ byte ∈ bytes.head?, ¬ (0x80 ≤ byte ∧ byte ≤ 0xBF)

theorem Starts.cons_iff {byte : UInt8} : Starts (byte :: rest) ↔ isContinuation byte = false := by
  simp [Starts, isContinuation]

/-- What can only start a character is no part of a sequence before it. -/
theorem sequence_append_starts (hy : Starts y) (count : Nat) (x : List UInt8) :
    sequence count (x ++ y) = ((sequence count x).1, (sequence count x).2 ++ y) := by
  fun_induction sequence count x with
  | case1 x => simp [sequence]
  | case2 count =>
      cases y with
      | nil => rfl
      | cons byte y => simp [sequence, Starts.cons_iff.mp hy]
  | case3 count byte x hcontinues ih => simp [sequence, hcontinues, ih]
  | case4 count byte x hbreaks => simp [sequence, hbreaks]

theorem char?_append_starts (hy : Starts y) (h : char? x = some (c, rest)) :
    char? (x ++ y) = some (c, rest ++ y) := by
  cases x with
  | nil => cases h
  | cons lead x =>
      rw [List.cons_append, char?]
      cases hfollowers : followers? lead with
      | none =>
          simp only [char?, hfollowers, Option.some.injEq, Prod.mk.injEq] at h ⊢
          exact ⟨h.1, by rw [h.2]⟩
      | some followers =>
          simp only [char?, hfollowers, Option.some.injEq, Prod.mk.injEq] at h ⊢
          rw [sequence_append_starts hy]
          exact ⟨h.1, by rw [← h.2]⟩

theorem eq_nil_of_char?_none (h : char? x = none) : x = [] := by
  cases x with
  | nil => rfl
  | cons lead x => cases hfollowers : followers? lead <;> simp [char?, hfollowers] at h

theorem chars_nil : chars [] = [] := chars_of_char?_none rfl

theorem chars_append_starts (hy : Starts y) (x : List UInt8) :
    chars (x ++ y) = chars x ++ chars y := by
  induction x using chars.induct with
  | case1 x hnone =>
      rw [eq_nil_of_char?_none hnone, chars_nil]
      rfl
  | case2 x c rest hsome _ ih =>
      rw [chars_of_char?_some (char?_append_starts hy hsome), chars_of_char?_some hsome, ih]
      rfl

end Utf8

namespace Source

/-- Reading a stream that does not fail comes to the characters of its bytes. -/
theorem outcomes_of_serves {script : List Delivery} {bytes : List UInt8}
    (h : ByteReader.Serves script bytes) (capacity : Nat) :
    (ofDeliveries capacity script).outcomes = (Utf8.chars bytes).map .ok := by
  have hreliable : (ofDeliveries capacity script).Reliable := h.reliable
  have hchars := @chars_stream { bytes := { capacity, script } } h.reliable
  rw [outcomes_of_reliable hreliable, ofDeliveries, hchars, ← h.content]
  rfl

/-- The characters that a stream gives are a function of its bytes alone, however they are
delivered. It takes a text in front of a byte that cannot go on with a sequence apart from the
rest, and it inverts the encoding of characters. -/
theorem decoding_is_synchronous :
    (∀ (capacity : Nat) (script : List Delivery) (bytes : List UInt8),
      ByteReader.Serves script bytes →
        (ofDeliveries capacity script).outcomes = (Utf8.chars bytes).map .ok) ∧
      (∀ x y : List UInt8, Utf8.Starts y → Utf8.chars (x ++ y) = Utf8.chars x ++ Utf8.chars y) ∧
      ∀ text : List Char, Utf8.chars (Utf8.bytes text) = text :=
  ⟨fun capacity _ _ h => outcomes_of_serves h capacity, fun x _ hy => Utf8.chars_append_starts hy x,
    Utf8.chars_bytes⟩

/-- A sequence that a quotation mark breaks off, however it is delivered. -/
theorem decoding_is_synchronous_of_quote :
    (ofDeliveries 8 [.bytes [0xE2], .interrupted, .bytes [0x82, 0x22]]).outcomes =
        [.ok replacement, .ok '"'] ∧
      Utf8.chars ([0xE2, 0x82] ++ [0x22]) = Utf8.chars [0xE2, 0x82] ++ Utf8.chars [0x22] := by
  obtain ⟨hserves, happend, -⟩ := decoding_is_synchronous
  have hscript : ByteReader.Serves [.bytes [0xE2], .interrupted, .bytes [0x82, 0x22]]
      [0xE2, 0x82, 0x22] := ⟨by simp [ByteReader.Reliable], rfl⟩
  have hchars : Utf8.chars [0xE2, 0x82, 0x22] = [replacement, '"'] := by
    rw [Utf8.chars_of_char?_some (show Utf8.char? _ = some (replacement, [0x22]) from rfl),
      Utf8.chars_of_char?_some (show Utf8.char? _ = some ('"', []) from rfl), Utf8.chars_nil]
  have hstarts : Utf8.Starts [0x22] := by
    rw [Utf8.Starts.cons_iff]
    rfl
  refine ⟨?_, happend _ _ hstarts⟩
  rw [hserves 8 _ _ hscript, hchars]
  rfl

end Source
end CssLex
