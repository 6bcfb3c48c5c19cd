import CssLex.Proofs.Alphabet
import CssLex.Proofs.Source.Reliable

/-! The characters of a byte stream are those of its bytes. How the bytes are cut into deliveries,
how many of them the buffer holds and which reads are interrupted have no part in them. -/

namespace CssLex

/-- The bytes that a delivery brings. -/
def Delivery.content : Delivery → List UInt8
  | bytes chunk => chunk
  | interrupted => []
  | failed _ => []

/-! ## Decoding a list of bytes -/

namespace Utf8

open Utf8Reader

/-- As many continuation bytes as are asked for, if they are all there, and the bytes behind
them. -/
def sequence : Nat → List UInt8 → Option (List UInt8) × List UInt8
  | 0, bytes => (some [], bytes)
  | _ + 1, [] => (none, [])
  | count + 1, byte :: bytes =>
    if isContinuation byte then
      ((sequence count bytes).1.map (byte :: ·), (sequence count bytes).2)
    else (none, byte :: bytes)

/-- The first character of some bytes, and the bytes behind it. -/
def char? : List UInt8 → Option (Char × List UInt8)
  | [] => none
  | lead :: bytes =>
    match followers? lead with
    | none => some (replacement, bytes)
    | some followers =>
      some ((sequence followers bytes).1.elim replacement (decode lead),
        (sequence followers bytes).2)

theorem sequence_length (count : Nat) (bytes : List UInt8) :
    (sequence count bytes).2.length ≤ bytes.length := by
  fun_induction sequence count bytes with
  | case1 | case2 => simp
  | case3 count byte bytes _ ih =>
      simp only [List.length_cons]
      omega
  | case4 => simp

theorem char?_length {bytes rest : List UInt8} {c : Char} (h : char? bytes = some (c, rest)) :
    rest.length < bytes.length := by
  unfold char? at h
  split at h
  · cases h
  · next lead bytes =>
    split at h
    · cases h
      simp
    · next followers _ =>
      cases h
      exact Nat.lt_succ_of_le (sequence_length followers bytes)

/-- The characters of some bytes. -/
def chars (bytes : List UInt8) : List Char :=
  match h : char? bytes with
  | none => []
  | some (c, rest) =>
    have := char?_length h
    c :: chars rest
termination_by bytes.length

theorem chars_of_char?_none {bytes : List UInt8} (h : char? bytes = none) : chars bytes = [] := by
  rw [chars]
  split
  · rfl
  · next heq => rw [h] at heq; cases heq

theorem chars_of_char?_some {bytes rest : List UInt8} {c : Char}
    (h : char? bytes = some (c, rest)) : chars bytes = c :: chars rest := by
  rw [chars]
  split
  · next heq => rw [h] at heq; cases heq
  · next heq => rw [h] at heq; cases heq; rfl

/-! ## Encoded characters -/

/-- The bytes of some characters. -/
def bytes (text : List Char) : List UInt8 := text.flatMap String.utf8EncodeChar

theorem toList_toUTF8 (text : String) : text.toUTF8.data.toList = bytes text.toList := by
  rw [String.toUTF8_eq_toByteArray, ← String.utf8Encode_toList, List.utf8Encode,
    List.data_toByteArray, bytes]

theorem sequence_append {tail : List UInt8} (h : ∀ byte ∈ tail, isContinuation byte = true)
    (rest : List UInt8) : sequence tail.length (tail ++ rest) = (some tail, rest) := by
  induction tail with
  | nil => rfl
  | cons byte tail ih =>
      have htail := ih fun b hb => h b (List.mem_cons_of_mem _ hb)
      rw [List.length_cons, List.cons_append, sequence, if_pos (h byte List.mem_cons_self), htail]
      rfl

theorem toNat_ofNat {n : Nat} (h : n < 256) : (UInt8.ofNat n).toNat = n := by
  rw [UInt8.toNat_ofNat', Nat.mod_eq_of_lt h]

/-- The continuation byte with the last six bits of a number. -/
def trailing (n : Nat) : UInt8 := UInt8.ofNat (n % 64 + 0x80)

theorem toNat_trailing (n : Nat) : (trailing n).toNat = n % 64 + 0x80 := toNat_ofNat (by omega)

theorem isContinuation_trailing (n : Nat) : isContinuation (trailing n) = true := by
  simp only [isContinuation, Bool.and_eq_true, decide_eq_true_eq, UInt8.le_iff_toNat_le,
    toNat_trailing]
  exact ⟨Nat.le_add_left _ _, Nat.add_le_add_right (Nat.le_of_lt_succ (Nat.mod_lt n (by decide))) _⟩

theorem followers?_ofNat {n : Nat} (h : n < 256) :
    followers? (UInt8.ofNat n) =
      if n ≤ 0x7F then some 0
      else if 0xC0 ≤ n ∧ n ≤ 0xDF then some 1
      else if 0xE0 ≤ n ∧ n ≤ 0xEF then some 2
      else if 0xF0 ≤ n ∧ n ≤ 0xF7 then some 3
      else none := by
  simp [followers?, UInt8.le_iff_toNat_le, toNat_ofNat h]

/-- A complete sequence is the character that its bits give together. -/
theorem char?_sequence {lead : UInt8} {parts : List Nat} {c : Char}
    (hlead : followers? lead = some parts.length) (hleast : leastScalar parts.length ≤ c.toNat)
    (hnumber : parts.foldl (fun n part => n * 64 + part % 64) (leadBits lead parts.length) =
      c.toNat) (rest : List UInt8) :
    char? (lead :: (parts.map trailing ++ rest)) = some (c, rest) := by
  have htail : ∀ byte ∈ parts.map trailing, isContinuation byte = true := by
    intro byte hbyte
    obtain ⟨part, -, rfl⟩ := List.mem_map.mp hbyte
    exact isContinuation_trailing part
  have hbits (part : Nat) : (trailing part).toNat % 64 = part % 64 := by
    rw [toNat_trailing]
    omega
  have hdecode : decode lead (parts.map trailing) = c := by
    simp only [decode, List.length_map, List.foldl_map, hbits, hnumber]
    rw [if_neg (Nat.not_lt_of_le hleast), scalarOrReplacement_toNat]
  have hsequence := sequence_append htail rest
  rw [List.length_map] at hsequence
  simp only [char?, hlead, hsequence, Option.elim_some, hdecode]

/-- An encoded character is decoded, whatever bytes are behind it. -/
theorem char?_encode (c : Char) (rest : List UInt8) :
    char? (String.utf8EncodeChar c ++ rest) = some (c, rest) := by
  have hvalid : c.toNat < 0x110000 := by
    have := c.valid
    simp only [UInt32.isValidChar, Nat.isValidChar] at this
    change c.val.toNat < _
    omega
  simp only [String.utf8EncodeChar, show c.val.toNat = c.toNat from rfl]
  -- one case for each length of the sequence
  split
  · next h1 =>
    have hlead : followers? (UInt8.ofNat c.toNat) = some 0 := by
      rw [followers?_ofNat (by omega), if_pos h1]
    exact @char?_sequence _ [] c hlead (Nat.zero_le _) (toNat_ofNat (by omega)) rest
  split
  · next h1 h2 =>
    have hlead : followers? (UInt8.ofNat (c.toNat / 64 % 32 + 0xc0)) = some 1 := by
      rw [followers?_ofNat (by omega), if_neg (by omega), if_pos (by omega)]
    refine @char?_sequence _ [c.toNat] c hlead (Nat.lt_of_not_le h1) ?_ rest
    simp only [List.foldl_cons, List.foldl_nil, List.length_singleton, leadBits,
      toNat_ofNat (show c.toNat / 64 % 32 + 0xc0 < 256 by omega)]
    omega
  split
  · next h1 h2 h3 =>
    have hlead : followers? (UInt8.ofNat (c.toNat / 4096 % 16 + 0xe0)) = some 2 := by
      rw [followers?_ofNat (by omega), if_neg (by omega), if_neg (by omega), if_pos (by omega)]
    have hleast : leastScalar 2 ≤ c.toNat := Nat.lt_of_not_le h2
    refine @char?_sequence _ [c.toNat / 64, c.toNat] c hlead hleast ?_ rest
    simp only [List.foldl_cons, List.foldl_nil, List.length_cons, List.length_nil, leadBits,
      toNat_ofNat (show c.toNat / 4096 % 16 + 0xe0 < 256 by omega)]
    omega
  · next h1 h2 h3 =>
    have hlead : followers? (UInt8.ofNat (c.toNat / 262144 % 8 + 0xf0)) = some 3 := by
      rw [followers?_ofNat (by omega), if_neg (by omega), if_neg (by omega), if_neg (by omega),
        if_pos (by omega)]
    refine @char?_sequence _ [c.toNat / 4096, c.toNat / 64, c.toNat] c hlead
      (Nat.lt_of_not_le h3) ?_ rest
    simp only [List.foldl_cons, List.foldl_nil, List.length_cons, List.length_nil, leadBits,
      toNat_ofNat (show c.toNat / 262144 % 8 + 0xf0 < 256 by omega)]
    omega

theorem chars_bytes (text : List Char) : chars (bytes text) = text := by
  induction text with
  | nil => exact chars_of_char?_none rfl
  | cons c text ih =>
      have hfirst := char?_encode c (bytes text)
      rw [bytes, List.flatMap_cons, ← bytes, chars_of_char?_some hfirst, ih]

end Utf8

/-! ## Readers -/

namespace ByteReader

/-- The bytes that are still to come. -/
def undelivered (r : ByteReader) : List UInt8 := r.buffer ++ r.script.flatMap Delivery.content

theorem fetch_content {room : Nat} {script script' : List Delivery} {fetched : List UInt8}
    (h : fetch room script = .ok fetched script') :
    fetched ++ script'.flatMap Delivery.content = script.flatMap Delivery.content ∧
      (fetched = [] → script' = []) := by
  fun_induction fetch room script with
  | case1 =>
      cases h
      exact ⟨rfl, fun _ => rfl⟩
  | case2 script ih => exact ih h
  | case3 => cases h
  | case4 script ih => exact ih h
  | case5 byte chunk script =>
      cases h
      refine ⟨?_, by simp⟩
      simp only [List.flatMap_cons, Delivery.content, List.cons_append, ← List.append_assoc,
        List.take_append_drop]

theorem next_content {r r' : ByteReader} {byte : Option UInt8} (h : next r = .ok byte r') :
    r.undelivered = byte.toList ++ r'.undelivered ∧ (byte = none → r'.undelivered = []) := by
  unfold next at h
  unfold undelivered
  split at h
  · next hbuffer =>
    cases h
    simp [hbuffer]
  · next hbuffer =>
    split at h
    · cases h
    · next hfetch =>
      cases h
      obtain ⟨hcontent, hend⟩ := fetch_content hfetch
      simp [hbuffer, ← hcontent, hend rfl]
    · next hfetch =>
      cases h
      obtain ⟨hcontent, -⟩ := fetch_content hfetch
      simp [hbuffer, ← hcontent]

end ByteReader

namespace Utf8Reader

/-- The bytes that are still to be decoded. -/
def undecoded (r : Utf8Reader) : List UInt8 := r.pending.toList ++ r.bytes.undelivered

theorem nextByte_content {r r' : Utf8Reader} {byte : Option UInt8}
    (h : nextByte r = .ok byte r') :
    r.undecoded = byte.toList ++ r'.undecoded ∧ (byte = none → r'.undecoded = []) ∧
      r'.pending = none := by
  unfold nextByte at h
  unfold undecoded
  split at h
  · next hpending =>
    cases h
    simp [hpending]
  · next hpending =>
    split at h
    · next hnext =>
      cases h
      simpa [hpending] using ByteReader.next_content hnext
    · cases h

theorem continuation_content {count : Nat} {r r' : Utf8Reader} {tail : Option (List UInt8)}
    (h : continuation count r = .ok tail r') :
    Utf8.sequence count r.undecoded = (tail, r'.undecoded) := by
  induction count generalizing r tail with
  | zero =>
      cases h
      rw [Utf8.sequence]
  | succ count ih =>
      simp only [continuation] at h
      split at h
      · cases h
      · next hbyte =>
        cases h
        obtain ⟨hbytes, hend, -⟩ := nextByte_content hbyte
        rw [hbytes, hend rfl]
        rfl
      · next byte r₁ hbyte =>
        obtain ⟨hbytes, -, hpending⟩ := nextByte_content hbyte
        rw [hbytes, Option.toList_some, List.singleton_append, Utf8.sequence]
        split at h
        · next hcontinues =>
          split at h
          · cases h
          · next hrest =>
            cases h
            rw [if_pos hcontinues, ih hrest]
        · next hbreaks =>
          cases h
          rw [if_neg hbreaks]
          simp [undecoded, hpending]

theorem next_content {r r' : Utf8Reader} {c : Option Char} (h : next r = .ok c r') :
    Utf8.char? r.undecoded = c.map fun c => (c, r'.undecoded) := by
  unfold next at h
  split at h
  · cases h
  · next hlead =>
    cases h
    obtain ⟨hbytes, hend, -⟩ := nextByte_content hlead
    rw [hbytes, hend rfl]
    rfl
  · next lead r₁ hlead =>
    obtain ⟨hbytes, -, -⟩ := nextByte_content hlead
    rw [hbytes, Option.toList_some, List.singleton_append]
    cases hfollowers : followers? lead with
    | none =>
      rw [hfollowers] at h
      cases h
      simp only [Utf8.char?, hfollowers, Option.map_some]
    | some count =>
      simp only [hfollowers] at h
      split at h
      · cases h
      · next hrest =>
        cases h
        simp only [Utf8.char?, hfollowers, continuation_content hrest, Option.map_some]

end Utf8Reader

namespace Source

/-- A stream delivers the characters of its bytes. -/
theorem chars_stream {reader : Utf8Reader} (h : ByteReader.Reliable reader.bytes.script) :
    (stream reader).chars = Utf8.chars reader.undecoded := by
  generalize hbytes : reader.undecoded = bytes
  induction bytes using Utf8.chars.induct generalizing reader with
  | case1 bytes hnone =>
      obtain ⟨c, reader', hnext, -, -⟩ := Utf8Reader.next_of_reliable h
      have hcontent := Utf8Reader.next_content hnext
      rw [hbytes, hnone] at hcontent
      obtain rfl := Option.map_eq_none_iff.mp hcontent.symm
      have hread : (stream reader).read = .ok none (stream reader') := by simp only [read, hnext]
      rw [chars_of_read_none hread, Utf8.chars_of_char?_none hnone]
  | case2 bytes c rest hsome _ ih =>
      obtain ⟨c', reader', hnext, hscript, -⟩ := Utf8Reader.next_of_reliable h
      have hcontent := Utf8Reader.next_content hnext
      rw [hbytes, hsome] at hcontent
      obtain ⟨_, rfl, heq⟩ := Option.map_eq_some_iff.mp hcontent.symm
      cases heq
      have hread : (stream reader).read = .ok (some c) (stream reader') := by
        simp only [read, hnext]
      rw [chars_of_read_some hread, Utf8.chars_of_char?_some hsome, ih hscript rfl]

/-- A stream that serves the bytes of a text delivers the text. -/
theorem chars_ofDeliveries (capacity : Nat) {script : List Delivery} {text : List Char}
    (h : ByteReader.Reliable script)
    (hbytes : script.flatMap Delivery.content = Utf8.bytes text) :
    (ofDeliveries capacity script).chars = text := by
  have hchars := @chars_stream { bytes := { capacity, script } } h
  rw [ofDeliveries, hchars, ← Utf8.chars_bytes text, ← hbytes]
  rfl

end Source
end CssLex
