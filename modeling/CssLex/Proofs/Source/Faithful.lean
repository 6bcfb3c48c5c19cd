import CssLex.Proofs.Source.Synchrony

/-! Decoding neither hides nor forges a character. The bytes of a stream fall into pieces, one for
each character that is read: either its encoding, or bytes beyond ASCII that are replaced. -/

namespace CssLex

namespace Utf8

open Utf8Reader

/-- The piece is read as the character: it is its encoding, or else it is malformed, holds no
ASCII, and is replaced. -/
def Gives (piece : List UInt8) (c : Char) : Prop :=
  piece = String.utf8EncodeChar c ∨
    c = replacement ∧ piece ≠ [] ∧ ∀ byte ∈ piece, 0x80 ≤ byte.toNat

theorem toNat_of_isContinuation {byte : UInt8} (h : isContinuation byte = true) :
    0x80 ≤ byte.toNat ∧ byte.toNat ≤ 0xBF := by
  simpa [isContinuation, UInt8.le_iff_toNat_le] using h

/-- The numbers that a lead byte with this many continuation bytes lies between. -/
theorem toNat_of_followers? {lead : UInt8} {followers : Nat}
    (h : followers? lead = some followers) :
    followers = 0 ∧ lead.toNat ≤ 0x7F ∨
      followers = 1 ∧ 0xC0 ≤ lead.toNat ∧ lead.toNat ≤ 0xDF ∨
      followers = 2 ∧ 0xE0 ≤ lead.toNat ∧ lead.toNat ≤ 0xEF ∨
      followers = 3 ∧ 0xF0 ≤ lead.toNat ∧ lead.toNat ≤ 0xF7 := by
  rw [← UInt8.ofNat_toNat (x := lead), followers?_ofNat lead.toNat_lt] at h
  grind

theorem toNat_of_followers?_none {lead : UInt8} (h : followers? lead = none) :
    0x80 ≤ lead.toNat := by
  rw [← UInt8.ofNat_toNat (x := lead), followers?_ofNat lead.toNat_lt] at h
  grind

theorem ofNat_eq_of_toNat {n : Nat} {b : UInt8} (h : n = b.toNat) : UInt8.ofNat n = b := by
  rw [h, UInt8.ofNat_toNat]

/-- A number that is neither too small for its sequence nor beyond the scalar values is encoded
by the sequence. -/
theorem encode_of_toNat {lead : UInt8} {tail : List UInt8} {c : Char}
    (hlead : followers? lead = some tail.length)
    (htail : ∀ byte ∈ tail, isContinuation byte = true)
    (hleast : leastScalar tail.length ≤ c.toNat)
    (hnumber : c.toNat =
      tail.foldl (fun n byte => n * 64 + byte.toNat % 64) (leadBits lead tail.length)) :
    String.utf8EncodeChar c = lead :: tail := by
  have hvalue : c.val.toNat = c.toNat := rfl
  have hbounds (byte : UInt8) (h : byte ∈ tail) := toNat_of_isContinuation (htail byte h)
  unfold String.utf8EncodeChar
  rw [hvalue]
  -- one case for each length of the sequence
  match tail with
  | [] =>
      have hlow := toNat_of_followers? hlead
      simp only [List.length_nil, List.foldl_nil, leadBits] at hlow hnumber
      rw [if_pos (by omega), ofNat_eq_of_toNat hnumber]
  | [a] =>
      have hlow := toNat_of_followers? hlead
      have ha := hbounds a (by simp)
      simp only [List.length_cons, List.length_nil, List.foldl_cons, List.foldl_nil, leadBits,
        leastScalar] at hlow hnumber hleast
      rw [if_neg (by omega), if_pos (by omega), ofNat_eq_of_toNat (b := lead) (by omega),
        ofNat_eq_of_toNat (b := a) (by omega)]
  | [a, b] =>
      have hlow := toNat_of_followers? hlead
      have ha := hbounds a (by simp)
      have hb := hbounds b (by simp)
      simp only [List.length_cons, List.length_nil, List.foldl_cons, List.foldl_nil, leadBits,
        leastScalar] at hlow hnumber hleast
      rw [if_neg (by omega), if_neg (by omega), if_pos (by omega),
        ofNat_eq_of_toNat (b := lead) (by omega), ofNat_eq_of_toNat (b := a) (by omega),
        ofNat_eq_of_toNat (b := b) (by omega)]
  | [a, b, d] =>
      have hlow := toNat_of_followers? hlead
      have ha := hbounds a (by simp)
      have hb := hbounds b (by simp)
      have hd := hbounds d (by simp)
      simp only [List.length_cons, List.length_nil, List.foldl_cons, List.foldl_nil, leadBits,
        leastScalar] at hlow hnumber hleast
      rw [if_neg (by omega), if_neg (by omega), if_neg (by omega),
        ofNat_eq_of_toNat (b := lead) (by omega), ofNat_eq_of_toNat (b := a) (by omega),
        ofNat_eq_of_toNat (b := b) (by omega), ofNat_eq_of_toNat (b := d) (by omega)]
  | _ :: _ :: _ :: _ :: rest =>
      have hshort := toNat_of_followers? hlead
      simp only [List.length_cons] at hshort
      omega

/-- A complete sequence is the encoding of its character, or it is replaced. -/
theorem decode_gives {lead : UInt8} {tail : List UInt8}
    (hlead : followers? lead = some tail.length)
    (htail : ∀ byte ∈ tail, isContinuation byte = true) :
    Gives (lead :: tail) (decode lead tail) := by
  let n := tail.foldl (fun n byte => n * 64 + byte.toNat % 64) (leadBits lead tail.length)
  have hdecode : decode lead tail =
      if n < leastScalar tail.length then replacement else scalarOrReplacement n := rfl
  have hbytes := toNat_of_followers? hlead
  by_cases hsound : leastScalar tail.length ≤ n ∧ n.isValidChar
  · obtain ⟨hleast, hvalid⟩ := hsound
    rw [hdecode, if_neg (Nat.not_lt_of_le hleast)]
    have hnumber := toNat_scalarOrReplacement hvalid
    exact .inl (encode_of_toNat hlead htail (by rwa [hnumber]) hnumber).symm
  · -- a single byte is never replaced
    have hlong : 0x80 ≤ lead.toNat := by
      cases tail with
      | cons byte tail =>
          simp only [List.length_cons] at hbytes
          omega
      | nil =>
          have hlow : lead.toNat ≤ 0x7F := by simpa using hbytes
          have hn : n = lead.toNat := rfl
          refine absurd ⟨Nat.zero_le n, .inl ?_⟩ hsound
          omega
    refine .inr ⟨?_, by simp, ?_⟩
    · rw [hdecode]
      split
      · rfl
      · next hleast =>
        have hinvalid : ¬ n.isValidChar := fun h => hsound ⟨Nat.le_of_not_lt hleast, h⟩
        rw [scalarOrReplacement, dif_neg hinvalid]
    · intro byte hbyte
      rcases List.mem_cons.mp hbyte with rfl | hbyte
      · exact hlong
      · exact (toNat_of_isContinuation (htail byte hbyte)).1

/-- What is taken of a sequence are continuation bytes, as many as asked for where it is
complete. -/
theorem sequence_split (count : Nat) (bytes : List UInt8) :
    ∃ taken, bytes = taken ++ (sequence count bytes).2 ∧
      (∀ byte ∈ taken, isContinuation byte = true) ∧
      ∀ tail ∈ (sequence count bytes).1, tail = taken ∧ tail.length = count := by
  fun_induction sequence count bytes with
  | case1 bytes => exact ⟨[], rfl, by simp, by simp⟩
  | case2 count => exact ⟨[], rfl, by simp, by simp⟩
  | case3 count byte bytes hcontinues ih =>
      obtain ⟨taken, hbytes, htaken, hcomplete⟩ := ih
      refine ⟨byte :: taken, by rw [List.cons_append, ← hbytes], ?_, ?_⟩
      · simpa using ⟨hcontinues, htaken⟩
      · intro tail htail
        obtain ⟨tail, hfound, rfl⟩ := Option.map_eq_some_iff.mp htail
        obtain ⟨rfl, hlength⟩ := hcomplete tail hfound
        exact ⟨rfl, by rw [List.length_cons, hlength]⟩
  | case4 count byte bytes hbreaks => exact ⟨[], rfl, by simp, by simp⟩

/-- The bytes of the first character give it. -/
theorem char?_gives {bytes rest : List UInt8} {c : Char} (h : char? bytes = some (c, rest)) :
    ∃ piece, bytes = piece ++ rest ∧ Gives piece c := by
  cases bytes with
  | nil => cases h
  | cons lead bytes =>
      cases hlead : followers? lead with
      | none =>
          simp only [char?, hlead, Option.some.injEq, Prod.mk.injEq] at h
          obtain ⟨rfl, rfl⟩ := h
          exact ⟨[lead], rfl, .inr ⟨rfl, by simp, by simpa using toNat_of_followers?_none hlead⟩⟩
      | some followers =>
          simp only [char?, hlead, Option.some.injEq, Prod.mk.injEq] at h
          obtain ⟨rfl, rfl⟩ := h
          obtain ⟨taken, hbytes, htaken, hcomplete⟩ := sequence_split followers bytes
          refine ⟨lead :: taken, by rw [List.cons_append, ← hbytes], ?_⟩
          cases hfound : (sequence followers bytes).1 with
          | some tail =>
              obtain ⟨rfl, rfl⟩ := hcomplete tail hfound
              exact decode_gives hlead htaken
          | none =>
              have hlong : 0x80 ≤ lead.toNat := by
                rcases toNat_of_followers? hlead with ⟨rfl, -⟩ | ⟨-, h, -⟩ | ⟨-, h, -⟩ | ⟨-, h, -⟩
                · rw [sequence] at hfound
                  cases hfound
                all_goals omega
              refine .inr ⟨rfl, by simp, fun byte hbyte => ?_⟩
              rcases List.mem_cons.mp hbyte with rfl | hbyte
              · exact hlong
              · exact (toNat_of_isContinuation (htaken byte hbyte)).1

/-- The bytes of a text fall into the pieces that its characters were read from. -/
theorem chars_pieces (bytes : List UInt8) :
    ∃ pieces : List (List UInt8 × Char), bytes = pieces.flatMap (·.1) ∧
      chars bytes = pieces.map (·.2) ∧ ∀ piece ∈ pieces, Gives piece.1 piece.2 := by
  induction bytes using chars.induct with
  | case1 bytes hnone =>
      rw [eq_nil_of_char?_none hnone, chars_nil]
      exact ⟨[], rfl, rfl, by simp⟩
  | case2 bytes c rest hsome _ ih =>
      obtain ⟨piece, hbytes, hgives⟩ := char?_gives hsome
      obtain ⟨pieces, hrest, hchars, hpieces⟩ := ih
      refine ⟨(piece, c) :: pieces, ?_, ?_, ?_⟩
      · rw [List.flatMap_cons, ← hrest, hbytes]
      · rw [chars_of_char?_some hsome, hchars, List.map_cons]
      · intro p hp
        rcases List.mem_cons.mp hp with rfl | hp
        · exact hgives
        · exact hpieces p hp

theorem encode_beyond {c : Char} (h : 0x80 ≤ c.toNat) :
    ∀ byte ∈ String.utf8EncodeChar c, 0x80 ≤ byte.toNat := by
  have hvalue : c.val.toNat = c.toNat := rfl
  have hbeyond (n : Nat) : n < 0x80 → 0x80 ≤ (UInt8.ofNat (n + 0x80)).toNat := by
    intro hn
    rw [toNat_ofNat (by omega)]
    omega
  have hlow : ¬ c.toNat ≤ 0x7F := by omega
  unfold String.utf8EncodeChar
  rw [hvalue, if_neg hlow]
  split
  · simpa using ⟨hbeyond (c.toNat / 64 % 32 + 64) (by omega), hbeyond (c.toNat % 64) (by omega)⟩
  split
  · simpa using ⟨hbeyond (c.toNat / 4096 % 16 + 96) (by omega),
      hbeyond (c.toNat / 64 % 64) (by omega), hbeyond (c.toNat % 64) (by omega)⟩
  · simpa using ⟨hbeyond (c.toNat / 262144 % 8 + 112) (by omega),
      hbeyond (c.toNat / 4096 % 64) (by omega), hbeyond (c.toNat / 64 % 64) (by omega),
      hbeyond (c.toNat % 64) (by omega)⟩

theorem filter_beyond {piece : List UInt8} (h : ∀ byte ∈ piece, 0x80 ≤ byte.toNat) :
    piece.filter (·.toNat < 0x80) = [] := by
  rw [List.filter_eq_nil_iff]
  intro byte hbyte
  simpa using h byte hbyte

/-- A piece holds the ASCII character that it gives, and no other. -/
theorem Gives.ascii {piece : List UInt8} {c : Char} (h : Gives piece c) :
    (piece.filter (·.toNat < 0x80)).map UInt8.toNat =
      ([c].filter (·.toNat < 0x80)).map Char.toNat := by
  rcases h with rfl | ⟨rfl, -, hbytes⟩
  · by_cases hlow : c.toNat < 0x80
    · have hbyte := toNat_ofNat (n := c.toNat) (by omega)
      have hencode : String.utf8EncodeChar c = [UInt8.ofNat c.toNat] :=
        if_pos (Nat.le_of_lt_succ hlow)
      simp [hencode, hbyte, hlow]
    · rw [filter_beyond (encode_beyond (Nat.le_of_not_lt hlow)),
        List.filter_cons_of_neg (by simpa using hlow)]
      rfl
  · rw [filter_beyond hbytes]
    rfl

theorem ascii_pieces {pieces : List (List UInt8 × Char)}
    (h : ∀ piece ∈ pieces, Gives piece.1 piece.2) :
    ((pieces.map (·.2)).filter (·.toNat < 0x80)).map Char.toNat =
      ((pieces.flatMap (·.1)).filter (·.toNat < 0x80)).map UInt8.toNat := by
  induction pieces with
  | nil => rfl
  | cons piece pieces ih =>
      have hfirst := (h piece List.mem_cons_self).ascii
      have hrest := ih fun p hp => h p (List.mem_cons_of_mem _ hp)
      rw [List.flatMap_cons, List.filter_append, List.map_append, hfirst, ← hrest,
        ← List.map_append, ← List.filter_append, List.singleton_append, List.map_cons]

end Utf8

namespace Source

/-- Malformed bytes neither hide an ASCII character of a stream nor forge one: the ASCII
characters are the ASCII bytes, in order. Every other character is encoded by the bytes in its
place, or it replaces them. -/
theorem ascii_of_serves (capacity : Nat) {script : List Delivery} {bytes : List UInt8}
    (h : ByteReader.Serves script bytes) :
    ∃ (text : List Char) (pieces : List (List UInt8 × Char)),
      (ofDeliveries capacity script).outcomes = text.map .ok ∧
      (text.filter (·.toNat < 0x80)).map Char.toNat =
        (bytes.filter (·.toNat < 0x80)).map UInt8.toNat ∧
      bytes = pieces.flatMap (·.1) ∧ text = pieces.map (·.2) ∧
      ∀ piece ∈ pieces, Utf8.Gives piece.1 piece.2 := by
  obtain ⟨pieces, hbytes, hchars, hpieces⟩ := Utf8.chars_pieces bytes
  have hascii := Utf8.ascii_pieces hpieces
  rw [← hbytes, ← hchars] at hascii
  exact ⟨Utf8.chars bytes, pieces, outcomes_of_serves h capacity, hascii, hbytes, hchars, hpieces⟩

/-- A lead byte that another one breaks off, and an overlong slash. -/
theorem ascii_of_serves_of_overlong :
    ByteReader.Serves [.bytes [0xE2, 0xC3], .bytes [0x22, 0xC0, 0xAF]]
        [0xE2, 0xC3, 0x22, 0xC0, 0xAF] ∧
      ∃ text : List Char,
        (ofDeliveries 3 [.bytes [0xE2, 0xC3], .bytes [0x22, 0xC0, 0xAF]]).outcomes =
          text.map .ok ∧
        (text.filter (·.toNat < 0x80)).map Char.toNat = ['"'.toNat] := by
  have hserves : ByteReader.Serves [.bytes [0xE2, 0xC3], .bytes [0x22, 0xC0, 0xAF]]
      [0xE2, 0xC3, 0x22, 0xC0, 0xAF] := ⟨by simp [ByteReader.Reliable], rfl⟩
  obtain ⟨text, -, htext, hascii, -⟩ := ascii_of_serves 3 hserves
  refine ⟨hserves, text, htext, ?_⟩
  rw [hascii]
  decide

end Source
end CssLex
