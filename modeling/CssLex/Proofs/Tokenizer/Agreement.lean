import CssLex.Proofs.Source.Decoding
import CssLex.Proofs.Tokenizer.Tokens

/-! Sources that deliver the same characters give the same tokens, from memory as from a window
over an array or from a stream of bytes. -/

namespace CssLex

open Grammar

/-- The tokens that are not passed over. -/
def kept (skipping : Bool) (found : List Token) : List Token :=
  found.filter fun token => !(skipping && token.kind.isInsignificant)

theorem kept_cons (token : Token) (found : List Token) :
    kept true (token :: found) =
      if token.kind.isInsignificant then kept true found else token :: kept true found := by
  cases h : token.kind.isInsignificant <;> simp [kept, h]

theorem kept_false (found : List Token) : kept false found = found := by simp [kept]

namespace Tokenizer

theorem collectFrom_congr {skipping : Bool} {t t' : Tokenizer}
    (h : pull skipping t = pull skipping t') (read : List Token) :
    collectFrom skipping read t = collectFrom skipping read t' := by
  rw [collectFrom_eq, h, ← collectFrom_eq]

theorem collectFrom_skipping (read : List Token) (t : Tokenizer) :
    t.collectFrom true (kept true read) = (t.collectFrom false read).map (kept true) := by
  fun_induction collectFrom false read t with
  | case1 read t e t' hpull =>
      have hfetch : t.fetch = .error e t' := hpull
      have hnext : pull true t = .error e t' := by rw [pull, if_pos rfl, next_eq, hfetch]
      rw [collectFrom_eq, hnext]
      rfl
  | case2 read t token t' hpull heof =>
      have hkeep : token.kind.isInsignificant = false := by
        rw [heof]
        rfl
      have hnext : pull true t = .ok token t' := next_of_kept hpull (by simp [hkeep])
      rw [collectFrom_of_pull hnext, if_pos heof, Except.map, kept, kept, List.filter_reverse,
        List.filter_cons_of_pos (by simp [hkeep])]
  | case3 read t token t' hpull heof _ ih =>
      rw [kept_cons] at ih
      by_cases hskip : token.kind.isInsignificant = true
      · have hnext : pull true t = pull true t' := next_of_skipped hpull hskip
        rw [if_pos hskip] at ih
        rw [collectFrom_congr hnext, ih]
      · have hnext : pull true t = .ok token t' := next_of_kept hpull hskip
        rw [if_neg hskip] at ih
        rw [collectFrom_of_pull hnext, if_neg heof, ih]

/-- Passing over insignificant tokens gives the other ones of all tokens, and fails where all
tokens fail. -/
theorem collect_eq (skipping : Bool) (t : Tokenizer) :
    t.collect skipping = t.tokenize.map (kept skipping) := by
  cases skipping with
  | true => exact collectFrom_skipping [] t
  | false =>
      rw [tokenize]
      cases t.collect false with
      | ok found => rw [Except.map, kept_false]
      | error e => rfl

theorem collect_of_chars {source source' : Source} (h : source.Reliable) (h' : source'.Reliable)
    (hchars : source.chars = source'.chars) (skipping : Bool) :
    (ofSource source).collect skipping = (ofSource source').collect skipping := by
  rw [collect_eq, collect_eq, tokenize_ofSource h, tokenize_ofSource h', hchars]

/-- All sources of a text give the same tokens: the text in memory, a window over an array with its
characters, and a stream that serves its bytes in UTF-8, however these are cut into deliveries,
interrupted and buffered. This holds for all tokens and where insignificant ones are passed over. -/
theorem collect_of_sources (text : String) {chars : Array Char} {lo hi : Nat} (hrange : lo ≤ hi)
    (hsize : hi ≤ chars.size) (hwindow : (chars.extract lo hi).toList = text.toList)
    (capacity : Nat) {script : List Delivery} (hscript : ByteReader.Reliable script)
    (hbytes : script.flatMap Delivery.content = text.toUTF8.data.toList) :
    ∃ window, Source.ofRange chars lo hi = .ok window ∧ ∀ skipping,
      (ofSource window).collect skipping = (ofString text).collect skipping ∧
        (ofSource (.ofDeliveries capacity script)).collect skipping =
          (ofString text).collect skipping := by
  have htext := Source.reliable_ofString text
  have hstream : (Source.ofDeliveries capacity script).Reliable := hscript
  have hstreamed : (Source.ofDeliveries capacity script).chars = (Source.ofString text).chars := by
    rw [Utf8.toList_toUTF8] at hbytes
    rw [Source.chars_ofDeliveries capacity hscript hbytes, Source.chars_ofString]
  let window : Window := ⟨chars, lo, hi, hrange, hsize⟩
  have harray : (Source.window window).Reliable := trivial
  have hseen : (Source.window window).chars = (Source.ofString text).chars := by
    rw [Source.chars_window, Source.chars_ofString]
    exact hwindow
  refine ⟨.window window, ?_, fun skipping => ⟨?_, ?_⟩⟩
  · rw [Source.ofRange, Window.ofRange, dif_pos ⟨hrange, hsize⟩]
    rfl
  · exact collect_of_chars harray htext hseen skipping
  · exact collect_of_chars hstream htext hstreamed skipping

/-- A character and a line end that are cut in two, with an interruption between the halves. -/
def cutDeliveries : List Delivery :=
  [.bytes [0xC3], .interrupted, .bytes [0xA9, 0x0D], .bytes [], .bytes [0x0A, 0x2F]]

theorem reliable_cutDeliveries : ByteReader.Reliable cutDeliveries := by
  simp [ByteReader.Reliable, cutDeliveries]

theorem content_cutDeliveries :
    cutDeliveries.flatMap Delivery.content = "é\r\n/".toUTF8.data.toList := by
  rw [Utf8.toList_toUTF8]
  decide

theorem collect_of_sources_of_cutDeliveries :
    ∃ window, Source.ofRange #['x', 'é', '\r', '\n', '/', 'x'] 1 5 = .ok window ∧
      ∀ skipping,
        (ofSource window).collect skipping = (ofString "é\r\n/").collect skipping ∧
          (ofSource (.ofDeliveries 2 cutDeliveries)).collect skipping =
            (ofString "é\r\n/").collect skipping :=
  collect_of_sources "é\r\n/" (by decide) (by decide) (by decide) 2 reliable_cutDeliveries
    content_cutDeliveries

end Tokenizer
end CssLex
