import CssLex.Proofs.Grammar.Form
import CssLex.Proofs.Production.Reads
import CssLex.Tokenizer

/-! The tokens of a tokenizer are those of the grammar. It fails only where offsets or lines
cannot be counted any more. -/

namespace CssLex

open Grammar Scanner

namespace Grammar

/-- The token that the scanner comes to next. -/
def tokenOf (s : Scanner) : Token := token s.position s.line s.unread

/-- The tokens that the scanner still has to give. -/
def tokensOf (s : Scanner) : List Token := tokens s.position s.line s.unread

end Grammar

namespace Scanner

/-- Behind its first lexeme a scanner gives the other tokens. -/
theorem Reaches.tokensOf_eq {s s' : Scanner} (h : s.Reaches s')
    (hunread : s'.unread = (lexeme s.unread).2) (hne : s.unread ≠ []) :
    tokensOf s = tokenOf s :: tokensOf s' := by
  have hposition := h.position
  have hline := h.line
  have hlength := (lexeme_suffix s.unread).length_le
  have hcount := (lexeme_suffix s.unread).sublist.count_le '\n'
  rw [hunread] at hposition hline
  rw [tokensOf, tokens_cons hne, tokenOf, tokensOf, hunread]
  congr 2
  · change s.position + _ = _
    omega
  · omega

theorem Reaches.tokensOf_eq_of_end {s s' : Scanner} (h : s.Reaches s')
    (hend : s.unread = []) : tokensOf s' = tokensOf s := by
  have hunread : s'.unread = s.unread := by
    have hsuffix := h.suffix
    rw [hend] at hsuffix ⊢
    exact List.suffix_nil.mp hsuffix
  obtain ⟨-, hposition, hline⟩ := h.untouched hunread
  rw [tokensOf, tokensOf, hunread, hposition, hline]

end Scanner

/-- A preprocessed text with offsets and lines that can be counted. -/
def Countable (text : List Char) : Prop :=
  text.length ≤ characterLimit ∧ text.count '\n' < characterLimit

instance (text : List Char) : Decidable (Countable text) :=
  inferInstanceAs (Decidable (_ ∧ _))

theorem Countable.of_sublist {text part : List Char} (h : Countable text)
    (hpart : part.Sublist text) : Countable part :=
  ⟨Nat.le_trans hpart.length_le h.1, Nat.lt_of_le_of_lt (hpart.count_le '\n') h.2⟩

theorem countable_of_length_lt {text : List Char} (h : text.length < characterLimit) :
    Countable text :=
  ⟨Nat.le_of_lt h, Nat.lt_of_le_of_lt List.count_le_length h⟩

/-- A text that starts with no line feed can be counted if it is not too long. -/
theorem countable_of_head {text : List Char} (h : text.head? ≠ some '\n')
    (hlength : text.length ≤ characterLimit) : Countable text := by
  refine ⟨hlength, ?_⟩
  cases text with
  | nil => decide
  | cons c text =>
      have hc : c ≠ '\n' := by simpa using h
      rw [List.count_cons_of_ne hc]
      exact Nat.lt_of_le_of_lt List.count_le_length hlength

theorem fits_iff_countable {source : Source} (h : source.Reliable) :
    ({ source } : Scanner).Fits ↔ Countable (normalize source.chars) := by
  rw [← Scanner.unread_start h]
  constructor
  · intro hfits
    have hposition : 0 + ({ source } : Scanner).unread.length ≤ characterLimit := hfits.position
    have hline : 1 + ({ source } : Scanner).unread.count '\n' ≤ characterLimit := hfits.line
    exact ⟨by omega, by omega⟩
  · rintro ⟨hposition, hline⟩
    constructor
    · change 0 + _ ≤ _
      omega
    · change 1 + _ ≤ _
      omega

namespace Tokenizer

/-- What scanning a token from a sound scanner comes to. -/
theorem scanToken_of_sound {t : Tokenizer} (h : t.scanner.Sound) :
    match scanToken t with
    | .ok token t' => token = tokenOf t.scanner ∧ t'.current = some token ∧
        t'.replaying = t.replaying ∧ t'.scanner.unread = (lexeme t.scanner.unread).2 ∧
        t.scanner.Reaches t'.scanner
    | .error e _ => e = .tooLong ∧ ¬ t.scanner.Fits := by
  have hread := Production.lexeme_reads _ _ t.scanner t.scanner rfl rfl (.refl h)
  unfold scanToken
  cases hlexeme : Production.lexeme t.scanner with
  | error e s =>
      rw [hlexeme] at hread
      exact hread
  | ok l s =>
      rw [hlexeme] at hread
      obtain ⟨rfl, hunread, hreaches⟩ := hread
      refine ⟨?_, rfl, rfl, hunread, hreaches⟩
      have hposition := hreaches.position
      have hlength := (lexeme_suffix t.scanner.unread).length_le
      rw [hunread] at hposition
      simp only [tokenOf, token, Token.mk.injEq, Span.mk.injEq, true_and, and_true]
      omega

theorem fetch_of_not_replaying {t : Tokenizer} (h : t.replaying = false) :
    fetch t = scanToken t := by
  obtain ⟨scanner, current, replaying⟩ := t
  cases h
  rfl

theorem next_eq (t : Tokenizer) :
    t.next =
      match t.fetch with
      | .error e t' => .error e t'
      | .ok token t' => if token.kind.isInsignificant then t'.next else .ok token t' := by
  rw [next]
  split
  · next heq => simp only [heq]
  · next heq =>
    simp only [heq]
    split <;> rfl

theorem next_of_skipped {t t' : Tokenizer} {token : Token}
    (h : t.fetch = .ok token t') (hskip : token.kind.isInsignificant = true) :
    t.next = t'.next := by
  rw [next_eq t, h]
  exact if_pos hskip

theorem next_of_kept {t t' : Tokenizer} {token : Token}
    (h : t.fetch = .ok token t') (hkeep : ¬ token.kind.isInsignificant = true) :
    t.next = .ok token t' := by
  rw [next_eq t, h]
  exact if_neg hkeep

theorem collectFrom_eq (skipping : Bool) (read : List Token) (t : Tokenizer) :
    collectFrom skipping read t =
      match pull skipping t with
      | .error e _ => .error e
      | .ok token t' =>
        if token.kind = .eof then .ok (token :: read).reverse
        else collectFrom skipping (token :: read) t' := by
  rw [collectFrom]
  split
  · next heq => simp only [heq]
  · next heq =>
    simp only [heq]
    split <;> rfl

theorem collectFrom_of_pull {skipping : Bool} {t t' : Tokenizer} {token : Token}
    (h : pull skipping t = .ok token t') (read : List Token) :
    collectFrom skipping read t =
      if token.kind = .eof then .ok (token :: read).reverse
      else collectFrom skipping (token :: read) t' := by
  rw [collectFrom_eq, h]

theorem collectFrom_of_sound {t : Tokenizer} (h : t.scanner.Sound) (ht : t.replaying = false)
    (read : List Token) :
    match t.collectFrom false read with
    | .ok found => found = read.reverse ++ tokensOf t.scanner ∧ t.scanner.Fits
    | .error e => e = .tooLong ∧ ¬ t.scanner.Fits := by
  have hscan := scanToken_of_sound h
  fun_induction collectFrom false read t with
  | case1 read t e t' hpull =>
      rw [← fetch_of_not_replaying ht, show fetch t = .error e t' from hpull] at hscan
      exact hscan
  | case2 read t token t' hpull heof =>
      rw [← fetch_of_not_replaying ht, show fetch t = .ok token t' from hpull] at hscan
      obtain ⟨rfl, -, -, hunread, hreaches⟩ := hscan
      have hend : t.scanner.unread = [] := lexeme_kind_eq_eof.mp heof
      refine ⟨?_, h.fits_of_unread_nil hend⟩
      rw [tokensOf, tokenOf, hend, tokens_nil, List.reverse_cons]
  | case3 read t token t' hpull heof _ ih =>
      rw [← fetch_of_not_replaying ht, show fetch t = .ok token t' from hpull] at hscan
      obtain ⟨rfl, -, hreplaying, hunread, hreaches⟩ := hscan
      have hne : t.scanner.unread ≠ [] := fun hend => heof (lexeme_kind_eq_eof.mpr hend)
      have hrest := ih hreaches.sound (hreplaying.trans ht) (scanToken_of_sound hreaches.sound)
      rw [hreaches.tokensOf_eq hunread hne]
      simpa only [List.reverse_cons, List.append_assoc, List.singleton_append,
        hreaches.fits_iff] using hrest

/-- A tokenizer over a reliable source, before its first token, gives the tokens of the
preprocessed text, provided that the text can be counted. -/
theorem tokenize_of_fits {t : Tokenizer} (h : t.scanner.Sound) (ht : t.replaying = false)
    (hfits : t.scanner.Fits) : t.tokenize = .ok (tokensOf t.scanner) := by
  have hcollect := collectFrom_of_sound h ht []
  unfold tokenize collect
  cases hresult : t.collectFrom false [] with
  | error e =>
      rw [hresult] at hcollect
      exact absurd hfits hcollect.2
  | ok found =>
      rw [hresult] at hcollect
      rw [hcollect.1]
      rfl

theorem eq_of_tokenize_ok {t : Tokenizer} (h : t.scanner.Sound) (ht : t.replaying = false)
    {found : List Token} (hok : t.tokenize = .ok found) :
    found = tokensOf t.scanner ∧ t.scanner.Fits := by
  have hcollect := collectFrom_of_sound h ht []
  rw [show t.collectFrom false [] = .ok found from hok] at hcollect
  exact hcollect

/-- A tokenizer over a reliable source is a function of the characters that the source delivers. -/
theorem tokenize_ofSource {source : Source} (h : source.Reliable) :
    (ofSource source).tokenize =
      if Countable (normalize source.chars) then .ok (tokens 0 1 (normalize source.chars))
      else .error .tooLong := by
  have hcollect := collectFrom_of_sound (t := ofSource source) (Scanner.sound_start h) rfl []
  have hfits := fits_iff_countable h
  have hunread := Scanner.unread_start h
  unfold tokenize collect
  cases hresult : (ofSource source).collectFrom false [] with
  | ok found =>
      rw [hresult] at hcollect
      rw [if_pos (hfits.mp hcollect.2), hcollect.1, ← hunread]
      rfl
  | error e =>
      rw [hresult] at hcollect
      rw [if_neg fun hcountable => hcollect.2 (hfits.mpr hcountable), hcollect.1]

theorem tokenize_text (text : String) :
    (ofString text).tokenize =
      if Countable (normalize text.toList) then .ok (tokens 0 1 (normalize text.toList))
      else .error .tooLong := by
  rw [ofString, tokenize_ofSource (Source.reliable_ofString text), Source.chars_ofString]

end Tokenizer
end CssLex
