import CssLex.Proofs.Scanner.Unread
import CssLex.Proofs.Serialize.Step

/-! Preprocessing leaves the text that is written for the lexemes of a preprocessed text as it
is. -/

namespace CssLex

open Scanner

/-! ## Preprocessed characters -/

theorem preprocess_idem (c : Char) : preprocess (preprocess c) = preprocess c := by
  unfold preprocess
  by_cases hbreak : (c = '\r' || c = '\x0c') = true
  · simp [hbreak]
  · by_cases hnul : c = '\x00'
    · subst hnul
      decide
    · simp [hbreak, hnul]

theorem preprocess_of_not_isControl {c : Char} (h : isControl c = false) : preprocess c = c := by
  have hbreak : ¬ (c = '\r' || c = '\x0c') = true := by
    intro hbreak
    simp only [Bool.or_eq_true, decide_eq_true_eq] at hbreak
    rcases hbreak with rfl | rfl <;> cases h
  have hnul : c ≠ '\x00' := by
    rintro rfl
    cases h
  rw [preprocess, if_neg hbreak, if_neg hnul]

/-- A text that preprocessing leaves as it is. -/
def Preprocessed (text : List Char) : Prop := ∀ c ∈ text, preprocess c = c

theorem Preprocessed.normalize_append {front : List Char} (h : Preprocessed front)
    (rest : List Char) : normalize (front ++ rest) = front ++ normalize rest := by
  induction front with
  | nil => rfl
  | cons c front ih =>
      have hc := h c List.mem_cons_self
      have hreturn : c ≠ '\r' := by
        rintro rfl
        cases hc
      rw [List.cons_append, normalize_cons, hc, if_neg hreturn,
        ih fun d hd => h d (List.mem_cons_of_mem c hd), List.cons_append]

theorem Preprocessed.normalize_eq {text : List Char} (h : Preprocessed text) :
    normalize text = text := by
  simpa [normalize] using h.normalize_append []

theorem normalize_length_le (text : List Char) : (normalize text).length ≤ text.length := by
  fun_induction normalize text with
  | case1 => exact Nat.le_refl _
  | case2 rest ih =>
      simp only [List.length_cons]
      omega
  | case3 c rest _ ih =>
      simp only [List.length_cons]
      omega

theorem preprocessed_normalize (text : List Char) : Preprocessed (normalize text) := by
  fun_induction normalize text with
  | case1 => simp [Preprocessed]
  | case2 rest ih => exact List.forall_mem_cons.mpr ⟨rfl, ih⟩
  | case3 c rest _ ih => exact List.forall_mem_cons.mpr ⟨preprocess_idem c, ih⟩

theorem Preprocessed.append {front back : List Char} (hfront : Preprocessed front)
    (hback : Preprocessed back) : Preprocessed (front ++ back) :=
  List.forall_mem_append.mpr ⟨hfront, hback⟩

theorem Preprocessed.of_subset {part text : List Char} (h : Preprocessed text)
    (hpart : part ⊆ text) : Preprocessed part := fun c hc => h c (hpart hc)

theorem preprocessed_of_not_isControl {text : List Char} (h : ∀ c ∈ text, isControl c = false) :
    Preprocessed text := fun c hc => preprocess_of_not_isControl (h c hc)

theorem preprocessed_of_all {text : List Char} (h : text.all (fun c => !isControl c) = true) :
    Preprocessed text :=
  preprocessed_of_not_isControl fun c hc => by simpa using List.all_eq_true.mp h c hc

/-! ## Names and strings -/

namespace Serialize

open Production

theorem hexEscaped_plain {c d : Char} (h : d ∈ hexEscaped c) : isControl d = false := by
  simp only [hexEscaped, List.cons_append, List.mem_cons, List.mem_append] at h
  rcases h with rfl | h | rfl | h
  · rfl
  · exact not_isControl_of_isNameChar (isNameChar_of_isHexDigit (isHexDigit_of_mem_lowerHex h))
  · rfl
  · cases h

theorem nameChar_plain {c d : Char} (h : d ∈ nameChar c) : isControl d = false := by
  unfold nameChar at h
  by_cases hcontrol : isControl c = true
  · rw [if_pos hcontrol] at h
    exact hexEscaped_plain h
  · rw [if_neg hcontrol] at h
    by_cases hname : isNameChar c = true
    · rw [if_pos hname, List.mem_singleton] at h
      rw [h]
      simpa using hcontrol
    · rw [if_neg hname] at h
      simp only [List.mem_cons, List.not_mem_nil, or_false] at h
      rcases h with rfl | rfl
      · rfl
      · simpa using hcontrol

theorem startChar_plain {c d : Char} (h : d ∈ startChar c) : isControl d = false := by
  unfold startChar at h
  split at h
  · exact hexEscaped_plain h
  · exact nameChar_plain h

theorem name_plain {value : List Char} {d : Char} (h : d ∈ name value) : isControl d = false := by
  obtain ⟨c, -, hd⟩ := List.mem_flatMap.mp h
  exact nameChar_plain hd

theorem identifier_plain {value : List Char} {d : Char} (h : d ∈ identifier value) :
    isControl d = false := by
  unfold identifier at h
  split at h
  · cases h
  · simp only [List.mem_cons, List.not_mem_nil, or_false] at h
    rcases h with rfl | rfl <;> rfl
  · simp only [List.mem_cons, List.not_mem_nil, or_false] at h
    rcases h with rfl | rfl | rfl <;> rfl
  · simp only [List.cons_append, List.mem_cons, List.mem_append] at h
    rcases h with rfl | h | h
    · rfl
    · exact startChar_plain h
    · exact name_plain h
  · rcases List.mem_append.mp h with h | h
    · exact startChar_plain h
    · exact name_plain h

theorem unit_plain {value : List Char} {d : Char} (h : d ∈ unit value) : isControl d = false := by
  simp only [unit] at h
  split at h
  · rcases List.mem_append.mp h with h | h
    · exact hexEscaped_plain h
    · exact identifier_plain (List.mem_of_mem_drop h)
  · exact identifier_plain h

theorem stringChar_plain {c d : Char} (h : d ∈ stringChar c) : isControl d = false := by
  unfold stringChar at h
  split at h
  · next hquoted =>
    simp only [Bool.or_eq_true, decide_eq_true_eq] at hquoted
    simp only [List.mem_cons, List.not_mem_nil, or_false] at h
    rcases h with rfl | rfl
    · rfl
    · rcases hquoted with rfl | rfl <;> rfl
  · split at h
    · exact hexEscaped_plain h
    · next hcontrol =>
      rw [List.mem_singleton.mp h]
      simpa using hcontrol

theorem preprocessed_stringChars (value : List Char) :
    Preprocessed (value.flatMap stringChar) := by
  apply preprocessed_of_not_isControl
  intro d hd
  obtain ⟨c, -, hd⟩ := List.mem_flatMap.mp hd
  exact stringChar_plain hd

theorem preprocessed_identifier (value : List Char) : Preprocessed (identifier value) :=
  preprocessed_of_not_isControl fun _ => identifier_plain

end Serialize

/-! ## Lexemes -/

namespace Grammar

open Production

variable {c : Char} {text : List Char} {n : Numeral}

theorem Numeral.Valid.plain (h : n.Valid) (hc : c ∈ n.text) : isControl c = false := by
  cases hdigit : isDigit c with
  | true => exact not_isControl_of_isDigit hdigit
  | false =>
      cases hsign : isSign c with
      | true => rcases isSign_eq_true.mp hsign with rfl | rfl <;> rfl
      | false => rcases (h.mem_text hdigit hsign).mp hc with ⟨-, rfl⟩ | ⟨-, rfl⟩ <;> rfl

theorem Numeral.Valid.preprocessed (h : n.Valid) : Preprocessed n.text :=
  preprocessed_of_not_isControl fun _ => h.plain

theorem commentRun_subset (text : List Char) : (commentRun text).1.1 ⊆ text := by
  fun_induction commentRun text with
  | case1 => exact List.nil_subset _
  | case2 text => exact List.nil_subset _
  | case3 c text => exact List.cons_subset_cons c (by assumption)

theorem preprocessed_css_string (value : List Char) :
    Preprocessed (Lexeme.ofText .string value).css ∧
      Preprocessed (Lexeme.ofText .badString value).css := by
  have hchars := Serialize.preprocessed_stringChars value
  constructor
  · rw [Lexeme.css_string]
    exact List.forall_mem_cons.mpr ⟨rfl, hchars.append (preprocessed_of_all rfl)⟩
  · rw [Lexeme.css_badString]
    exact List.forall_mem_cons.mpr ⟨rfl, hchars⟩

theorem preprocessed_css_url (body : Body) : Preprocessed (ofBody .url .badUrl body).css := by
  have hchars := Serialize.preprocessed_stringChars body.text
  have hopen : Preprocessed ['u', 'r', 'l', '(', '"'] :=
    preprocessed_of_all rfl
  unfold ofBody
  split
  · rw [Lexeme.css_url]
    exact hopen.append (hchars.append (preprocessed_of_all rfl))
  · rw [Lexeme.css_badUrl]
    exact hopen.append (hchars.append (preprocessed_of_all rfl))

theorem preprocessed_css_comment {body : Body} (h : Preprocessed body.text) :
    Preprocessed (ofBody .comment .badComment body).css := by
  have hopen : Preprocessed ['/', '*'] :=
    preprocessed_of_all rfl
  unfold ofBody
  split
  · rw [Lexeme.css_comment]
    exact hopen.append (h.append (preprocessed_of_all rfl))
  · rw [Lexeme.css_badComment]
    exact hopen.append h

theorem preprocessed_css_identLike (name text : List Char) :
    Preprocessed (identLike name text).1.css := by
  have hname := Serialize.preprocessed_identifier name
  unfold identLike
  split
  · split
    · exact preprocessed_css_url _
    · rw [Lexeme.css_function]
      exact hname.append (preprocessed_of_all rfl)
  · rw [Lexeme.css_ident]
    exact hname

theorem preprocessed_css_quantity (h : n.Valid) (text : List Char) :
    Preprocessed (quantity n text).1.css := by
  have hcases := quantity_cases n text
  generalize quantity n text = found at hcases ⊢
  cases hcases with
  | percentage =>
      rw [n.css_percentage]
      exact h.preprocessed.append (preprocessed_of_all rfl)
  | @dimension unit =>
      rw [n.css_dimension]
      exact h.preprocessed.append (preprocessed_of_not_isControl fun _ => Serialize.unit_plain)
  | number =>
      rw [n.css_number]
      exact h.preprocessed

theorem Form.preprocessed {found : Lexeme × List Char} (h : Form c text found)
    (htext : Preprocessed (c :: text)) : Preprocessed found.1.css := by
  obtain ⟨hc, hrest⟩ := List.forall_mem_cons.mp htext
  cases h with
  | blank =>
      rw [Lexeme.css_whitespace]
      exact List.forall_mem_cons.mpr ⟨hc, Preprocessed.of_subset hrest (List.takeWhile_subset _)⟩
  | string =>
      unfold ofBody
      split
      · exact (preprocessed_css_string _).1
      · exact (preprocessed_css_string _).2
  | @hash name =>
      rw [Lexeme.css_hash]
      exact List.forall_mem_cons.mpr
        ⟨rfl, preprocessed_of_not_isControl fun _ => Serialize.name_plain⟩
  | @atKeyword name =>
      rw [Lexeme.css_atKeyword]
      exact List.forall_mem_cons.mpr ⟨rfl, Serialize.preprocessed_identifier name⟩
  | @comment inside heq =>
      subst heq
      have hinside : Preprocessed inside := fun d hd => hrest d (List.mem_cons_of_mem _ hd)
      exact preprocessed_css_comment (hinside.of_subset (commentRun_subset inside))
  | @fixed kind rest hkind =>
      rw [fixed_css hkind]
      cases kind <;> first | exact absurd rfl hkind | exact preprocessed_of_all rfl
  | quantity hnumeral => exact preprocessed_css_quantity (numeral?_valid hnumeral) _
  | name => exact preprocessed_css_identLike _ _
  | delim =>
      rw [Lexeme.css_delim]
      exact List.forall_mem_cons.mpr ⟨hc, by simp⟩

/-- What is written for a preprocessed text is preprocessed. -/
theorem preprocessed_written (h : Preprocessed text) : Preprocessed (written text) := by
  generalize hn : text.length = n
  induction n using Nat.strongRecOn generalizing text with
  | ind n ih =>
      cases text with
      | nil =>
          rw [written_nil]
          exact h
      | cons c text =>
          have hsuffix := (lexemeFrom_suffix c text).trans (List.suffix_cons c text)
          have hlength := Nat.lt_succ_of_le (lexemeFrom_suffix c text).length_le
          rw [written_cons]
          apply ((lexemeFrom_form c text).preprocessed h).append
          exact ih _ (hn ▸ hlength) (h.of_subset hsuffix.subset) rfl

end Grammar
end CssLex
