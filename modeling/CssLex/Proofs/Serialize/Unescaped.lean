import CssLex.Proofs.Alphabet
import CssLex.Serialize

/-! Names that are written as they are. Each character of a text is written by itself and takes at
least one character, so a text stays as it is only where none of its characters is escaped. -/

namespace CssLex
namespace Serialize

/-! ## Identifiers without escapes -/

/-- What may open a name: an ASCII letter, an underscore or a code point from 160 on. -/
def OpensPlainName (c : Char) : Prop := c.isAlpha = true ∨ c = '_' ∨ 160 ≤ c.toNat

/-- What may stand in a name: what may open it, an ASCII digit or a hyphen. -/
def InPlainName (c : Char) : Prop := OpensPlainName c ∨ c.isDigit = true ∨ c = '-'

/-- The identifiers that are written without an escape. Two hyphens in front need a character of a
name behind them. -/
inductive PlainIdentifier : List Char → Prop
  | plain {c : Char} {rest : List Char} (hc : OpensPlainName c)
      (hrest : ∀ d ∈ rest, InPlainName d) : PlainIdentifier (c :: rest)
  | hyphen {c : Char} {rest : List Char} (hc : OpensPlainName c)
      (hrest : ∀ d ∈ rest, InPlainName d) : PlainIdentifier ('-' :: c :: rest)
  | hyphens {c : Char} {rest : List Char} (hc : InPlainName c) (hrest : ∀ d ∈ rest, InPlainName d) :
      PlainIdentifier ('-' :: '-' :: c :: rest)

theorem isLetter_eq_isAlpha (c : Char) : isLetter c = c.isAlpha := by
  have hupper : (decide ('A' ≤ c) && decide (c ≤ 'Z')) = c.isUpper := (Bool.decide_and _ _).symm
  have hlower : (decide ('a' ≤ c) && decide (c ≤ 'z')) = c.isLower := rfl
  have halpha : c.isAlpha = (c.isUpper || c.isLower) := rfl
  rw [isLetter, hupper, hlower, halpha, Bool.or_comm]

theorem isNameStart_iff {c : Char} : isNameStart c = true ↔ OpensPlainName c := by
  simp only [isNameStart, isLetter_eq_isAlpha, Bool.or_eq_true, decide_eq_true_eq, OpensPlainName,
    or_assoc]

theorem isNameChar_iff {c : Char} : isNameChar c = true ↔ InPlainName c := by
  have hdigit : isDigit c = c.isDigit := rfl
  simp only [isNameChar, hdigit, Bool.or_eq_true, decide_eq_true_eq, isNameStart_iff, InPlainName,
    or_assoc]

/-! ## Characters that are written as they are -/

variable {c : Char} {front rest value : List Char}

theorem hexEscaped_ne_singleton (c d : Char) : hexEscaped c ≠ [d] := by
  simp [hexEscaped]

theorem nameChar_eq_singleton_iff : nameChar c = [c] ↔ isNameChar c = true := by
  unfold nameChar
  by_cases hname : isNameChar c = true
  · simp [not_isControl_of_isNameChar hname, hname]
  · by_cases hcontrol : isControl c = true
    · simp [hcontrol, hname, hexEscaped_ne_singleton]
    · simp [hcontrol, hname]

/-- A digit stands for itself in a name but not at its start. -/
theorem startChar_eq_singleton_iff : startChar c = [c] ↔ isNameStart c = true ∨ c = '-' := by
  unfold startChar
  by_cases hdigit : isDigit c = true
  · have hstart := not_isNameStart_of_isDigit hdigit
    have hhyphen : c ≠ '-' := by
      rintro rfl
      cases hdigit
    simp [hdigit, hstart, hhyphen, hexEscaped_ne_singleton]
  · simp [hdigit, nameChar_eq_singleton_iff, isNameChar]

theorem nameChar_ne_nil (c : Char) : nameChar c ≠ [] := by
  unfold nameChar hexEscaped
  split
  · simp
  · split <;> simp

theorem startChar_ne_nil (c : Char) : startChar c ≠ [] := by
  unfold startChar hexEscaped
  split
  · simp
  · exact nameChar_ne_nil c

/-! ## Names -/

theorem length_le_name (value : List Char) : value.length ≤ (name value).length := by
  induction value with
  | nil => exact Nat.le_refl 0
  | cons c rest ih =>
      have hpos := List.length_pos_iff.mpr (nameChar_ne_nil c)
      simp only [name, List.flatMap_cons, List.length_append, List.length_cons] at ih ⊢
      omega

/-- What is written for the first character cannot reach into the text behind it, as nothing there
gets shorter. -/
theorem append_name_eq_cons_iff (hfront : front ≠ []) :
    front ++ name rest = c :: rest ↔ front = [c] ∧ name rest = rest := by
  constructor
  · intro h
    have hlength := congrArg List.length h
    have hrest := length_le_name rest
    have hpos := List.length_pos_iff.mpr hfront
    simp only [List.length_append, List.length_cons] at hlength
    have hsingle : front.length = [c].length := by
      rw [List.length_singleton]
      omega
    exact List.append_inj h hsingle
  · rintro ⟨rfl, hname⟩
    rw [hname, List.singleton_append]

theorem name_eq_self_iff : name value = value ↔ ∀ c ∈ value, InPlainName c := by
  induction value with
  | nil => simp [name]
  | cons c rest ih =>
      have hname : name (c :: rest) = nameChar c ++ name rest := rfl
      rw [hname, append_name_eq_cons_iff (nameChar_ne_nil c), nameChar_eq_singleton_iff, ih,
        isNameChar_iff, List.forall_mem_cons]

theorem startChar_append_name_iff :
    startChar c ++ name rest = c :: rest ↔
      (OpensPlainName c ∨ c = '-') ∧ ∀ d ∈ rest, InPlainName d := by
  rw [append_name_eq_cons_iff (startChar_ne_nil c), startChar_eq_singleton_iff, isNameStart_iff,
    name_eq_self_iff]

/-! ## Identifiers -/

theorem not_opensPlainName_hyphen : ¬ OpensPlainName '-' := by
  rw [← isNameStart_iff]
  decide

theorem plainIdentifier_cons_iff (hc : c ≠ '-') :
    PlainIdentifier (c :: rest) ↔ OpensPlainName c ∧ ∀ d ∈ rest, InPlainName d := by
  constructor
  · intro h
    cases h with
    | plain hopens hrest => exact ⟨hopens, hrest⟩
    | hyphen => exact absurd rfl hc
    | hyphens => exact absurd rfl hc
  · rintro ⟨hopens, hrest⟩
    exact .plain hopens hrest

/-- Behind one hyphen, a second one asks for more of the name. -/
theorem plainIdentifier_hyphen_iff :
    PlainIdentifier ('-' :: c :: rest) ↔
      (OpensPlainName c ∨ c = '-' ∧ rest ≠ []) ∧ ∀ d ∈ rest, InPlainName d := by
  constructor
  · intro h
    cases h with
    | plain hopens => exact absurd hopens not_opensPlainName_hyphen
    | hyphen hopens hrest => exact ⟨.inl hopens, hrest⟩
    | hyphens hd hrest => exact ⟨.inr ⟨rfl, by simp⟩, List.forall_mem_cons.mpr ⟨hd, hrest⟩⟩
  · rintro ⟨hopens | ⟨rfl, hne⟩, hrest⟩
    · exact .hyphen hopens hrest
    · obtain ⟨d, more, rfl⟩ := List.exists_cons_of_ne_nil hne
      obtain ⟨hd, hmore⟩ := List.forall_mem_cons.mp hrest
      exact .hyphens hd hmore

/-- A text is written as it is exactly if there is nothing in it or it is an identifier that needs
no escape. -/
theorem identifier_eq_self_iff (value : List Char) :
    identifier value = value ↔ value = [] ∨ PlainIdentifier value := by
  unfold identifier
  split
  · simp
  · -- a hyphen alone
    have hplain : ¬ PlainIdentifier ['-'] := by
      intro h
      cases h with
      | plain hopens => exact not_opensPlainName_hyphen hopens
    simp [hplain]
  · -- two hyphens alone
    simp [plainIdentifier_hyphen_iff, not_opensPlainName_hyphen]
  · next c rest hlone =>
    have hmore : c = '-' → rest ≠ [] := by
      rintro rfl rfl
      exact hlone rfl rfl
    have hopens : OpensPlainName c ∨ c = '-' ↔ OpensPlainName c ∨ c = '-' ∧ rest ≠ [] :=
      or_congr_right ⟨fun heq => ⟨heq, hmore heq⟩, And.left⟩
    rw [List.cons_append, List.cons.injEq, startChar_append_name_iff, plainIdentifier_hyphen_iff,
      hopens]
    simp
  · next c rest hlone htwo hhyphen =>
    have hc : c ≠ '-' := by
      rintro rfl
      cases rest with
      | nil => exact hlone rfl rfl
      | cons d more => exact hhyphen d more rfl rfl
    rw [startChar_append_name_iff, plainIdentifier_cons_iff hc]
    simp [hc]

example : identifier "--main-bg".toList = "--main-bg".toList := by decide

end Serialize
end CssLex
