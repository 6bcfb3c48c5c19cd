import CssLex.Proofs.Grammar.Spelling
import CssLex.Serialize

/-! What is written for a name or a string reads back as the same name or string. What follows
must not go on with it. -/

namespace CssLex.Serialize

open Production Grammar

variable {w : List Char}

-- Powers are those of the core library, whatever is imported beside this module.
attribute [local instance (high)] instPowNat instNatPowNat

/-! ## Hex escapes -/

theorem hexValue?_digitChar : ∀ n < 16, hexValue? (Nat.digitChar n) = some n := by
  decide

theorem isHexDigit_digitChar {n : Nat} (h : n < 16) : isHexDigit (Nat.digitChar n) = true := by
  rw [isHexDigit, hexValue?_digitChar n h]
  rfl

theorem hexNumber_append (digits : List Char) {d : Nat} (hd : d < 16) :
    hexNumber (digits ++ [Nat.digitChar d]) = 16 * hexNumber digits + d := by
  simp only [hexNumber, List.foldl_append, List.foldl_cons, List.foldl_nil,
    hexValue?_digitChar d hd, Option.getD_some]

theorem hexNumber_lowerHex (n : Nat) : hexNumber (lowerHex n) = n := by
  induction n using Nat.strongRecOn with
  | ind n ih =>
      rw [lowerHex, Nat.toDigits_eq_if (by decide)]
      split
      · next h => simp [hexNumber, hexValue?_digitChar n h]
      · next h =>
        have hdiv : n / 16 < n := Nat.div_lt_self (by omega) (by decide)
        rw [hexNumber_append _ (Nat.mod_lt n (by decide)), ← lowerHex, ih _ hdiv]
        omega

theorem isHexDigit_of_mem_lowerHex {n : Nat} {c : Char} (h : c ∈ lowerHex n) :
    isHexDigit c = true := by
  induction n using Nat.strongRecOn with
  | ind n ih =>
      rw [lowerHex, Nat.toDigits_eq_if (by decide)] at h
      split at h
      · next hn =>
        rw [List.mem_singleton.mp h]
        exact isHexDigit_digitChar hn
      · next hn =>
        have hdiv : n / 16 < n := Nat.div_lt_self (by omega) (by decide)
        rcases List.mem_append.mp h with h | h
        · exact ih _ hdiv h
        · rw [List.mem_singleton.mp h]
          exact isHexDigit_digitChar (Nat.mod_lt n (by decide))

theorem lowerHex_length_le {n k : Nat} (hn : n < 16 ^ (k + 1)) : (lowerHex n).length ≤ k + 1 := by
  induction k generalizing n with
  | zero =>
      rw [lowerHex, Nat.toDigits_eq_if (by decide), if_pos (by simpa using hn)]
      exact Nat.le_refl 1
  | succ k ih =>
      rw [lowerHex, Nat.toDigits_eq_if (by decide)]
      split
      · exact Nat.succ_le_succ (Nat.zero_le _)
      · have hdiv : n / 16 < 16 ^ (k + 1) :=
          Nat.div_lt_of_lt_mul (by rw [Nat.pow_succ] at hn; omega)
        rw [List.length_append]
        exact Nat.succ_le_succ (ih hdiv)

theorem lowerHex_ne_nil (n : Nat) : lowerHex n ≠ [] := by
  rw [lowerHex, Nat.toDigits_eq_if (by decide)]
  split <;> simp

/-- A hex escape reads back, where five digits are enough. -/
theorem escape?_hexEscaped {c : Char} (h : c.toNat < 0x100000) :
    escape? (hexEscaped c ++ w) = some (c, w) := by
  have hdigits : ∀ d ∈ lowerHex c.toNat, isHexDigit d = true :=
    fun _ => isHexDigit_of_mem_lowerHex
  have hlength : (lowerHex c.toNat).length < 6 := Nat.lt_succ_of_le (@lowerHex_length_le _ 4 h)
  have hc : Numbered (hexMagnitude (lowerHex c.toNat)) c := by
    rw [numbered_iff, ← hexNumber_eq_magnitude, hexNumber_lowerHex, scalarOrReplacement_toNat]
  have htext : hexEscaped c ++ w = '\\' :: (lowerHex c.toNat ++ ' ' :: w) := by simp [hexEscaped]
  rw [htext]
  exact escape?_iff.mpr (.blank hdigits (lowerHex_ne_nil _) hlength rfl hc)

/-! ## Names -/

theorem unit?_escape {accept : Char → Bool} {text : List Char} (h : accept '\\' = false) :
    unit? accept ('\\' :: text) = escape? ('\\' :: text) := by
  simp only [unit?, char?_of_not_accept h]

theorem unit?_hexEscaped {accept : Char → Bool} {c : Char} (haccept : accept '\\' = false)
    (h : c.toNat < 0x100000) : unit? accept (hexEscaped c ++ w) = some (c, w) := by
  have hescape := escape?_hexEscaped (w := w) h
  simp only [hexEscaped, List.cons_append] at hescape ⊢
  rw [unit?_escape haccept]
  exact hescape

theorem unit?_nameChar (c : Char) : unit? isNameChar (nameChar c ++ w) = some (c, w) := by
  unfold nameChar
  by_cases hcontrol : isControl c = true
  · rw [if_pos hcontrol]
    exact unit?_hexEscaped rfl (toNat_lt_of_isControl hcontrol)
  · rw [if_neg hcontrol]
    by_cases hname : isNameChar c = true
    · rw [if_pos hname]
      exact unit?_of_accept hname
    · rw [if_neg hname, List.cons_append, List.cons_append, List.nil_append, unit?_escape rfl]
      have hhex : isHexDigit c = false := by
        cases hhex : isHexDigit c with
        | false => rfl
        | true => exact absurd (isNameChar_of_isHexDigit hhex) hname
      exact escape?_iff.mpr (.itself (ne_break_of_not_isControl hcontrol) hhex)

/-- A name reads back before what is no part of a name. -/
theorem units_name (value : List Char) (hw : unit? isNameChar w = none) :
    units isNameChar (name value ++ w) = (value, w) := by
  induction value with
  | nil => exact units_of_none hw
  | cons c value ih =>
      have htext : name (c :: value) ++ w = nameChar c ++ (name value ++ w) := by
        simp [name]
      rw [htext, units_of_some (unit?_nameChar c), ih]

/-! ## Identifiers -/

theorem unit?_startChar {c : Char} (hc : c ≠ '-') :
    unit? isNameStart (startChar c ++ w) = some (c, w) := by
  unfold startChar
  by_cases hdigit : isDigit c = true
  · rw [if_pos hdigit]
    exact unit?_hexEscaped rfl (toNat_lt_of_isDigit hdigit)
  · rw [if_neg hdigit]
    by_cases hstart : isNameStart c = true
    · rw [nameChar, if_neg (not_isControl_of_isNameStart hstart),
        if_pos (isNameChar_of_isNameStart hstart)]
      exact unit?_of_accept hstart
    · have hname : ¬ isNameChar c = true := by
        simp [isNameChar, hstart, hdigit, hc]
      have hread := unit?_nameChar (w := w) c
      unfold nameChar at hread ⊢
      by_cases hcontrol : isControl c = true
      · rw [if_pos hcontrol]
        exact unit?_hexEscaped rfl (toNat_lt_of_isControl hcontrol)
      · rw [if_neg hcontrol, if_neg hname] at hread ⊢
        rw [List.cons_append, unit?_escape rfl] at hread ⊢
        exact hread

theorem plainIdent?_identifier {c : Char} (hc : c ≠ '-') (value : List Char)
    (hw : unit? isNameChar w = none) :
    plainIdent? (startChar c ++ name value ++ w) = some (c :: value, w) := by
  rw [List.append_assoc, plainIdent?, unit?_startChar hc]
  simp only [units_name value hw]

/-- An identifier reads back before what is no part of a name. -/
theorem ident?_identifier {value : List Char} (hvalue : value ≠ [])
    (hw : unit? isNameChar w = none) : ident? (identifier value ++ w) = some (value, w) := by
  unfold identifier
  split
  · exact absurd rfl hvalue
  · have hescape : unit? isNameStart ('\\' :: '-' :: w) = some ('-', w) := rfl
    have hplain : plainIdent? ('\\' :: '-' :: w) = some (['-'], w) := by
      simp only [plainIdent?, hescape, units_of_none hw]
    exact (ident?_plain (by simp)).trans hplain
  · have hescape : unit? isNameStart ('\\' :: '-' :: w) = some ('-', w) := rfl
    have hplain : plainIdent? ('\\' :: '-' :: w) = some (['-'], w) := by
      simp only [plainIdent?, hescape, units_of_none hw]
    have htext : ['-', '\\', '-'] ++ w = '-' :: '\\' :: '-' :: w := rfl
    rw [htext, ident?_hyphen (by simp), hplain]
  · next c rest hshort =>
    by_cases hc : c = '-'
    · subst hc
      have hrest : rest ≠ [] := by
        rintro rfl
        exact hshort rfl rfl
      have htext : '-' :: startChar '-' ++ name rest ++ w = '-' :: '-' :: (name rest ++ w) := rfl
      rw [htext, ident?]
      simp [units_name rest hw, hrest]
    · have hplain := plainIdent?_identifier hc rest hw
      rw [List.cons_append, List.cons_append,
        ident?_hyphen (head_ne_hyphen_of_plainIdent? hplain), hplain]
  · next c rest halone _ hlonger =>
    have hc : c ≠ '-' := by
      rintro rfl
      cases rest with
      | nil => exact halone rfl rfl
      | cons d rest => exact hlonger d rest rfl rfl
    have hplain := plainIdent?_identifier hc rest hw
    rw [ident?_plain (head_ne_hyphen_of_plainIdent? hplain), hplain]

/-! ## Units -/

/-- An identifier is written with its first character in front only if that opens a name. -/
theorem identifier_eq_cons {value more : List Char} {c : Char} (hc : isNameStart c = true)
    (h : identifier value = c :: more) : ∃ rest, value = c :: rest ∧ more = name rest := by
  unfold identifier at h
  split at h
  · cases h
  · cases h
    cases hc
  · cases h
    cases hc
  · cases h
    cases hc
  · next d rest _ _ _ =>
    unfold startChar at h
    split at h
    · cases h
      cases hc
    · unfold nameChar at h
      split at h
      · cases h
        cases hc
      · split at h
        · cases h
          exact ⟨rest, rfl, rfl⟩
        · cases h
          cases hc

theorem startsExponent_marker {text : List Char} (h : startsExponent text = true) :
    ∃ c more, text = c :: more ∧ (c = 'e' ∨ c = 'E') := by
  unfold startsExponent at h
  split at h
  · next c d more =>
    simp only [Bool.and_eq_true, Bool.or_eq_true, decide_eq_true_eq] at h
    exact ⟨c, d :: more, rfl, h.1⟩
  · cases h

/-- A unit reads back before what is no part of a name. -/
theorem ident?_unit {value : List Char} (hvalue : value ≠ []) (hw : unit? isNameChar w = none) :
    ident? (unit value ++ w) = some (value, w) := by
  unfold unit
  by_cases hmarker : startsExponent (identifier value) = true
  · obtain ⟨c, more, htext, hc⟩ := startsExponent_marker hmarker
    have hstart : isNameStart c = true := by
      rcases hc with rfl | rfl
      · rfl
      · rfl
    have hlow : c.toNat < 0x100000 := by
      rcases hc with rfl | rfl
      · decide
      · decide
    obtain ⟨rest, rfl, rfl⟩ := identifier_eq_cons hstart htext
    rw [htext] at hmarker ⊢
    simp only [hmarker, if_true, List.headD_cons, List.drop_succ_cons, List.drop_zero,
      List.append_assoc]
    have hplain : plainIdent? (hexEscaped c ++ (name rest ++ w)) = some (c :: rest, w) := by
      have hunit : unit? isNameStart (hexEscaped c ++ (name rest ++ w)) =
          some (c, name rest ++ w) := unit?_hexEscaped rfl hlow
      simp only [plainIdent?, hunit, units_name rest hw]
    rw [ident?_plain (head_ne_hyphen_of_plainIdent? hplain), hplain]
  · simp only [hmarker, Bool.false_eq_true, if_false]
    exact ident?_identifier hvalue hw

/-! ## Strings -/

theorem stringTurn_stringChar (c : Char) :
    Grammar.stringTurn '"' (stringChar c ++ w) = (.more c, w) := by
  unfold stringChar
  by_cases hquoted : (c = '"' || c = '\\') = true
  · rw [if_pos hquoted]
    have hescape : escape? ('\\' :: c :: w) = some (c, w) := by
      simp only [Bool.or_eq_true, decide_eq_true_eq] at hquoted
      rcases hquoted with rfl | rfl
      · rfl
      · rfl
    have htext : ['\\', c] ++ w = '\\' :: c :: w := rfl
    rw [htext, Grammar.stringTurn, if_neg (by decide), if_pos rfl, hescape]
  · rw [if_neg hquoted]
    by_cases hcontrol : isControl c = true
    · rw [if_pos hcontrol]
      have hescape := escape?_hexEscaped (w := w) (toNat_lt_of_isControl hcontrol)
      rw [hexEscaped, List.cons_append, List.cons_append] at hescape ⊢
      rw [Grammar.stringTurn, if_neg (by decide), if_pos rfl, hescape]
    · rw [if_neg hcontrol]
      simp only [Bool.or_eq_true, decide_eq_true_eq, not_or] at hquoted
      rw [List.singleton_append, Grammar.stringTurn, if_neg (ne_break_of_not_isControl hcontrol),
        if_neg hquoted.2, if_neg hquoted.1]

theorem stringRun_openString (value : List Char) {closed : Bool} {rest : List Char}
    (hw : Grammar.stringTurn '"' w = (.stop closed, rest)) :
    stringRun '"' (value.flatMap stringChar ++ w) = ((value, closed), rest) := by
  induction value with
  | nil => exact stringRun_of_stop hw
  | cons c value ih =>
      rw [List.flatMap_cons, List.append_assoc, stringRun_of_more (stringTurn_stringChar c), ih]

theorem stringRun_string (value : List Char) :
    stringRun '"' (value.flatMap stringChar ++ '"' :: w) = ((value, true), w) :=
  stringRun_openString value rfl

end CssLex.Serialize
