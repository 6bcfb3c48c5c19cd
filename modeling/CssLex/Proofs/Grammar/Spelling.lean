import CssLex.Proofs.Grammar.Absent

/-! How names are spelled. Escapes, runs and the openings of identifiers are described as relations
between a text, what it spells and what stands behind it, and the grammar reads exactly these. -/

namespace CssLex

/-- The character with this number, or the replacement if there is none. -/
def Numbered (n : Nat) (c : Char) : Prop := if n.isValidChar then c.toNat = n else c = replacement

theorem numbered_iff {n : Nat} {c : Char} : Numbered n c ↔ scalarOrReplacement n = c := by
  by_cases hvalid : n.isValidChar
  · rw [Numbered, if_pos hvalid]
    constructor
    · rintro rfl
      exact scalarOrReplacement_toNat c
    · rintro rfl
      exact toNat_scalarOrReplacement hvalid
  · rw [Numbered, if_neg hvalid, scalarOrReplacement, dif_neg hvalid]
    exact eq_comm

namespace Grammar

open Production

variable {accept : Char → Bool} {text rest name : List Char} {c : Char}

/-! ## Escapes -/

/-- The number that hexadecimal digits write, by powers of sixteen. -/
def hexMagnitude (digits : List Char) : Nat :=
  Nat.ofDigits 16 (digits.reverse.map fun c => (hexValue? c).getD 0)

theorem hexNumber_eq_magnitude (digits : List Char) : hexNumber digits = hexMagnitude digits :=
  foldl_eq_ofDigits 16 _ digits

/-- What a text that starts with an escape stands for, and what is left of it. Fewer than six
digits take a blank with them, and else they end before what is no digit. -/
inductive Escapes : List Char → Char → List Char → Prop
  | itself {c : Char} {rest : List Char} (hbreak : c ≠ '\n') (hdigit : isHexDigit c = false) :
      Escapes ('\\' :: c :: rest) c rest
  | six {digits rest : List Char} {c : Char} (hdigits : ∀ d ∈ digits, isHexDigit d = true)
      (hlength : digits.length = 6) (hc : Numbered (hexMagnitude digits) c) :
      Escapes ('\\' :: (digits ++ rest)) c rest
  | blank {digits rest : List Char} {blank c : Char} (hdigits : ∀ d ∈ digits, isHexDigit d = true)
      (hne : digits ≠ []) (hlength : digits.length < 6) (hblank : isBlank blank = true)
      (hc : Numbered (hexMagnitude digits) c) :
      Escapes ('\\' :: (digits ++ blank :: rest)) c rest
  | short {digits rest : List Char} {c : Char} (hdigits : ∀ d ∈ digits, isHexDigit d = true)
      (hne : digits ≠ []) (hlength : digits.length < 6)
      (hrest : ∀ d ∈ rest.head?, isHexDigit d = false ∧ isBlank d = false)
      (hc : Numbered (hexMagnitude digits) c) :
      Escapes ('\\' :: (digits ++ rest)) c rest

/-- The first digits of a text, as many as may be read. -/
theorem exists_hexDigits (count : Nat) (text : List Char) :
    ∃ digits rest, text = digits ++ rest ∧ (∀ d ∈ digits, isHexDigit d = true) ∧
      digits.length ≤ count ∧ (digits.length < count → char? isHexDigit rest = none) := by
  induction count generalizing text with
  | zero => exact ⟨[], text, rfl, nofun, Nat.le_refl 0, nofun⟩
  | succ count ih =>
      cases text with
      | nil => exact ⟨[], [], rfl, nofun, Nat.zero_le _, fun _ => rfl⟩
      | cons d text =>
          cases hd : isHexDigit d with
          | true =>
              obtain ⟨digits, rest, rfl, hdigits, hlength, hstop⟩ := ih text
              exact ⟨d :: digits, rest, rfl, List.forall_mem_cons.mpr ⟨hd, hdigits⟩,
                Nat.succ_le_succ hlength, fun hlt => hstop (Nat.lt_of_succ_lt_succ hlt)⟩
          | false =>
              exact ⟨[], d :: text, rfl, nofun, Nat.zero_le _, fun _ => char?_of_not_accept hd text⟩

theorem hexEscape_digits {first : Char} {digits : List Char}
    (hdigits : ∀ d ∈ digits, isHexDigit d = true) (hlength : digits.length ≤ 5)
    (hstop : digits.length < 5 → char? isHexDigit rest = none) :
    Grammar.hexEscape first (digits ++ rest) =
      (scalarOrReplacement (hexNumber (first :: digits)),
        if digits.length < 5 then (attempt (char? isBlank) rest).2 else rest) := by
  have htake : ((digits ++ rest).takeWhile isHexDigit).take 5 = digits := by
    rw [List.takeWhile_append_of_pos hdigits]
    rcases Nat.lt_or_eq_of_le hlength with hlt | heq
    · rw [takeWhile_of_char?_none (hstop hlt), List.append_nil, List.take_of_length_le hlength]
    · exact List.take_left' heq
  simp only [Grammar.hexEscape, htake, List.drop_left]

/-- A backslash with digits. Fewer than six take a blank with them, if there is one. -/
theorem escape?_digits {digits : List Char} (hdigits : ∀ d ∈ digits, isHexDigit d = true)
    (hne : digits ≠ []) (hlength : digits.length ≤ 6)
    (hstop : digits.length < 6 → char? isHexDigit rest = none) :
    escape? ('\\' :: (digits ++ rest)) = some (scalarOrReplacement (hexMagnitude digits),
      if digits.length < 6 then (attempt (char? isBlank) rest).2 else rest) := by
  obtain ⟨first, digits, rfl⟩ := List.exists_cons_of_ne_nil hne
  obtain ⟨hfirst, hmore⟩ := List.forall_mem_cons.mp hdigits
  have hbreak : first ≠ '\n' := by
    rintro rfl
    cases hfirst
  have hescape := @hexEscape_digits rest first digits hmore (Nat.le_of_succ_le_succ hlength)
    fun hlt => hstop (Nat.succ_lt_succ hlt)
  have hcount : (first :: digits).length < 6 ↔ digits.length < 5 := Nat.succ_lt_succ_iff
  simp only [List.cons_append, escape?, hbreak, hfirst, if_true, if_false, hescape,
    hexNumber_eq_magnitude, hcount]

/-- A blank is read behind fewer than six digits, if there is one. -/
theorem escapes_of_stop {digits : List Char} (hdigits : ∀ d ∈ digits, isHexDigit d = true)
    (hne : digits ≠ []) (hlength : digits.length < 6) (hstop : char? isHexDigit rest = none)
    (hc : Numbered (hexMagnitude digits) c) :
    Escapes ('\\' :: (digits ++ rest)) c (attempt (char? isBlank) rest).2 := by
  cases rest with
  | nil => exact .short hdigits hne hlength nofun hc
  | cons d rest =>
      cases hblank : isBlank d with
      | true =>
          rw [attempt_of_some (char?_of_accept hblank rest)]
          exact .blank hdigits hne hlength hblank hc
      | false =>
          rw [attempt_of_none (char?_of_not_accept hblank rest)]
          refine .short hdigits hne hlength ?_ hc
          rintro _ ⟨⟩
          refine ⟨?_, hblank⟩
          cases hd : isHexDigit d with
          | false => rfl
          | true => simp [char?_of_accept hd] at hstop

theorem escape?_eq_some (h : escape? text = some (c, rest)) :
    ∃ d more, text = '\\' :: d :: more ∧ d ≠ '\n' := by
  unfold escape? at h
  split at h
  · next d more =>
    split at h
    · cases h
    · next hbreak => exact ⟨d, more, rfl, hbreak⟩
  · cases h

theorem escapes_of_escape? (h : escape? text = some (c, rest)) : Escapes text c rest := by
  obtain ⟨d, more, rfl, hbreak⟩ := escape?_eq_some h
  cases hd : isHexDigit d with
  | false =>
      simp only [escape?, hbreak, hd, if_false, Bool.false_eq_true, Option.some.injEq,
        Prod.mk.injEq] at h
      obtain ⟨rfl, rfl⟩ := h
      exact .itself hbreak hd
  | true =>
      obtain ⟨digits, behind, htext, hdigits, hlength, hstop⟩ := exists_hexDigits 6 (d :: more)
      have hne : digits ≠ [] := by
        rintro rfl
        rw [← (show d :: more = behind from htext), char?_of_accept hd] at hstop
        cases hstop (by decide)
      rw [htext, escape?_digits hdigits hne hlength hstop] at h
      cases h
      have hc := numbered_iff.mpr (rfl : scalarOrReplacement (hexMagnitude digits) = _)
      rw [htext]
      split
      · next hlt => exact escapes_of_stop hdigits hne hlt (hstop hlt) hc
      · next hge => exact .six hdigits (by omega) hc

theorem isHexDigit_of_isBlank {d : Char} (h : isBlank d = true) : isHexDigit d = false := by
  simp only [isBlank, Bool.or_eq_true, decide_eq_true_eq] at h
  rcases h with (rfl | rfl) | rfl <;> rfl

theorem Escapes.escape? (h : Escapes text c rest) : escape? text = some (c, rest) := by
  cases h with
  | itself hbreak hdigit => simp [Grammar.escape?, hbreak, hdigit]
  | @six digits rest c hdigits hlength hc =>
      have hne : digits ≠ [] := List.ne_nil_of_length_pos (by omega)
      rw [escape?_digits hdigits hne (Nat.le_of_eq hlength) (by omega), numbered_iff.mp hc,
        if_neg (by omega)]
  | blank hdigits hne hlength hblank hc =>
      have hstop := char?_of_not_accept (isHexDigit_of_isBlank hblank) rest
      rw [escape?_digits hdigits hne (Nat.le_of_lt hlength) fun _ => hstop, numbered_iff.mp hc,
        if_pos hlength, attempt_of_some (char?_of_accept hblank rest)]
  | short hdigits hne hlength hrest hc =>
      have hstop : char? isHexDigit rest = none ∧ char? isBlank rest = none := by
        cases rest with
        | nil => exact ⟨rfl, rfl⟩
        | cons d rest =>
            obtain ⟨hdigit, hblank⟩ := hrest d rfl
            exact ⟨char?_of_not_accept hdigit rest, char?_of_not_accept hblank rest⟩
      rw [escape?_digits hdigits hne (Nat.le_of_lt hlength) fun _ => hstop.1, numbered_iff.mp hc,
        if_pos hlength, attempt_of_none hstop.2]

/-- The escapes of the grammar. -/
theorem escape?_iff : escape? text = some (c, rest) ↔ Escapes text c rest :=
  ⟨escapes_of_escape?, Escapes.escape?⟩

/-! ## Runs -/

/-- A text that starts with a character of the class or with an escape. -/
inductive Opens (accept : Char → Bool) : List Char → Prop
  | char {c : Char} {rest : List Char} (h : accept c = true) : Opens accept (c :: rest)
  | escape {c : Char} {rest : List Char} (h : c ≠ '\n') : Opens accept ('\\' :: c :: rest)

theorem opens_iff : Opens accept text ↔ unit? accept text ≠ none := by
  constructor
  · rintro (h | h)
    · simp [unit?_of_accept h]
    · intro hnone
      rcases escape?_backslash_eq_none.mp (unit?_eq_none.mp hnone).2 with hnil | hhead
      · cases hnil
      · exact h (by simpa using hhead)
  · intro h
    obtain ⟨⟨c, rest⟩, hunit⟩ := Option.ne_none_iff_exists'.mp h
    cases hchar : char? accept text with
    | some found =>
        obtain ⟨rfl, haccept⟩ := eq_cons_of_char? hchar
        exact .char haccept
    | none =>
        simp only [unit?, hchar] at hunit
        obtain ⟨d, more, rfl, hbreak⟩ := escape?_eq_some hunit
        exact .escape hbreak

/-- A run of characters of a class and escapes, what it spells and what is left. -/
inductive Run (accept : Char → Bool) : List Char → List Char → List Char → Prop
  | stop (text : List Char) : Run accept text [] text
  | char {c : Char} {text name rest : List Char} (h : accept c = true)
      (more : Run accept text name rest) : Run accept (c :: text) (c :: name) rest
  | escape {c : Char} {text middle name rest : List Char} (h : Escapes text c middle)
      (more : Run accept middle name rest) : Run accept text (c :: name) rest

/-- No run takes more of the text. -/
structure LongestRun (accept : Char → Bool) (text name rest : List Char) : Prop where
  run : Run accept text name rest
  longest : ∀ other left, Run accept text other left → rest <:+ left

theorem units_run (accept : Char → Bool) (text : List Char) :
    Run accept text (units accept text).1 (units accept text).2 := by
  fun_induction units accept text with
  | case1 text c rest h _ run ih =>
      cases hchar : char? accept text with
      | some found =>
          simp only [unit?, hchar, Option.some.injEq] at h
          subst h
          obtain ⟨rfl, haccept⟩ := eq_cons_of_char? hchar
          exact .char haccept ih
      | none =>
          simp only [unit?, hchar] at h
          exact .escape (escape?_iff.mp h) ih
  | case2 text h => exact .stop text

/-- A run is the start of what the grammar reads. -/
theorem Run.units_eq (haccept : accept '\\' = false) (h : Run accept text name rest) :
    units accept text = (name ++ (units accept rest).1, (units accept rest).2) := by
  induction h with
  | stop text => rfl
  | char h _ ih => rw [units_of_some (unit?_of_accept h), ih, List.cons_append]
  | @escape c text middle name rest h _ ih =>
      have hunit : unit? accept text = some (c, middle) := by
        have hescape := escape?_iff.mpr h
        obtain ⟨d, more, rfl, -⟩ := escape?_eq_some hescape
        simp only [unit?, char?_of_not_accept haccept, hescape]
      rw [units_of_some hunit, ih, List.cons_append]

theorem longestRun_iff (haccept : accept '\\' = false) :
    LongestRun accept text name rest ↔ units accept text = (name, rest) := by
  constructor
  · rintro ⟨hrun, hlongest⟩
    have hunits := hrun.units_eq haccept
    have hstop := hlongest _ _ (units_run accept text)
    cases hunit : unit? accept rest with
    | none => rw [hunits, units_of_none hunit, List.append_nil]
    | some found =>
        -- one more unit would be a longer run
        rw [hunits, units_of_some hunit] at hstop
        have hshort := (hstop.trans (units_suffix accept found.2)).length_le
        exact absurd (unit?_tail hunit).2 (Nat.not_lt_of_le hshort)
  · intro h
    have hrun := units_run accept text
    rw [h] at hrun
    refine ⟨hrun, fun other left hother => ?_⟩
    have hunits := hother.units_eq haccept
    rw [h] at hunits
    cases hunits
    exact units_suffix accept left

/-! ## Identifiers -/

/-- The openings of identifiers. Two hyphens alone open one at the end of the text. -/
inductive OpensIdentifier : List Char → Prop
  | plain {text : List Char} (h : Opens isNameStart text) : OpensIdentifier text
  | hyphen {text : List Char} (h : Opens isNameStart text) : OpensIdentifier ('-' :: text)
  | hyphens {text : List Char} (h : Opens isNameChar text) : OpensIdentifier ('-' :: '-' :: text)
  | atEnd : OpensIdentifier ['-', '-']

theorem not_opens_hyphen : ¬ Opens isNameStart ('-' :: text) := by
  intro h
  cases h with
  | char h => cases h

theorem opensIdentifier_iff : OpensIdentifier text ↔ ident? text ≠ none := by
  by_cases hhyphen : text.head? = some '-'
  · obtain ⟨text, rfl⟩ := List.head?_eq_some_iff.mp hhyphen
    by_cases hagain : text.head? = some '-'
    · obtain ⟨text, rfl⟩ := List.head?_eq_some_iff.mp hagain
      rw [ne_eq, ident?_hyphens_eq_none, not_and_or, not_not, ← ne_eq, ← opens_iff]
      constructor
      · intro h
        cases h with
        | plain h => exact absurd h not_opens_hyphen
        | hyphen h => exact absurd h not_opens_hyphen
        | hyphens h => exact .inl h
        | atEnd => exact .inr rfl
      · rintro (h | rfl)
        · exact .hyphens h
        · exact .atEnd
    · rw [ne_eq, ident?_hyphen_eq_none hagain, ← ne_eq, ← opens_iff]
      constructor
      · intro h
        cases h with
        | plain h => exact absurd h not_opens_hyphen
        | hyphen h => exact h
        | hyphens h => exact absurd rfl hagain
        | atEnd => exact absurd rfl hagain
      · exact .hyphen
  · rw [ne_eq, ident?_plain_eq_none hhyphen, ← ne_eq, ← opens_iff]
    constructor
    · intro h
      cases h with
      | plain h => exact h
      | hyphen h => exact absurd rfl hhyphen
      | hyphens h => exact absurd rfl hhyphen
      | atEnd => exact absurd rfl hhyphen
    · exact .plain

/-- An identifier is the longest run of a text that opens one, hyphens included. -/
theorem ident?_iff : ident? text = some (name, rest) ↔
    OpensIdentifier text ∧ LongestRun isNameChar text name rest := by
  rw [opensIdentifier_iff, longestRun_iff rfl]
  constructor
  · intro h
    exact ⟨by simp [h], units_of_ident? h⟩
  · rintro ⟨hopens, hunits⟩
    obtain ⟨⟨name', rest'⟩, hident⟩ := Option.ne_none_iff_exists'.mp hopens
    rw [hident, ← units_of_ident? hident, hunits]

end Grammar
end CssLex
