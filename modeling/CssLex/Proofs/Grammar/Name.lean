import CssLex.Production.Name

/-! The grammar of names as functions of a text. Each function reads from the front of the text
and gives what is left of it. -/

namespace CssLex.Grammar

open Production

/-! ## Marks and single characters -/

/-- A reader that may decline, as a function that then leaves the text as it is. -/
def attempt {α : Type} (read : List Char → Option (α × List Char)) (text : List Char) :
    Option α × List Char :=
  match read text with
  | some (a, rest) => (some a, rest)
  | none => (none, text)

/-- The first character, if it satisfies `accept`. -/
def char? (accept : Char → Bool) : List Char → Option (Char × List Char)
  | c :: rest => if accept c then some (c, rest) else none
  | [] => none

/-- Whether the text starts with some characters, which are then taken off. -/
def mark (expected text : List Char) : Bool × List Char :=
  if expected.isPrefixOf text then (true, text.drop expected.length) else (false, text)

/-- What is left is an end of the text, and not the whole text. -/
def IsTail (rest text : List Char) : Prop := rest <:+ text ∧ rest.length < text.length

theorem IsTail.cons (c : Char) (rest : List Char) : IsTail rest (c :: rest) :=
  ⟨List.suffix_cons c rest, by simp⟩

theorem IsTail.of_suffix {rest middle text : List Char} (h : rest <:+ middle)
    (h' : IsTail middle text) : IsTail rest text :=
  ⟨h.trans h'.1, Nat.lt_of_le_of_lt h.length_le h'.2⟩

theorem IsTail.trans_suffix {rest middle text : List Char} (h : IsTail rest middle)
    (h' : middle <:+ text) : IsTail rest text :=
  ⟨h.1.trans h', Nat.lt_of_lt_of_le h.2 h'.length_le⟩

theorem dropWhile_tail {accept : Char → Bool} {text : List Char}
    (h : text.takeWhile accept ≠ []) : IsTail (text.dropWhile accept) text := by
  refine ⟨List.dropWhile_suffix _, ?_⟩
  have := congrArg List.length (List.takeWhile_append_dropWhile (p := accept) (l := text))
  have := List.length_pos_iff.mpr h
  rw [List.length_append] at *
  omega

theorem attempt_of_some {α : Type} {read : List Char → Option (α × List Char)} {a : α}
    {text rest : List Char} (h : read text = some (a, rest)) :
    attempt read text = (some a, rest) := by
  simp only [attempt, h]

theorem attempt_of_none {α : Type} {read : List Char → Option (α × List Char)}
    {text : List Char} (h : read text = none) : attempt read text = (none, text) := by
  simp only [attempt, h]

theorem attempt_snd_of_fst_none {α : Type} {read : List Char → Option (α × List Char)}
    {text : List Char} (h : (attempt read text).1 = none) : (attempt read text).2 = text := by
  cases hread : read text with
  | some found => simp [attempt_of_some hread] at h
  | none => rw [attempt_of_none hread]

theorem attempt_suffix {α : Type} {read : List Char → Option (α × List Char)} {text : List Char}
    (h : ∀ a rest, read text = some (a, rest) → IsTail rest text) :
    (attempt read text).2 <:+ text := by
  unfold attempt
  split
  · next a rest heq => exact (h a rest heq).1
  · exact List.suffix_rfl

theorem mark_suffix (expected text : List Char) : (mark expected text).2 <:+ text := by
  unfold mark
  split
  · exact List.drop_suffix _ _
  · exact List.suffix_rfl

theorem char?_of_accept {accept : Char → Bool} {c : Char} (h : accept c = true)
    (text : List Char) : char? accept (c :: text) = some (c, text) := by
  simp only [char?, h, if_true]

theorem char?_of_not_accept {accept : Char → Bool} {c : Char} (h : accept c = false)
    (text : List Char) : char? accept (c :: text) = none := by
  simp only [char?, h, Bool.false_eq_true, if_false]

theorem eq_cons_of_char? {accept : Char → Bool} {c : Char} {text rest : List Char}
    (h : char? accept text = some (c, rest)) : text = c :: rest ∧ accept c = true := by
  cases text with
  | nil => cases h
  | cons d text =>
      cases hd : accept d with
      | true =>
          rw [char?_of_accept hd] at h
          cases h
          exact ⟨rfl, hd⟩
      | false =>
          rw [char?_of_not_accept hd] at h
          cases h

theorem char?_tail {accept : Char → Bool} {text rest : List Char} {c : Char}
    (h : char? accept text = some (c, rest)) : IsTail rest text := by
  rw [(eq_cons_of_char? h).1]
  exact .cons c rest

theorem mark_cons_self (c : Char) (text : List Char) : mark [c] (c :: text) = (true, text) := by
  simp [mark]

theorem eq_of_mark_false {expected text rest : List Char} (h : mark expected text = (false, rest)) :
    rest = text := by
  unfold mark at h
  split at h
  · cases h
  · cases h
    rfl

theorem eq_of_mark_true {expected text rest : List Char} (h : mark expected text = (true, rest)) :
    text = expected ++ rest := by
  unfold mark at h
  split at h
  · next hprefix =>
    cases h
    obtain ⟨rest, rfl⟩ := List.isPrefixOf_iff_prefix.mp hprefix
    rw [List.drop_left]
  · cases h

theorem mark_of_head {c : Char} {expected text : List Char} (h : text.head? ≠ some c) :
    mark (c :: expected) text = (false, text) := by
  cases text with
  | nil => rfl
  | cons d text => simp [mark, Ne.symm (by simpa using h : d ≠ c)]

theorem mark_cons (c : Char) (expected text : List Char) :
    mark (c :: expected) (c :: text) =
      match mark expected text with
      | (true, rest) => (true, rest)
      | (false, _) => (false, c :: text) := by
  by_cases h : expected <+: text
  · simp [mark, h]
  · simp [mark, h]

theorem mark_cons_ne {c d : Char} (h : d ≠ c) (text : List Char) :
    mark [c] (d :: text) = (false, d :: text) :=
  mark_of_head (by simpa using h)

/-! ## Escapes -/

/-- A hex escape behind its first digit. -/
def hexEscape (first : Char) (text : List Char) : Char × List Char :=
  let digits := (text.takeWhile isHexDigit).take 5
  let rest := text.drop digits.length
  (scalarOrReplacement (hexNumber (first :: digits)),
    if digits.length < 5 then (attempt (char? isBlank) rest).2 else rest)

/-- An escape, with the character that it stands for. -/
def escape? : List Char → Option (Char × List Char)
  | '\\' :: c :: text =>
    if c = '\n' then none
    else if isHexDigit c then some (hexEscape c text)
    else some (c, text)
  | _ => none

theorem hexEscape_suffix (first : Char) (text : List Char) : (hexEscape first text).2 <:+ text := by
  simp only [hexEscape]
  split
  · exact (attempt_suffix fun _ _ => char?_tail).trans (List.drop_suffix _ _)
  · exact List.drop_suffix _ _

theorem escape?_tail {text rest : List Char} {c : Char} (h : escape? text = some (c, rest)) :
    IsTail rest text := by
  unfold escape? at h
  split at h
  · next d text =>
    have hcons : IsTail text ('\\' :: d :: text) :=
      .of_suffix (List.suffix_cons d text) (.cons '\\' _)
    split at h
    · cases h
    · split at h
      · cases h
        exact .of_suffix (hexEscape_suffix d text) hcons
      · cases h
        exact hcons
  · cases h

/-! ## Runs -/

/-- A character of a class, or an escape. -/
def unit? (accept : Char → Bool) (text : List Char) : Option (Char × List Char) :=
  match char? accept text with
  | some read => some read
  | none => escape? text

theorem unit?_tail {accept : Char → Bool} {text rest : List Char} {c : Char}
    (h : unit? accept text = some (c, rest)) : IsTail rest text := by
  unfold unit? at h
  split at h
  · next heq => exact char?_tail (heq.trans h)
  · exact escape?_tail h

theorem unit?_of_accept {accept : Char → Bool} {c : Char} {text : List Char}
    (h : accept c = true) : unit? accept (c :: text) = some (c, text) := by
  simp only [unit?, char?_of_accept h]

/-- A character of a class or an escape is told by the first character. -/
theorem head_of_unit? {accept : Char → Bool} {text rest : List Char} {c : Char}
    (h : unit? accept text = some (c, rest)) :
    ∃ d more, text = d :: more ∧ (accept d = true ∨ d = '\\') := by
  unfold unit? at h
  split at h
  · next heq =>
    obtain ⟨htext, hc⟩ := eq_cons_of_char? (heq.trans h)
    exact ⟨c, rest, htext, .inl hc⟩
  · unfold escape? at h
    split at h
    · next d more _ => exact ⟨'\\', d :: more, rfl, .inr rfl⟩
    · cases h

/-- The longest run of characters of a class and escapes. -/
def units (accept : Char → Bool) (text : List Char) : List Char × List Char :=
  match h : unit? accept text with
  | some (c, rest) =>
    have := (unit?_tail h).2
    let run := units accept rest
    (c :: run.1, run.2)
  | none => ([], text)
termination_by text.length

theorem units_of_some {accept : Char → Bool} {text rest : List Char} {c : Char}
    (h : unit? accept text = some (c, rest)) :
    units accept text = (c :: (units accept rest).1, (units accept rest).2) := by
  rw [units]
  split
  · next heq => rw [h] at heq; cases heq; rfl
  · next heq => rw [h] at heq; cases heq

theorem units_of_none {accept : Char → Bool} {text : List Char}
    (h : unit? accept text = none) : units accept text = ([], text) := by
  rw [units]
  split
  · next heq => rw [h] at heq; cases heq
  · rfl

theorem units_suffix (accept : Char → Bool) (text : List Char) :
    (units accept text).2 <:+ text := by
  fun_induction units accept text with
  | case1 text c rest h _ run ih => exact ih.trans (unit?_tail h).1
  | case2 text h => exact List.suffix_rfl

theorem units_of_fst_nil {accept : Char → Bool} {text : List Char}
    (h : (units accept text).1 = []) : units accept text = ([], text) := by
  cases hu : unit? accept text with
  | some read => simp [units_of_some hu] at h
  | none => exact units_of_none hu

/-! ## Names and identifiers -/

/-- A name, which holds at least one character. -/
def name? (text : List Char) : Option (List Char × List Char) :=
  let run := units isNameChar text
  if run.1 = [] then none else some run

/-- An identifier that starts with no hyphen. -/
def plainIdent? (text : List Char) : Option (List Char × List Char) :=
  match unit? isNameStart text with
  | some (c, rest) => some (c :: (units isNameChar rest).1, (units isNameChar rest).2)
  | none => none

/-- An identifier. Two hyphens alone are one only at the end of the text. -/
def ident? : List Char → Option (List Char × List Char)
  | '-' :: '-' :: text =>
    let run := units isNameChar text
    if run.1 = [] ∧ text ≠ [] then none else some ('-' :: '-' :: run.1, run.2)
  | '-' :: text =>
    match plainIdent? text with
    | some (name, rest) => some ('-' :: name, rest)
    | none => none
  | text => plainIdent? text

theorem ident?_hyphen {text : List Char} (h : text.head? ≠ some '-') :
    ident? ('-' :: text) =
      match plainIdent? text with
      | some (name, rest) => some ('-' :: name, rest)
      | none => none := by
  cases text with
  | nil => rfl
  | cons c text => rw [ident?.eq_2 _ (by rintro _ ⟨⟩; simp at h)]

theorem ident?_plain {text : List Char} (h : text.head? ≠ some '-') :
    ident? text = plainIdent? text := by
  cases text with
  | nil => rfl
  | cons c text => rw [ident?.eq_3 _ (by rintro _ ⟨⟩; simp at h) (by rintro _ ⟨⟩; simp at h)]

theorem head_of_plainIdent? {text : List Char} {read : List Char × List Char}
    (h : plainIdent? text = some read) :
    ∃ d more, text = d :: more ∧ (isNameStart d = true ∨ d = '\\') := by
  unfold plainIdent? at h
  split at h
  · next heq => exact head_of_unit? heq
  · cases h

theorem head_ne_hyphen_of_plainIdent? {text : List Char} {read : List Char × List Char}
    (h : plainIdent? text = some read) : text.head? ≠ some '-' := by
  obtain ⟨d, more, rfl, hd⟩ := head_of_plainIdent? h
  rintro ⟨⟩
  rcases hd with hd | hd
  · cases hd
  · cases hd

theorem plainIdent?_tail {text name rest : List Char} (h : plainIdent? text = some (name, rest)) :
    IsTail rest text := by
  unfold plainIdent? at h
  split at h
  · next heq =>
    cases h
    exact .of_suffix (units_suffix _ _) (unit?_tail heq)
  · cases h

theorem ident?_tail {text name rest : List Char} (h : ident? text = some (name, rest)) :
    IsTail rest text := by
  unfold ident? at h
  split at h
  · next text =>
    dsimp only at h
    split at h
    · cases h
    · cases h
      exact .of_suffix ((units_suffix _ _).trans (List.suffix_cons '-' text)) (.cons '-' _)
  · split at h
    · next heq =>
      cases h
      exact .of_suffix (plainIdent?_tail heq).1 (.cons '-' _)
    · cases h
  · exact plainIdent?_tail h

theorem name?_tail {text name rest : List Char} (h : name? text = some (name, rest)) :
    IsTail rest text := by
  simp only [name?] at h
  split at h
  · cases h
  · next hne =>
    cases hu : unit? isNameChar text with
    | none => exact absurd (by rw [units_of_none hu]) hne
    | some read =>
        obtain ⟨c, middle⟩ := read
        rw [units_of_some hu] at h
        cases h
        exact .of_suffix (units_suffix _ _) (unit?_tail hu)

end CssLex.Grammar
