import CssLex.Proofs.Serialize.Step

/-! A text and the text that is written for it have the same significant lexemes exactly if no
lexemes clash. -/

namespace CssLex.Grammar

open Production

variable {c : Char} {text w : List Char}

/-! ## Behind the opening mark of a comment in markup -/

/-- Where the text of a name starts neither a number nor an identifier, a hyphen is in front. -/
theorem name_hyphen {name : List Char} (hname : name ≠ [])
    (hident : ident? (Serialize.name name ++ w) = none)
    (hnumeral : numeral? (Serialize.name name ++ w) = none) :
    ∃ text, Serialize.name name ++ w = '-' :: text := by
  obtain ⟨c, name, rfl⟩ := List.exists_cons_of_ne_nil hname
  have hcons : Serialize.name (c :: name) ++ w =
      Serialize.nameChar c ++ (Serialize.name name ++ w) := by
    simp [Serialize.name]
  have hnone : unit? isNameStart (Serialize.name (c :: name) ++ w) = none := by
    apply Decidable.byContradiction
    intro hunit
    exact ident?_of_unit? hunit hident
  rw [hcons] at hnone hnumeral ⊢
  have hread := Serialize.unit?_nameChar (w := Serialize.name name ++ w) c
  obtain ⟨more, hescaped | ⟨hplain, hc⟩⟩ := nameChar_head c
  · -- an escape opens a name
    rw [hescaped, List.cons_append, Serialize.unit?_escape rfl] at hread hnone
    rw [hread] at hnone
    cases hnone
  · rw [hplain, List.singleton_append] at hnone hnumeral ⊢
    simp only [isNameChar, Bool.or_eq_true, decide_eq_true_eq] at hc
    rcases hc with (hstart | hdigit) | rfl
    · rw [unit?_of_accept hstart] at hnone
      cases hnone
    · exact absurd hnumeral (numeral?_of_digit hdigit)
    · exact ⟨_, rfl⟩

/-- The rest of a name behind its two hyphens is a number, an identifier or a function, or it
starts with a hyphen that stands for itself or with the closing mark. -/
theorem lexeme_name {name : List Char} (hname : name ≠ []) (hw : unit? isNameChar w = none) :
    (lexeme (Serialize.name name ++ w)).1.kind.isNumeric = true ∨
      lexeme (Serialize.name name ++ w) = identLike name w ∨
      (lexeme (Serialize.name name ++ w)).1 = .ofDelim '-' ∨
      (lexeme (Serialize.name name ++ w)).1.kind = .cdc ∧ name = ['-', '-'] ∧
        ∃ more, w = '>' :: more ∧ (lexeme (Serialize.name name ++ w)).2 = more := by
  have hunits := Serialize.units_name name hw
  cases hident : ident? (Serialize.name name ++ w) with
  | some found =>
      rw [units_of_ident? hident] at hunits
      cases hunits
      exact .inr (.inl (lexeme_of_ident? hident))
  | none =>
      cases hnumeral : numeral? (Serialize.name name ++ w) with
      | some found =>
          rw [lexeme_of_numeral? hnumeral]
          exact .inl (quantity_isNumeric _ _)
      | none =>
          obtain ⟨text, htext⟩ := name_hyphen hname hident hnumeral
          rw [htext] at hident hnumeral hunits ⊢
          have hstart : Start.of '-' = .hyphen := rfl
          cases hmark : mark ['-', '>'] text with
          | mk found more =>
              cases found with
              | true =>
                  have hlexeme : lexeme ('-' :: text) = (.ofText .cdc ['-', '-', '>'], more) := by
                    simp only [lexeme, lexemeFrom, hstart, hmark]
                  have hstop : unit? isNameChar ('>' :: more) = none := rfl
                  rw [eq_of_mark_true hmark, List.cons_append, List.singleton_append, units_hyphen,
                    units_hyphen, units_of_none hstop] at hunits
                  cases hunits
                  rw [hlexeme]
                  exact .inr (.inr (.inr ⟨rfl, rfl, more, rfl, rfl⟩))
              | false =>
                  rw [eq_of_mark_false hmark] at hmark
                  have hlexeme : lexeme ('-' :: text) = _ := lexemeFrom_hyphen hmark hnumeral hident
                  rw [hlexeme]
                  exact .inr (.inr (.inl rfl))

/-! ## Significant lexemes -/

theorem significant_cons (l : Lexeme) (ls : List Lexeme) :
    significant (l :: ls) =
      if l.kind.isInsignificant then significant ls else l :: significant ls := by
  cases h : l.kind.isInsignificant <;> simp [significant, h]

theorem significant_readBack (l : Lexeme) (ls : List Lexeme) :
    significant (l.readBack ++ ls) = significant (l :: ls) := by
  unfold Lexeme.readBack
  split
  · next hbad =>
    rw [List.cons_append, List.singleton_append, significant_cons, significant_cons,
      significant_cons l]
    rfl
  · rfl

/-- A lexeme that stands where others were lost: no number, no function, no hyphen. -/
def Loose (l : Lexeme) : Prop := l.kind = .ident ∨ ∃ d, d ≠ '-' ∧ l.kind = .delim d

theorem not_loose_of_isNumeric {l : Lexeme} (h : l.kind.isNumeric = true) : ¬ Loose l := by
  rintro (hkind | ⟨d, -, hkind⟩)
  · rw [hkind] at h
    cases h
  · rw [hkind] at h
    cases h

theorem loose_ident (name : List Char) : Loose (.ofText .ident name) := .inl rfl

theorem loose_delim {d : Char} (h : d ≠ '-') : Loose (.ofDelim d) := .inr ⟨d, h, rfl⟩

theorem not_loose_hyphen : ¬ Loose (.ofDelim '-') := by
  rintro (hkind | ⟨d, hd, hkind⟩)
  · cases hkind
  · cases hkind
    exact hd rfl

theorem loose_of_append {f l : Lexeme} {lost ls more : List Lexeme} (hlost : ∀ l ∈ lost, Loose l)
    (hl : Loose l) (h : f :: ls = lost ++ l :: more) : Loose f := by
  cases lost with
  | nil =>
      cases h
      exact hl
  | cons q lost =>
      cases h
      exact hlost _ List.mem_cons_self

theorem isInsignificant_of_isNumeric {kind : TokenKind} (h : kind.isNumeric = true) :
    kind.isInsignificant = false := by
  cases kind <;> first | rfl | cases h

theorem significant_lexemes {text : List Char} (hne : text ≠ [])
    (h : (lexeme text).1.kind.isInsignificant = false) :
    significant (lexemes text) = (lexeme text).1 :: significant (lexemes (lexeme text).2) := by
  rw [lexemes_cons hne, significant_cons, h]
  rfl

theorem name_append_ne_nil {name : List Char} (hname : name ≠ []) (hw : unit? isNameChar w = none) :
    Serialize.name name ++ w ≠ [] := by
  intro hnil
  have hunits := Serialize.units_name name hw
  have hstop : unit? isNameChar [] = none := rfl
  rw [hnil, units_of_none hstop] at hunits
  cases hunits
  exact hname rfl

/-- Where a loose lexeme has to come next, only an identifier or the closing mark of a comment may
stand behind the opening mark. -/
theorem lexeme_name_of_loose {name : List Char} {l : Lexeme} {lost more : List Lexeme}
    (hname : name ≠ []) (hw : unit? isNameChar w = none) (hlost : ∀ l ∈ lost, Loose l)
    (hl : Loose l)
    (h : significant (lexemes (Serialize.name name ++ w)) = lost ++ l :: more) :
    lexeme (Serialize.name name ++ w) = identLike name w ∧ (identLike name w).1.kind = .ident ∨
      name = ['-', '-'] ∧ ∃ more', w = '>' :: more' ∧
        significant (lexemes (Serialize.name name ++ w)) = significant (lexemes more') := by
  have hne := name_append_ne_nil hname hw
  rcases lexeme_name hname hw with hnumeric | hlike | hhyphen | ⟨hcdc, hname, more', hw, hrest⟩
  · rw [significant_lexemes hne (isInsignificant_of_isNumeric hnumeric)] at h
    exact absurd (loose_of_append hlost hl h) (not_loose_of_isNumeric hnumeric)
  · have hkind := identLike_kind name w
    rw [← hlike] at hkind
    rcases hkind with hkind | hkind
    · rw [← hlike]
      exact .inl ⟨rfl, hkind⟩
    · -- a function or a url is not loose
      rw [significant_lexemes hne (by rcases hkind with h | h | h <;> rw [h] <;> rfl)] at h
      rcases loose_of_append hlost hl h with hident | ⟨d, -, hdelim⟩
      · rw [hident] at hkind
        rcases hkind with hkind | hkind | hkind <;> cases hkind
      · rw [hdelim] at hkind
        rcases hkind with hkind | hkind | hkind <;> cases hkind
  · rw [significant_lexemes hne (by rw [hhyphen]; rfl), hhyphen] at h
    exact absurd (loose_of_append hlost hl h) not_loose_hyphen
  · refine .inr ⟨hname, more', hw, ?_⟩
    rw [lexemes_cons hne, significant_cons, hcdc, hrest]
    rfl

theorem identifier_two_hyphens {name : List Char} (h : name ≠ []) :
    Serialize.identifier ('-' :: '-' :: name) = '-' :: '-' :: Serialize.name name := by
  obtain ⟨c, name, rfl⟩ := List.exists_cons_of_ne_nil h
  rfl

theorem significant_cdo (text : List Char) :
    significant (lexemes ('<' :: '!' :: '-' :: '-' :: text)) = significant (lexemes text) := by
  have hlexeme : lexeme ('<' :: '!' :: '-' :: '-' :: text) =
      (.ofText .cdo ['<', '!', '-', '-'], text) := rfl
  rw [lexemes_cons (by simp), hlexeme, significant_cons]
  rfl

theorem significant_delim (d : Char) (ls : List Lexeme) :
    significant (.ofDelim d :: ls) = .ofDelim d :: significant ls := rfl

/-- The written text gives lost lexemes once more, in front of those that are still to be read.
Some are lost already, or some will be. -/
structure Regains (lost : List Lexeme) (text : List Char) : Prop where
  loose : ∀ l ∈ lost, Loose l
  lossy : lost ≠ [] ∨ clashes (lexemes text) = true
  equal : significant (lexemes (written text)) = lost ++ significant (lexemes text)

theorem Regains.of_cons {l q : Lexeme} {lost ls : List Lexeme} {rest : List Char}
    (hlost : ∀ l ∈ q :: lost, Loose l) (hls : ∀ l ∈ ls, Loose l) (hne : ls ≠ [])
    (h : l :: significant (lexemes (written rest)) =
      q :: lost ++ (ls ++ significant (lexemes rest))) : Regains (lost ++ ls) rest where
  loose := List.forall_mem_append.mpr ⟨fun l hl => hlost l (List.mem_cons_of_mem _ hl), hls⟩
  lossy := .inl (by simp [hne])
  equal := by
    rw [List.append_assoc]
    exact (List.cons.inj h).2

theorem written_of_lexemes {l : Lexeme} {rest : List Char}
    (h : lexemes text = l :: lexemes rest) : written text = l.css ++ written rest := by
  rw [written, h, List.flatMap_cons]
  rfl

/-- What fuses behind `<` is lost, and what the name gives instead was lost before. -/
theorem Regains.of_hyphened {lost : List Lexeme} (hhyphened : Hyphened text)
    (hlost : ∀ l ∈ lost, Loose l)
    (h : significant (lexemes ('<' :: written text)) =
      lost ++ .ofDelim '<' :: significant (lexemes text)) :
    ∃ lost' rest, rest.length < text.length ∧ Regains lost' rest := by
  have hless : Loose (.ofDelim '<') := loose_delim (by decide)
  cases hhyphened with
  | @function name rest text hname hlength hlexemes =>
      rw [written_other rfl, written_of_lexemes hlexemes, Lexeme.css_function,
        identifier_two_hyphens hname, List.append_assoc, List.cons_append, List.cons_append,
        significant_cdo] at h
      rcases lexeme_name_of_loose hname rfl hlost hless h with ⟨-, hkind⟩ | ⟨-, more, hmore, -⟩
      · exact absurd hkind (identLike_parenthesis name _)
      · cases hmore
  | @ident name rest text hname hstop hopen hlength hlexemes =>
      have hident : Loose (.ofText .ident ('-' :: '-' :: name)) := loose_ident _
      rw [written_other rfl, written_of_lexemes hlexemes, Lexeme.css_ident,
        identifier_two_hyphens hname, List.cons_append, List.cons_append, significant_cdo] at h
      rw [lexemes_other rfl, significant_delim, hlexemes] at h
      have hstop := unit?_nameChar_written hstop
      rcases lexeme_name_of_loose hname hstop hlost hless h with
        ⟨hlike, hkind⟩ | ⟨hname, more, hmore, hsignificant⟩
      · -- the rest of the name stands for itself, so it was lost before
        have hplain : identLike name (written rest) = (.ofText .ident name, written rest) :=
          identLike_of_head (head?_written_ne rfl (by decide) hopen)
        rw [hplain] at hlike
        have hne := name_append_ne_nil hname hstop
        rw [significant_lexemes hne (by rw [hlike]; rfl), hlike] at h
        cases lost with
        | nil => exact TokenKind.noConfusion (congrArg Lexeme.kind (List.cons.inj h).1)
        | cons q lost =>
            have hls : ∀ l ∈ [.ofDelim '<', .ofDelim '!', .ofText .ident ('-' :: '-' :: name)],
                Loose l := by
              simp [hless, hident, loose_delim]
            exact ⟨_, rest, Nat.lt_succ_of_le hlength, .of_cons hlost hls (by simp) h⟩
      · -- the name was two hyphens more, and closes a comment
        obtain ⟨rest, rfl⟩ := head?_of_written hmore rfl (by decide)
        rw [written_other rfl] at hmore
        cases hmore
        rw [hsignificant, lexemes_other rfl] at h
        have hls : ∀ l ∈ [.ofDelim '<', .ofDelim '!', .ofText .ident ('-' :: '-' :: name),
            .ofDelim '>'], Loose l := by
          simp [hless, hident, loose_delim]
        refine ⟨lost ++ _, rest, ?_, List.forall_mem_append.mpr ⟨hlost, hls⟩, .inl (by simp), ?_⟩
        · rw [List.length_cons] at hlength ⊢
          omega
        · rw [List.append_assoc]
          exact h

/-- A lexeme that does not fuse takes the place of one that was lost, and is lost itself. -/
theorem Regains.of_kept {l : Lexeme} {lost : List Lexeme} {rest : List Char}
    (hlost : ∀ l ∈ lost, Loose l) (h : lost ≠ [] ∨ clashes (lexemes rest) = true)
    (heq : significant (l :: lexemes (written rest)) = lost ++ significant (l :: lexemes rest)) :
    ∃ lost', Regains lost' rest := by
  rw [significant_cons, significant_cons] at heq
  split at heq
  · exact ⟨lost, hlost, h, heq⟩
  · cases lost with
    | nil => exact ⟨[], hlost, h, (List.cons.inj heq).2⟩
    | cons q lost =>
        have hl : l = q := (List.cons.inj heq).1
        have hls : ∀ l' ∈ [l], Loose l' := by
          simp [hl, hlost q List.mem_cons_self]
        exact ⟨_, .of_cons hlost hls (by simp) heq⟩

/-- A lexeme that takes an exponent is lost, and no lexeme that was lost comes in its place. -/
theorem not_regains_of_takesExponent {lost : List Lexeme} (hlost : ∀ l ∈ lost, Loose l)
    (htakes : (lexemeFrom c text).1.takesExponent = true)
    (hadds : (lexeme (lexemeFrom c text).2).1.addsDigit = true) {ls : List Lexeme} :
    significant (lexemes (written (c :: text))) ≠
      lost ++ significant ((lexemeFrom c text).1 :: ls) := by
  obtain ⟨n, rest, hlexeme, hother⟩ := lexeme_written_of_takesExponent rfl htakes hadds
  have hne : written (c :: text) ≠ [] := by simp [written_eq_nil]
  have hnumeric := quantity_isNumeric n rest
  have hfirst : (lexemeFrom c text).1.kind.isInsignificant = false := by
    simp only [Lexeme.takesExponent, Bool.and_eq_true, decide_eq_true_eq] at htakes
    rw [htakes.1.1]
    rfl
  have hsecond := isInsignificant_of_isNumeric hnumeric
  intro heq
  rw [significant_lexemes hne (by rwa [hlexeme]), hlexeme, significant_cons, hfirst] at heq
  cases lost with
  | nil => exact hother (List.cons.inj heq).1
  | cons q lost =>
      rw [(List.cons.inj heq).1] at hnumeric
      exact not_loose_of_isNumeric hnumeric (hlost q List.mem_cons_self)

/-- The step: a text that regains lost lexemes has an end that does. -/
theorem Regains.step {lost : List Lexeme} (h : Regains lost (c :: text)) :
    ∃ lost' rest, rest.length < (c :: text).length ∧ Regains lost' rest := by
  obtain ⟨hlost, hlossy, heq⟩ := h
  have hlength := Nat.lt_succ_of_le (lexemeFrom_suffix c text).length_le
  have hlexemes : lexemes (c :: text) =
      (lexemeFrom c text).1 :: lexemes (lexemeFrom c text).2 := lexemes_cons (by simp)
  rw [hlexemes] at hlossy heq
  cases hfuses : (lexemeFrom c text).1.fuses (lexemes (lexemeFrom c text).2) with
  | false =>
      rw [lexemes_written_cons rfl hfuses, significant_readBack] at heq
      rw [clashes, hfuses, Bool.false_or] at hlossy
      obtain ⟨lost', hregains⟩ := Regains.of_kept hlost hlossy heq
      exact ⟨lost', _, hlength, hregains⟩
  | true =>
      by_cases hkind : (lexemeFrom c text).1.kind = .delim '<'
      · obtain ⟨rfl, hfound⟩ := (lexemeFrom_form c text).of_delim hkind
        rw [hfound] at hfuses heq
        rw [written_cons, hfound, Lexeme.css_delim] at heq
        obtain ⟨lost', rest, hlt, hregains⟩ :=
          Regains.of_hyphened (hyphened_of_less_fuses hfuses) hlost heq
        exact ⟨lost', rest, Nat.lt_succ_of_lt hlt, hregains⟩
      · rw [fuses_of_ne_less hkind, Bool.and_eq_true] at hfuses
        exact absurd heq (not_regains_of_takesExponent hlost hfuses.1 hfuses.2)

/-- Lexemes that fuse are lost for good. -/
theorem not_regains (lost : List Lexeme) (text : List Char) : ¬ Regains lost text := by
  generalize hn : text.length = n
  induction n using Nat.strongRecOn generalizing text lost with
  | ind n ih =>
      intro h
      cases text with
      | nil =>
          have hnil : lost = [] := by
            have hequal := h.equal
            rw [written_nil] at hequal
            exact List.self_eq_append_left.mp hequal
          rcases h.lossy with hne | hclashes
          · exact hne hnil
          · rw [lexemes_nil] at hclashes
            cases hclashes
      | cons c text =>
          obtain ⟨lost', rest, hlt, hregains⟩ := h.step
          exact ih rest.length (hn ▸ hlt) lost' rest rfl hregains

/-! ## The written text -/

theorem lexemes_written (text : List Char) (h : clashes (lexemes text) = false) :
    lexemes (written text) = (lexemes text).flatMap Lexeme.readBack := by
  generalize hn : text.length = n
  induction n using Nat.strongRecOn generalizing text with
  | ind n ih =>
      cases text with
      | nil =>
          rw [written_nil, lexemes_nil]
          rfl
      | cons c text =>
          have hlength := Nat.lt_succ_of_le (lexemeFrom_suffix c text).length_le
          have hlexemes : lexemes (c :: text) =
              (lexemeFrom c text).1 :: lexemes (lexemeFrom c text).2 := lexemes_cons (by simp)
          rw [hlexemes, clashes, Bool.or_eq_false_iff] at h
          rw [lexemes_written_cons rfl h.1, hlexemes, List.flatMap_cons,
            ih _ (hn ▸ hlength) _ h.2 rfl]

theorem significant_flatMap_readBack (ls : List Lexeme) :
    significant (ls.flatMap Lexeme.readBack) = significant ls := by
  induction ls with
  | nil => rfl
  | cons l ls ih =>
      rw [List.flatMap_cons, significant_readBack, significant_cons, significant_cons l, ih]

/-- The significant lexemes read back exactly if no lexemes clash. -/
theorem significant_written (text : List Char) :
    significant (lexemes (written text)) = significant (lexemes text) ↔
      clashes (lexemes text) = false := by
  constructor
  · intro heq
    cases hclashes : clashes (lexemes text) with
    | false => rfl
    | true => exact absurd ⟨by simp, .inr hclashes, heq⟩ (not_regains [] text)
  · intro h
    rw [lexemes_written text h, significant_flatMap_readBack]

end CssLex.Grammar
