import CssLex.Proofs.Grammar.Lexeme
import CssLex.Proofs.Scanner.Gives

/-! Every production computes the function that the grammar gives for it. Where it declines, it
leaves all characters unread. -/

namespace CssLex.Production

open Scan Scanner

variable {whole rest : List Char}

/-! ## Escapes -/

theorem hexDigits_reads (count : Nat) : Reads (hexDigits count) fun text =>
    ((text.takeWhile isHexDigit).take count,
      text.drop ((text.takeWhile isHexDigit).take count).length) := by
  induction count with
  | zero => exact (Reads.pure []).congr fun text => by simp
  | succ count ih =>
      intro whole text
      cases text with
      | nil => exact ((takeIf_tries isHexDigit).none rfl).bind (.pure [])
      | cons c text =>
          by_cases hc : isHexDigit c = true
          · have hread := Grammar.char?_of_accept hc text
            simp only [List.takeWhile_cons, hc, if_true, List.take_succ_cons, List.length_cons,
              List.drop_succ_cons]
            exact ((takeIf_tries _).some hread).bind ((ih whole text).bind (.pure _))
          · have hread := Grammar.char?_of_not_accept (Bool.eq_false_iff.mpr hc) text
            simp only [List.takeWhile_cons, hc, Bool.false_eq_true, if_false, List.take_nil]
            exact ((takeIf_tries _).none hread).bind (.pure [])

theorem hexEscape_reads (first : Char) : Reads (hexEscape first) (Grammar.hexEscape first) := by
  intro whole text
  apply (hexDigits_reads 5 whole text).bind
  simp only [Grammar.hexEscape]
  split
  · exact (takeIf_tries isBlank whole _).bind (.pure _)
  · exact .pure _

theorem escape_tries : Tries escape Grammar.escape? := by
  intro whole text
  apply Gives.of_suffix
  intro hsuffix
  apply (eat_reads '\\' whole text).bind
  cases text with
  | nil => exact .pure none
  | cons c text =>
      by_cases hc : c = '\\'
      · subst hc
        rw [Grammar.mark_cons_self]
        cases text with
        | nil =>
            exact next_gives_none.bind (pushBack_gives_none.bind
              ((pushBack_gives_some hsuffix).bind (.pure none)))
        | cons d text =>
            have htail : d :: text <:+ whole := (List.suffix_cons _ _).trans hsuffix
            apply (next_gives_some d).bind
            simp only [Grammar.attempt, Grammar.escape?]
            by_cases hd : d = '\n'
            · simp only [hd, if_true]
              exact (pushBack_gives_some (hd ▸ htail)).bind
                ((pushBack_gives_some (hd ▸ hsuffix)).bind (.pure none))
            · simp only [hd, if_false]
              split
              · exact (hexEscape_reads d whole text).bind (.pure _)
              · exact .pure _
      · have hescape : Grammar.escape? (c :: text) = none := by
          simp [Grammar.escape?, hc]
        simp only [Grammar.mark_cons_ne hc, Grammar.attempt, hescape]
        exact .pure none

theorem unit_tries (accept : Char → Bool) : Tries (unit accept) (Grammar.unit? accept) := by
  intro whole text
  cases hread : Grammar.char? accept text with
  | some found =>
      obtain ⟨c, rest⟩ := found
      have hunit : Grammar.unit? accept text = some (c, rest) := by
        simp [Grammar.unit?, hread]
      simp only [Grammar.attempt, hunit]
      exact ((takeIf_tries accept).some hread).bind (.pure _)
  | none =>
      have hunit : Grammar.unit? accept text = Grammar.escape? text := by
        simp [Grammar.unit?, hread]
      simp only [Grammar.attempt, hunit]
      exact ((takeIf_tries accept).none hread).bind (escape_tries whole text)

/-! ## Names and identifiers -/

theorem units_reads (accept : Char → Bool) : Reads (units accept).run fun text =>
    (((Grammar.units accept text).1, ()), (Grammar.units accept text).2) :=
  Loop.repeating_reads (Grammar.units accept) (unit_tries accept)
    (fun _ _ _ => Grammar.units_of_some) fun _ => Grammar.units_of_none

theorem nameRun_reads : Reads nameRun (Grammar.units isNameChar) :=
  fun whole text => (units_reads isNameChar whole text).bind (.pure _)

theorem name_tries : Tries name Grammar.name? := by
  intro whole text
  apply (nameRun_reads whole text).bind
  by_cases h : (Grammar.units isNameChar text).1 = []
  · have hname : Grammar.name? text = none := by simp [Grammar.name?, h]
    simp only [Grammar.attempt, hname, Grammar.units_of_fst_nil h, if_true]
    exact .pure none
  · have hname : Grammar.name? text = some (Grammar.units isNameChar text) := by
      simp [Grammar.name?, h]
    simp only [Grammar.attempt, hname, h, if_false]
    exact .pure _

/-- Behind two hyphens, which are handed back on failure. -/
theorem customName_gives {text : List Char} (h : '-' :: '-' :: text <:+ whole) :
    Gives whole text customName (Grammar.attempt Grammar.ident? ('-' :: '-' :: text)).1
      (Grammar.attempt Grammar.ident? ('-' :: '-' :: text)).2 := by
  unfold customName
  cases hunit : Grammar.unit? isNameChar text with
  | some found =>
      obtain ⟨c, rest⟩ := found
      have hident : Grammar.ident? ('-' :: '-' :: text) =
          some ('-' :: '-' :: c :: (Grammar.units isNameChar rest).1,
            (Grammar.units isNameChar rest).2) := by
        simp [Grammar.ident?, Grammar.units_of_some hunit]
      simp only [Grammar.attempt, hident]
      exact ((unit_tries isNameChar).some hunit).bind ((nameRun_reads whole rest).bind (.pure _))
  | none =>
      apply ((unit_tries isNameChar).none hunit).bind
      have hrun := Grammar.units_of_none hunit
      cases text with
      | nil =>
          simp only [Grammar.attempt, Grammar.ident?, hrun, ne_eq, not_true_eq_false, and_false,
            if_false]
          exact next_gives_none.bind (pushBack_gives_none.bind (.pure _))
      | cons c text =>
          have htail : c :: text <:+ whole :=
            (List.suffix_cons _ _).trans ((List.suffix_cons _ _).trans h)
          simp only [Grammar.attempt, Grammar.ident?, hrun, ne_eq, reduceCtorEq, not_false_eq_true,
            and_self, if_true]
          exact (next_gives_some c).bind ((pushBack_gives_some htail).bind
            ((pushBack_gives_some ((List.suffix_cons _ _).trans h)).bind
              ((pushBack_gives_some h).bind (.pure none))))

theorem ident_tries : Tries ident Grammar.ident? := by
  intro whole text
  apply Gives.of_suffix
  intro hsuffix
  by_cases hhyphen : text.head? = some '-'
  · obtain ⟨text, rfl⟩ := List.head?_eq_some_iff.mp hhyphen
    apply (eat_gives_true '-').bind
    by_cases hagain : text.head? = some '-'
    · obtain ⟨text, rfl⟩ := List.head?_eq_some_iff.mp hagain
      exact (eat_gives_true '-').bind (customName_gives hsuffix)
    · apply (eat_gives_false hagain).bind
      simp only [Grammar.attempt, Grammar.ident?_hyphen hagain]
      cases hunit : Grammar.unit? isNameStart text with
      | some found =>
          simp only [Grammar.plainIdent?, hunit]
          exact ((unit_tries _).some hunit).bind ((nameRun_reads whole found.2).bind (.pure _))
      | none =>
          simp only [Grammar.plainIdent?, hunit]
          exact ((unit_tries _).none hunit).bind
            ((pushBack_gives_some hsuffix).bind (.pure none))
  · apply (eat_gives_false hhyphen).bind
    simp only [Grammar.attempt, Grammar.ident?_plain hhyphen]
    cases hunit : Grammar.unit? isNameStart text with
    | some found =>
        simp only [Grammar.plainIdent?, hunit]
        exact ((unit_tries _).some hunit).bind ((nameRun_reads whole found.2).bind (.pure _))
    | none =>
        simp only [Grammar.plainIdent?, hunit]
        exact ((unit_tries _).none hunit).bind (.pure none)

/-! ## Numbers -/

theorem runOf_reads (accept : Char → Bool) :
    Reads (Loop.repeating (takeIf accept) (takeIf_spends accept)).run fun text =>
      ((text.takeWhile accept, ()), text.dropWhile accept) := by
  refine Loop.repeating_reads (fun text => (text.takeWhile accept, text.dropWhile accept))
    (takeIf_tries accept) ?_ ?_
  · intro text c rest h
    cases text with
    | nil => cases h
    | cons d text =>
        simp only [Grammar.char?] at h
        split at h
        · next hd =>
          cases h
          simp [hd]
        · cases h
  · intro text h
    cases text with
    | nil => rfl
    | cons d text =>
        simp only [Grammar.char?] at h
        split at h
        · cases h
        · next hd => simp [hd]

theorem digitRun_gives (whole text : List Char) :
    Gives whole text digitRun (text.takeWhile isDigit) (text.dropWhile isDigit) :=
  (runOf_reads isDigit whole text).bind (.pure _)

theorem blanks_gives (whole text : List Char) :
    Gives whole text blanks (text.takeWhile isBlank) (text.dropWhile isBlank) :=
  (runOf_reads isBlank whole text).bind (.pure _)

theorem dropWhile_of_takeWhile_nil {accept : Char → Bool} {text : List Char}
    (h : text.takeWhile accept = []) : text.dropWhile accept = text := by
  have := List.takeWhile_append_dropWhile (p := accept) (l := text)
  rwa [h, List.nil_append] at this

theorem fraction_tries : Tries fraction Grammar.fraction? := by
  intro whole text
  apply Gives.of_suffix
  intro hsuffix
  by_cases hpoint : text.head? = some '.'
  · obtain ⟨text, rfl⟩ := List.head?_eq_some_iff.mp hpoint
    refine (eat_gives_true '.').bind ((digitRun_gives whole text).bind ?_)
    by_cases hdigits : text.takeWhile isDigit = []
    · simp only [Grammar.attempt, Grammar.fraction?, hdigits, if_true,
        dropWhile_of_takeWhile_nil hdigits]
      exact (pushBack_gives_some hsuffix).bind (.pure none)
    · simp only [Grammar.attempt, Grammar.fraction?, hdigits, if_false]
      exact .pure _
  · have hnone : Grammar.fraction? text = none := by
      unfold Grammar.fraction?
      split
      · exact absurd rfl hpoint
      · rfl
    simp only [Grammar.attempt, hnone]
    exact (eat_gives_false hpoint).bind (.pure none)

/-- An optional sign is handed back with what stands behind it. -/
theorem unread_gives {text : List Char}
    (h : text <:+ whole) : Gives whole (Grammar.attempt (Grammar.char? isSign) text).2
      (unread (Grammar.attempt (Grammar.char? isSign) text).1) () text := by
  cases text with
  | nil => exact .pure ()
  | cons c text =>
      cases hc : isSign c with
      | true =>
          simp only [Grammar.attempt, Grammar.char?_of_accept hc]
          exact pushBack_gives_some h
      | false =>
          simp only [Grammar.attempt, Grammar.char?_of_not_accept hc]
          exact .pure ()

theorem exponent_tries : Tries exponent Grammar.exponent? := by
  intro whole text
  apply Gives.of_suffix
  intro hsuffix
  cases hmarker : Grammar.char? isExponentMarker text with
  | none =>
      rw [Grammar.attempt_of_none (by simp [Grammar.exponent?, hmarker])]
      exact ((takeIf_tries isExponentMarker).none hmarker).bind (.pure none)
  | some found =>
      obtain ⟨marker, rest⟩ := found
      have htext := (Grammar.eq_cons_of_char? hmarker).1
      rw [htext] at hsuffix
      have hrest : rest <:+ whole := (List.suffix_cons marker rest).trans hsuffix
      apply ((takeIf_tries isExponentMarker).some hmarker).bind
      refine (takeIf_tries isSign whole rest).bind ((digitRun_gives whole _).bind ?_)
      by_cases hdigits : (Grammar.attempt (Grammar.char? isSign) rest).2.takeWhile isDigit = []
      · have hnone : Grammar.exponent? text = none := by
          simp only [Grammar.exponent?, hmarker, hdigits, if_true]
        rw [Grammar.attempt_of_none hnone, dropWhile_of_takeWhile_nil hdigits, if_pos hdigits,
          htext]
        exact (unread_gives hrest).bind ((pushBack_gives_some hsuffix).bind (.pure none))
      · have hsome : Grammar.exponent? text = some
            ((Grammar.attempt (Grammar.char? isSign) rest).1.toList ++
              (Grammar.attempt (Grammar.char? isSign) rest).2.takeWhile isDigit,
              (Grammar.attempt (Grammar.char? isSign) rest).2.dropWhile isDigit) := by
          simp only [Grammar.exponent?, hmarker, hdigits, if_false]
        rw [Grammar.attempt_of_some hsome, if_neg hdigits]
        exact .pure _

theorem num_tries : Tries num Grammar.num? := by
  intro whole text
  apply Gives.of_suffix
  intro hsuffix
  cases hnumeral : Grammar.numeral? text with
  | none =>
      rw [Grammar.attempt_of_none (by simp [Grammar.num?, hnumeral])]
      simp only [Grammar.numeral?] at hnumeral
      split at hnumeral
      · next hdigit =>
        refine (takeIf_tries isSign whole text).bind ((digitRun_gives whole _).bind
          ((fraction_tries whole _).bind ?_))
        rw [if_pos hdigit, Grammar.attempt_snd_of_fst_none hdigit.2,
          dropWhile_of_takeWhile_nil hdigit.1]
        exact (unread_gives hsuffix).bind (.pure none)
      · cases hnumeral
  | some found =>
      obtain ⟨n, rest⟩ := found
      obtain ⟨value, hvalue⟩ := Option.isSome_iff_exists.mp
        (Grammar.numeral?_valid hnumeral).value_isSome
      have hnum : Grammar.num? text = some ((value, n.text), rest) := by
        simp only [Grammar.num?, hnumeral, hvalue]
      rw [Grammar.attempt_of_some hnum]
      simp only [Grammar.numeral?] at hnumeral
      split at hnumeral
      · cases hnumeral
      · next hdigit =>
        cases hnumeral
        refine (takeIf_tries isSign whole text).bind ((digitRun_gives whole _).bind
          ((fraction_tries whole _).bind ?_))
        rw [if_neg hdigit]
        apply (exponent_tries whole _).bind
        simp only [Grammar.Numeral.text] at hvalue
        simp only [hvalue]
        exact .pure _

theorem numeric_tries : Tries numeric Grammar.numeric? := by
  intro whole text
  cases hnumeral : Grammar.numeral? text with
  | none =>
      rw [Grammar.attempt_of_none (by simp [Grammar.numeric?, hnumeral])]
      exact (num_tries.none (by simp [Grammar.num?, hnumeral])).bind (.pure none)
  | some found =>
      obtain ⟨n, rest⟩ := found
      obtain ⟨value, hvalue⟩ := Option.isSome_iff_exists.mp
        (Grammar.numeral?_valid hnumeral).value_isSome
      have hnumeric : Grammar.numeric? text =
          some ((Grammar.quantity n rest).1, (Grammar.quantity n rest).2) := by
        simp only [Grammar.numeric?, hnumeral]
      rw [Grammar.attempt_of_some hnumeric]
      have hnum : Grammar.num? text = some ((value, n.text), rest) := by
        simp only [Grammar.num?, hnumeral, hvalue]
      apply (num_tries.some hnum).bind
      simp only [Grammar.quantity, Grammar.Numeral.lexeme, hvalue]
      by_cases hpercent : rest.head? = some '%'
      · obtain ⟨rest, rfl⟩ := List.head?_eq_some_iff.mp hpercent
        rw [Grammar.mark_cons_self]
        exact (eat_gives_true '%').bind (.pure _)
      · rw [Grammar.mark_of_head hpercent]
        apply (eat_gives_false hpercent).bind
        cases hunit : Grammar.ident? rest with
        | some found => exact (ident_tries.some hunit).bind (.pure _)
        | none => exact (ident_tries.none hunit).bind (.pure _)

/-! ## Bodies -/

theorem stringTurn_reads (quote : Char) :
    Reads (stringTurn quote) (Grammar.stringTurn quote) := by
  intro whole text
  apply Gives.of_suffix
  intro hsuffix
  cases text with
  | nil => exact next_gives_none.bind (.pure _)
  | cons c text =>
      apply (next_gives_some c).bind
      simp only [Grammar.stringTurn]
      by_cases hbreak : c = '\n'
      · simp only [hbreak, if_true]
        rw [hbreak] at hsuffix
        exact (pushBack_gives_some hsuffix).bind (.pure _)
      · simp only [hbreak, if_false]
        by_cases hbackslash : c = '\\'
        · subst hbackslash
          simp only [if_true]
          apply (pushBack_gives_some hsuffix).bind
          cases hescape : Grammar.escape? ('\\' :: text) with
          | some found => exact (escape_tries.some hescape).bind (.pure _)
          | none =>
              refine (escape_tries.none hescape).bind ((next_gives_some '\\').bind ?_)
              cases text with
              | nil =>
                  exact next_gives_none.bind (pushBack_gives_none.bind
                    ((pushBack_gives_some hsuffix).bind (.pure _)))
              | cons d text =>
                  have hd : d = '\n' := by
                    by_cases hd : d = '\n'
                    · exact hd
                    · simp only [Grammar.escape?, hd, if_false] at hescape
                      split at hescape <;> cases hescape
                  rw [hd, Grammar.mark_cons_self]
                  exact (next_gives_some '\n').bind (.pure _)
        · simp only [hbackslash, if_false]
          split
          · exact .pure _
          · exact .pure _

theorem stringBody_reads (quote : Char) :
    Reads (stringBody quote) (Grammar.stringBody quote) := by
  intro whole text
  have hrun := Loop.run_reads ⟨stringTurn quote, stringTurn_spends quote⟩ (stringTurn_reads quote)
    (fun _ _ _ => Grammar.stringRun_of_more) (fun _ _ _ => Grammar.stringRun_of_stop)
  exact (hrun whole text).bind (.pure _)

theorem commentTurn_reads : Reads commentTurn Grammar.commentTurn := by
  intro whole text
  cases text with
  | nil => exact next_gives_none.bind (.pure _)
  | cons c text =>
      apply (next_gives_some c).bind
      simp only [Grammar.commentTurn]
      by_cases hstar : c = '*'
      · simp only [hstar, if_true]
        by_cases hslash : text.head? = some '/'
        · obtain ⟨text, rfl⟩ := List.head?_eq_some_iff.mp hslash
          rw [Grammar.mark_cons_self]
          exact (eat_gives_true '/').bind (.pure _)
        · rw [Grammar.mark_of_head hslash]
          exact (eat_gives_false hslash).bind (.pure _)
      · simp only [hstar, if_false]
        exact .pure _

theorem commentBody_reads : Reads commentBody Grammar.commentBody := by
  intro whole text
  have hrun := Loop.run_reads ⟨commentTurn, commentTurn_spends⟩ commentTurn_reads
    (fun _ _ _ => Grammar.commentRun_of_more) (fun _ _ _ => Grammar.commentRun_of_stop)
  exact (hrun whole text).bind (.pure _)

theorem closeUrl_reads (body : List Char) : Reads (closeUrl body) (Grammar.closeUrl body) :=
  fun whole text => (blanks_gives whole text).bind ((eat_reads ')' whole _).bind (.pure _))

theorem urlBody_reads : Reads urlBody Grammar.urlBody := by
  intro whole text
  apply (blanks_gives whole text).bind
  unfold Grammar.urlBody
  cases hquote : Grammar.char? (fun c => c = '"' || c = '\'') (text.dropWhile isBlank) with
  | some found =>
      obtain ⟨quote, rest⟩ := found
      refine ((takeIf_tries _).some hquote).bind ((stringBody_reads _ whole _).bind ?_)
      by_cases hclosed : (Grammar.stringBody quote rest).1.closed = true
      · simp only [hclosed, if_true]
        exact closeUrl_reads _ whole _
      · simp only [hclosed, Bool.false_eq_true, if_false]
        exact .pure _
  | none =>
      exact ((takeIf_tries _).none hquote).bind ((units_reads isUrlChar whole _).bind
        (closeUrl_reads _ whole _))

/-! ## Lexemes -/

theorem operator_reads (first second : Char) (kind : TokenKind) :
    Reads (operator first second kind) (Grammar.operator first second kind) := by
  intro whole text
  unfold Grammar.operator
  by_cases hsecond : text.head? = some second
  · obtain ⟨text, rfl⟩ := List.head?_eq_some_iff.mp hsecond
    rw [Grammar.mark_cons_self]
    exact (eat_gives_true second).bind (.pure _)
  · rw [Grammar.mark_of_head hsecond]
    exact (eat_gives_false hsecond).bind (.pure _)

theorem identLike_reads (name : List Char) :
    Reads (identLike name) (Grammar.identLike name) := by
  intro whole text
  unfold Grammar.identLike
  by_cases hopen : text.head? = some '('
  · obtain ⟨text, rfl⟩ := List.head?_eq_some_iff.mp hopen
    rw [Grammar.mark_cons_self]
    apply (eat_gives_true '(').bind
    by_cases hurl : name.map lowerLetter = ['u', 'r', 'l']
    · simp only [hurl, if_true]
      exact (urlBody_reads whole text).bind (.pure _)
    · simp only [hurl, if_false]
      exact .pure _
  · rw [Grammar.mark_of_head hopen]
    exact (eat_gives_false hopen).bind (.pure _)

theorem identLexeme_tries : Tries identLexeme Grammar.identLexeme? := by
  intro whole text
  cases hident : Grammar.ident? text with
  | some found =>
      have hlexeme : Grammar.identLexeme? text =
          some ((Grammar.identLike found.1 found.2).1, (Grammar.identLike found.1 found.2).2) := by
        simp only [Grammar.identLexeme?, hident]
      rw [Grammar.attempt_of_some hlexeme]
      exact (ident_tries.some hident).bind ((identLike_reads found.1 whole found.2).bind (.pure _))
  | none =>
      rw [Grammar.attempt_of_none (by simp only [Grammar.identLexeme?, hident])]
      exact (ident_tries.none hident).bind (.pure none)

theorem signedLexeme_tries : Tries signedLexeme Grammar.signedLexeme? := by
  intro whole text
  cases hnumeric : Grammar.numeric? text with
  | some found =>
      have hlexeme : Grammar.signedLexeme? text = some (found.1, found.2) := by
        simp only [Grammar.signedLexeme?, hnumeric]
      rw [Grammar.attempt_of_some hlexeme]
      exact (numeric_tries.some hnumeric).bind (.pure _)
  | none =>
      have hsigned : Grammar.signedLexeme? text = Grammar.identLexeme? text := by
        simp only [Grammar.signedLexeme?, hnumeric]
      simp only [Grammar.attempt, hsigned]
      exact (numeric_tries.none hnumeric).bind (identLexeme_tries whole text)

theorem marked_reads {mark : Char} {kind : TokenKind} {production : Scan (Option (List Char))}
    {read : List Char → Option (List Char × List Char)} (h : Tries production read) :
    Reads (marked mark kind production) (Grammar.marked mark kind read) := by
  intro whole text
  unfold Grammar.marked
  cases hread : read text with
  | some found => exact (h.some hread).bind (.pure _)
  | none => exact (h.none hread).bind (.pure _)

/-- Behind a character that is handed back and taken again. -/
theorem orDelim_gives {c : Char} {text : List Char} {production : Scan (Option Lexeme)}
    {read : List Char → Option (Lexeme × List Char)} (h : Tries production read)
    (hsuffix : c :: text <:+ whole) : Gives whole text (orDelim c production)
      (Grammar.orDelim read c text).1 (Grammar.orDelim read c text).2 := by
  unfold Grammar.orDelim
  apply (pushBack_gives_some hsuffix).bind
  cases hread : read (c :: text) with
  | some found => exact (h.some hread).bind (.pure _)
  | none => exact (h.none hread).bind ((next_gives_some c).bind (.pure _))

theorem cdcRest_reads : Reads cdcRest (Grammar.mark ['-', '>']) := by
  intro whole text
  apply Gives.of_suffix
  intro hsuffix
  by_cases hhyphen : text.head? = some '-'
  · obtain ⟨text, rfl⟩ := List.head?_eq_some_iff.mp hhyphen
    rw [Grammar.mark_cons]
    apply (eat_gives_true '-').bind
    by_cases hgreater : text.head? = some '>'
    · obtain ⟨text, rfl⟩ := List.head?_eq_some_iff.mp hgreater
      rw [Grammar.mark_cons_self]
      exact (eat_gives_true '>').bind (.pure true)
    · rw [Grammar.mark_of_head hgreater]
      exact (eat_gives_false hgreater).bind ((pushBack_gives_some hsuffix).bind (.pure false))
  · rw [Grammar.mark_of_head hhyphen]
    exact (eat_gives_false hhyphen).bind (.pure false)

theorem cdoRest_reads : Reads cdoRest (Grammar.mark ['!', '-', '-']) := by
  intro whole text
  apply Gives.of_suffix
  intro hsuffix
  by_cases hbang : text.head? = some '!'
  · obtain ⟨text, rfl⟩ := List.head?_eq_some_iff.mp hbang
    rw [Grammar.mark_cons]
    apply (eat_gives_true '!').bind
    by_cases hhyphen : text.head? = some '-'
    · obtain ⟨text, rfl⟩ := List.head?_eq_some_iff.mp hhyphen
      rw [Grammar.mark_cons]
      have htail := (List.suffix_cons _ _).trans hsuffix
      apply (eat_gives_true '-').bind
      by_cases hagain : text.head? = some '-'
      · obtain ⟨text, rfl⟩ := List.head?_eq_some_iff.mp hagain
        rw [Grammar.mark_cons_self]
        exact (eat_gives_true '-').bind (.pure true)
      · rw [Grammar.mark_of_head hagain]
        exact (eat_gives_false hagain).bind ((pushBack_gives_some htail).bind
          ((pushBack_gives_some hsuffix).bind (.pure false)))
    · rw [Grammar.mark_of_head hhyphen]
      exact (eat_gives_false hhyphen).bind ((pushBack_gives_some hsuffix).bind (.pure false))
  · rw [Grammar.mark_of_head hbang]
    exact (eat_gives_false hbang).bind (.pure false)

theorem lexemeFrom_gives {c : Char} {text : List Char} (hsuffix : c :: text <:+ whole) :
    Gives whole text (lexemeFrom c) (Grammar.lexemeFrom c text).1
      (Grammar.lexemeFrom c text).2 := by
  unfold lexemeFrom Grammar.lexemeFrom
  cases Start.of c with
  | blank => exact (blanks_gives whole text).bind (.pure _)
  | quote => exact (stringBody_reads c whole text).bind (.pure _)
  | hash => exact marked_reads name_tries whole text
  | atSign => exact marked_reads ident_tries whole text
  | operator kind => exact operator_reads c '=' kind whole text
  | bar =>
      apply (eat_reads '=' whole text).bind
      by_cases hequals : text.head? = some '='
      · obtain ⟨text, rfl⟩ := List.head?_eq_some_iff.mp hequals
        simp only [Grammar.mark_cons_self, if_true]
        exact .pure _
      · simp only [Grammar.mark_of_head hequals, Bool.false_eq_true, if_false]
        exact operator_reads c '|' .column whole text
  | slash =>
      apply (eat_reads '*' whole text).bind
      by_cases hstar : text.head? = some '*'
      · obtain ⟨text, rfl⟩ := List.head?_eq_some_iff.mp hstar
        simp only [Grammar.mark_cons_self, if_true]
        exact (commentBody_reads whole text).bind (.pure _)
      · simp only [Grammar.mark_of_head hstar, Bool.false_eq_true, if_false]
        exact .pure _
  | less =>
      apply (cdoRest_reads whole text).bind
      rcases hmark : Grammar.mark ['!', '-', '-'] text with ⟨found, rest⟩
      cases found with
      | true => exact .pure _
      | false =>
          rw [Grammar.eq_of_mark_false hmark]
          exact .pure _
  | hyphen =>
      apply (cdcRest_reads whole text).bind
      rcases hmark : Grammar.mark ['-', '>'] text with ⟨found, rest⟩
      cases found with
      | true => exact .pure _
      | false =>
          rw [Grammar.eq_of_mark_false hmark]
          exact orDelim_gives signedLexeme_tries hsuffix
  | number => exact orDelim_gives numeric_tries hsuffix
  | name => exact orDelim_gives identLexeme_tries hsuffix
  | other => exact .pure _

theorem lexeme_reads : Reads lexeme Grammar.lexeme := by
  intro whole text
  apply Gives.of_suffix
  intro hsuffix
  cases text with
  | nil => exact next_gives_none.bind (.pure _)
  | cons c text => exact (next_gives_some c).bind (lexemeFrom_gives hsuffix)

end CssLex.Production
