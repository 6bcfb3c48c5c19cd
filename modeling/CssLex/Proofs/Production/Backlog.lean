import CssLex.Production.Lexeme
import CssLex.Proofs.Scanner.Backlog

/-! How many entries the productions hand back. From at most four entries that were pushed back,
each production leaves at most four. -/

namespace CssLex.Production

open Scan Scanner

variable {n : Nat}

/-! ## Escapes -/

theorem hexDigits_leaves (count : Nat) (hpos : 1 ≤ n) (hn : n ≤ 4) :
    Leaves n (hexDigits count) fun _ => n := by
  induction count with
  | zero => exact .pure (Nat.le_refl n)
  | succ count ih =>
      refine (takeIf_leaves _ hpos hn).bind fun c => ?_
      cases c with
      | none => exact .pure (Nat.sub_le _ _)
      | some c =>
          exact (ih.mono (Nat.sub_le _ _) fun _ => Nat.le_refl n).bind fun _ =>
            .pure (Nat.le_refl n)

theorem hexEscape_leaves (first : Char) (hpos : 1 ≤ n) (hn : n ≤ 4) :
    Leaves n (hexEscape first) fun _ => n := by
  refine (hexDigits_leaves 5 hpos hn).bind fun digits => ?_
  split
  · exact (takeIf_leaves _ hpos hn).bind fun _ => .pure (Nat.sub_le _ _)
  · exact .pure (Nat.le_refl n)

/-- A backslash that is no escape is handed back together with what is behind it. -/
theorem escape_leaves (hpos : 2 ≤ n) (hn : n ≤ 4) :
    Leaves n escape fun c => n - c.isSome.toNat := by
  refine (eat_leaves '\\' (by omega) hn).bind fun eaten => ?_
  cases eaten with
  | false => exact .pure (Nat.le_refl _)
  | true =>
      refine (next_leaves (by simp; omega)).bind fun c => ?_
      cases c with
      | none =>
          exact (pushBack_leaves _).bind fun _ => (pushBack_leaves _).bind fun _ =>
            .pure (by simp; omega)
      | some c =>
          simp only
          split
          · exact (pushBack_leaves _).bind fun _ => (pushBack_leaves _).bind fun _ =>
              .pure (by simp; omega)
          · split
            · have hhex := hexEscape_leaves (n := n - 1) c (by omega) (by omega)
              exact (hhex.mono (by simp) fun _ => Nat.le_refl _).bind fun _ =>
                .pure (by simp)
            · exact .pure (by simp)

theorem unit_leaves (accept : Char → Bool) (hpos : 2 ≤ n) (hn : n ≤ 4) :
    Leaves n (unit accept) fun c => n - c.isSome.toNat := by
  refine (takeIf_leaves accept (by omega) hn).bind fun c => ?_
  cases c with
  | none => exact escape_leaves hpos hn
  | some c => exact .pure (Nat.le_refl _)

/-! ## Bodies -/

theorem blanks_leaves (hpos : 1 ≤ n) (hn : n ≤ 4) : Leaves n blanks fun _ => n :=
  (Loop.repeating_leaves _ (takeIf_leaves _ hpos hn)).bind fun _ => .pure (Nat.le_refl n)

theorem stringTurn_leaves (quote : Char) (hpos : 2 ≤ n) (hn : n ≤ 4) :
    Leaves n (stringTurn quote) fun _ => n := by
  refine (next_leaves hn).bind fun c => ?_
  cases c with
  | none => exact .pure (Nat.sub_le _ _)
  | some c =>
      simp only
      split
      · exact (pushBack_leaves _).bind fun _ => .pure (by omega)
      · split
        · refine (pushBack_leaves _).bind fun _ =>
            ((escape_leaves hpos hn).mono (by omega) fun _ => Nat.le_refl _).bind fun scalar => ?_
          cases scalar with
          | some scalar => exact .pure (Nat.sub_le _ _)
          | none =>
              refine (next_leaves (by simp; omega)).bind fun backslash =>
                (next_leaves (by simp; omega)).bind fun following => ?_
              split
              · exact .pure (by simp; omega)
              · exact (pushBack_leaves _).bind fun _ => (pushBack_leaves _).bind fun _ =>
                  .pure (by simp; omega)
        · split <;> exact .pure (Nat.sub_le _ _)

theorem commentTurn_leaves (hpos : 2 ≤ n) (hn : n ≤ 4) : Leaves n commentTurn fun _ => n := by
  refine (next_leaves hn).bind fun c => ?_
  cases c with
  | none => exact .pure (Nat.sub_le _ _)
  | some c =>
      simp only
      split
      · refine (eat_leaves '/' (by omega) (by omega)).bind fun eaten => ?_
        split <;> exact .pure (by omega)
      · exact .pure (Nat.sub_le _ _)

theorem stringBody_leaves (quote : Char) (hpos : 2 ≤ n) (hn : n ≤ 4) :
    Leaves n (stringBody quote) fun _ => n :=
  (Loop.run_leaves (stringTurn_leaves quote hpos hn)).bind fun _ => .pure (Nat.le_refl n)

theorem commentBody_leaves (hpos : 2 ≤ n) (hn : n ≤ 4) : Leaves n commentBody fun _ => n :=
  (Loop.run_leaves (commentTurn_leaves hpos hn)).bind fun _ => .pure (Nat.le_refl n)

theorem closeUrl_leaves (text : List Char) (hpos : 1 ≤ n) (hn : n ≤ 4) :
    Leaves n (closeUrl text) fun _ => n :=
  (blanks_leaves hpos hn).bind fun _ => (eat_leaves ')' hpos hn).bind fun _ =>
    .pure (Nat.sub_le _ _)

theorem urlBody_leaves (hpos : 2 ≤ n) (hn : n ≤ 4) : Leaves n urlBody fun _ => n := by
  refine (blanks_leaves (by omega) hn).bind fun _ =>
    (takeIf_leaves _ (by omega) hn).bind fun quote => ?_
  cases quote with
  | some quote =>
      refine ((stringBody_leaves quote hpos hn).mono (Nat.sub_le _ _) fun _ =>
        Nat.le_refl n).bind fun body => ?_
      split
      · exact closeUrl_leaves _ (by omega) hn
      · exact .pure (Nat.le_refl n)
  | none =>
      exact (Loop.repeating_leaves _ (unit_leaves isUrlChar hpos hn)).bind fun _ =>
        closeUrl_leaves _ (by omega) hn

/-! ## Names -/

theorem nameRun_leaves (hpos : 2 ≤ n) (hn : n ≤ 4) : Leaves n nameRun fun _ => n :=
  (Loop.repeating_leaves _ (unit_leaves _ hpos hn)).bind fun _ => .pure (Nat.le_refl n)

theorem name_leaves (hpos : 2 ≤ n) (hn : n ≤ 4) : Leaves n name fun _ => n :=
  (nameRun_leaves hpos hn).bind fun _ => .pure (Nat.le_refl n)

/-- Two hyphens are handed back in front of a backslash and a line feed: here the bound is
reached. -/
theorem customName_leaves : Leaves 2 customName fun _ => 4 := by
  refine (unit_leaves _ (Nat.le_refl 2) (by decide)).bind fun c => ?_
  cases c with
  | some c =>
      exact ((nameRun_leaves (Nat.le_refl 2) (by decide)).mono (Nat.sub_le _ _) fun _ =>
        Nat.le_refl 2).bind fun _ => .pure (by decide)
  | none =>
      refine (next_leaves (by decide)).bind fun following => (pushBack_leaves _).bind fun _ => ?_
      split
      · exact .pure (by decide)
      · exact (pushBack_leaves _).bind fun _ => (pushBack_leaves _).bind fun _ => .pure (by decide)

theorem ident_leaves : Leaves 4 ident fun _ => 4 := by
  have hrun (n : Nat) (hpos : 2 ≤ n) (hn : n ≤ 4) (name : List Char → Option (List Char)) :
      Leaves (n - 1) (do let run ← nameRun; Pure.pure (name run)) fun _ => 4 :=
    ((nameRun_leaves hpos hn).mono (Nat.sub_le _ _) fun _ => hn).bind fun _ => .pure (Nat.le_refl 4)
  refine (eat_leaves '-' (by decide) (Nat.le_refl 4)).bind fun eaten => ?_
  cases eaten with
  | true =>
      refine (eat_leaves '-' (by decide) (by decide)).bind fun again => ?_
      cases again with
      | true => exact customName_leaves
      | false =>
          refine (unit_leaves _ (by decide) (by decide)).bind fun c => ?_
          cases c with
          | some c => exact hrun 3 (by decide) (by decide) _
          | none => exact (pushBack_leaves _).bind fun _ => .pure (Nat.le_refl 4)
  | false =>
      refine (unit_leaves _ (by decide) (Nat.le_refl 4)).bind fun c => ?_
      cases c with
      | some c => exact hrun 4 (by decide) (Nat.le_refl 4) _
      | none => exact .pure (Nat.le_refl 4)

/-! ## Numbers -/

theorem digitRun_leaves (hpos : 1 ≤ n) (hn : n ≤ 4) : Leaves n digitRun fun _ => n :=
  (Loop.repeating_leaves _ (takeIf_leaves _ hpos hn)).bind fun _ => .pure (Nat.le_refl n)

theorem fraction_leaves (hpos : 2 ≤ n) (hn : n ≤ 4) : Leaves n fraction fun _ => n := by
  refine (eat_leaves '.' (by omega) hn).bind fun eaten => ?_
  cases eaten with
  | false => exact .pure (Nat.sub_le _ _)
  | true =>
      refine (digitRun_leaves (by simp; omega) (by simp; omega)).bind fun digits => ?_
      split
      · exact (pushBack_leaves _).bind fun _ => .pure (by simp; omega)
      · exact .pure (Nat.sub_le _ _)

theorem unread_leaves (c : Option Char) : Leaves n (unread c) fun _ => n + c.isSome.toNat := by
  cases c with
  | none => exact .pure (Nat.le_refl n)
  | some c => exact pushBack_leaves (some c)

theorem exponent_leaves : Leaves 4 exponent fun _ => 4 := by
  refine (takeIf_leaves _ (by decide) (Nat.le_refl 4)).bind fun marker => ?_
  cases marker with
  | none => exact .pure (Nat.le_refl 4)
  | some marker =>
      change Leaves 3 _ _
      refine (takeIf_leaves isSign (by decide) (by decide)).bind fun sign => ?_
      have hsign := sign.isSome.toNat_le
      refine (digitRun_leaves (by omega) (by omega)).bind fun digits => ?_
      split
      · exact (unread_leaves sign).bind fun _ => (pushBack_leaves _).bind fun _ => .pure (by omega)
      · exact .pure (by omega)

theorem num_leaves : Leaves 4 num fun _ => 4 := by
  refine (takeIf_leaves _ (by decide) (Nat.le_refl 4)).bind fun sign => ?_
  have hsign := sign.isSome.toNat_le
  have hpos : 2 ≤ 4 - sign.isSome.toNat := by omega
  have hn : 4 - sign.isSome.toNat ≤ 4 := Nat.sub_le _ _
  refine (digitRun_leaves (by omega) hn).bind fun whole =>
    (fraction_leaves hpos hn).bind fun fraction => ?_
  split
  · exact (unread_leaves sign).bind fun _ => .pure (by omega)
  · refine (exponent_leaves.mono hn fun _ => Nat.le_refl 4).bind fun exponent => ?_
    dsimp only
    split
    · exact .pure (Nat.le_refl 4)
    · exact .error (Nat.le_refl 4)

theorem numeric_leaves : Leaves 4 numeric fun _ => 4 := by
  refine num_leaves.bind fun result => ?_
  cases result with
  | none => exact .pure (Nat.le_refl 4)
  | some result =>
      refine (eat_leaves '%' (by decide) (Nat.le_refl 4)).bind fun eaten => ?_
      cases eaten with
      | true => exact .pure (by decide)
      | false =>
          refine ident_leaves.bind fun unit => ?_
          cases unit <;> exact .pure (Nat.le_refl 4)

/-! ## Lexemes -/

theorem identLike_leaves (name : List Char) : Leaves 4 (identLike name) fun _ => 4 := by
  refine (eat_leaves '(' (by decide) (Nat.le_refl 4)).bind fun eaten => ?_
  cases eaten with
  | false => exact .pure (Nat.le_refl 4)
  | true =>
      simp only [if_true]
      split
      · exact ((urlBody_leaves (by decide) (Nat.le_refl 4)).mono (by decide) fun _ =>
          Nat.le_refl 4).bind fun _ => .pure (Nat.le_refl 4)
      · exact .pure (by decide)

theorem identLexeme_leaves : Leaves 4 identLexeme fun _ => 4 := by
  refine ident_leaves.bind fun name => ?_
  cases name with
  | none => exact .pure (Nat.le_refl 4)
  | some name => exact (identLike_leaves name).bind fun _ => .pure (Nat.le_refl 4)

theorem signedLexeme_leaves : Leaves 4 signedLexeme fun _ => 4 := by
  refine numeric_leaves.bind fun lexeme => ?_
  cases lexeme with
  | none => exact identLexeme_leaves
  | some lexeme => exact .pure (Nat.le_refl 4)

/-- The character that is handed back takes the place that reading it has left. -/
theorem orDelim_leaves (c : Char) {production : Scan (Option Lexeme)}
    (h : Leaves 4 production fun _ => 4) : Leaves 3 (orDelim c production) fun _ => 4 := by
  refine (pushBack_leaves _).bind fun _ => h.bind fun lexeme => ?_
  cases lexeme with
  | some lexeme => exact .pure (Nat.le_refl 4)
  | none => exact (next_leaves (Nat.le_refl 4)).bind fun _ => .pure (by decide)

theorem operator_leaves (first second : Char) (kind : TokenKind) :
    Leaves 3 (operator first second kind) fun _ => 4 := by
  refine (eat_leaves second (by decide) (by decide)).bind fun eaten => ?_
  cases eaten <;> exact .pure (by decide)

theorem cdoRest_leaves : Leaves 3 cdoRest fun _ => 3 := by
  refine (eat_leaves '!' (by decide) (by decide)).bind fun bang => ?_
  cases bang with
  | false => exact .pure (by decide)
  | true =>
      refine (eat_leaves '-' (by decide) (by decide)).bind fun first => ?_
      cases first with
      | false => exact (pushBack_leaves _).bind fun _ => .pure (by decide)
      | true =>
          refine (eat_leaves '-' (by decide) (by decide)).bind fun second => ?_
          cases second with
          | false =>
              exact (pushBack_leaves _).bind fun _ => (pushBack_leaves _).bind fun _ =>
                .pure (by decide)
          | true => exact .pure (by decide)

theorem cdcRest_leaves : Leaves 3 cdcRest fun _ => 3 := by
  refine (eat_leaves '-' (by decide) (by decide)).bind fun hyphen => ?_
  cases hyphen with
  | false => exact .pure (by decide)
  | true =>
      refine (eat_leaves '>' (by decide) (by decide)).bind fun greater => ?_
      cases greater with
      | false => exact (pushBack_leaves _).bind fun _ => .pure (by decide)
      | true => exact .pure (by decide)

theorem marked_leaves (mark : Char) (kind : TokenKind) {production : Scan (Option (List Char))}
    (h : Leaves 4 production fun _ => 4) : Leaves 3 (marked mark kind production) fun _ => 4 := by
  refine (h.mono (by decide) fun _ => Nat.le_refl 4).bind fun name => ?_
  cases name <;> exact .pure (Nat.le_refl 4)

theorem lexemeFrom_leaves (c : Char) : Leaves 3 (lexemeFrom c) fun _ => 4 := by
  unfold lexemeFrom
  cases Start.of c with
  | blank => exact (blanks_leaves (by decide) (by decide)).bind fun _ => .pure (by decide)
  | quote => exact (stringBody_leaves c (by decide) (by decide)).bind fun _ => .pure (by decide)
  | hash => exact marked_leaves _ _ (name_leaves (by decide) (Nat.le_refl 4))
  | atSign => exact marked_leaves _ _ ident_leaves
  | operator kind => exact operator_leaves _ _ _
  | bar =>
      refine (eat_leaves '=' (by decide) (by decide)).bind fun eaten => ?_
      cases eaten with
      | true => exact .pure (by decide)
      | false => exact operator_leaves _ _ _
  | slash =>
      refine (eat_leaves '*' (by decide) (by decide)).bind fun eaten => ?_
      cases eaten with
      | true => exact (commentBody_leaves (by decide) (by decide)).bind fun _ => .pure (by decide)
      | false => exact .pure (by decide)
  | less =>
      refine cdoRest_leaves.bind fun found => ?_
      cases found <;> exact .pure (by decide)
  | hyphen =>
      refine cdcRest_leaves.bind fun found => ?_
      cases found with
      | true => exact .pure (by decide)
      | false => exact orDelim_leaves c signedLexeme_leaves
  | number => exact orDelim_leaves c numeric_leaves
  | name => exact orDelim_leaves c identLexeme_leaves
  | other => exact .pure (by decide)

/-- Between two lexemes at most four entries are pushed back. -/
theorem lexeme_leaves : Leaves 4 lexeme fun _ => 4 := by
  refine (next_leaves (Nat.le_refl 4)).bind fun c => ?_
  cases c with
  | none => exact .pure (by decide)
  | some c => exact lexemeFrom_leaves c

end CssLex.Production
