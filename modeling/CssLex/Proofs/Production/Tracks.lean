import CssLex.Production.Lexeme
import CssLex.Proofs.Grammar.Numeric
import CssLex.Proofs.Scanner.Pairing

/-! Every production goes in step in two scanners: it hands back only entries that it has read, and
where it declines it has handed back all of them. -/

namespace CssLex.Production

open Scan Scanner Grammar

variable {given : List (Option Char)}

/-! ## Escapes -/

theorem hexDigits_roams (count : Nat) : Roams (hexDigits count) := by
  induction count with
  | zero => exact fun _ => .pure trivial
  | succ count ih =>
      exact fun _ => takeIf_bind (fun _ _ => ih.bind fun _ _ => .pure trivial) (.pure trivial)

theorem hexEscape_roams (first : Char) : Roams (hexEscape first) := by
  refine fun _ => (hexDigits_roams 5).bind fun digits _ => ?_
  split
  · exact takeIf_bind (fun _ _ => .pure trivial) (.pure trivial)
  · exact .pure trivial

theorem escape_declines : Declines escape := by
  refine fun given => eat_bind ?_ (.pure fun _ => rfl)
  refine next_bind fun c => ?_
  cases c with
  | none => exact pushBack_bind (pushBack_bind (.pure fun _ => rfl))
  | some c =>
      simp only
      split
      · exact pushBack_bind (pushBack_bind (.pure fun _ => rfl))
      · split
        · exact (hexEscape_roams c).bind fun _ _ => .pure nofun
        · exact .pure nofun

theorem unit_declines (accept : Char → Bool) : Declines (unit accept) :=
  fun given => takeIf_bind (fun _ _ => .pure nofun) (escape_declines given)

/-! ## Bodies -/

theorem blanks_roams : Roams blanks :=
  fun _ => (Loop.repeating_roams (takeIf_declines isBlank).roams).bind fun _ _ => .pure trivial

theorem stringTurn_roams (quote : Char) : Roams (stringTurn quote) := by
  refine fun given => next_bind fun c => ?_
  cases c with
  | none => exact .pure trivial
  | some c =>
      simp only
      split
      · exact pushBack_bind (.pure trivial)
      · split
        · refine pushBack_bind (escape_declines.bind (fun _ _ => .pure trivial) ?_)
          -- the backslash that was no escape is read again, with what is behind it
          refine next_bind fun backslash => next_bind fun following => ?_
          split
          · exact .pure trivial
          · exact pushBack_bind (pushBack_bind (.pure trivial))
        · split <;> exact .pure trivial

theorem commentTurn_roams : Roams commentTurn := by
  refine fun given => next_bind fun c => ?_
  cases c with
  | none => exact .pure trivial
  | some c =>
      simp only
      split
      · exact eat_bind (.pure trivial) (.pure trivial)
      · exact .pure trivial

theorem stringBody_roams (quote : Char) : Roams (stringBody quote) :=
  fun _ => (Loop.run_roams (stringTurn_roams quote)).bind fun _ _ => .pure trivial

theorem commentBody_roams : Roams commentBody :=
  fun _ => (Loop.run_roams commentTurn_roams).bind fun _ _ => .pure trivial

theorem closeUrl_roams (text : List Char) : Roams (closeUrl text) :=
  fun _ => blanks_roams.bind fun _ _ => eat_bind (.pure trivial) (.pure trivial)

theorem urlBody_roams : Roams urlBody := by
  refine fun _ => blanks_roams.bind fun _ _ => takeIf_bind (fun quote _ => ?_) ?_
  · refine (stringBody_roams quote).bind fun body kept => ?_
    split
    · exact closeUrl_roams _ kept
    · exact .pure trivial
  · exact (Loop.repeating_roams (unit_declines isUrlChar).roams).bind fun _ kept =>
      closeUrl_roams _ kept

/-! ## Names -/

theorem nameRun_roams : Roams nameRun :=
  fun _ => (Loop.repeating_roams (unit_declines _).roams).bind fun _ _ => .pure trivial

theorem name_roams : Roams name :=
  fun _ => nameRun_roams.bind fun _ _ => .pure trivial

/-- The two hyphens in front are handed back too. -/
theorem customName_tracks : Tracks (some '-' :: some '-' :: given) customName
    fun result kept => result = none → kept = given := by
  refine (unit_declines _).bind (fun c _ => nameRun_roams.bind fun _ _ => .pure nofun) ?_
  refine next_bind fun following => pushBack_bind ?_
  split
  · exact .pure nofun
  · exact pushBack_bind (pushBack_bind (.pure fun _ => rfl))

theorem ident_declines : Declines ident := by
  intro given
  refine eat_bind (eat_bind customName_tracks ?_) ?_
  · exact (unit_declines _).bind (fun _ _ => nameRun_roams.bind fun _ _ => .pure nofun)
      (pushBack_bind (.pure fun _ => rfl))
  · exact (unit_declines _).bind (fun _ _ => nameRun_roams.bind fun _ _ => .pure nofun)
      (.pure fun _ => rfl)

/-! ## Numbers -/

theorem digitRun_tracks : Tracks given digitRun fun digits kept =>
    (∀ c ∈ digits, isDigit c = true) ∧ (digits = [] → kept = given) := by
  have hrun : Tracks given (Loop.repeating (takeIf isDigit) (takeIf_spends isDigit)).run
      fun result kept => (∀ c ∈ result.1, isDigit c = true) ∧ (result.1 = [] → kept = given) := by
    refine Loop.runFrom_tracks
      (fun read kept => (∀ c ∈ read, isDigit c = true) ∧ (read = [] → kept = given)) ?_
      ⟨nofun, fun _ => rfl⟩
    rintro read kept ⟨hread, hkept⟩
    refine takeIf_bind (fun c hc => ?_) ?_
    · exact .pure ⟨List.forall_mem_cons.mpr ⟨hc, hread⟩, nofun⟩
    · exact .pure ⟨fun c hc => hread c (List.mem_reverse.mp hc),
        fun hnil => hkept (List.reverse_eq_nil_iff.mp hnil)⟩
  exact hrun.bind fun _ _ h => .pure h

theorem fraction_tracks : Tracks given fraction fun result kept =>
    (∀ digits, result = some digits → Digits digits) ∧ (result = none → kept = given) := by
  refine eat_bind (digitRun_tracks.bind ?_) (.pure ⟨nofun, fun _ => rfl⟩)
  rintro digits kept ⟨hdigits, hkept⟩
  split
  · next hnil =>
    rw [hkept hnil]
    exact pushBack_bind (.pure ⟨nofun, fun _ => rfl⟩)
  · next hne => exact .pure ⟨fun _ h => Option.some.inj h ▸ ⟨hne, hdigits⟩, nofun⟩

/-- What was taken is handed back. -/
theorem unread_bind {β : Type} {sign : Option Char} {k : Unit → Scan β}
    {after : β → List (Option Char) → Prop} (hk : Tracks given (k ()) after) :
    Tracks ((sign.map some).toList ++ given) (unread sign >>= k) after := by
  cases sign with
  | none =>
      have hpure : Tracks given (pure ()) fun _ kept => kept = given := .pure rfl
      exact hpure.bind fun _ _ hkept => hkept ▸ hk
  | some c => exact pushBack_bind hk

theorem exponent_tracks : Tracks given exponent fun result kept =>
    (∀ written, result = some written → ∃ (sign : Option Char) (digits : List Char),
      written = sign.toList ++ digits ∧ (∀ c, sign = some c → isSign c = true) ∧ Digits digits) ∧
    (result = none → kept = given) := by
  refine takeIf_bind (fun marker _ => ?_) (.pure ⟨nofun, fun _ => rfl⟩)
  refine (takeIf_tracks isSign).bind ?_
  rintro sign _ ⟨rfl, hmark⟩
  refine digitRun_tracks.bind ?_
  rintro digits kept ⟨hdigits, hkept⟩
  split
  · next hnil =>
    rw [hkept hnil]
    exact unread_bind (pushBack_bind (.pure ⟨nofun, fun _ => rfl⟩))
  · next hne =>
    exact .pure ⟨fun _ h => ⟨sign, digits, (Option.some.inj h).symm, hmark, hne, hdigits⟩, nofun⟩

/-- A number never fails for want of a value: what it reads is the text of a numeral. -/
theorem num_tracks : Tracks given num fun result kept =>
    (∀ value literal, result = some (value, literal) →
      ∃ n : Numeral, n.Valid ∧ n.text = literal ∧ Number.ofLiteral? literal = some value) ∧
    (result = none → kept = given) := by
  refine (takeIf_tracks isSign).bind ?_
  rintro sign _ ⟨rfl, hmark⟩
  refine digitRun_tracks.bind ?_
  rintro whole kept ⟨hwhole, hkept⟩
  refine fraction_tracks.bind ?_
  rintro fraction kept' ⟨hfraction, hkept'⟩
  split
  · next hnone =>
    rw [hkept' hnone.2, hkept hnone.1]
    exact unread_bind (.pure ⟨nofun, fun _ => rfl⟩)
  · next hsome =>
    refine exponent_tracks.bind ?_
    rintro exponent - ⟨hexponent, -⟩
    have hvalid : (⟨sign, whole, fraction, exponent⟩ : Numeral).Valid :=
      ⟨hmark, hwhole, hfraction, by rwa [not_and_or] at hsome, hexponent⟩
    obtain ⟨value, hvalue⟩ := Option.isSome_iff_exists.mp hvalid.value_isSome
    rw [Numeral.text] at hvalue
    simp only [hvalue]
    refine .pure ⟨?_, fun h => absurd h (Option.some_ne_none _)⟩
    rintro _ _ ⟨⟩
    exact ⟨_, hvalid, rfl, hvalue⟩

theorem num_declines : Declines num := fun _ => num_tracks.mono fun _ _ h => h.2

theorem numeric_declines : Declines numeric := by
  refine fun given => num_declines.bind (fun found _ => ?_) (.pure fun _ => rfl)
  refine eat_bind (.pure nofun) (ident_declines.bind (fun _ _ => .pure nofun) (.pure nofun))

/-! ## Lexemes -/

theorem identLike_roams (name : List Char) : Roams (identLike name) := by
  refine fun _ => eat_bind ?_ (.pure trivial)
  simp only [if_true]
  split
  · exact urlBody_roams.bind fun _ _ => .pure trivial
  · exact .pure trivial

theorem identLexeme_declines : Declines identLexeme :=
  fun _ => ident_declines.bind (fun name _ => (identLike_roams name).bind fun _ _ => .pure nofun)
    (.pure fun _ => rfl)

theorem signedLexeme_declines : Declines signedLexeme :=
  fun given => numeric_declines.bind (fun _ _ => .pure nofun) (identLexeme_declines given)

theorem operator_roams (first second : Char) (kind : TokenKind) :
    Roams (operator first second kind) :=
  fun _ => eat_bind (.pure trivial) (.pure trivial)

theorem marked_roams (mark : Char) (kind : TokenKind) {production : Scan (Option (List Char))}
    (h : Roams production) : Roams (marked mark kind production) := by
  refine fun _ => h.bind fun name _ => ?_
  cases name <;> exact .pure trivial

/-- The character that was read is handed back in front of the production. -/
theorem orDelim_tracks {c : Char} {production : Scan (Option Lexeme)} (h : Declines production) :
    Tracks (some c :: given) (orDelim c production) fun _ _ => True :=
  pushBack_bind (h.bind (fun _ _ => .pure trivial) (next_bind fun _ => .pure trivial))

theorem cdoRest_roams : Roams cdoRest :=
  fun _ => eat_bind (eat_bind (eat_bind (.pure trivial) (pushBack_bind (pushBack_bind
    (.pure trivial)))) (pushBack_bind (.pure trivial))) (.pure trivial)

theorem cdcRest_tracks : Tracks given cdcRest fun found kept => found = false → kept = given :=
  eat_bind (eat_bind (.pure nofun) (pushBack_bind (.pure fun _ => rfl))) (.pure fun _ => rfl)

theorem lexemeFrom_tracks (c : Char) :
    Tracks (some c :: given) (lexemeFrom c) fun _ _ => True := by
  unfold lexemeFrom
  cases Start.of c with
  | blank => exact blanks_roams.bind fun _ _ => .pure trivial
  | quote => exact (stringBody_roams c).bind fun _ _ => .pure trivial
  | hash => exact marked_roams _ _ name_roams _
  | atSign => exact marked_roams _ _ ident_declines.roams _
  | operator kind => exact operator_roams _ _ _ _
  | bar => exact eat_bind (.pure trivial) (operator_roams _ _ _ _)
  | slash => exact eat_bind (commentBody_roams.bind fun _ _ => .pure trivial) (.pure trivial)
  | less =>
      refine cdoRest_roams.bind fun found _ => ?_
      cases found <;> exact .pure trivial
  | hyphen =>
      refine cdcRest_tracks.bind fun found kept hkept => ?_
      cases found with
      | true => exact .pure trivial
      | false => exact hkept rfl ▸ orDelim_tracks signedLexeme_declines
  | number => exact orDelim_tracks numeric_declines
  | name => exact orDelim_tracks identLexeme_declines
  | other => exact .pure trivial

/-- Scanning a lexeme goes in step wherever reading and handing back do. -/
theorem lexeme_roams : Roams lexeme := by
  refine fun _ => next_bind fun c => ?_
  cases c with
  | none => exact .pure trivial
  | some c => exact lexemeFrom_tracks c

end CssLex.Production
