import CssLex.Proofs.Grammar.Exchange

/-! How far ahead each production looks. Behind what it reads, a text may end or go on with the
same few characters and then in any way. -/

namespace CssLex.Grammar

open Production

variable {front x y : List Char}

/-! ## Names -/

theorem hexDigits_exchanges (count : Nat) : Exchanges 1 fun text =>
    ((text.takeWhile isHexDigit).take count,
      text.drop ((text.takeWhile isHexDigit).take count).length) := by
  induction count with
  | zero => exact (Exchanges.pure []).congr fun text => by simp
  | succ count ih =>
      refine ((char?_exchanges isHexDigit).orElse (fun c => ih.map (c :: ·)) (.pure [])).congr
        fun text => ?_
      cases text with
      | nil => rfl
      | cons c text =>
          cases hc : isHexDigit c with
          | true => simp [char?_of_accept hc, hc]
          | false => simp [char?_of_not_accept hc, hc]

theorem hexEscape_exchanges (first : Char) : Exchanges 1 (hexEscape first) := by
  have hblank : ∀ digits : List Char, Exchanges 1 fun text =>
      (scalarOrReplacement (hexNumber (first :: digits)),
        if digits.length < 5 then (attempt (char? isBlank) text).2 else text) := by
    intro digits
    have hread := Exchanges.ite (digits.length < 5)
      ((char?_exchanges isBlank).attempt.map fun _ => ()) (.pure ())
    refine (hread.map fun _ => scalarOrReplacement (hexNumber (first :: digits))).congr ?_
    intro text
    split <;> rfl
  exact (hexDigits_exchanges 5).bind hblank

/-- What stands behind the backslash of an escape. -/
theorem escaped_exchanges (c : Char) : Exchanges 1 fun text =>
    if isHexDigit c then hexEscape c text else (c, text) :=
  (hexEscape_exchanges c).ite _ (.pure c)

theorem escape?_exchanges : Exchanges? 2 escape? := by
  have hbehind := Exchanges?.behind (· = '\\') fun _ =>
    (char?_exchanges (· ≠ '\n')).bind escaped_exchanges
  refine hbehind.congr fun text => ?_
  cases text with
  | nil => rfl
  | cons c text =>
      by_cases hc : c = '\\'
      · subst hc
        cases text with
        | nil => rfl
        | cons d text =>
            by_cases hd : d = '\n'
            · subst hd
              rfl
            · by_cases hhex : isHexDigit d = true <;> simp [escape?, char?, hd, hhex]
      · rw [escape?_of_ne hc, char?_of_not_accept (by simpa using hc), Option.bind_none]

theorem unit?_exchanges (accept : Char → Bool) : Exchanges? 2 (unit? accept) := by
  refine (((char?_exchanges accept).mono (by decide)).or escape?_exchanges).congr fun text => ?_
  unfold unit?
  cases char? accept text <;> rfl

theorem units_exchanges (accept : Char → Bool) : Exchanges 2 (units accept) :=
  (unit?_exchanges accept).run (fun _ _ _ h => (unit?_tail h).2) (fun _ _ _ => units_of_some)
    fun _ => units_of_none

theorem name?_exchanges : Exchanges? 2 name? where
  toFinds := (units_exchanges isNameChar).finds (· = [])
  missing hxy h := name?_eq_none.mpr ((unit?_exchanges _).missing hxy (name?_eq_none.mp h))

theorem plainIdent?_exchanges : Exchanges? 2 plainIdent? := by
  refine ((unit?_exchanges isNameStart).bind fun c =>
    (units_exchanges isNameChar).map (c :: ·)).congr fun text => ?_
  unfold plainIdent?
  cases unit? isNameStart text <;> rfl

theorem custom_found {name : List Char} (hxy : Resembles 2 y x)
    (h : ident? ('-' :: '-' :: (front ++ x)) = some (name, x)) :
    ident? ('-' :: '-' :: (front ++ y)) = some (name, y) := by
  obtain ⟨hkept, hname⟩ := Option.ite_none_left_eq_some.mp h
  obtain ⟨rfl, hrest⟩ := Prod.mk.inj (Option.some.inj hname)
  have hunits := (units_exchanges isNameChar).exchange hxy (Prod.ext rfl hrest)
  refine Option.ite_none_left_eq_some.mpr ⟨?_, by simp only [hunits]⟩
  rintro ⟨hnil, hmore⟩
  -- two hyphens alone end the text, whatever stands in
  rw [hunits] at hnil
  have hend : front ++ x = [] := by
    apply Decidable.byContradiction
    exact fun hne => hkept ⟨hnil, hne⟩
  obtain ⟨rfl, rfl⟩ := List.append_eq_nil_iff.mp hend
  exact hmore (hxy.eq_nil (by decide))

theorem ident?_finds : Finds 2 ident? where
  suffix h := (ident?_tail h).1
  found := by
    intro front x y name hxy h
    have hfront : front ≠ [] := by
      rintro rfl
      exact absurd (ident?_tail h).2 (Nat.lt_irrefl _)
    obtain ⟨c, front, rfl⟩ := List.exists_cons_of_ne_nil hfront
    rw [List.cons_append] at h ⊢
    by_cases hc : c = '-'
    · subst hc
      by_cases hagain : (front ++ x).head? = some '-'
      · cases front with
        | nil =>
            -- the second hyphen would be part of the name
            obtain ⟨rest, hrest⟩ := List.head?_eq_some_iff.mp hagain
            have hstops := ident?_stops h
            rw [show x = '-' :: rest from hrest, unit?_of_accept rfl] at hstops
            cases hstops
        | cons d front =>
            obtain rfl : d = '-' := by simpa using hagain
            exact custom_found hxy h
      · rw [ident?_hyphen hagain] at h
        cases hplain : plainIdent? (front ++ x) with
        | none => simp [hplain] at h
        | some found =>
            simp only [hplain, Option.some.injEq, Prod.mk.injEq] at h
            obtain ⟨rfl, hrest⟩ := h
            have hplain := plainIdent?_exchanges.found hxy (hplain.trans (by rw [← hrest]))
            rw [ident?_hyphen (head_ne_hyphen_of_plainIdent? hplain), hplain]
    · rw [ident?_plain (by simpa using hc), ← List.cons_append] at h ⊢
      exact plainIdent?_exchanges.found hxy h

/-! ## Numbers -/

theorem digits_exchanges : Exchanges? 1 fun text =>
    if text.takeWhile isDigit = [] then none
    else some (text.takeWhile isDigit, text.dropWhile isDigit) where
  toFinds := (takeWhile_exchanges isDigit).finds (· = [])
  missing hxy h := by
    simp only [ite_eq_left_iff, reduceCtorEq, imp_false, Decidable.not_not] at h ⊢
    exact char?_eq_none.mp (hxy.char?_none (Nat.le_refl 1) (char?_eq_none.mpr h))

theorem fraction?_exchanges : Exchanges? 2 fraction? := by
  refine (Exchanges?.behind (· = '.') fun _ => digits_exchanges).congr fun text => ?_
  cases text with
  | nil => rfl
  | cons c text =>
      by_cases hc : c = '.'
      · subst hc
        rfl
      · rw [fraction?_of_head (by simpa using hc), char?_of_not_accept (by simpa using hc),
          Option.bind_none]

theorem exponent?_exchanges : Exchanges? 3 exponent? := by
  have hsigned := Exchanges?.behind isSign fun c => digits_exchanges.map (c :: ·)
  have hbehind := Exchanges?.behind isExponentMarker fun _ =>
    hsigned.or (digits_exchanges.mono (by decide))
  refine hbehind.congr fun text => ?_
  unfold exponent?
  cases char? isExponentMarker text with
  | none => rfl
  | some found =>
      obtain ⟨_, text⟩ := found
      cases text with
      | nil => rfl
      | cons c text =>
          dsimp only [Option.bind_some]
          cases hc : isSign c with
          | true =>
              have hdigit : isDigit c = false := by
                rcases isSign_eq_true.mp hc with rfl | rfl <;> rfl
              have htake : (c :: text).takeWhile isDigit = [] :=
                List.takeWhile_cons_of_neg (by simp [hdigit])
              rw [attempt_of_some (char?_of_accept hc text), char?_of_accept hc, if_pos htake,
                Option.or_none, Option.bind_some]
              by_cases hdigits : text.takeWhile isDigit = []
              · rw [if_pos hdigits, if_pos hdigits, Option.map_none]
              · rw [if_neg hdigits, if_neg hdigits]
                rfl
          | false =>
              rw [attempt_of_none (char?_of_not_accept hc text), char?_of_not_accept hc]
              rfl

theorem numeral?_unsigned_eq_none {text : List Char} (h : char? isSign text = none) :
    numeral? text = none ↔ char? isDigit text = none ∧ fraction? text = none := by
  rw [← unsigned_eq_none]
  simp [numeral?, attempt_of_none h]

theorem numeral?_finds : Finds 3 numeral? := by
  have hparts : Exchanges 2 fun text =>
      (((attempt (char? isSign) text).1, (attempt (char? isSign) text).2.takeWhile isDigit,
        (attempt fraction? ((attempt (char? isSign) text).2.dropWhile isDigit)).1),
        (attempt fraction? ((attempt (char? isSign) text).2.dropWhile isDigit)).2) :=
    ((char?_exchanges isSign).mono (by decide)).attempt.bind fun sign =>
      ((takeWhile_exchanges isDigit).mono (by decide)).bind fun whole =>
        fraction?_exchanges.attempt.map fun fraction => (sign, whole, fraction)
  have hmantissa := (hparts.mono (Nat.le_succ 2)).finds fun parts =>
    parts.2.1 = [] ∧ parts.2.2 = none
  have hnumeral := hmantissa.bind fun parts => exponent?_exchanges.attempt.map fun exponent =>
    (⟨parts.1, parts.2.1, parts.2.2, exponent⟩ : Numeral)
  refine hnumeral.congr fun text => ?_
  simp only [numeral?]
  split <;> rfl

theorem numeral?_exchanges : Exchanges? 3 numeral? where
  toFinds := numeral?_finds
  missing := by
    intro x y hxy h
    cases y with
    | nil => rfl
    | cons c y =>
        obtain ⟨rest, rfl, hrest⟩ := resembles_cons.mp hxy
        cases hc : isSign c with
        | true =>
            rw [numeral?_eq_none hc] at h ⊢
            exact ⟨hrest.char?_none (by decide) h.1, fraction?_exchanges.missing hrest h.2⟩
        | false =>
            rw [numeral?_unsigned_eq_none (char?_of_not_accept hc _)] at h ⊢
            exact ⟨hxy.char?_none (by decide) h.1,
              fraction?_exchanges.missing (hxy.mono (by decide)) h.2⟩

/-! ## Bodies -/

theorem stringTurn_exchanges (quote : Char) : Exchanges 2 (stringTurn quote) := by
  have hcontinuation := Exchanges?.behind (· = '\\') fun _ => char?_exchanges (· = '\n')
  have hclose :=
    (char?_exchanges fun c => c = quote && c ≠ '\n' && c ≠ '\\').mono (Nat.le_succ 1)
  have hmore := (char?_exchanges fun c => c ≠ '\n' && c ≠ '\\').mono (Nat.le_succ 1)
  have hturn := escape?_exchanges.orElse (fun c => .pure (Turn.more c))
    (hcontinuation.orElse (fun _ => .pure (Turn.more '\n'))
      (hclose.orElse (fun _ => .pure (Turn.stop true))
        (hmore.orElse (fun c => .pure (Turn.more c)) (.pure (Turn.stop false)))))
  refine hturn.congr fun text => ?_
  cases text with
  | nil => rfl
  | cons c text =>
      by_cases hbreak : c = '\n'
      · subst hbreak
        simp [stringTurn, char?, escape?_of_ne]
      by_cases hescaped : c = '\\'
      · subst hescaped
        cases hescape : escape? ('\\' :: text) with
        | some found => simp [stringTurn, hescape]
        | none =>
            rcases escape?_backslash_eq_none.mp hescape with rfl | hhead
            · simp [stringTurn, char?, hescape, mark]
            · obtain ⟨text, rfl⟩ := List.head?_eq_some_iff.mp hhead
              simp [stringTurn, char?, hescape, mark_cons_self]
      by_cases hquote : c = quote
      · subst hquote
        simp [stringTurn, char?, escape?_of_ne hescaped, hbreak, hescaped]
      · simp [stringTurn, char?, escape?_of_ne hescaped, hbreak, hescaped, hquote]

theorem stringBody_exchanges (quote : Char) : Exchanges 2 (stringBody quote) := by
  have hrun : Exchanges 2 (stringRun quote) :=
    (stringTurn_exchanges quote).run (fun _ _ _ h => (stringTurn_tail h).2)
      (fun _ _ _ => stringRun_of_more) fun _ _ _ => stringRun_of_stop
  exact hrun.map fun run => (⟨run.1, run.2⟩ : Body)

theorem commentTurn_exchanges : Exchanges 1 commentTurn := by
  have hmark : Exchanges 1 (mark ['/']) := mark_exchanges (by decide)
  have hturn := (char?_exchanges fun _ => true).orElse
    (fun c => (hmark.map fun closed => if closed then Turn.stop true else .more c).ite (c = '*')
      (.pure (.more c))) (.pure (.stop false))
  refine hturn.congr fun text => ?_
  cases text with
  | nil => rfl
  | cons c text =>
      rw [char?_of_accept rfl]
      by_cases hc : c = '*'
      · subst hc
        rcases hslash : mark ['/'] text with ⟨closed, rest⟩
        cases closed with
        | true => simp [commentTurn, hslash]
        | false =>
            obtain rfl := eq_of_mark_false hslash
            simp [commentTurn, hslash]
      · simp [commentTurn, hc]

theorem commentTurn_tail {c : Char} {text rest : List Char}
    (h : commentTurn text = (.more c, rest)) : IsTail rest text := by
  cases text with
  | nil => cases h
  | cons d text =>
      simp only [commentTurn] at h
      split at h
      · split at h
        · cases h
        · cases h
          exact .cons _ _
      · cases h
        exact .cons _ _

theorem commentBody_exchanges : Exchanges 1 commentBody := by
  have hrun : Exchanges 1 commentRun :=
    commentTurn_exchanges.run (fun _ _ _ h => (commentTurn_tail h).2)
      (fun _ _ _ => commentRun_of_more) fun _ _ _ => commentRun_of_stop
  exact hrun.map fun run => (⟨run.1, run.2⟩ : Body)

theorem closeUrl_exchanges (body : List Char) : Exchanges 1 (closeUrl body) := by
  have hmark : Exchanges 1 (mark [')']) := mark_exchanges (by decide)
  exact (takeWhile_exchanges isBlank).bind fun _ =>
    hmark.map fun closed => (⟨body, closed⟩ : Body)

theorem urlBody_exchanges : Exchanges 2 urlBody := by
  have hquoted : ∀ quote, Exchanges 2 fun text =>
      if (stringBody quote text).1.closed = true then
        closeUrl (stringBody quote text).1.text (stringBody quote text).2
      else stringBody quote text := fun quote =>
    (stringBody_exchanges quote).bind fun inside =>
      ((closeUrl_exchanges inside.text).mono (Nat.le_succ 1)).ite (inside.closed = true)
        (.pure inside)
  have hplain : Exchanges 2 fun text =>
      closeUrl (units isUrlChar text).1 (units isUrlChar text).2 :=
    (units_exchanges _).bind fun run => (closeUrl_exchanges run).mono (Nat.le_succ 1)
  have hquote := (char?_exchanges fun c => c = '"' || c = '\'').mono (Nat.le_succ 1)
  have hblank := (takeWhile_exchanges isBlank).mono (Nat.le_succ 1)
  refine (hblank.bind fun _ => hquote.orElse hquoted hplain).congr fun text => ?_
  unfold urlBody
  cases char? (fun c => c = '"' || c = '\'') (text.dropWhile isBlank) <;> rfl

/-! ## Lexemes -/

/-- What may stand in for `x`: the end of the text, or a text with the same first characters. -/
def StandsIn (n : Nat) (y x : List Char) : Prop := y = [] ∨ y.take n = x.take n

theorem StandsIn.resembles {n : Nat} (h : StandsIn n y x) : Resembles n y x := by
  rcases h with rfl | h
  · exact resembles_nil n x
  · rw [Resembles, h]
    exact List.take_prefix n x

theorem StandsIn.mono {m n : Nat} (h : StandsIn n y x) (hm : m ≤ n) : StandsIn m y x := by
  refine h.imp_right fun htake => ?_
  have hagain := congrArg (List.take m) htake
  rwa [List.take_take, List.take_take, Nat.min_eq_left hm] at hagain

theorem StandsIn.cons {n : Nat} {c : Char} (h : StandsIn (n + 1) (c :: y) x) :
    ∃ rest, x = c :: rest ∧ y.take n = rest.take n := by
  rcases h with h | h
  · cases h
  · cases x with
    | nil => cases h
    | cons d x =>
        obtain ⟨rfl, htake⟩ := List.cons.inj h
        exact ⟨x, rfl, htake⟩

/-- Two hyphens alone are an identifier at the end of a text, so that only one character more
tells that there is none. -/
theorem ident?_missing_cons {c : Char} (hxy : StandsIn 3 y x) (h : ident? (c :: x) = none) :
    ident? (c :: y) = none := by
  have hresembles := hxy.resembles.append [c]
  by_cases hc : c = '-'
  · subst hc
    by_cases hagain : y.head? = some '-'
    · obtain ⟨y, rfl⟩ := List.head?_eq_some_iff.mp hagain
      obtain ⟨x, rfl, htake⟩ := hxy.cons
      obtain ⟨hunit, hmore⟩ := ident?_hyphens_eq_none.mp h
      have hxy : StandsIn 2 y x := .inr htake
      refine ident?_hyphens_eq_none.mpr ⟨(unit?_exchanges _).missing hxy.resembles hunit, ?_⟩
      rintro rfl
      cases x with
      | nil => exact hmore rfl
      | cons d x => cases htake
    · refine (ident?_hyphen_eq_none hagain).mpr ?_
      have hunit : unit? isNameStart x = none := by
        by_cases hhyphen : x.head? = some '-'
        · obtain ⟨x, rfl⟩ := List.head?_eq_some_iff.mp hhyphen
          exact unit?_of_not_accept rfl (by decide)
        · exact (ident?_hyphen_eq_none hhyphen).mp h
      exact (unit?_exchanges _).missing (hxy.resembles.mono (by decide)) hunit
  · have hunit := (ident?_plain_eq_none (by simpa using hc)).mp h
    exact (ident?_plain_eq_none (by simpa using hc)).mpr
      ((unit?_exchanges _).missing (hresembles.mono (by decide)) hunit)

theorem ident?_missing (hxy : StandsIn 4 y x) (h : ident? x = none) : ident? y = none := by
  cases y with
  | nil => rfl
  | cons c y =>
      obtain ⟨x, rfl, htake⟩ := hxy.cons
      exact ident?_missing_cons (.inr htake) h

theorem quantity_eq (n : Numeral) (text : List Char) : quantity n text =
    match mark ['%'] text with
    | (true, rest) => (n.lexeme .percentage (some "%"), rest)
    | (false, _) => (ident? text).elim (n.lexeme .number none, text) fun found =>
        (n.lexeme .dimension (some (String.ofList found.1)), found.2) := by
  unfold quantity
  cases ident? text <;> rfl

theorem quantity_exchange {n : Numeral} {l : Lexeme} (hxy : StandsIn 4 y x)
    (h : quantity n (front ++ x) = (l, x)) : quantity n (front ++ y) = (l, y) := by
  have hident : Finds 4 ident? := ident?_finds.mono (by decide)
  rw [quantity_eq] at h ⊢
  refine atMark_exchange ['%'] (by decide) hxy.resembles
    (.pure (n.lexeme .percentage (some "%")))
    (hident.orElse (fun unit => .pure (n.lexeme .dimension (some (String.ofList unit))))
      hxy.resembles fun hnone h => ?_) h
  obtain ⟨rfl, hrest⟩ := Prod.mk.inj h
  obtain rfl := List.append_left_eq_self.mp hrest
  exact ⟨ident?_missing hxy hnone, rfl⟩

theorem identLike_exchanges (name : List Char) : Exchanges 2 (identLike name) :=
  .atMark ['('] (by decide) ((urlBody_exchanges.map (ofBody .url .badUrl)).ite _ (.pure _))
    (.pure _)

theorem operator_exchanges (first second : Char) (kind : TokenKind) :
    Exchanges 1 (operator first second kind) :=
  .atMark [second] (by simp) (.pure _) (.pure _)

theorem marked_eq (c : Char) (kind : TokenKind)
    (read : List Char → Option (List Char × List Char)) (text : List Char) :
    marked c kind read text = (read text).elim (.ofDelim c, text) fun found =>
      (.ofText kind found.1, found.2) := by
  unfold marked
  cases read text <;> rfl

theorem marked_exchange {c : Char} {kind : TokenKind} {l : Lexeme}
    {read : List Char → Option (List Char × List Char)} (hread : Finds 4 read)
    (hmissing : read x = none → read y = none) (hxy : StandsIn 4 y x)
    (h : marked c kind read (front ++ x) = (l, x)) : marked c kind read (front ++ y) = (l, y) := by
  rw [marked_eq] at h ⊢
  refine hread.orElse (fun name => .pure (Lexeme.ofText kind name)) hxy.resembles
    (fun hnone h => ?_) h
  obtain ⟨rfl, hrest⟩ := Prod.mk.inj h
  obtain rfl := List.append_left_eq_self.mp hrest
  exact ⟨hmissing hnone, rfl⟩

theorem orDelim_exchange_of_none {c : Char} {l : Lexeme}
    {read : List Char → Option (Lexeme × List Char)} (hread : read (c :: (front ++ x)) = none)
    (hmissing : read (c :: x) = none → read (c :: y) = none)
    (h : orDelim read c (front ++ x) = (l, x)) : orDelim read c (front ++ y) = (l, y) := by
  rw [orDelim, hread, Option.getD_none] at h
  obtain ⟨rfl, hrest⟩ := Prod.mk.inj h
  obtain rfl := List.append_left_eq_self.mp hrest
  rw [List.nil_append, orDelim, hmissing hread, Option.getD_none]

theorem numeric?_missing {c : Char} (hxy : StandsIn 4 y x) (h : numeric? (c :: x) = none) :
    numeric? (c :: y) = none := by
  rw [numeric?_eq_none] at h ⊢
  exact numeral?_exchanges.missing ((hxy.resembles.append [c]).mono (by decide)) h

theorem identLexeme?_eq_none {text : List Char} :
    identLexeme? text = none ↔ ident? text = none := by
  unfold identLexeme?
  cases ident? text <;> simp

theorem identLexeme?_missing {c : Char} (hxy : StandsIn 4 y x)
    (h : identLexeme? (c :: x) = none) : identLexeme? (c :: y) = none := by
  rw [identLexeme?_eq_none] at h ⊢
  exact ident?_missing_cons (hxy.mono (by decide)) h

theorem signedLexeme?_eq_none {text : List Char} :
    signedLexeme? text = none ↔ numeric? text = none ∧ identLexeme? text = none := by
  unfold signedLexeme?
  cases numeric? text <;> simp

theorem signedLexeme?_missing {c : Char} (hxy : StandsIn 4 y x)
    (h : signedLexeme? (c :: x) = none) : signedLexeme? (c :: y) = none := by
  rw [signedLexeme?_eq_none] at h ⊢
  exact ⟨numeric?_missing hxy h.1, identLexeme?_missing hxy h.2⟩

/-- A lexeme where neither a number nor a name starts. -/
theorem lexemeFrom_exchange_of_none {c : Char} {l : Lexeme} (hxy : StandsIn 4 y x)
    (hnumeral : numeral? (c :: (front ++ x)) = none) (hident : ident? (c :: (front ++ x)) = none)
    (h : lexemeFrom c (front ++ x) = (l, x)) : lexemeFrom c (front ++ y) = (l, y) := by
  have hresembles := hxy.resembles
  have hnumeral' : numeral? (c :: (front ++ y)) = none :=
    numeral?_exchanges.missing ((hresembles.append (c :: front)).mono (by decide)) hnumeral
  unfold lexemeFrom at h ⊢
  cases hstart : Start.of c with
  | blank =>
      rw [hstart] at h
      have hblank := (takeWhile_exchanges isBlank).map fun run =>
        Lexeme.ofText .whitespace (c :: run)
      exact (hblank.mono (by decide)).exchange hresembles h
  | quote =>
      rw [hstart] at h
      exact (((stringBody_exchanges c).map (ofBody .string .badString)).mono (by decide)).exchange
        hresembles h
  | hash =>
      rw [hstart] at h
      exact marked_exchange (name?_exchanges.mono (by decide)).toFinds
        (name?_exchanges.missing (hresembles.mono (by decide))) hxy h
  | atSign =>
      rw [hstart] at h
      exact marked_exchange (ident?_finds.mono (by decide)) (ident?_missing hxy) hxy h
  | operator kind =>
      rw [hstart] at h
      exact ((operator_exchanges c '=' kind).mono (by decide)).exchange hresembles h
  | bar =>
      rw [hstart] at h
      have hbar : Exchanges 1 _ := .atMark ['='] (by decide)
        (.pure (Lexeme.ofText .dashMatch [c, '='])) (operator_exchanges c '|' .column)
      exact (hbar.mono (by decide)).exchange hresembles h
  | slash =>
      rw [hstart] at h
      have hslash : Exchanges 1 _ := .atMark ['*'] (by decide)
        (commentBody_exchanges.map (ofBody .comment .badComment)) (.pure (Lexeme.ofDelim c))
      exact (hslash.mono (by decide)).exchange hresembles h
  | less =>
      rw [hstart] at h
      have hless : Exchanges 3 _ := .atMark ['!', '-', '-'] (by decide)
        (.pure (Lexeme.ofText .cdo ['<', '!', '-', '-'])) (.pure (Lexeme.ofDelim c))
      exact (hless.mono (by decide)).exchange hresembles h
  | hyphen =>
      rw [hstart] at h
      refine atMark_exchange ['-', '>'] (by decide) hresembles (.pure _)
        (orDelim_exchange_of_none ?_ (signedLexeme?_missing hxy)) h
      exact signedLexeme?_eq_none.mpr
        ⟨numeric?_eq_none.mpr hnumeral, identLexeme?_eq_none.mpr hident⟩
  | number =>
      rw [hstart] at h
      exact orDelim_exchange_of_none (numeric?_eq_none.mpr hnumeral) (numeric?_missing hxy) h
  | name =>
      rw [hstart] at h
      exact orDelim_exchange_of_none (identLexeme?_eq_none.mpr hident) (identLexeme?_missing hxy) h
  | other =>
      rw [hstart] at h
      exact (Exchanges.pure (Lexeme.ofDelim c)).exchange hresembles h

/-- What a lexeme is stays when the text behind it ends, or goes on in another way behind its
fourth character. -/
theorem lexeme_exchange {l : Lexeme} (hfront : front ≠ []) (hxy : StandsIn 4 y x)
    (h : lexeme (front ++ x) = (l, x)) : lexeme (front ++ y) = (l, y) := by
  cases hnumeral : numeral? (front ++ x) with
  | some found =>
      obtain ⟨n, rest⟩ := found
      rw [lexeme_of_numeral? hnumeral] at h
      have hsuffix : x <:+ rest := by simpa only [h] using quantity_suffix n rest
      obtain ⟨middle, rfl⟩ := hsuffix
      have hnumeral := (numeral?_exchanges.toFinds.mono (by decide)).within hxy.resembles hnumeral
      rw [lexeme_of_numeral? hnumeral]
      exact quantity_exchange hxy h
  | none =>
      cases hident : ident? (front ++ x) with
      | some found =>
          obtain ⟨name, rest⟩ := found
          rw [lexeme_of_ident? hident] at h
          have hsuffix : x <:+ rest := by simpa only [h] using identLike_suffix name rest
          obtain ⟨middle, rfl⟩ := hsuffix
          have hident := (ident?_finds.mono (by decide)).within hxy.resembles hident
          rw [lexeme_of_ident? hident]
          exact (identLike_exchanges name).exchange (hxy.resembles.mono (by decide)) h
      | none =>
          obtain ⟨c, front, rfl⟩ := List.exists_cons_of_ne_nil hfront
          exact lexemeFrom_exchange_of_none hxy hnumeral hident h

end CssLex.Grammar
