import CssLex.Production.Body
import CssLex.Production.Numeric

/-!
Scanning one lexeme. The first character chooses among the productions; where none succeeds the
character stands for itself. Every lexeme but that of the end uses up a character.
-/

namespace CssLex
namespace Production

open Scan Scanner

/-- A lexeme whose body may have ended early. -/
def ofBody (kind bad : TokenKind) (body : Body) : Lexeme :=
  .ofText (if body.closed then kind else bad) body.text

/-- The lexeme of the next character, which some production has handed back. -/
def delimAgain : Scan Lexeme := do
  let c ← next
  pure (.ofDelim (c.getD replacement))

/-- Hands a character back and tries a production, or else takes the character for itself. -/
def orDelim (c : Char) (production : Scan (Option Lexeme)) : Scan Lexeme := do
  pushBack (some c)
  match ← production with
  | some lexeme => pure lexeme
  | none => delimAgain

/-- An operator of two characters whose first one was read, or that character for itself. -/
def operator (first second : Char) (kind : TokenKind) : Scan Lexeme := do
  if ← eat second then pure (.ofText kind [first, second]) else pure (.ofDelim first)

/-- What a name turns into: with a parenthesis behind it a function or a url, else an
identifier. -/
def identLike (name : List Char) : Scan Lexeme := do
  if ← eat '(' then
    if name.map lowerLetter = ['u', 'r', 'l'] then do
      let body ← urlBody
      pure (ofBody .url .badUrl body)
    else pure (.ofText .function name)
  else pure (.ofText .ident name)

/-- Reads an identifier, a function or a url, or nothing. -/
def identLexeme : Scan (Option Lexeme) := do
  match ← ident with
  | some name => do
    let lexeme ← identLike name
    pure (some lexeme)
  | none => pure none

/-- Reads what may start with a hyphen: a numeric lexeme, or one of a name. -/
def signedLexeme : Scan (Option Lexeme) := do
  match ← numeric with
  | some lexeme => pure (some lexeme)
  | none => identLexeme

/-- Reads an exclamation mark and two hyphens, or nothing. -/
def cdoRest : Scan Bool := do
  if ← eat '!' then
    if ← eat '-' then
      if ← eat '-' then pure true
      else do
        pushBack (some '-')
        pushBack (some '!')
        pure false
    else do
      pushBack (some '!')
      pure false
  else pure false

/-- Reads a hyphen and a greater-than sign, or nothing. -/
def cdcRest : Scan Bool := do
  if ← eat '-' then
    if ← eat '>' then pure true
    else do
      pushBack (some '-')
      pure false
  else pure false

/-- The lexeme of a name behind a mark, or the mark for itself. -/
def marked (mark : Char) (kind : TokenKind) (production : Scan (Option (List Char))) :
    Scan Lexeme := do
  match ← production with
  | some name => pure (.ofText kind name)
  | none => pure (.ofDelim mark)

/-- What a first character can start. -/
inductive Start where
  | blank
  | quote
  | hash
  | atSign
  /-- An operator that an equals sign completes. -/
  | operator (kind : TokenKind)
  | bar
  | slash
  | less
  | hyphen
  | number
  | name
  | other
deriving Repr, DecidableEq

/-- What a character starts. -/
def Start.of (c : Char) : Start :=
  if isBlank c then .blank
  else if c = '"' || c = '\'' then .quote
  else if c = '#' then .hash
  else if c = '@' then .atSign
  else if c = '~' then .operator .includeMatch
  else if c = '^' then .operator .prefixMatch
  else if c = '$' then .operator .suffixMatch
  else if c = '*' then .operator .substringMatch
  else if c = '|' then .bar
  else if c = '/' then .slash
  else if c = '<' then .less
  else if c = '-' then .hyphen
  else if c = '+' || c = '.' || isDigit c then .number
  else if c = '\\' || isNameStart c then .name
  else .other

/-- The lexeme that starts with a character that was read. -/
def lexemeFrom (c : Char) : Scan Lexeme :=
  match Start.of c with
  | .blank => do
    let run ← blanks
    pure (.ofText .whitespace (c :: run))
  | .quote => do
    let body ← stringBody c
    pure (ofBody .string .badString body)
  | .hash => marked c .hash name
  | .atSign => marked c .atKeyword ident
  | .operator kind => operator c '=' kind
  | .bar => do
    if ← eat '=' then pure (.ofText .dashMatch [c, '=']) else operator c '|' .column
  | .slash => do
    if ← eat '*' then do
      let body ← commentBody
      pure (ofBody .comment .badComment body)
    else pure (.ofDelim c)
  | .less => do
    if ← cdoRest then pure (.ofText .cdo ['<', '!', '-', '-']) else pure (.ofDelim c)
  | .hyphen => do
    if ← cdcRest then pure (.ofText .cdc ['-', '-', '>']) else orDelim c signedLexeme
  | .number => orDelim c numeric
  | .name => orDelim c identLexeme
  | .other => pure (.ofDelim c)

/-- Scans the next lexeme. -/
def lexeme : Scan Lexeme := do
  match ← next with
  | none => pure { kind := .eof }
  | some c => lexemeFrom c

/-- What a lexeme uses up at least: one character, unless it is the end of the input. -/
def lexemeCost (lexeme : Lexeme) : Int := if lexeme.kind = .eof then 0 else 1

theorem identLike_spends (name : List Char) : Spends (identLike name) fun _ => 0 := by
  refine (eat_spends '(').bind fun eaten => ?_
  cases eaten with
  | false => exact .pure (by simp)
  | true =>
    simp only [if_true]
    split
    · exact urlBody_spends.bind fun _ => .pure (by simp)
    · exact .pure (by simp)

theorem identLexeme_spends : Spends identLexeme leastCost := by
  refine ident_spends.bind fun name => ?_
  cases name with
  | some name => exact (identLike_spends name).bind fun _ => .pure (by simp)
  | none => exact .pure (by simp)

theorem signedLexeme_spends : Spends signedLexeme leastCost := by
  refine numeric_spends.bind fun lexeme => ?_
  cases lexeme with
  | some lexeme => exact .pure (by simp)
  | none => exact identLexeme_spends.mono fun _ => by simp

theorem poised_identLexeme {s s' : Scanner} (hs : s.Poised) (h : identLexeme s = .ok none s') :
    s'.Poised := by
  obtain ⟨name, s₁, h₁, h⟩ := bind_eq_ok.mp h
  cases name with
  | some name =>
    obtain ⟨_, _, _, h⟩ := bind_eq_ok.mp h
    simp [pure_eq_ok] at h
  | none =>
    obtain ⟨_, rfl⟩ := pure_eq_ok.mp h
    exact poised_ident hs h₁

theorem poised_signedLexeme {s s' : Scanner} (hs : s.Poised)
    (h : signedLexeme s = .ok none s') : s'.Poised := by
  obtain ⟨lexeme, s₁, h₁, h⟩ := bind_eq_ok.mp h
  cases lexeme with
  | some lexeme => simp [pure_eq_ok] at h
  | none => exact poised_identLexeme (poised_numeric hs h₁) h

/-- A character that was handed back is used up again, by the production or for itself. -/
theorem orDelim_spends (c : Char) {production : Scan (Option Lexeme)}
    (hspends : Spends production leastCost)
    (hpoised : ∀ s s' : Scanner, s.Poised → production s = .ok none s' → s'.Poised) :
    Spends (orDelim c production) fun _ => 0 := by
  intro s a s' h
  obtain ⟨_, s₁, h₁, h⟩ := bind_eq_ok.mp h
  obtain ⟨lexeme, s₂, h₂, h⟩ := bind_eq_ok.mp h
  have hfirst := pushBack_spends _ _ _ _ h₁
  have hsecond := hspends _ _ _ h₂
  cases lexeme with
  | some lexeme =>
    obtain ⟨_, rfl⟩ := pure_eq_ok.mp h
    simp only [costOf_some, leastCost_some] at hfirst hsecond ⊢
    omega
  | none =>
    obtain ⟨entry, s₃, h₃, h⟩ := bind_eq_ok.mp h
    obtain ⟨_, rfl⟩ := pure_eq_ok.mp h
    obtain ⟨c', rfl⟩ := next_of_poised (hpoised _ _ (poised_pushBack h₁) h₂) h₃
    have hthird := next_spends _ _ _ h₃
    simp only [costOf_some, leastCost_none] at hfirst hsecond hthird ⊢
    omega

theorem operator_spends (first second : Char) (kind : TokenKind) :
    Spends (operator first second kind) fun _ => 0 := by
  refine (eat_spends second).bind fun eaten => ?_
  cases eaten <;> exact .pure (by simp)

theorem cdoRest_spends : Spends cdoRest fun _ => 0 := by
  refine (eat_spends '!').bind fun bang => ?_
  cases bang with
  | false => exact .pure (by simp)
  | true =>
    refine (eat_spends '-').bind fun first => ?_
    cases first with
    | false => exact (pushBack_spends _).bind fun _ => .pure (by simp)
    | true =>
      refine (eat_spends '-').bind fun second => ?_
      cases second with
      | false =>
        exact (pushBack_spends _).bind fun _ => (pushBack_spends _).bind fun _ => .pure (by simp)
      | true => exact .pure (by simp)

theorem cdcRest_spends : Spends cdcRest fun _ => 0 := by
  refine (eat_spends '-').bind fun hyphen => ?_
  cases hyphen with
  | false => exact .pure (by simp)
  | true =>
    refine (eat_spends '>').bind fun greater => ?_
    cases greater with
    | false => exact (pushBack_spends _).bind fun _ => .pure (by simp)
    | true => exact .pure (by simp)

theorem marked_spends (mark : Char) (kind : TokenKind) {production : Scan (Option (List Char))}
    (h : Spends production leastCost) : Spends (marked mark kind production) fun _ => 0 := by
  refine h.bind fun name => ?_
  cases name <;> exact .pure (by simp)

theorem lexemeFrom_spends (c : Char) : Spends (lexemeFrom c) fun _ => 0 := by
  unfold lexemeFrom
  cases Start.of c with
  | blank => exact blanks_spends.bind fun _ => .pure (by simp)
  | quote => exact (stringBody_spends c).bind fun _ => .pure (by simp)
  | hash => exact marked_spends _ _ name_spends
  | atSign => exact marked_spends _ _ ident_spends
  | operator kind => exact operator_spends _ _ _
  | bar =>
    refine (eat_spends '=').bind fun eaten => ?_
    cases eaten with
    | true => exact .pure (by simp)
    | false => exact (operator_spends _ _ _).mono fun _ => by simp
  | slash =>
    refine (eat_spends '*').bind fun eaten => ?_
    cases eaten with
    | true => exact commentBody_spends.bind fun _ => .pure (by simp)
    | false => exact .pure (by simp)
  | less =>
    refine cdoRest_spends.bind fun found => ?_
    cases found <;> exact .pure (by simp)
  | hyphen =>
    refine cdcRest_spends.bind fun found => ?_
    cases found with
    | true => exact .pure (by simp)
    | false =>
      exact (orDelim_spends c signedLexeme_spends fun _ _ => poised_signedLexeme).mono
        fun _ => by simp
  | number => exact orDelim_spends c numeric_spends fun _ _ => poised_numeric
  | name => exact orDelim_spends c identLexeme_spends fun _ _ => poised_identLexeme
  | other => exact .pure (by simp)

/-- Every lexeme but that of the end uses up a character. -/
theorem lexeme_spends : Spends lexeme lexemeCost := by
  refine next_spends.bind fun c => ?_
  cases c with
  | none => exact .pure (by simp [lexemeCost])
  | some c =>
    refine (lexemeFrom_spends c).mono fun lexeme => ?_
    unfold lexemeCost
    split <;> simp

end Production
end CssLex
