import CssLex.Production.Lexeme
import CssLex.Proofs.Alphabet
import CssLex.Proofs.Grammar.Body
import CssLex.Proofs.Grammar.Numeric

/-! The grammar of lexemes as functions of a text. The lexemes of a text follow one another
without gaps, up to the lexeme of its end. -/

namespace CssLex

namespace Production.Start

/-- What is known of a character from what it starts. -/
def Admits (c : Char) : Start → Prop
  | blank => isBlank c = true
  | quote => c = '"' ∨ c = '\''
  | hash => c = '#'
  | atSign => c = '@'
  | operator kind => (c = '~' ∧ kind = .includeMatch) ∨ (c = '^' ∧ kind = .prefixMatch) ∨
      (c = '$' ∧ kind = .suffixMatch) ∨ (c = '*' ∧ kind = .substringMatch)
  | bar => c = '|'
  | slash => c = '/'
  | less => c = '<'
  | hyphen => c = '-'
  | number => c = '+' ∨ c = '.' ∨ isDigit c = true
  | name => c = '\\' ∨ isNameStart c = true
  | other => isDigit c = false ∧ c ≠ '\\' ∧ isNameStart c = false

theorem admits_of (c : Char) : (of c).Admits c := by
  unfold of
  by_cases hblank : isBlank c = true
  · rw [if_pos hblank]; exact hblank
  rw [if_neg hblank]
  by_cases hquote : (c = '"' || c = '\'') = true
  · rw [if_pos hquote]; simpa [Admits] using hquote
  rw [if_neg hquote]
  by_cases hhash : c = '#'
  · rw [if_pos hhash]; exact hhash
  rw [if_neg hhash]
  by_cases hat : c = '@'
  · rw [if_pos hat]; exact hat
  rw [if_neg hat]
  by_cases htilde : c = '~'
  · rw [if_pos htilde]; exact .inl ⟨htilde, rfl⟩
  rw [if_neg htilde]
  by_cases hcaret : c = '^'
  · rw [if_pos hcaret]; exact .inr (.inl ⟨hcaret, rfl⟩)
  rw [if_neg hcaret]
  by_cases hdollar : c = '$'
  · rw [if_pos hdollar]; exact .inr (.inr (.inl ⟨hdollar, rfl⟩))
  rw [if_neg hdollar]
  by_cases hstar : c = '*'
  · rw [if_pos hstar]; exact .inr (.inr (.inr ⟨hstar, rfl⟩))
  rw [if_neg hstar]
  by_cases hbar : c = '|'
  · rw [if_pos hbar]; exact hbar
  rw [if_neg hbar]
  by_cases hslash : c = '/'
  · rw [if_pos hslash]; exact hslash
  rw [if_neg hslash]
  by_cases hless : c = '<'
  · rw [if_pos hless]; exact hless
  rw [if_neg hless]
  by_cases hhyphen : c = '-'
  · rw [if_pos hhyphen]; exact hhyphen
  rw [if_neg hhyphen]
  by_cases hnumber : (c = '+' || c = '.' || isDigit c) = true
  · rw [if_pos hnumber]; simpa [Admits, or_assoc] using hnumber
  rw [if_neg hnumber]
  by_cases hname : (c = '\\' || isNameStart c) = true
  · rw [if_pos hname]; simpa [Admits] using hname
  rw [if_neg hname]
  simp only [Bool.or_eq_true, decide_eq_true_eq, not_or, Bool.not_eq_true] at hnumber hname
  exact ⟨hnumber.2, hname⟩

/-- What stands for itself in a name or a number starts one of the two. -/
theorem number_or_name {c : Char} (h : c = '\\' ∨ isDigit c = true ∨ isNameStart c = true) :
    of c = .number ∨ of c = .name := by
  have hadmits := admits_of c
  cases hstart : of c with
  | number => exact .inl rfl
  | name => exact .inr rfl
  | blank =>
      rw [hstart] at hadmits
      simp only [Admits, isBlank, Bool.or_eq_true, decide_eq_true_eq] at hadmits
      rcases hadmits with (rfl | rfl) | rfl <;> exact absurd h (by decide)
  | operator kind =>
      rw [hstart] at hadmits
      rcases hadmits with ⟨rfl, -⟩ | ⟨rfl, -⟩ | ⟨rfl, -⟩ | ⟨rfl, -⟩ <;> exact absurd h (by decide)
  | quote =>
      rw [hstart] at hadmits
      rcases hadmits with rfl | rfl <;> exact absurd h (by decide)
  | hash => rw [hstart] at hadmits; subst hadmits; exact absurd h (by decide)
  | atSign => rw [hstart] at hadmits; subst hadmits; exact absurd h (by decide)
  | bar => rw [hstart] at hadmits; subst hadmits; exact absurd h (by decide)
  | slash => rw [hstart] at hadmits; subst hadmits; exact absurd h (by decide)
  | less => rw [hstart] at hadmits; subst hadmits; exact absurd h (by decide)
  | hyphen => rw [hstart] at hadmits; subst hadmits; exact absurd h (by decide)
  | other =>
      rw [hstart] at hadmits
      obtain ⟨hdigit, hescape, hname⟩ := hadmits
      rw [hdigit, hname] at h
      rcases h with h | h | h
      · exact absurd h hescape
      · cases h
      · cases h

/-- A character that opens a name starts nothing else. -/
theorem of_name {c : Char} (h : c = '\\' ∨ isNameStart c = true) : of c = .name := by
  apply (number_or_name (h.imp_right .inr)).resolve_left
  intro hnumber
  have hadmits := admits_of c
  rw [hnumber] at hadmits
  rcases hadmits with rfl | rfl | hdigit
  · exact absurd h (by decide)
  · exact absurd h (by decide)
  · rcases h with rfl | h
    · cases hdigit
    · exact absurd h (by simp [not_isNameStart_of_isDigit hdigit])

/-- A digit starts nothing but a number. -/
theorem of_digit {c : Char} (h : isDigit c = true) : of c = .number := by
  apply (number_or_name (.inr (.inl h))).resolve_right
  intro hname
  have hadmits := admits_of c
  rw [hname] at hadmits
  rcases hadmits with rfl | hname
  · cases h
  · exact absurd hname (by simp [not_isNameStart_of_isDigit h])

end Production.Start

namespace Grammar

open Production

/-! ## Single lexemes -/

/-- A name that was read: with a parenthesis behind it a function or a url. -/
def identLike (name text : List Char) : Lexeme × List Char :=
  match mark ['('] text with
  | (true, rest) =>
    if name.map lowerLetter = ['u', 'r', 'l'] then
      (ofBody .url .badUrl (urlBody rest).1, (urlBody rest).2)
    else (.ofText .function name, rest)
  | (false, _) => (.ofText .ident name, text)

/-- An identifier, a function or a url. -/
def identLexeme? (text : List Char) : Option (Lexeme × List Char) :=
  match ident? text with
  | some (name, rest) => some (identLike name rest)
  | none => none

/-- What may start with a hyphen. -/
def signedLexeme? (text : List Char) : Option (Lexeme × List Char) :=
  match numeric? text with
  | some read => some read
  | none => identLexeme? text

/-- The lexeme that a reader finds, or the first character for itself. -/
def orDelim (read : List Char → Option (Lexeme × List Char)) (c : Char) (text : List Char) :
    Lexeme × List Char :=
  (read (c :: text)).getD (.ofDelim c, text)

/-- A lexeme whose first character was read and whose others may follow. -/
def operator (first second : Char) (kind : TokenKind) (text : List Char) : Lexeme × List Char :=
  match mark [second] text with
  | (true, rest) => (.ofText kind [first, second], rest)
  | (false, _) => (.ofDelim first, text)

/-- The lexeme of a name behind a mark, or the mark for itself. -/
def marked (c : Char) (kind : TokenKind) (read : List Char → Option (List Char × List Char))
    (text : List Char) : Lexeme × List Char :=
  match read text with
  | some (name, rest) => (.ofText kind name, rest)
  | none => (.ofDelim c, text)

/-- The lexeme that starts with a character. -/
def lexemeFrom (c : Char) (text : List Char) : Lexeme × List Char :=
  match Start.of c with
  | .blank => (.ofText .whitespace (c :: text.takeWhile isBlank), text.dropWhile isBlank)
  | .quote => (ofBody .string .badString (stringBody c text).1, (stringBody c text).2)
  | .hash => marked c .hash name? text
  | .atSign => marked c .atKeyword ident? text
  | .operator kind => operator c '=' kind text
  | .bar =>
    match mark ['='] text with
    | (true, rest) => (.ofText .dashMatch [c, '='], rest)
    | (false, _) => operator c '|' .column text
  | .slash =>
    match mark ['*'] text with
    | (true, rest) => (ofBody .comment .badComment (commentBody rest).1, (commentBody rest).2)
    | (false, _) => (.ofDelim c, text)
  | .less =>
    match mark ['!', '-', '-'] text with
    | (true, rest) => (.ofText .cdo ['<', '!', '-', '-'], rest)
    | (false, _) => (.ofDelim c, text)
  | .hyphen =>
    match mark ['-', '>'] text with
    | (true, rest) => (.ofText .cdc ['-', '-', '>'], rest)
    | (false, _) => orDelim signedLexeme? c text
  | .number => orDelim numeric? c text
  | .name => orDelim identLexeme? c text
  | .other => (.ofDelim c, text)

/-- The first lexeme of a text. -/
def lexeme : List Char → Lexeme × List Char
  | [] => ({ kind := .eof }, [])
  | c :: text => lexemeFrom c text

/-! ## What a lexeme leaves -/

theorem mark_true_suffix {expected text rest : List Char} (h : mark expected text = (true, rest)) :
    rest <:+ text := by
  have hmark := mark_suffix expected text
  rw [h] at hmark
  exact hmark

theorem identLike_suffix (name text : List Char) : (identLike name text).2 <:+ text := by
  simp only [identLike]
  split
  · next heq =>
    split
    · exact (urlBody_suffix _).trans (mark_true_suffix heq)
    · exact mark_true_suffix heq
  · exact List.suffix_rfl

theorem identLexeme?_tail {text rest : List Char} {lexeme : Lexeme}
    (h : identLexeme? text = some (lexeme, rest)) : IsTail rest text := by
  unfold identLexeme? at h
  split at h
  · next name middle heq =>
    have hlike := identLike_suffix name middle
    rw [Option.some.inj h] at hlike
    exact .of_suffix hlike (ident?_tail heq)
  · cases h

theorem signedLexeme?_tail {text rest : List Char} {lexeme : Lexeme}
    (h : signedLexeme? text = some (lexeme, rest)) : IsTail rest text := by
  unfold signedLexeme? at h
  split at h
  · next heq => exact numeric?_tail (heq.trans h)
  · exact identLexeme?_tail h

theorem orDelim_suffix {read : List Char → Option (Lexeme × List Char)} {c : Char}
    {text : List Char} (h : ∀ lexeme rest, read (c :: text) = some (lexeme, rest) →
      IsTail rest (c :: text)) : (orDelim read c text).2 <:+ text := by
  unfold orDelim
  cases hread : read (c :: text) with
  | none => exact List.suffix_rfl
  | some found =>
      obtain ⟨hsuffix, hlength⟩ := h found.1 found.2 hread
      rcases List.suffix_cons_iff.mp hsuffix with heq | hsuffix
      · rw [heq] at hlength
        exact absurd hlength (Nat.lt_irrefl _)
      · exact hsuffix

theorem operator_suffix (first second : Char) (kind : TokenKind) (text : List Char) :
    (operator first second kind text).2 <:+ text := by
  unfold operator
  split
  · next heq => exact mark_true_suffix heq
  · exact List.suffix_rfl

theorem marked_suffix {c : Char} {kind : TokenKind}
    {read : List Char → Option (List Char × List Char)} {text : List Char}
    (h : ∀ name rest, read text = some (name, rest) → IsTail rest text) :
    (marked c kind read text).2 <:+ text := by
  unfold marked
  split
  · next heq => exact (h _ _ heq).1
  · exact List.suffix_rfl

theorem lexemeFrom_suffix (c : Char) (text : List Char) : (lexemeFrom c text).2 <:+ text := by
  unfold lexemeFrom
  cases Start.of c with
  | blank => exact List.dropWhile_suffix _
  | quote => exact stringRun_suffix c text
  | hash => exact marked_suffix fun _ _ => name?_tail
  | atSign => exact marked_suffix fun _ _ => ident?_tail
  | operator kind => exact operator_suffix _ _ _ _
  | bar =>
      simp only
      split
      · next heq => exact mark_true_suffix heq
      · exact operator_suffix _ _ _ _
  | slash =>
      simp only
      split
      · next heq => exact (commentRun_suffix _).trans (mark_true_suffix heq)
      · exact List.suffix_rfl
  | less =>
      simp only
      split
      · next heq => exact mark_true_suffix heq
      · exact List.suffix_rfl
  | hyphen =>
      simp only
      split
      · next heq => exact mark_true_suffix heq
      · exact orDelim_suffix fun _ _ => signedLexeme?_tail
  | number => exact orDelim_suffix fun _ _ => numeric?_tail
  | name => exact orDelim_suffix fun _ _ => identLexeme?_tail
  | other => exact List.suffix_rfl

theorem lexeme_suffix (text : List Char) : (lexeme text).2 <:+ text := by
  cases text with
  | nil => exact List.suffix_rfl
  | cons c text => exact (lexemeFrom_suffix c text).trans (List.suffix_cons c text)

theorem lexeme_length_lt {text : List Char} (h : text ≠ []) :
    (lexeme text).2.length < text.length := by
  cases text with
  | nil => exact absurd rfl h
  | cons c text => exact Nat.lt_succ_of_le (lexemeFrom_suffix c text).length_le

/-! ## All lexemes -/

/-- The lexemes of a text, the last one being that of its end. -/
def lexemes (text : List Char) : List Lexeme :=
  if h : text = [] then [{ kind := .eof }]
  else
    have := lexeme_length_lt h
    (lexeme text).1 :: lexemes (lexeme text).2
termination_by text.length

/-- The first token of a text that starts at an offset and on a line. -/
def token (start line : Nat) (text : List Char) : Token where
  toLexeme := (lexeme text).1
  span := ⟨start, start + (text.length - (lexeme text).2.length)⟩
  line := line

/-- The tokens of a text that starts at an offset and on a line. -/
def tokens (start line : Nat) (text : List Char) : List Token :=
  if h : text = [] then [token start line text]
  else
    have := lexeme_length_lt h
    token start line text ::
      tokens (token start line text).span.stop
        (line + (text.count '\n' - (lexeme text).2.count '\n')) (lexeme text).2
termination_by text.length

theorem lexemes_nil : lexemes [] = [{ kind := .eof }] := by
  rw [lexemes, dif_pos rfl]

theorem lexemes_cons {text : List Char} (h : text ≠ []) :
    lexemes text = (lexeme text).1 :: lexemes (lexeme text).2 := by
  rw [lexemes, dif_neg h]

theorem tokens_nil (start line : Nat) : tokens start line [] = [token start line []] := by
  rw [tokens, dif_pos rfl]

theorem tokens_cons {start line : Nat} {text : List Char} (h : text ≠ []) :
    tokens start line text = token start line text ::
      tokens (token start line text).span.stop
        (line + (text.count '\n' - (lexeme text).2.count '\n')) (lexeme text).2 := by
  rw [tokens, dif_neg h]

/-- The tokens of a text are its lexemes at their places. -/
theorem tokens_map_lexeme (start line : Nat) (text : List Char) :
    (tokens start line text).map (·.toLexeme) = lexemes text := by
  fun_induction tokens start line text with
  | case1 start line => rw [lexemes_nil]; rfl
  | case2 start line text h _ ih => rw [lexemes_cons h, List.map_cons, ih]; rfl

end Grammar
end CssLex
