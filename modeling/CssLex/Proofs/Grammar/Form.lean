import CssLex.Proofs.Grammar.Lexeme

/-! How a lexeme comes about, said once: each lexeme has one of a few forms, and a character that
has none of the others stands for itself. -/

namespace CssLex.Grammar

open Production

variable {c : Char} {text : List Char}

/-- The characters of a kind that is always written the same way. -/
def fixed : TokenKind → List Char
  | .cdo => ['<', '!', '-', '-']
  | .cdc => ['-', '-', '>']
  | .includeMatch => ['~', '=']
  | .dashMatch => ['|', '=']
  | .prefixMatch => ['^', '=']
  | .suffixMatch => ['$', '=']
  | .substringMatch => ['*', '=']
  | .column => ['|', '|']
  | _ => []

/-- The forms that a first lexeme has, each with what it leaves. -/
inductive Form (c : Char) (text : List Char) : Lexeme × List Char → Prop
  | blank (h : isBlank c = true) :
      Form c text (.ofText .whitespace (c :: text.takeWhile isBlank), text.dropWhile isBlank)
  | string : Form c text
      (ofBody .string .badString (stringBody c text).1, (stringBody c text).2)
  | hash {name rest : List Char} (h : name? text = some (name, rest)) :
      Form c text (.ofText .hash name, rest)
  | atKeyword {name rest : List Char} (h : ident? text = some (name, rest)) :
      Form c text (.ofText .atKeyword name, rest)
  | comment {inside : List Char} (h : text = '*' :: inside) : Form c text
      (ofBody .comment .badComment (commentBody inside).1, (commentBody inside).2)
  | fixed {kind : TokenKind} {rest : List Char} (hkind : Grammar.fixed kind ≠ []) :
      Form c text (.ofText kind (Grammar.fixed kind), rest)
  | quantity {n : Numeral} {rest : List Char} (h : numeral? (c :: text) = some (n, rest)) :
      Form c text (Grammar.quantity n rest)
  | name {name rest : List Char} (h : ident? (c :: text) = some (name, rest)) :
      Form c text (identLike name rest)
  | delim : Form c text (.ofDelim c, text)

theorem marked_form {kind : TokenKind} {read : List Char → Option (List Char × List Char)}
    (h : ∀ name rest, read text = some (name, rest) → Form c text (.ofText kind name, rest)) :
    Form c text (marked c kind read text) := by
  unfold marked
  split
  · next heq => exact h _ _ heq
  · exact .delim

theorem operator_form {second : Char} {kind : TokenKind} (h : fixed kind = [c, second]) :
    Form c text (operator c second kind text) := by
  unfold operator
  split
  · rw [← h]
    exact .fixed (by simp [h])
  · exact .delim

theorem orDelim_form {read : List Char → Option (Lexeme × List Char)}
    (h : ∀ found, read (c :: text) = some found → Form c text found) :
    Form c text (orDelim read c text) := by
  unfold orDelim
  cases hread : read (c :: text) with
  | some found => exact h found hread
  | none => exact .delim

theorem numeric?_form {found : Lexeme × List Char} (h : numeric? (c :: text) = some found) :
    Form c text found := by
  unfold numeric? at h
  split at h
  · next heq =>
    cases h
    exact .quantity heq
  · cases h

theorem identLexeme?_form {found : Lexeme × List Char}
    (h : identLexeme? (c :: text) = some found) : Form c text found := by
  unfold identLexeme? at h
  split at h
  · next heq =>
    cases h
    exact .name heq
  · cases h

theorem signedLexeme?_form {found : Lexeme × List Char}
    (h : signedLexeme? (c :: text) = some found) : Form c text found := by
  unfold signedLexeme? at h
  split at h
  · next heq => exact numeric?_form (heq.trans h)
  · exact identLexeme?_form h

/-- Every first lexeme has one of the forms. -/
theorem lexemeFrom_form (c : Char) (text : List Char) : Form c text (lexemeFrom c text) := by
  have hadmits := Start.admits_of c
  unfold lexemeFrom
  cases hstart : Start.of c with
  | blank =>
      rw [hstart] at hadmits
      exact .blank hadmits
  | quote => exact .string
  | hash => exact marked_form fun _ _ => .hash
  | atSign => exact marked_form fun _ _ => .atKeyword
  | operator kind =>
      rw [hstart] at hadmits
      apply operator_form
      rcases hadmits with ⟨rfl, rfl⟩ | ⟨rfl, rfl⟩ | ⟨rfl, rfl⟩ | ⟨rfl, rfl⟩ <;> rfl
  | bar =>
      rw [hstart] at hadmits
      subst hadmits
      simp only
      split
      · exact .fixed (show Grammar.fixed .dashMatch ≠ [] by decide)
      · exact operator_form rfl
  | slash =>
      simp only
      split
      · next hmark => exact .comment (eq_of_mark_true hmark)
      · exact .delim
  | less =>
      simp only
      split
      · exact .fixed (by decide)
      · exact .delim
  | hyphen =>
      simp only
      split
      · exact .fixed (by decide)
      · exact orDelim_form fun _ => signedLexeme?_form
  | number => exact orDelim_form fun _ => numeric?_form
  | name => exact orDelim_form fun _ => identLexeme?_form
  | other => exact .delim

/-! ## Kinds -/

theorem ofBody_kind (kind bad : TokenKind) (body : Body) :
    (ofBody kind bad body).kind = kind ∨ (ofBody kind bad body).kind = bad := by
  unfold ofBody
  split
  · exact .inl rfl
  · exact .inr rfl

theorem identLike_kind (name text : List Char) :
    (identLike name text).1.kind = .ident ∨ (identLike name text).1.kind = .function ∨
      (identLike name text).1.kind = .url ∨ (identLike name text).1.kind = .badUrl := by
  unfold identLike
  split
  · split
    · exact .inr (.inr (ofBody_kind _ _ _))
    · exact .inr (.inl rfl)
  · exact .inl rfl

theorem quantity_isNumeric (n : Numeral) (text : List Char) :
    (quantity n text).1.kind.isNumeric = true := by
  simp only [quantity]
  split
  · rfl
  · split <;> rfl

theorem ofBody_kind_ne {kind bad other : TokenKind} (body : Body) (hkind : kind ≠ other)
    (hbad : bad ≠ other) : (ofBody kind bad body).kind ≠ other := by
  rcases ofBody_kind kind bad body with h | h
  · rwa [h]
  · rwa [h]

/-- A name alone leaves what is behind it. -/
theorem identLike_of_head {name text : List Char} (h : text.head? ≠ some '(') :
    identLike name text = (.ofText .ident name, text) := by
  simp only [identLike, mark_of_head h]

theorem identLike_parenthesis (name text : List Char) :
    (identLike name ('(' :: text)).1.kind ≠ .ident := by
  simp only [identLike, mark_cons_self]
  split
  · exact ofBody_kind_ne _ (by simp) (by simp)
  · exact TokenKind.noConfusion

theorem head_of_identLike {name text : List Char} (h : (identLike name text).1.kind = .ident) :
    text.head? ≠ some '(' := by
  intro hhead
  obtain ⟨rest, rfl⟩ := List.head?_eq_some_iff.mp hhead
  exact identLike_parenthesis name rest h

/-- The kinds of a lexeme that is neither a number nor a name, nor always written the same way,
nor a character that stands for itself. -/
def runKinds : List TokenKind :=
  [.whitespace, .string, .badString, .hash, .atKeyword, .comment, .badComment]

/-- What the form of a lexeme says of its kind. -/
theorem Form.kind {found : Lexeme × List Char} (h : Form c text found) :
    found.1.kind ∈ runKinds ∨ Grammar.fixed found.1.kind ≠ [] ∨
      (∃ n rest, numeral? (c :: text) = some (n, rest) ∧ found = Grammar.quantity n rest) ∨
      (∃ name rest, ident? (c :: text) = some (name, rest) ∧ found = identLike name rest) ∨
      found = (.ofDelim c, text) := by
  cases h with
  | blank => exact .inl (show .whitespace ∈ runKinds by decide)
  | string =>
      left
      rcases ofBody_kind .string .badString (stringBody c text).1 with h | h <;> simp [h, runKinds]
  | hash => exact .inl (show .hash ∈ runKinds by decide)
  | atKeyword => exact .inl (show .atKeyword ∈ runKinds by decide)
  | @comment inside =>
      left
      rcases ofBody_kind .comment .badComment (commentBody inside).1 with h | h <;>
        simp [h, runKinds]
  | fixed hkind => exact .inr (.inl hkind)
  | quantity h => exact .inr (.inr (.inl ⟨_, _, h, rfl⟩))
  | name h => exact .inr (.inr (.inr (.inl ⟨_, _, h, rfl⟩)))
  | delim => exact .inr (.inr (.inr (.inr rfl)))

theorem Form.kind_ne_eof {found : Lexeme × List Char} (h : Form c text found) :
    found.1.kind ≠ .eof := by
  intro heof
  rcases h.kind with hrun | hfixed | ⟨n, rest, -, rfl⟩ | ⟨name, rest, -, rfl⟩ | rfl
  · exact absurd (heof ▸ hrun) (by decide)
  · exact absurd (heof ▸ hfixed) (by decide)
  · have hnumeric := quantity_isNumeric n rest
    rw [heof] at hnumeric
    cases hnumeric
  · rcases identLike_kind name rest with h | h | h | h <;> simp [h] at heof
  · cases heof

/-- Only a character that stands for itself has the kind of a delimiter. -/
theorem Form.of_delim {found : Lexeme × List Char} {d : Char} (h : Form c text found)
    (hkind : found.1.kind = .delim d) : c = d ∧ found = (.ofDelim c, text) := by
  rcases h.kind with hrun | hfixed | ⟨n, rest, -, rfl⟩ | ⟨name, rest, -, rfl⟩ | rfl
  · rw [hkind] at hrun
    simp [runKinds] at hrun
  · rw [hkind] at hfixed
    exact absurd rfl hfixed
  · have hnumeric := quantity_isNumeric n rest
    rw [hkind] at hnumeric
    cases hnumeric
  · rcases identLike_kind name rest with h | h | h | h <;> simp [h] at hkind
  · cases hkind
    exact ⟨rfl, rfl⟩

/-- Only a number in front gives a numeric kind. -/
theorem Form.of_isNumeric {found : Lexeme × List Char} (h : Form c text found)
    (hkind : found.1.kind.isNumeric = true) :
    ∃ n rest, numeral? (c :: text) = some (n, rest) ∧ found = Grammar.quantity n rest := by
  rcases h.kind with hrun | hfixed | hquantity | ⟨name, rest, -, rfl⟩ | rfl
  · have hnone : ∀ kind ∈ runKinds, kind.isNumeric = false := by decide
    rw [hnone _ hrun] at hkind
    cases hkind
  · generalize found.1.kind = kind at hfixed hkind
    cases kind <;> first | exact absurd rfl hfixed | cases hkind
  · exact hquantity
  · rcases identLike_kind name rest with h | h | h | h <;>
      simp [h, TokenKind.isNumeric] at hkind
  · cases hkind

/-- Only a name in front gives an identifier or a function. -/
theorem Form.of_name {found : Lexeme × List Char} (h : Form c text found)
    (hkind : found.1.kind = .ident ∨ found.1.kind = .function) :
    ∃ name rest, ident? (c :: text) = some (name, rest) ∧ found = identLike name rest := by
  rcases h.kind with hrun | hfixed | ⟨n, rest, -, rfl⟩ | hname | rfl
  · rcases hkind with hkind | hkind <;> exact absurd (hkind ▸ hrun) (by decide)
  · rcases hkind with hkind | hkind <;> exact absurd (hkind ▸ hfixed) (by decide)
  · have hnumeric := quantity_isNumeric n rest
    rcases hkind with hkind | hkind <;> rw [hkind] at hnumeric <;> cases hnumeric
  · exact hname
  · rcases hkind with hkind | hkind <;> cases hkind

/-- Only the end of a text gives the lexeme of the end. -/
theorem lexeme_kind_eq_eof {text : List Char} : (lexeme text).1.kind = .eof ↔ text = [] := by
  constructor
  · intro h
    cases text with
    | nil => rfl
    | cons c text => exact absurd h (lexemeFrom_form c text).kind_ne_eof
  · rintro rfl
    rfl

/-- A kind that is always written the same way reads back. -/
theorem lexeme_fixed {kind : TokenKind} (h : fixed kind ≠ []) (text : List Char) :
    lexeme (fixed kind ++ text) = (.ofText kind (fixed kind), text) := by
  cases kind <;> first | rfl | exact absurd rfl h

end CssLex.Grammar
