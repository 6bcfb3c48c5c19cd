import CssLex.Production.Lexeme

/-!
The tokenizer. It fetches one token after another from a scanner, and the last token can be handed
back once, to be fetched again. Every token but the one at the end makes progress, so the list of
tokens is finite.
-/

namespace CssLex

/-- A scanner with the last token that was fetched from it. -/
structure Tokenizer where
  scanner : Scanner
  current : Option Token := none
  /-- Whether the current token is to be fetched once more. -/
  replaying : Bool := false

namespace Tokenizer

/-- A tokenizer over a source, before its first token. -/
def ofSource (source : Source) : Tokenizer := { scanner := { source } }

/-- A tokenizer over a whole text. -/
def ofString (text : String) : Tokenizer := ofSource (.ofString text)

/-- A bound for the tokens that are still to come: the characters, and the replay. -/
def remaining (t : Tokenizer) : Nat := t.scanner.remaining + if t.replaying then 1 else 0

/-- Scans a new token, which becomes the current one. A failure keeps the current token. -/
def scanToken : EStateM LexError Tokenizer Token := fun t =>
  match Production.lexeme t.scanner with
  | .error e scanner => .error e { t with scanner }
  | .ok lexeme scanner =>
    let span := ⟨t.scanner.position, scanner.position⟩
    let token : Token := { toLexeme := lexeme, span, line := t.scanner.line }
    .ok token { t with scanner, current := some token }

/-- The next token of any kind. At the end of the input it is the final token again and again. -/
def fetch : EStateM LexError Tokenizer Token := fun t =>
  match t.replaying, t.current with
  | true, some token => .ok token { t with replaying := false }
  | _, _ => scanToken { t with replaying := false }

/-- Marks the current token to be fetched once more. -/
def pushBack : EStateM LexError Tokenizer Unit := fun t =>
  if t.replaying then .error .replayPending t
  else if t.current.isNone then .error .nothingToReplay t
  else .ok () { t with replaying := true }

theorem scanToken_remaining {t t' : Tokenizer} {token : Token} (ht : t.replaying = false)
    (h : scanToken t = .ok token t') (hkind : token.kind ≠ .eof) : t'.remaining < t.remaining := by
  unfold scanToken at h
  split at h
  · cases h
  · next lexeme scanner heq =>
    cases h
    have := Production.lexeme_spends _ _ _ heq
    simp only [Production.lexemeCost, if_neg hkind] at this
    simp only [remaining, ht]
    omega

/-- A token that is not the last makes progress. -/
theorem fetch_remaining {t t' : Tokenizer} {token : Token} (h : fetch t = .ok token t')
    (hkind : token.kind ≠ .eof) : t'.remaining < t.remaining := by
  unfold fetch at h
  split at h
  · next hreplaying _ =>
    cases h
    simp [remaining, hreplaying]
  · have := scanToken_remaining rfl h hkind
    simp only [remaining] at this ⊢
    simp only [Bool.false_eq_true, if_false] at this
    omega

/-- The next token that is significant. -/
def next : EStateM LexError Tokenizer Token := fun t =>
  match h : fetch t with
  | .error e t' => .error e t'
  | .ok token t' =>
    if hskip : token.kind.isInsignificant then
      have : t'.remaining < t.remaining :=
        fetch_remaining h (by intro heof; simp [heof, TokenKind.isInsignificant] at hskip)
      next t'
    else .ok token t'
termination_by t => t.remaining

theorem next_remaining {t t' : Tokenizer} {token : Token} (h : next t = .ok token t')
    (hkind : token.kind ≠ .eof) : t'.remaining < t.remaining := by
  fun_induction next t with
  | case1 => cases h
  | case2 t _ _ _ _ hlt ih =>
    have := ih h
    omega
  | case3 t _ _ hfetch =>
    cases h
    exact fetch_remaining hfetch hkind

/-- The next token, where insignificant ones may be passed over. -/
def pull (skipping : Bool) : EStateM LexError Tokenizer Token := if skipping then next else fetch

theorem pull_remaining {skipping : Bool} {t t' : Tokenizer} {token : Token}
    (h : pull skipping t = .ok token t') (hkind : token.kind ≠ .eof) :
    t'.remaining < t.remaining := by
  cases skipping with
  | true => exact next_remaining h hkind
  | false => exact fetch_remaining h hkind

/-- The tokens that are still to come behind those of `read`, which stand in reverse. -/
def collectFrom (skipping : Bool) (read : List Token) (t : Tokenizer) :
    Except LexError (List Token) :=
  match h : pull skipping t with
  | .error e _ => .error e
  | .ok token t' =>
    if hkind : token.kind = .eof then .ok (token :: read).reverse
    else
      have : t'.remaining < t.remaining := pull_remaining h hkind
      collectFrom skipping (token :: read) t'
termination_by t.remaining

/-- The tokens that are still to come, up to and with the one at the end. -/
def collect (skipping : Bool) (t : Tokenizer) : Except LexError (List Token) :=
  collectFrom skipping [] t

/-- All tokens that are still to come, a pending replay included. -/
def tokenize (t : Tokenizer) : Except LexError (List Token) := t.collect false

/-- The kind of the current token. -/
def currentKind (t : Tokenizer) : Option TokenKind := t.current.map (·.kind)

/-- The text of the current token. -/
def currentText (t : Tokenizer) : Option String := t.current.bind (·.text)

/-- The number of the current token. -/
def currentNumber (t : Tokenizer) : Option Number := t.current.bind (·.number)

/-- The line of the current token, or of the next character before any token. -/
def line (t : Tokenizer) : Nat := t.current.elim t.scanner.line (·.line)

/-- Where the current token starts, or the next character before any token. -/
def start (t : Tokenizer) : Nat := t.current.elim t.scanner.position (·.span.start)

/-- Where the current token ends, or the place of the next character before any token. -/
def stop (t : Tokenizer) : Nat := t.current.elim t.scanner.position (·.span.stop)

end Tokenizer
end CssLex
