import Mathlib
import CssLex.Proofs.Tokenizer.Tiling

/-! The pull interface as a cursor over one list of tokens. Whatever is fetched and handed back in
whatever order, a tokenizer answers as the cursor does. -/

namespace CssLex

open Grammar

/-! ## The cursor -/

/-- The tokens of a text: some tokens and the one at the end. -/
structure Listing where
  body : List Token
  last : Token
  last_eof : last.kind = .eof

namespace Listing

/-- All tokens in order. -/
def tokens (T : Listing) : List Token := T.body ++ [T.last]

/-- The token at an index. The last token stands at every index behind it too. -/
def get (T : Listing) (i : Nat) : Token := T.body[i]?.getD T.last

theorem lt_of_get_ne_eof {T : Listing} {i : Nat} (h : (T.get i).kind ≠ .eof) :
    i < T.body.length := by
  by_cases hi : i < T.body.length
  · exact hi
  · rw [get, List.getElem?_eq_none (by omega), Option.getD_none] at h
    exact absurd T.last_eof h

end Listing

/-- A place in a list of tokens, with the token that was fetched last. -/
structure Cursor where
  index : Nat := 0
  current : Option Token := none
  replaying : Bool := false

namespace Cursor

variable (T : Listing)

/-- The next token of any kind: the current one again if it is to be replayed, or else the one at
the cursor. -/
def fetch (c : Cursor) : Token × Cursor :=
  match c.replaying, c.current with
  | true, some token => (token, { c with replaying := false })
  | _, _ =>
    (T.get c.index,
      { index := c.index + 1, current := some (T.get c.index), replaying := false })

/-- A bound for the tokens before the last one that are still to come. -/
def remaining (c : Cursor) : Nat := T.body.length - c.index + if c.replaying then 1 else 0

theorem fetch_remaining {c : Cursor} (h : (fetch T c).1.kind ≠ .eof) :
    (fetch T c).2.remaining T < c.remaining T := by
  unfold fetch at h ⊢
  split
  · next hreplaying _ => simp [remaining, hreplaying]
  · next hnot =>
    have hget : (T.get c.index).kind ≠ .eof := by
      split at h
      · next hreplaying hcurrent => exact absurd hcurrent (hnot _ hreplaying)
      · exact h
    have := Listing.lt_of_get_ne_eof hget
    simp only [remaining, Bool.false_eq_true, if_false]
    omega

/-- The next significant token. -/
def next (c : Cursor) : Token × Cursor :=
  if h : (fetch T c).1.kind.isInsignificant then
    have := fetch_remaining T (c := c) (by intro heof; simp [heof, TokenKind.isInsignificant] at h)
    next (fetch T c).2
  else fetch T c
termination_by c.remaining T

/-- Marks the current token for replay. -/
def pushBack : EStateM LexError Cursor Unit := fun c =>
  if c.replaying then .error .replayPending c
  else if c.current = none then .error .nothingToReplay c
  else .ok () { c with replaying := true }

/-- The first token of the end, and what stands before it. -/
def upToEnd : List Token → List Token
  | [] => []
  | token :: rest => if token.kind = .eof then [token] else token :: upToEnd rest

/-- The tokens from the cursor on, a pending replay in front. -/
def tokenize (c : Cursor) : List Token :=
  upToEnd ((if c.replaying then c.current.toList else []) ++ T.body.drop c.index ++ [T.last])

end Cursor

/-! ## Calls and what they show -/

/-- A call of the pull interface. -/
inductive Call where
  | next
  | fetch
  | pushBack
deriving Repr, DecidableEq

/-- What the accessors show. -/
structure View where
  kind : Option TokenKind
  text : Option String
  number : Option Number
  line : Nat
  start : Nat
  stop : Nat
  token : Option Token

/-- The answers to calls one after another, and the state that they lead to. -/
def answers {σ : Type} (call : Call → EStateM LexError σ (Option Token)) :
    List Call → σ → List (Except LexError (Option Token)) × σ
  | [], s => ([], s)
  | c :: calls, s =>
    match call c s with
    | .ok answer s' =>
      let rest := answers call calls s'
      (.ok answer :: rest.1, rest.2)
    | .error e s' =>
      let rest := answers call calls s'
      (.error e :: rest.1, rest.2)

namespace Tokenizer

/-- Answers a call: a fetch gives a token, and handing back gives none. -/
def call : Call → EStateM LexError Tokenizer (Option Token)
  | .next => some <$> next
  | .fetch => some <$> fetch
  | .pushBack => do pushBack; pure none

/-- What the accessors of a tokenizer show. -/
def view (t : Tokenizer) : View where
  kind := t.currentKind
  text := t.currentText
  number := t.currentNumber
  line := t.line
  start := t.start
  stop := t.stop
  token := t.current

end Tokenizer

namespace Cursor

/-- Answers a call as a cursor. -/
def call (T : Listing) : Call → EStateM LexError Cursor (Option Token)
  | .next => fun c => .ok (some (next T c).1) (next T c).2
  | .fetch => fun c => .ok (some (fetch T c).1) (fetch T c).2
  | .pushBack => do pushBack; pure none

/-- What a cursor shows: the parts of its token, and the start of the text before any token. -/
def view (c : Cursor) : View where
  kind := c.current.map (·.kind)
  text := c.current.bind (·.text)
  number := c.current.bind (·.number)
  line := c.current.elim 1 (·.line)
  start := c.current.elim 0 (·.span.start)
  stop := c.current.elim 0 (·.span.stop)
  token := c.current

end Cursor

/-! ## Refinement -/

/-- The tokenizer `t` stands where the cursor `c` stands. -/
structure Follows (T : Listing) (c : Cursor) (t : Tokenizer) : Prop where
  sound : t.scanner.Sound
  fits : t.scanner.Fits
  tokens : tokensOf t.scanner = T.body.drop c.index ++ [T.last]
  current : t.current = c.current
  replaying : t.replaying = c.replaying
  fresh : c.current = none → t.scanner.line = 1 ∧ t.scanner.position = 0
  held : c.replaying = true → ∃ token, c.current = some token

variable {T : Listing} {c : Cursor} {t : Tokenizer}

theorem Follows.view (h : Follows T c t) : t.view = c.view := by
  unfold Tokenizer.view Cursor.view Tokenizer.currentKind Tokenizer.currentText
    Tokenizer.currentNumber Tokenizer.line Tokenizer.start Tokenizer.stop
  rw [h.current]
  cases hcurrent : c.current with
  | none =>
      obtain ⟨hline, hposition⟩ := h.fresh hcurrent
      simp only [Option.elim_none, hline, hposition]
  | some token => rfl

theorem tokensOf_ne_nil (s : Scanner) : tokensOf s ≠ [] := by
  intro h
  have hhead := tokens_head s.position s.line s.unread
  rw [show tokens s.position s.line s.unread = [] from h] at hhead
  cases hhead

/-- The token that the scanner comes to stands at the cursor, and the scanner goes on as the
cursor does. -/
theorem Follows.advance (h : Follows T c t) {s : Scanner}
    (hunread : s.unread = (lexeme t.scanner.unread).2) (hreaches : t.scanner.Reaches s) :
    tokenOf t.scanner = T.get c.index ∧ tokensOf s = T.body.drop (c.index + 1) ++ [T.last] := by
  have htokens := h.tokens
  rw [← List.tail_drop, Listing.get]
  have hget : T.body[c.index]? = (T.body.drop c.index)[0]? := by
    rw [List.getElem?_drop, Nat.add_zero]
  rw [hget]
  by_cases hend : t.scanner.unread = []
  · rw [hreaches.tokensOf_eq_of_end hend]
    have hsingle : tokensOf t.scanner = [tokenOf t.scanner] := by
      rw [tokensOf, tokenOf, hend, tokens_nil]
    rw [hsingle] at htokens ⊢
    cases hdrop : T.body.drop c.index with
    | nil =>
        rw [hdrop] at htokens
        exact ⟨(List.cons.inj htokens).1, htokens⟩
    | cons token rest =>
        rw [hdrop] at htokens
        have := congrArg List.length htokens
        simp at this
  · rw [hreaches.tokensOf_eq hunread hend] at htokens
    cases hdrop : T.body.drop c.index with
    | nil =>
        rw [hdrop] at htokens
        exact absurd (List.cons.inj htokens).2 (tokensOf_ne_nil s)
    | cons token rest =>
        rw [hdrop] at htokens
        exact List.cons.inj htokens

theorem Follows.scanToken (h : Follows T c t) (replaying : Bool) :
    ∃ t', Tokenizer.scanToken { t with replaying } = .ok (T.get c.index) t' ∧
      Follows T { index := c.index + 1, current := some (T.get c.index), replaying } t' := by
  have hscan := Tokenizer.scanToken_of_sound (t := { t with replaying }) h.sound
  cases hresult : Tokenizer.scanToken { t with replaying } with
  | error e t' =>
      rw [hresult] at hscan
      exact absurd h.fits hscan.2
  | ok token t' =>
      rw [hresult] at hscan
      obtain ⟨rfl, hcurrent, hreplaying, hunread, hreaches⟩ := hscan
      obtain ⟨hget, htokens⟩ := h.advance hunread hreaches
      refine ⟨t', by rw [← hget], hreaches.sound, hreaches.fits_iff.mpr h.fits, htokens, ?_,
        hreplaying, by simp, fun _ => ⟨_, rfl⟩⟩
      rw [hcurrent, ← hget]

theorem Follows.fetch (h : Follows T c t) :
    ∃ t', t.fetch = .ok (c.fetch T).1 t' ∧ Follows T (c.fetch T).2 t' := by
  obtain ⟨scanner, current, replaying⟩ := t
  obtain ⟨index, current', replaying'⟩ := c
  obtain rfl : current = current' := h.current
  obtain rfl : replaying = replaying' := h.replaying
  cases replaying with
  | false => exact h.scanToken false
  | true =>
      cases current with
      | none => exact h.scanToken false
      | some token => exact ⟨_, rfl, h.sound, h.fits, h.tokens, rfl, rfl, h.fresh, nofun⟩

theorem Follows.next (h : Follows T c t) :
    ∃ t', t.next = .ok (c.next T).1 t' ∧ Follows T (c.next T).2 t' := by
  fun_induction Cursor.next T c generalizing t with
  | case1 c hskip _ ih =>
      obtain ⟨t₁, hfetch, h₁⟩ := h.fetch
      rw [Tokenizer.next_of_skipped hfetch hskip]
      exact ih h₁
  | case2 c hkeep =>
      obtain ⟨t₁, hfetch, h₁⟩ := h.fetch
      exact ⟨t₁, Tokenizer.next_of_kept hfetch hkeep, h₁⟩

/-- Handing back succeeds or fails as it does for the cursor, and a failure changes nothing. -/
theorem Follows.pushBack (h : Follows T c t) :
    (∃ c' t', c.pushBack = .ok () c' ∧ t.pushBack = .ok () t' ∧ Follows T c' t') ∨
      ∃ e, c.pushBack = .error e c ∧ t.pushBack = .error e t := by
  unfold Tokenizer.pushBack Cursor.pushBack
  rw [h.current, h.replaying]
  by_cases hreplaying : c.replaying = true
  · exact .inr ⟨.replayPending, by rw [if_pos hreplaying], by rw [if_pos hreplaying]⟩
  · cases hcurrent : c.current with
    | none => exact .inr ⟨.nothingToReplay, by simp [hreplaying], by simp [hreplaying]⟩
    | some token =>
        refine .inl ⟨{ c with replaying := true }, { t with replaying := true }, ?_, ?_,
          h.sound, h.fits, h.tokens, h.current, rfl, h.fresh, fun _ => ⟨token, hcurrent⟩⟩
        · simp [hreplaying, hcurrent]
        · simp [hreplaying, hcurrent, h.current]

/-- A call is answered as the cursor answers it; where it fails it changes nothing. -/
theorem Follows.call (h : Follows T c t) (call : Call) :
    (∃ answer c' t', Cursor.call T call c = .ok answer c' ∧
      Tokenizer.call call t = .ok answer t' ∧ Follows T c' t') ∨
      ∃ e, Cursor.call T call c = .error e c ∧ Tokenizer.call call t = .error e t := by
  cases call with
  | next =>
      obtain ⟨t', hnext, h'⟩ := h.next
      exact .inl ⟨_, _, t', rfl, by simp [Tokenizer.call, Functor.map, EStateM.map, hnext], h'⟩
  | fetch =>
      obtain ⟨t', hfetch, h'⟩ := h.fetch
      exact .inl ⟨_, _, t', rfl, by simp [Tokenizer.call, Functor.map, EStateM.map, hfetch], h'⟩
  | pushBack =>
      unfold Cursor.call Tokenizer.call
      simp only [Bind.bind, EStateM.bind]
      rcases h.pushBack with ⟨c', t', hc, ht, h'⟩ | ⟨e, hc, ht⟩
      · exact .inl ⟨none, c', t', by rw [hc]; rfl, by rw [ht]; rfl, h'⟩
      · exact .inr ⟨e, by rw [hc], by rw [ht]⟩

/-- The answers are those of the cursor, and the tokenizer still stands where the cursor does. -/
theorem Follows.answers (h : Follows T c t) (calls : List Call) :
    (answers Tokenizer.call calls t).1 = (answers (Cursor.call T) calls c).1 ∧
      Follows T (answers (Cursor.call T) calls c).2 (answers Tokenizer.call calls t).2 := by
  induction calls generalizing c t with
  | nil => exact ⟨rfl, h⟩
  | cons call calls ih =>
      rcases h.call call with ⟨answer, c', t', hc, ht, h'⟩ | ⟨e, hc, ht⟩
      · obtain ⟨hanswers, hfollows⟩ := ih h'
        simp only [CssLex.answers, hc, ht]
        exact ⟨by rw [hanswers], hfollows⟩
      · obtain ⟨hanswers, hfollows⟩ := ih h
        simp only [CssLex.answers, hc, ht]
        exact ⟨by rw [hanswers], hfollows⟩

theorem upToEnd_tokens (start line : Nat) (text : List Char) :
    Cursor.upToEnd (tokens start line text) = tokens start line text := by
  fun_induction tokens start line text with
  | case1 start line => rfl
  | case2 start line text h _ ih =>
      have hkind : (token start line text).kind ≠ .eof := fun heof =>
        h (lexeme_kind_eq_eof.mp heof)
      rw [Cursor.upToEnd, if_neg hkind, ih]

theorem Follows.tokenize (h : Follows T c t) : t.tokenize = .ok (c.tokenize T) := by
  have hrest : Cursor.upToEnd (T.body.drop c.index ++ [T.last]) = tokensOf t.scanner := by
    rw [← h.tokens]
    exact upToEnd_tokens _ _ _
  unfold Cursor.tokenize
  cases hreplaying : c.replaying with
  | false =>
      rw [Tokenizer.tokenize_of_fits h.sound (h.replaying.trans hreplaying) h.fits, ← hrest]
      rfl
  | true =>
      obtain ⟨token, hcurrent⟩ := h.held hreplaying
      have hpull : Tokenizer.pull false t = .ok token { t with replaying := false } := by
        simp [Tokenizer.pull, Tokenizer.fetch, h.replaying, hreplaying, h.current, hcurrent]
      rw [Tokenizer.tokenize, Tokenizer.collect, Tokenizer.collectFrom_of_pull hpull, hcurrent]
      by_cases heof : token.kind = .eof
      · simp [heof, Cursor.upToEnd]
      · have hcollect := Tokenizer.collectFrom_of_sound (t := { t with replaying := false })
          h.sound rfl [token]
        rw [if_neg heof]
        cases hresult : Tokenizer.collectFrom false [token] { t with replaying := false } with
        | error e =>
            rw [hresult] at hcollect
            exact absurd h.fits hcollect.2
        | ok found =>
            rw [hresult] at hcollect
            rw [hcollect.1]
            simp only [if_true, Option.toList_some, List.cons_append, List.nil_append,
              Cursor.upToEnd, if_neg heof, hrest]
            rfl

/-- A tokenizer over a reliable source starts at the first of its tokens. -/
theorem Follows.start {source : Source} (hsource : source.Reliable) {found : List Token}
    (h : (Tokenizer.ofSource source).tokenize = .ok found) :
    ∃ T : Listing, T.tokens = found ∧ Follows T {} (Tokenizer.ofSource source) := by
  have hsound := Scanner.sound_start hsource
  obtain ⟨rfl, hfits⟩ := Tokenizer.eq_of_tokenize_ok (t := Tokenizer.ofSource source) hsound rfl h
  obtain ⟨body, last, heq, -, hlast, -⟩ :=
    tokens_end 0 1 (Tokenizer.ofSource source).scanner.unread
  exact ⟨⟨body, last, hlast⟩, heq.symm, hsound, hfits, heq, rfl, rfl, fun _ => ⟨rfl, rfl⟩,
    by simp⟩

/-- The pull interface is a cursor over the tokens of the source. After any calls their answers,
what the accessors show, and the tokens that are still to come are those of the cursor. -/
theorem Tokenizer.answers_of_cursor {source : Source} (hsource : source.Reliable)
    {found : List Token} (h : (ofSource source).tokenize = .ok found) :
    ∃ T : Listing, T.tokens = found ∧ ∀ calls,
      (answers call calls (ofSource source)).1 = (answers (Cursor.call T) calls {}).1 ∧
        (answers call calls (ofSource source)).2.view =
          (answers (Cursor.call T) calls {}).2.view ∧
        (answers call calls (ofSource source)).2.tokenize =
          .ok ((answers (Cursor.call T) calls {}).2.tokenize T) := by
  obtain ⟨T, hT, hstart⟩ := Follows.start hsource h
  refine ⟨T, hT, fun calls => ?_⟩
  obtain ⟨hanswers, hfollows⟩ := hstart.answers calls
  exact ⟨hanswers, hfollows.view, hfollows.tokenize⟩

namespace Tokenizer

/-- The tokens of a name, a blank and a slash. -/
def slashTokens : List Token :=
  [⟨.ofText .ident ['a'], ⟨0, 1⟩, 1⟩, ⟨.ofText .whitespace [' '], ⟨1, 2⟩, 1⟩,
    ⟨.ofDelim '/', ⟨2, 3⟩, 1⟩, ⟨{ kind := .eof }, ⟨3, 3⟩, 1⟩]

theorem tokenize_slash : (ofString "a /").tokenize = .ok slashTokens := by
  have hcountable : Countable (normalize "a /".toList) := by cbv
  rw [tokenize_text, if_pos hcountable]
  cbv

theorem answers_of_cursor_of_slash :
    ∃ T : Listing, T.tokens = slashTokens ∧ ∀ calls,
      (answers call calls (ofSource (.ofString "a /"))).1 =
          (answers (Cursor.call T) calls {}).1 ∧
        (answers call calls (ofSource (.ofString "a /"))).2.view =
          (answers (Cursor.call T) calls {}).2.view ∧
        (answers call calls (ofSource (.ofString "a /"))).2.tokenize =
          .ok ((answers (Cursor.call T) calls {}).2.tokenize T) :=
  answers_of_cursor (Source.reliable_ofString "a /") tokenize_slash

end Tokenizer
end CssLex
