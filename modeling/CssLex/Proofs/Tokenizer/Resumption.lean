import CssLex.Proofs.Production.Tracks
import CssLex.Proofs.Scanner.Account
import CssLex.Proofs.Scanner.Shift
import CssLex.Proofs.Tokenizer.Cursor
import CssLex.Proofs.Tokenizer.Boundary

/-! Tokenizing behind a failed read. The token in progress is lost, and nothing else is: the
tokenizer goes on as one that starts behind the failure, with its offsets and lines moved by what
was read. -/

namespace CssLex.Tokenizer

open Outcomes Scanner

/-! ## Up to a failure -/

/-- The scanner accounts for what its stream has delivered, and only a token that was fetched waits
for its replay. -/
structure Accounts (capacity : Nat) (script : List Delivery) (t : Tokenizer) : Prop where
  account : ∃ history, t.scanner.Account capacity script history
  held : t.replaying = true → t.current.isSome = true

variable {capacity : Nat} {script : List Delivery} {t f : Tokenizer}

theorem fetch_of_current {token : Token} (ht : t.replaying = true)
    (hcurrent : t.current = some token) : t.fetch = .ok token { t with replaying := false } := by
  simp only [fetch, ht, hcurrent]

theorem pushBack_of_replaying (ht : t.replaying = true) :
    t.pushBack = .error .replayPending t := by
  rw [Tokenizer.pushBack, if_pos ht]

theorem pushBack_of_none (ht : t.replaying = false) (hcurrent : t.current = none) :
    t.pushBack = .error .nothingToReplay t := by
  rw [Tokenizer.pushBack, ht, hcurrent]
  rfl

theorem pushBack_of_some {token : Token} (ht : t.replaying = false)
    (hcurrent : t.current = some token) :
    t.pushBack = .ok () { t with replaying := true } := by
  simp [Tokenizer.pushBack, ht, hcurrent]

theorem accounts_start (capacity : Nat) (script : List Delivery) :
    (ofSource (.ofDeliveries capacity script)).Accounts capacity script :=
  ⟨⟨[], account_start capacity script⟩, nofun⟩

/-- Where no token can be fetched, the current token and the replay are what they were. -/
theorem Accounts.fetch (h : t.Accounts capacity script) :
    match t.fetch with
    | .ok _ t' => t'.Accounts capacity script
    | .error e t' => t'.current = t.current ∧ t'.replaying = t.replaying ∧
        (e = .tooLong ∨
          ∃ reason, e = .unreadable reason ∧ t'.scanner.Stopped capacity script reason) := by
  obtain ⟨⟨history, haccount⟩, hheld⟩ := h
  by_cases hreplaying : t.replaying = true
  · obtain ⟨token, hcurrent⟩ := Option.isSome_iff_exists.mp (hheld hreplaying)
    rw [fetch_of_current hreplaying hcurrent]
    exact ⟨⟨history, haccount⟩, nofun⟩
  · have hlexeme := haccount.of_roams Production.lexeme_roams
    rw [fetch_of_not_replaying (Bool.eq_false_iff.mpr hreplaying), scanToken]
    cases hresult : Production.lexeme t.scanner with
    | error e s =>
        rw [hresult] at hlexeme
        exact ⟨rfl, rfl, hlexeme⟩
    | ok l s =>
        rw [hresult] at hlexeme
        exact ⟨hlexeme, fun _ => rfl⟩

/-- A tokenizer goes on behind a failed read. -/
theorem Accounts.failed (h : t.Accounts capacity script) {e : LexError} {t' : Tokenizer}
    (hfailed : t'.current = t.current ∧ t'.replaying = t.replaying ∧
      (e = .tooLong ∨
        ∃ reason, e = .unreadable reason ∧ t'.scanner.Stopped capacity script reason)) :
    e = .tooLong ∨ t'.Accounts capacity script := by
  obtain ⟨hcurrent, hreplaying, hfailed⟩ := hfailed
  refine hfailed.imp_right fun ⟨reason, _, hstopped⟩ => ⟨hstopped.account, ?_⟩
  rw [hcurrent, hreplaying]
  exact h.held

theorem Accounts.next (h : t.Accounts capacity script) :
    match t.next with
    | .ok _ t' => t'.Accounts capacity script
    | .error e t' => e = .tooLong ∨ t'.Accounts capacity script := by
  fun_induction Tokenizer.next t with
  | case1 t e t' hresult =>
      have hfetch := h.fetch
      rw [hresult] at hfetch
      exact h.failed hfetch
  | case2 t token t' hresult _ _ ih =>
      have hfetch := h.fetch
      rw [hresult] at hfetch
      exact ih hfetch
  | case3 t token t' hresult _ =>
      have hfetch := h.fetch
      rw [hresult] at hfetch
      exact hfetch

theorem Accounts.pushBack (h : t.Accounts capacity script) :
    match t.pushBack with
    | .ok _ t' => t'.Accounts capacity script
    | .error _ t' => t'.Accounts capacity script := by
  by_cases hreplaying : t.replaying = true
  · rw [pushBack_of_replaying hreplaying]
    exact h
  · have hreplaying := Bool.eq_false_iff.mpr hreplaying
    cases hcurrent : t.current with
    | none =>
        rw [pushBack_of_none hreplaying hcurrent]
        exact h
    | some token =>
        rw [pushBack_of_some hreplaying hcurrent]
        exact ⟨h.account, fun _ => Option.isSome_iff_exists.mpr ⟨token, hcurrent⟩⟩

/-- A call accounts for what it reads, unless it comes to the limits. -/
theorem Accounts.call (h : t.Accounts capacity script) (c : Call) :
    match call c t with
    | .ok _ t' => t'.Accounts capacity script
    | .error e t' => e = .tooLong ∨ t'.Accounts capacity script := by
  cases c with
  | next =>
      have hnext := h.next
      simp only [Tokenizer.call, Functor.map, EStateM.map]
      cases hresult : t.next <;> rw [hresult] at hnext <;> exact hnext
  | fetch =>
      have hfetch := h.fetch
      simp only [Tokenizer.call, Functor.map, EStateM.map]
      cases hresult : t.fetch with
      | ok token t' =>
          rw [hresult] at hfetch
          exact hfetch
      | error e t' =>
          rw [hresult] at hfetch
          exact h.failed hfetch
  | pushBack =>
      have hback := h.pushBack
      simp only [Tokenizer.call, Bind.bind, EStateM.bind]
      cases hresult : t.pushBack with
      | ok _ t' =>
          rw [hresult] at hback
          exact hback
      | error e t' =>
          rw [hresult] at hback
          exact .inr hback

theorem Accounts.answers (h : t.Accounts capacity script) {calls : List Call}
    (hcounted : .error .tooLong ∉ (answers Tokenizer.call calls t).1) :
    (answers Tokenizer.call calls t).2.Accounts capacity script := by
  induction calls generalizing t with
  | nil => exact h
  | cons c calls ih =>
      have hcall := h.call c
      unfold CssLex.answers at hcounted ⊢
      cases hresult : Tokenizer.call c t with
      | ok answer t' =>
          rw [hresult] at hcall hcounted
          exact ih hcall fun hmem => hcounted (List.mem_cons_of_mem _ hmem)
      | error e t' =>
          rw [hresult] at hcall hcounted
          rcases hcall with rfl | hcall
          · exact absurd List.mem_cons_self hcounted
          · exact ih hcall fun hmem => hcounted (List.mem_cons_of_mem _ hmem)

/-! ## Behind a failure -/

/-- The tokenizer `t` goes on as `f` does, further on. Before its first token `f` has no current
token, whatever the one of `t` is. -/
structure Resumes (offset lines : Nat) (t f : Tokenizer) : Prop where
  ahead : ∃ history, t.scanner.Ahead offset lines history f.scanner
  replaying : t.replaying = f.replaying
  current : f.current = none ∧ f.replaying = false ∨
    ∃ token, f.current = some token ∧ t.current = some (token.moved offset lines)

/-- What a computation comes to in both tokenizers: the same result, further on, or the same
failure, unless the first one has come to the limits. -/
inductive Agrees {α : Type} (offset lines : Nat) (move : α → α) :
    EStateM.Result LexError Tokenizer α → EStateM.Result LexError Tokenizer α → Prop where
  | ok {a : α} {t f : Tokenizer} :
      t.Resumes offset lines f → Agrees offset lines move (.ok (move a) t) (.ok a f)
  | failed {e : LexError} {t f : Tokenizer} :
      t.Resumes offset lines f → Agrees offset lines move (.error e t) (.error e f)
  | beyond {t : Tokenizer} {result : EStateM.Result LexError Tokenizer α} :
      Agrees offset lines move (.error .tooLong t) result

variable {offset lines : Nat}

theorem Agrees.some_map {α : Type} {move : α → α} {p : EStateM LexError Tokenizer α}
    (h : Agrees offset lines move (p t) (p f)) :
    Agrees offset lines (Option.map move) ((some <$> p) t) ((some <$> p) f) := by
  simp only [Functor.map, EStateM.map]
  generalize p t = first at h
  generalize p f = second at h
  cases h with
  | ok h => exact .ok (a := some _) h
  | failed h => exact .failed h
  | beyond => exact .beyond

theorem Agrees.exists_ok {α : Type} {move : α → α} {b : α}
    {result : EStateM.Result LexError Tokenizer α}
    (h : Agrees offset lines move (.ok b t) result) :
    ∃ a f, result = .ok a f ∧ move a = b ∧ t.Resumes offset lines f := by
  cases h with
  | ok h => exact ⟨_, _, rfl, rfl, h⟩

theorem Resumes.scanToken (h : t.Resumes offset lines f) :
    Agrees offset lines (Token.moved offset lines) t.scanToken f.scanToken := by
  obtain ⟨⟨history, hahead⟩, hreplaying, hcurrent⟩ := h
  have hlexeme := hahead.of_roams Production.lexeme_roams
  unfold Tokenizer.scanToken
  cases hresult : Production.lexeme t.scanner with
  | error e s =>
      rw [hresult] at hlexeme
      rcases hlexeme with rfl | ⟨s', history, hresult', hahead'⟩
      · exact .beyond
      · rw [hresult']
        exact .failed ⟨⟨history, hahead'⟩, hreplaying, hcurrent⟩
  | ok l s =>
      rw [hresult] at hlexeme
      obtain ⟨s', history', hresult', hahead'⟩ := hlexeme
      have htoken : (⟨l, ⟨t.scanner.position, s.position⟩, t.scanner.line⟩ : Token) =
          Token.moved offset lines ⟨l, ⟨f.scanner.position, s'.position⟩, f.scanner.line⟩ := by
        rw [Token.moved, hahead.position, hahead'.position, hahead.line]
      rw [hresult']
      simp only [htoken]
      exact .ok ⟨⟨history', hahead'⟩, hreplaying, .inr ⟨_, rfl, rfl⟩⟩

theorem Resumes.fetch (h : t.Resumes offset lines f) :
    Agrees offset lines (Token.moved offset lines) t.fetch f.fetch := by
  by_cases hreplaying : f.replaying = true
  · obtain ⟨token, hcurrent, hcurrent'⟩ := h.current.resolve_left fun hnone => by
      simp [hreplaying] at hnone
    rw [fetch_of_current (h.replaying.trans hreplaying) hcurrent',
      fetch_of_current hreplaying hcurrent]
    exact .ok ⟨h.ahead, rfl, .inr ⟨token, hcurrent, hcurrent'⟩⟩
  · have hreplaying := Bool.eq_false_iff.mpr hreplaying
    rw [fetch_of_not_replaying hreplaying, fetch_of_not_replaying (h.replaying.trans hreplaying)]
    exact h.scanToken

theorem Resumes.next (h : t.Resumes offset lines f) :
    Agrees offset lines (Token.moved offset lines) t.next f.next := by
  fun_induction Tokenizer.next t generalizing f with
  | case1 t e t' hresult =>
      have hfetch := h.fetch
      rw [hresult] at hfetch
      rw [next_eq f]
      generalize f.fetch = second at hfetch
      cases hfetch with
      | failed h' => exact .failed h'
      | beyond => exact .beyond
  | case2 t token t' hresult hskip _ ih =>
      have hfetch := h.fetch
      rw [hresult] at hfetch
      obtain ⟨token', f', hresult', rfl, h'⟩ := hfetch.exists_ok
      rw [next_of_skipped hresult' hskip]
      exact ih h'
  | case3 t token t' hresult hkeep =>
      have hfetch := h.fetch
      rw [hresult] at hfetch
      obtain ⟨token', f', hresult', rfl, h'⟩ := hfetch.exists_ok
      rw [next_of_kept hresult' hkeep]
      exact .ok h'

/-- A tokenizer that starts has no token to hand back. -/
theorem Resumes.pushBack (h : t.Resumes offset lines f) :
    f.pushBack = .error .nothingToReplay f ∨
      Agrees offset lines id t.pushBack f.pushBack := by
  by_cases hreplaying : f.replaying = true
  · rw [pushBack_of_replaying hreplaying, pushBack_of_replaying (h.replaying.trans hreplaying)]
    exact .inr (.failed h)
  · have hreplaying := Bool.eq_false_iff.mpr hreplaying
    rcases h.current with ⟨hnone, -⟩ | ⟨token, hcurrent, hcurrent'⟩
    · exact .inl (pushBack_of_none hreplaying hnone)
    · rw [pushBack_of_some hreplaying hcurrent,
        pushBack_of_some (h.replaying.trans hreplaying) hcurrent']
      exact .inr (.ok (a := ()) ⟨h.ahead, rfl, .inr ⟨token, hcurrent, hcurrent'⟩⟩)

/-- A call is answered as it is at the start. -/
theorem Resumes.call (h : t.Resumes offset lines f) (c : Call) :
    call c f = .error .nothingToReplay f ∨
      Agrees offset lines (Option.map (Token.moved offset lines)) (call c t) (call c f) := by
  cases c with
  | next => exact .inr h.next.some_map
  | fetch => exact .inr h.fetch.some_map
  | pushBack =>
      simp only [Tokenizer.call, Bind.bind, EStateM.bind]
      rcases h.pushBack with hnothing | hback
      · exact .inl (by rw [hnothing])
      · refine .inr ?_
        generalize t.pushBack = first at hback
        generalize f.pushBack = second at hback
        cases hback with
        | ok h' => exact .ok (a := none) h'
        | failed h' => exact .failed h'
        | beyond => exact .beyond

/-- An answer further on. -/
def movedAnswer (offset lines : Nat) (answer : Except LexError (Option Token)) :
    Except LexError (Option Token) :=
  answer.map (Option.map (Token.moved offset lines))

/-- Calls are answered as they are at the start, further on. -/
theorem Resumes.answers (h : t.Resumes offset lines f) {calls : List Call}
    (ht : .error .tooLong ∉ (answers Tokenizer.call calls t).1)
    (hf : .error .nothingToReplay ∉ (answers Tokenizer.call calls f).1) :
    (answers Tokenizer.call calls t).1 =
      (answers Tokenizer.call calls f).1.map (movedAnswer offset lines) := by
  induction calls generalizing t f with
  | nil => rfl
  | cons c calls ih =>
      have hcall := h.call c
      unfold CssLex.answers at ht hf ⊢
      generalize Tokenizer.call c t = first at hcall ht
      generalize hsecond : Tokenizer.call c f = second at hcall hf
      rcases hcall with rfl | hcall
      · exact absurd List.mem_cons_self hf
      · cases hcall with
        | beyond => exact absurd List.mem_cons_self ht
        | ok h' | failed h' =>
            have hrest := ih h' (fun hmem => ht (List.mem_cons_of_mem _ hmem))
              fun hmem => hf (List.mem_cons_of_mem _ hmem)
            simp only [hrest, List.map_cons]
            rfl

/-- Behind a failed read a tokenizer goes on as one that starts with what is left. -/
theorem resumes_of_stopped {before : List (Except String Char)} {after : List Delivery}
    {source : Source} {t : Tokenizer} (ht : t.replaying = false)
    (hscanner : t.scanner = {
      source := .ofDeliveries capacity after
      position := (normalize (chars before)).length
      line := 1 + (normalize (chars before)).count '\n'
      afterReturn := (chars before).getLast? == some '\r' })
    (hposition : t.scanner.position ≤ characterLimit) (hline : t.scanner.line ≤ characterLimit)
    (hsource : source.outcomes =
      if (chars before).getLast? = some '\r' then
        withoutLineFeed (Source.ofDeliveries capacity after).outcomes
      else (Source.ofDeliveries capacity after).outcomes) :
    t.Resumes (normalize (chars before)).length ((normalize (chars before)).count '\n')
      (ofSource source) := by
  have hupcoming : t.scanner.upcoming = (ofSource source).scanner.upcoming := by
    rw [hscanner, upcoming, upcoming]
    change _ = preprocessed false source.outcomes
    rw [hsource]
    by_cases hreturn : (chars before).getLast? = some '\r'
    · rw [if_pos hreturn, beq_iff_eq.mpr hreturn, preprocessed_withoutLineFeed]
    · rw [if_neg hreturn, beq_eq_false_iff_ne.mpr hreturn]
  refine ⟨⟨[], ?_, hupcoming, ⟨?_, ?_, hposition, hline⟩, rfl, rfl, Nat.zero_le _,
    Nat.le_of_ble_eq_true rfl⟩, ht, .inl ⟨rfl, rfl⟩⟩
  · rw [hscanner]
    rfl
  · rw [hscanner]
    rfl
  · rw [hscanner]
    rfl

/-- Tokenizing goes on behind a failed read. The current token and the replay are what they were,
nothing is pushed back, and the offset and the line count what the stream has delivered. From there
on the answers are those of a tokenizer that starts with what is left of the stream, where the line
feed of a carriage return is left out, further on by the characters and lines before. -/
theorem fetch_resumes (capacity : Nat) (script : List Delivery) (calls : List Call)
    {reason : String} {t' : Tokenizer}
    (hcounted : .error .tooLong ∉
      (answers call calls (ofSource (.ofDeliveries capacity script))).1)
    (hfetch : (answers call calls (ofSource (.ofDeliveries capacity script))).2.fetch =
      .error (.unreadable reason) t') :
    let t := (answers call calls (ofSource (.ofDeliveries capacity script))).2
    t'.current = t.current ∧ t'.replaying = t.replaying ∧
    ∃ before after, .failed reason :: after <:+ script ∧
      (Source.ofDeliveries capacity script).outcomes =
        before ++ .error reason :: (Source.ofDeliveries capacity after).outcomes ∧
      let raw := chars before
      let text := normalize raw
      let coming := if raw.getLast? = some '\r' then
          withoutLineFeed (Source.ofDeliveries capacity after).outcomes
        else (Source.ofDeliveries capacity after).outcomes
      t'.scanner = {
        source := .ofDeliveries capacity after
        deferred := []
        position := text.length
        line := 1 + text.count '\n'
        afterReturn := raw.getLast? == some '\r' } ∧
      (∃ rest, (Source.ofDeliveries capacity rest).outcomes = coming) ∧
      ∀ source : Source, source.outcomes = coming → ∀ more,
        .error .tooLong ∉ (answers call more t').1 →
        .error .nothingToReplay ∉ (answers call more (ofSource source)).1 →
          (answers call more t').1 = (answers call more (ofSource source)).1.map
            (movedAnswer text.length (text.count '\n')) := by
  have haccounts := (accounts_start capacity script).answers hcounted
  have hstopped := haccounts.fetch
  rw [hfetch] at hstopped
  obtain ⟨hcurrent, hreplaying, hfailed⟩ := hstopped
  obtain ⟨reason', hreason, hstopped⟩ := hfailed.resolve_left nofun
  cases hreason
  obtain ⟨⟨history, haccount⟩, before, after, hsuffix, houtcomes, hscanner⟩ := hstopped
  refine ⟨hcurrent, hreplaying, before, after, hsuffix, houtcomes, hscanner,
    ⟨_, Source.outcomes_ofOutcome capacity _⟩, ?_⟩
  -- a token that waits for its replay is fetched without a read
  have hreplay : t'.replaying = false := by
    rw [hreplaying, Bool.eq_false_iff]
    intro hreplay
    obtain ⟨token, htoken⟩ := Option.isSome_iff_exists.mp (haccounts.held hreplay)
    rw [fetch_of_current hreplay htoken] at hfetch
    cases hfetch
  -- a stream with what is left may be any source: only what it comes to matters
  intro source hsource more hlimits hreplays
  exact (resumes_of_stopped hreplay hscanner haccount.behind.position_le haccount.behind.line_le
    hsource).answers hlimits hreplays

/-- A line end whose two characters a failure stands between, behind a name. -/
def splitDeliveries : List Delivery :=
  [.bytes [0x61, 0x0D], .failed "reset", .bytes [0x0A, 0x2F]]

/-- The tokenizer behind the failure. -/
def splitFailed : Tokenizer where
  scanner := {
    source := .ofDeliveries 4 [.bytes [0x0A, 0x2F]]
    position := 2
    line := 2
    afterReturn := true }
  current := some ⟨.ofText .ident ['a'], ⟨0, 1⟩, 1⟩

theorem fetch_resumes_of_splitDeliveries :
    .error .tooLong ∉ (answers call [.fetch] (ofSource (.ofDeliveries 4 splitDeliveries))).1 ∧
      (answers call [.fetch] (ofSource (.ofDeliveries 4 splitDeliveries))).2.fetch =
        .error (.unreadable "reset") splitFailed ∧
      .error .tooLong ∉ (answers call [.fetch] splitFailed).1 ∧
      .error .nothingToReplay ∉ (answers call [.fetch] (ofString "/")).1 ∧
      (answers call [.fetch] splitFailed).1 =
        (answers call [.fetch] (ofString "/")).1.map (movedAnswer 2 1) := by
  have hgiven : (answers call [.fetch] (ofSource (.ofDeliveries 4 splitDeliveries))).1 =
      [.ok (some ⟨.ofText .ident ['a'], ⟨0, 1⟩, 1⟩)] := by cbv
  have hcounted : .error .tooLong ∉
      (answers call [.fetch] (ofSource (.ofDeliveries 4 splitDeliveries))).1 := by
    simp [hgiven]
  have hfetch : (answers call [.fetch] (ofSource (.ofDeliveries 4 splitDeliveries))).2.fetch =
      .error (.unreadable "reset") splitFailed := by cbv
  have hanswers : (answers call [.fetch] splitFailed).1 =
      [.ok (some ⟨.ofDelim '/', ⟨2, 3⟩, 2⟩)] := by cbv
  have hstart : (answers call [.fetch] (ofString "/")).1 =
      [.ok (some ⟨.ofDelim '/', ⟨0, 1⟩, 1⟩)] := by cbv
  have hlimits : .error .tooLong ∉ (answers call [.fetch] splitFailed).1 := by simp [hanswers]
  have hreplays : .error .nothingToReplay ∉ (answers call [.fetch] (ofString "/")).1 := by
    simp [hstart]
  obtain ⟨-, -, before, after, hsuffix, houtcomes, hscanner, -, hrest⟩ :=
    fetch_resumes 4 splitDeliveries [.fetch] hcounted hfetch
  have hafter : after = [.bytes [0x0A, 0x2F]] := by
    simpa [splitDeliveries, List.suffix_cons_iff] using hsuffix
  subst hafter
  have hall : (Source.ofDeliveries 4 splitDeliveries).outcomes =
      [.ok 'a', .ok '\r', .error "reset", .ok '\n', .ok '/'] := by cbv
  have hcoming : (Source.ofDeliveries 4 [.bytes [0x0A, 0x2F]]).outcomes =
      [.ok '\n', .ok '/'] := by cbv
  rw [hall, hcoming] at houtcomes
  have hsplit : [Except.ok 'a', Except.ok '\r'] ++ [.error "reset", .ok '\n', .ok '/'] =
      before ++ [.error "reset", .ok '\n', .ok '/'] := houtcomes
  have hbefore : before = [.ok 'a', .ok '\r'] := (List.append_cancel_right hsplit).symm
  subst hbefore
  have hsource : (Source.ofString "/").outcomes = [.ok '/'] := by cbv
  refine ⟨hcounted, hfetch, hlimits, hreplays, hrest (.ofString "/") ?_ [.fetch] hlimits hreplays⟩
  rw [hcoming, hsource]
  rfl

end CssLex.Tokenizer
