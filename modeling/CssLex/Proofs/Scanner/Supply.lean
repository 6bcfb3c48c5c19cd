import CssLex.Proofs.Scanner.Behind
import CssLex.Proofs.Scanner.Unread
import CssLex.Proofs.Source.Decoding

/-! A scanner as a stack in front of a text. Whatever entries are handed back, and in whatever
order, a scanner answers as a stack of deferred entries does that lies in front of the preprocessed
text, until a counter passes the limit. Where only the entry that was read last is handed back, its
counters are those of plain integers. -/

namespace CssLex

/-! ## Moves -/

/-- A call on a scanner. -/
inductive Move where
  | next
  | eat (expected : Char)
  | pushBack (entry : Option Char)
deriving Repr, DecidableEq

/-- What a call answers. -/
inductive Reply where
  | entry (entry : Option Char)
  | eaten (found : Bool)
  | done
deriving Repr, DecidableEq

/-- The entries that were read and not handed back, after one more call with its reply. There is no
such history where another entry than the last one is handed back. -/
def Move.consumed? (history : List (Option Char)) : Move → Reply → Option (List (Option Char))
  | next, .entry entry => some (entry :: history)
  | eat expected, .eaten true => some (some expected :: history)
  | pushBack entry, .done => if history.head? = some entry then some history.tail else none
  | _, _ => some history

/-- The history after some calls with their replies. -/
def consumed? (moves : List Move) (replies : List Reply) (history : List (Option Char)) :
    Option (List (Option Char)) :=
  (moves.zip replies).foldlM (fun history call => call.1.consumed? history call.2) history

/-! ## Counters -/

/-- Offset and line as they are counted under a limit. They do not go below their starts, and it is
noted when one of them passes the limit. -/
structure Gauge where
  offset : Nat := 0
  line : Nat := 1
  passed : Bool := false
deriving Repr, DecidableEq

namespace Gauge

/-- Counts an entry that was read. -/
def read (g : Gauge) : Option Char → Gauge
  | none => g
  | some c =>
    let offset := g.offset + 1
    let line := g.line + if c = '\n' then 1 else 0
    { offset, line, passed := g.passed || characterLimit < offset || characterLimit < line }

/-- Counts an entry that is handed back. -/
def handBack (g : Gauge) : Option Char → Gauge
  | none => g
  | some c =>
    { g with offset := g.offset - 1, line := if c = '\n' then max (g.line - 1) 1 else g.line }

end Gauge

/-- A stack of deferred entries in front of the characters that are left. Offset and line are plain
integers, which are neither cut off at zero nor limited, beside a gauge that is both. -/
structure Supply where
  deferred : List (Option Char) := []
  rest : List Char
  offset : Int := 0
  line : Int := 1
  gauge : Gauge := {}

namespace Supply

/-- The next entry, and the supply without it. -/
def take (m : Supply) : Option Char × Supply :=
  match m.deferred with
  | entry :: deferred => (entry, { m with deferred })
  | [] => (m.rest.head?, { m with rest := m.rest.tail })

/-- Counts an entry so many times. -/
def count (m : Supply) (entry : Option Char) (times : Int) : Supply :=
  { m with
    offset := m.offset + times * entry.toList.length
    line := m.line + times * entry.toList.count '\n' }

/-- The supply behind an entry that was read. -/
def readEntry (m : Supply) (entry : Option Char) : Supply :=
  { m.count entry 1 with gauge := m.gauge.read entry }

/-- Reads the next entry. -/
def next : StateM Supply (Option Char) := fun m => (m.take.1, m.take.2.readEntry m.take.1)

/-- Hands an entry back. -/
def pushBack (entry : Option Char) : StateM Supply Unit := fun m =>
  ((), { m.count entry (-1) with
    deferred := entry :: m.deferred
    gauge := m.gauge.handBack entry })

/-- Reads the next character if it is the expected one. -/
def eat (expected : Char) : StateM Supply Bool := do
  let entry ← next
  if entry = some expected then pure true else pushBack entry; pure false

/-- Answers a call. -/
def perform : Move → StateM Supply Reply
  | .next => .entry <$> next
  | .eat expected => .eaten <$> eat expected
  | .pushBack entry => do pushBack entry; pure .done

/-- Answers calls one after another. -/
def performAll (moves : List Move) : StateM Supply (List Reply) := moves.mapM perform

/-! ### Past the limit -/

section

variable {α β : Type} {q : StateM Supply α}

/-- Once the limit was passed, this stays noted. -/
def Notes (q : StateM Supply α) : Prop :=
  ∀ m, m.gauge.passed = true → (q m).2.gauge.passed = true

theorem Notes.bind {l : α → StateM Supply β} (hq : Notes q) (hl : ∀ a, Notes (l a)) :
    Notes (q >>= l) :=
  fun m hm => hl (q m).1 (q m).2 (hq m hm)

theorem Notes.pure (a : α) : Notes (Pure.pure a) := fun _ hm => hm

theorem Notes.map (hq : Notes q) (f : α → β) : Notes (f <$> q) := fun m hm => hq m hm

theorem next_notes : Notes next := by
  intro m hm
  have htake : m.take.2.gauge = m.gauge := by
    unfold take
    split <;> rfl
  simp only [next, readEntry, htake, Gauge.read]
  cases m.take.1 with
  | none => exact hm
  | some c => simp [hm]

theorem pushBack_notes (entry : Option Char) : Notes (pushBack entry) := by
  intro m hm
  cases entry <;> exact hm

theorem eatEntry_notes (expected : Char) (entry : Option Char) :
    Notes (if entry = some expected then pure true else do pushBack entry; pure false) := by
  split
  · exact .pure true
  · exact (pushBack_notes entry).bind fun _ => .pure false

theorem eat_notes (expected : Char) : Notes (eat expected) :=
  next_notes.bind (eatEntry_notes expected)

theorem perform_notes (move : Move) : Notes (perform move) := by
  cases move with
  | next => exact next_notes.map _
  | eat expected => exact (eat_notes expected).map _
  | pushBack entry => exact (pushBack_notes entry).bind fun _ => .pure _

theorem performAll_notes (moves : List Move) : Notes (performAll moves) := by
  unfold performAll
  induction moves with
  | nil => exact .pure []
  | cons move moves ih =>
      rw [List.mapM_cons]
      exact (perform_notes move).bind fun _ => ih.bind fun _ => .pure _

end

/-! ### Plain integers -/

/-- The counters are those behind the characters of a history. -/
structure Counts (history : List (Option Char)) (m : Supply) : Prop where
  offset : m.offset = (Scanner.charsOf history).length
  line : m.line = 1 + (Scanner.charsOf history).count '\n'

variable {history : List (Option Char)} {m : Supply}

/-- Only offset and line matter. -/
theorem Counts.congr {m' : Supply} (h : m.Counts history) (hoffset : m'.offset = m.offset)
    (hline : m'.line = m.line) : m'.Counts history :=
  ⟨hoffset ▸ h.offset, hline ▸ h.line⟩

theorem Counts.read (h : m.Counts history) (entry : Option Char) :
    (m.count entry 1).Counts (entry :: history) := by
  obtain ⟨hoffset, hline⟩ := h
  constructor
  · rw [Scanner.charsOf_cons, List.length_append, count, hoffset]
    push_cast
    omega
  · rw [Scanner.charsOf_cons, List.count_append, count, hline]
    push_cast
    omega

theorem Counts.pushBack {entry : Option Char} (h : m.Counts (entry :: history)) :
    (m.count entry (-1)).Counts history := by
  obtain ⟨hoffset, hline⟩ := h
  rw [Scanner.charsOf_cons, List.length_append] at hoffset
  rw [Scanner.charsOf_cons, List.count_append] at hline
  push_cast at hoffset hline
  constructor
  · simp only [count, hoffset]
    omega
  · simp only [count, hline]
    omega

end Supply

namespace Scanner

open Scan

/-- Answers a call. -/
def perform : Move → Scan Reply
  | .next => .entry <$> next
  | .eat expected => .eaten <$> eat expected
  | .pushBack entry => do pushBack entry; pure .done

/-- Answers calls one after another. -/
def performAll (moves : List Move) : Scan (List Reply) := moves.mapM perform

variable {α β : Type} {spent : Nat} {history : Option (List (Option Char))} {m : Supply}
  {s : Scanner} {c : Char}

/-! ## One call -/

/-- What is to come is the same for a scanner and for a supply. -/
structure Supplied (m : Supply) (s : Scanner) : Prop where
  reliable : s.source.Reliable
  deferred : s.deferred = m.deferred
  fresh : s.fresh = m.rest

/-- The counters of a scanner are those of a supply, which has not passed the limit. -/
structure Gauged (m : Supply) (s : Scanner) : Prop where
  gauge : m.gauge = { offset := s.position, line := s.line }
  position_le : s.position ≤ characterLimit
  line_le : s.line ≤ characterLimit

/-- The scanner and the supply have come through the same calls, `spent` of them. Where there is a
history, the counters are those of plain integers too. -/
structure Follows (spent : Nat) (history : Option (List (Option Char))) (m : Supply)
    (s : Scanner) : Prop where
  supplied : s.Supplied m
  gauged : s.Gauged m
  position_le : s.position ≤ spent
  line_le : s.line ≤ spent + 1
  behind : ∀ entries, history = some entries → s.Behind 0 0 entries ∧ m.Counts entries

/-- The call comes to the same for a scanner and for a supply, unless a counter passes the limit. -/
inductive Agrees (spent : Nat) (after : α → Option (List (Option Char))) :
    EStateM.Result LexError Scanner α → α × Supply → Prop where
  | ok {a : α} {s : Scanner} {m : Supply} :
      s.Follows spent (after a) m → Agrees spent after (.ok a s) (a, m)
  | tooLong {s : Scanner} {expected : α × Supply} :
      characterLimit ≤ spent → expected.2.gauge.passed = true →
      Agrees spent after (.error .tooLong s) expected

theorem Follows.mono (h : s.Follows spent history m) : s.Follows (spent + 1) history m :=
  ⟨h.supplied, h.gauged, Nat.le_succ_of_le h.position_le, Nat.le_succ_of_le h.line_le, h.behind⟩

theorem Agrees.bind {spent' : Nat} {p : Scan α} {q : StateM Supply α} {k : α → Scan β}
    {l : α → StateM Supply β} {after : α → Option (List (Option Char))}
    {after' : β → Option (List (Option Char))} (hp : Agrees spent after (p s) (q m))
    (hle : spent ≤ spent') (hl : ∀ a, Supply.Notes (l a))
    (hk : ∀ a s' m', s'.Follows spent (after a) m' → Agrees spent' after' (k a s') (l a m')) :
    Agrees spent' after' ((p >>= k) s) ((q >>= l) m) := by
  have hq : (q >>= l) m = l (q m).1 (q m).2 := rfl
  rw [hq]
  simp only [Bind.bind, EStateM.bind]
  generalize p s = first at hp
  generalize q m = second at hp
  cases hp with
  | ok h => exact hk _ _ _ h
  | tooLong h hpassed => exact .tooLong (Nat.le_trans h hle) (hl _ _ hpassed)

theorem Agrees.map {p : Scan α} {q : StateM Supply α} {f : α → β}
    {after : α → Option (List (Option Char))} {after' : β → Option (List (Option Char))}
    (hp : Agrees spent after (p s) (q m)) (hafter : ∀ a, after a = after' (f a)) :
    Agrees spent after' ((f <$> p) s) ((f <$> q) m) := by
  have hq : (f <$> q) m = (f (q m).1, (q m).2) := rfl
  rw [hq]
  simp only [Functor.map, EStateM.map]
  generalize p s = first at hp
  generalize q m = second at hp
  cases hp with
  | ok h => exact .ok (hafter _ ▸ h)
  | tooLong h hpassed => exact .tooLong h hpassed

theorem Supplied.take (h : s.Supplied m) :
    ∃ s', take s = .ok m.take.1 s' ∧ s'.Supplied m.take.2 ∧ s'.position = s.position ∧
      s'.line = s.line := by
  obtain ⟨hreliable, hdeferred, hfresh⟩ := h
  cases hm : m.deferred with
  | cons entry deferred =>
      rw [hm] at hdeferred
      refine ⟨{ s with deferred }, ?_, ?_, rfl, rfl⟩
      · simp only [Scanner.take, hdeferred, Supply.take, hm]
      · simp only [Supply.take, hm]
        exact ⟨hreliable, rfl, hfresh⟩
  | nil =>
      rw [hm] at hdeferred
      obtain ⟨source, afterReturn, hread, hsource, hrest⟩ := readPreprocessed_of_reliable hreliable
      refine ⟨{ s with source, afterReturn }, ?_, ?_, rfl, rfl⟩
      · rw [take_of_deferred_nil hdeferred, hread, hfresh]
        simp only [Supply.take, hm]
      · simp only [Supply.take, hm]
        exact ⟨hsource, hdeferred, by rw [hrest, hfresh]⟩

theorem Follows.take (h : s.Follows spent history m) :
    ∃ s', take s = .ok m.take.1 s' ∧ s'.Follows spent history m.take.2 := by
  obtain ⟨s', htake, hsupplied, hposition, hline⟩ := h.supplied.take
  have hkept : m.take.2.gauge = m.gauge ∧ m.take.2.offset = m.offset ∧ m.take.2.line = m.line := by
    unfold Supply.take
    split <;> exact ⟨rfl, rfl, rfl⟩
  obtain ⟨hgauge, hoffset, hline'⟩ := hkept
  refine ⟨s', htake, hsupplied, ⟨?_, hposition ▸ h.gauged.position_le, hline ▸ h.gauged.line_le⟩,
    hposition ▸ h.position_le, hline ▸ h.line_le, ?_⟩
  · rw [hgauge, h.gauged.gauge, hposition, hline]
  · intro entries hentries
    obtain ⟨hbehind, hcounts⟩ := h.behind entries hentries
    exact ⟨hbehind.congr hposition hline, hcounts.congr hoffset hline'⟩

/-- A character is not counted exactly if the gauge passes the limit. -/
theorem Gauged.passed_iff (h : s.Gauged m) :
    (m.gauge.read (some c)).passed = true ↔ s.Full c := by
  have hposition := h.position_le
  have hline := h.line_le
  rw [h.gauge]
  simp only [Gauge.read, Full, Bool.false_or, Bool.or_eq_true, decide_eq_true_eq]
  by_cases hc : c = '\n'
  · simp only [hc, if_true, true_and]
    omega
  · simp only [hc, if_false, false_and, or_false, Nat.add_zero]
    omega

/-- A character that is counted joins the history. -/
theorem Follows.advanced (h : s.Follows spent history m) (hroom : ¬ s.Full c) :
    (s.advanced c).Follows (spent + 1) (history.map (some c :: ·)) (m.readEntry (some c)) := by
  have hpassed := Bool.eq_false_iff.mpr (h.gauged.passed_iff.not.mpr hroom)
  obtain ⟨⟨hreliable, hdeferred, hfresh⟩, hgauged, hposition, hline, hbehind⟩ := h
  refine ⟨⟨hreliable, hdeferred, hfresh⟩, ⟨?_, ?_, ?_⟩, Nat.succ_le_succ hposition, ?_, ?_⟩
  · rw [hgauged.gauge] at hpassed
    simp only [Supply.readEntry, hgauged.gauge, Gauge.read, Scanner.advanced, Gauge.mk.injEq]
    exact ⟨trivial, trivial, hpassed⟩
  · exact Nat.lt_of_le_of_ne hgauged.position_le fun hlimit => hroom (.inl hlimit)
  · change (s.line + if c = '\n' then 1 else 0) ≤ _
    split
    · next hc => exact Nat.lt_of_le_of_ne hgauged.line_le fun hlimit => hroom (.inr ⟨hc, hlimit⟩)
    · exact hgauged.line_le
  · change (s.line + if c = '\n' then 1 else 0) ≤ _
    split <;> omega
  · intro entries hentries
    obtain ⟨before, hbefore, rfl⟩ := Option.map_eq_some_iff.mp hentries
    obtain ⟨hbehind, hcounts⟩ := hbehind before hbefore
    exact ⟨hbehind.advanced hroom, (hcounts.read (some c)).congr rfl rfl⟩

/-- So does the end of the input, which is not counted. -/
theorem Follows.ended (h : s.Follows spent history m) :
    s.Follows (spent + 1) (history.map (none :: ·)) (m.readEntry none) := by
  obtain ⟨⟨hreliable, hdeferred, hfresh⟩, ⟨hgauge, hle, hline_le⟩, hposition, hline, hbehind⟩ := h
  refine ⟨⟨hreliable, hdeferred, hfresh⟩, ⟨hgauge, hle, hline_le⟩, by omega, by omega, ?_⟩
  intro entries hentries
  obtain ⟨before, hbefore, rfl⟩ := Option.map_eq_some_iff.mp hentries
  obtain ⟨hbehind, hcounts⟩ := hbehind before hbefore
  exact ⟨hbehind.none, (hcounts.read none).congr rfl rfl⟩

/-- A counter is at its limit only after as many calls. -/
theorem Follows.spent_of_full (h : s.Follows spent history m) (hfull : s.Full c) :
    characterLimit ≤ spent + 1 := by
  have hposition := h.position_le
  have hline := h.line_le
  rcases hfull with hfull | ⟨-, hfull⟩ <;> omega

theorem Follows.next (h : s.Follows spent history m) :
    Agrees (spent + 1) (fun entry => history.map (entry :: ·)) (next s) (Supply.next m) := by
  obtain ⟨s', htake, hfollows⟩ := h.take
  unfold Supply.next
  cases hentry : m.take.1 with
  | none =>
      rw [hentry] at htake
      rw [next_of_take_none htake]
      exact .ok hfollows.ended
  | some c =>
      rw [hentry] at htake
      by_cases hfull : s'.Full c
      · obtain ⟨s'', hnext⟩ := next_of_full htake hfull
        rw [hnext]
        exact .tooLong (hfollows.spent_of_full hfull) (hfollows.gauged.passed_iff.mpr hfull)
      · rw [next_of_room htake hfull]
        exact .ok (hfollows.advanced hfull)

/-- Handing back counts as it does for the gauge, whatever the entry is. -/
theorem Gauged.pushBack (h : s.Gauged m) (entry : Option Char) :
    ∃ position line, pushBack entry s =
        .ok () { s with deferred := entry :: s.deferred, position, line } ∧
      ({ s with deferred := entry :: s.deferred, position, line } : Scanner).Gauged
        (Supply.pushBack entry m).2 ∧
      position ≤ s.position ∧ line ≤ max s.line 1 := by
  obtain ⟨hgauge, hle, hline_le⟩ := h
  cases entry with
  | none =>
      exact ⟨s.position, s.line, rfl, ⟨hgauge, hle, hline_le⟩, Nat.le_refl _, Nat.le_max_left ..⟩
  | some c =>
      have hlower : (if c = '\n' then max (s.line - 1) 1 else s.line) ≤ max s.line 1 := by
        split <;> omega
      have hlimit : max s.line 1 ≤ characterLimit :=
        Nat.max_le.mpr ⟨hline_le, Nat.le_of_ble_eq_true rfl⟩
      refine ⟨_, _, rfl, ⟨?_, ?_, Nat.le_trans hlower hlimit⟩, Nat.sub_le .., hlower⟩
      · simp only [Supply.pushBack, hgauge, Gauge.handBack]
      · exact Nat.le_trans (Nat.sub_le ..) hle

/-- Handing back puts the entry on the stack, whatever it is. If it is the last one of the history,
then no subtraction is cut off. -/
theorem Follows.pushBack (h : s.Follows spent history m) (entry : Option Char) :
    Agrees spent (fun _ => history.bind (Move.consumed? · (.pushBack entry) .done))
      (pushBack entry s) (Supply.pushBack entry m) := by
  obtain ⟨⟨hreliable, hdeferred, hfresh⟩, hgauged, hposition, hline, hbehind⟩ := h
  obtain ⟨position, line, hback, hgauged, hle, hline_le⟩ := hgauged.pushBack entry
  rw [hback]
  refine .ok ⟨⟨hreliable, ?_, hfresh⟩, hgauged, Nat.le_trans hle hposition, ?_, ?_⟩
  · rw [hdeferred]
  · exact Nat.le_trans hline_le (Nat.max_le.mpr ⟨hline, Nat.le_add_left 1 spent⟩)
  · intro entries hentries
    obtain ⟨before, hbefore, hlast⟩ := Option.bind_eq_some_iff.mp hentries
    obtain ⟨hhead, htail⟩ : before.head? = some entry ∧ before.tail = entries := by
      simpa [Move.consumed?] using hlast
    obtain ⟨rest, rfl⟩ := List.head?_eq_some_iff.mp hhead
    obtain rfl : rest = entries := htail
    obtain ⟨hbehind, hcounts⟩ := hbehind _ hbefore
    obtain ⟨position', line', hback', hbehind'⟩ := hbehind.pushBack
    rw [hback] at hback'
    obtain ⟨rfl, rfl⟩ : position = position' ∧ line = line' := by simpa using hback'
    exact ⟨hbehind', hcounts.pushBack.congr rfl rfl⟩

theorem Follows.eat (h : s.Follows spent history m) (expected : Char) :
    Agrees (spent + 1) (fun found => history.bind (Move.consumed? · (.eat expected) (.eaten found)))
      (eat expected s) (Supply.eat expected m) := by
  refine h.next.bind (Nat.le_refl _) (Supply.eatEntry_notes expected) fun entry s' m' hread => ?_
  by_cases hentry : entry = some expected
  · rw [if_pos hentry, if_pos hentry]
    refine .ok ?_
    rw [hentry] at hread
    cases history <;> exact hread
  · rw [if_neg hentry, if_neg hentry]
    refine (hread.pushBack entry).bind (Nat.le_refl _) (fun _ => .pure false)
      fun _ s'' m'' hback => .ok ?_
    cases history <;> simpa [Move.consumed?] using hback

/-- A call makes the same of a scanner and of a supply. -/
theorem Follows.perform (h : s.Follows spent history m) (move : Move) :
    Agrees (spent + 1) (fun reply => history.bind (move.consumed? · reply))
      (perform move s) (Supply.perform move m) := by
  cases move with
  | next =>
      refine h.next.map fun entry => ?_
      cases history <;> rfl
  | eat expected => exact (h.eat expected).map fun _ => rfl
  | pushBack entry =>
      exact (h.pushBack entry).bind (Nat.le_succ _) (fun _ => .pure Reply.done)
        fun _ _ _ hback => .ok hback.mono

/-! ## Any number of calls -/

theorem Follows.performAll (h : s.Follows spent history m) (moves : List Move) :
    Agrees (spent + moves.length) (fun replies => history.bind (consumed? moves replies))
      (performAll moves s) (Supply.performAll moves m) := by
  unfold Scanner.performAll Supply.performAll
  induction moves generalizing spent history m s with
  | nil =>
      rw [List.mapM_nil, List.mapM_nil]
      refine .ok ?_
      cases history <;> exact h
  | cons move moves ih =>
      rw [List.mapM_cons, List.mapM_cons]
      have hnotes (reply : Reply) : Supply.Notes (do
          let replies ← moves.mapM Supply.perform
          pure (reply :: replies)) :=
        (Supply.performAll_notes moves).bind fun _ => .pure _
      refine (h.perform move).bind (by simp) hnotes fun reply s₁ m₁ h₁ => ?_
      have hlength : spent + 1 + moves.length = spent + (move :: moves).length := by
        rw [List.length_cons]
        omega
      refine (ih h₁).bind (Nat.le_of_eq hlength) (fun _ => .pure _) fun replies s₂ m₂ h₂ => ?_
      rw [hlength, Option.bind_assoc] at h₂
      exact .ok h₂

/-- A scanner over a source that does not fail answers as a stack does that lies in front of the
preprocessed characters, keeps as many entries, and counts as the gauge of the stack does. It gives
up exactly where the gauge passes the limit, which takes the largest number of calls. If nothing but
the entry that was read last is ever handed back, then offset and line count the characters that
were read and not handed back, as plain integers do. -/
theorem performAll_refines (source : Source) (hsource : source.Reliable) (moves : List Move) :
    (∀ replies s, performAll moves { source } = .ok replies s →
      replies = (Supply.performAll moves { rest := normalize source.chars }).1 ∧
      s.pending = (Supply.performAll moves { rest := normalize source.chars }).2.deferred.length ∧
      (Supply.performAll moves { rest := normalize source.chars }).2.gauge =
        { offset := s.position, line := s.line } ∧
      ∀ history, consumed? moves replies [] = some history →
        s.position = (charsOf history).length ∧
        s.line = 1 + (charsOf history).count '\n' ∧
        s.position = (Supply.performAll moves { rest := normalize source.chars }).2.offset ∧
        s.line = (Supply.performAll moves { rest := normalize source.chars }).2.line) ∧
    (∀ e s, performAll moves { source } = .error e s →
      e = .tooLong ∧ characterLimit ≤ moves.length) ∧
    ((∃ e s, performAll moves { source } = .error e s) ↔
      (Supply.performAll moves { rest := normalize source.chars }).2.gauge.passed = true) := by
  have hlimit : 1 ≤ characterLimit := Nat.le_of_ble_eq_true rfl
  have hstart : ({ source } : Scanner).Follows 0 (some []) { rest := normalize source.chars } := by
    refine ⟨⟨hsource, rfl, rfl⟩, ⟨rfl, Nat.zero_le _, hlimit⟩, Nat.le_refl _, Nat.le_refl _, ?_⟩
    rintro _ ⟨⟩
    exact ⟨⟨rfl, rfl, Nat.zero_le _, hlimit⟩, rfl, rfl⟩
  have hagrees := hstart.performAll moves
  rw [Nat.zero_add] at hagrees
  generalize performAll moves { source } = result at hagrees
  generalize Supply.performAll moves { rest := normalize source.chars } = expected at hagrees
  cases hagrees with
  | tooLong h hpassed =>
      refine ⟨nofun, ?_, iff_of_true ⟨_, _, rfl⟩ hpassed⟩
      rintro _ _ ⟨⟩
      exact ⟨rfl, h⟩
  | ok h =>
      refine ⟨?_, nofun, iff_of_false nofun ?_⟩
      · rintro _ _ ⟨⟩
        refine ⟨rfl, congrArg List.length h.supplied.deferred, h.gauged.gauge, ?_⟩
        intro history hhistory
        obtain ⟨hbehind, hcounts⟩ := h.behind history hhistory
        have hposition := hbehind.position
        have hline := hbehind.line
        rw [Nat.zero_add] at hposition
        refine ⟨hposition, hline, ?_, ?_⟩
        · rw [hcounts.offset, hposition]
        · rw [hcounts.line, hline]
          push_cast
          rfl
      · rw [h.gauged.gauge]
        exact Bool.false_ne_true

/-- A line end that is cut in two. -/
def splitBreak : List Delivery := [.bytes [0x0D], .interrupted, .bytes [0x0A, 0x78]]

/-- Hands a line feed back between a carriage return and its line feed, and the end of the input
below a character. -/
def handBacks : List Move :=
  [.next, .pushBack (some '\n'), .next, .eat 'y', .next, .next, .pushBack none,
    .pushBack (some 'x'), .eat 'x']

theorem performAll_refines_of_splitBreak :
    ByteReader.Reliable splitBreak ∧
      ∃ s, performAll handBacks { source := .ofDeliveries 4 splitBreak } =
          .ok [.entry (some '\n'), .done, .entry (some '\n'), .eaten false, .entry (some 'x'),
            .entry none, .done, .done, .eaten true] s ∧
        s.pending = 1 ∧ s.position = 2 ∧ s.line = 2 := by
  have hreliable : ByteReader.Reliable splitBreak := by simp [ByteReader.Reliable, splitBreak]
  have hchars : (Source.ofDeliveries 4 splitBreak).chars = ['\r', '\n', 'x'] :=
    Source.chars_ofDeliveries 4 hreliable (by decide)
  have hexpected : Supply.performAll handBacks { rest := normalize ['\r', '\n', 'x'] } =
      ([.entry (some '\n'), .done, .entry (some '\n'), .eaten false, .entry (some 'x'),
        .entry none, .done, .done, .eaten true],
        { deferred := [none], rest := [], offset := 2, line := 2,
          gauge := { offset := 2, line := 2 } }) := by rfl
  obtain ⟨hok, herror, -⟩ := performAll_refines (.ofDeliveries 4 splitBreak) hreliable handBacks
  rw [hchars, hexpected] at hok
  refine ⟨hreliable, ?_⟩
  cases hresult : performAll handBacks { source := .ofDeliveries 4 splitBreak } with
  | error e s => exact absurd (herror e s hresult).2 (by simp [handBacks, characterLimit])
  | ok replies s =>
      obtain ⟨rfl, hpending, -, hcounted⟩ := hok replies s hresult
      obtain ⟨hposition, hline, -⟩ := hcounted [some 'x', some '\n'] (by rfl)
      exact ⟨s, rfl, hpending, hposition, hline⟩

end Scanner
end CssLex
