import CssLex.Scanner.Loop

/-! Two scanners in step. A scan moves a scanner by reading entries and by handing back entries that
it has read, the last one first. So it comes to the same in two scanners whose entries correspond,
and a failure strikes both at the same entry. -/

namespace CssLex

namespace Scan

variable {α β : Type}

/-- How two scanners may correspond. A history holds the entries that were read and not handed
back, the last one in front. -/
structure Pairing where
  /-- Both stand behind this history. -/
  Along : List (Option Char) → Scanner → Scanner → Prop
  /-- Both have failed. -/
  Failed : LexError → Scanner → Scanner → Prop
  /-- The first one has failed, whatever the second one has done. -/
  Alone : LexError → Scanner → Prop

/-- What a scan comes to in two scanners. With a result it leaves entries in front of the history
that it does not reach into. -/
inductive Pairing.Comes (P : Pairing) (left : α → List (Option Char) → Prop)
    (history : List (Option Char)) :
    EStateM.Result LexError Scanner α → EStateM.Result LexError Scanner α → Prop where
  | ok {a : α} {kept : List (Option Char)} {s f : Scanner} :
      left a kept → P.Along (kept ++ history) s f → Comes P left history (.ok a s) (.ok a f)
  | failed {e : LexError} {s f : Scanner} :
      P.Failed e s f → Comes P left history (.error e s) (.error e f)
  | alone {e : LexError} {s : Scanner} {result : EStateM.Result LexError Scanner α} :
      P.Alone e s → Comes P left history (.error e s) result

/-- Reading an entry and handing back the last one go in step. -/
structure Pairing.InStep (P : Pairing) : Prop where
  next : ∀ {history : List (Option Char)} {s f : Scanner}, P.Along history s f →
    P.Comes (fun entry kept => kept = [entry]) history (Scanner.next s) (Scanner.next f)
  pushBack : ∀ {entry : Option Char} {history : List (Option Char)} {s f : Scanner},
    P.Along (entry :: history) s f →
      P.Comes (fun _ kept => kept = []) history (Scanner.pushBack entry s)
        (Scanner.pushBack entry f)

/-- Behind the entries `given` the scan goes in step, and with the result `a` it leaves entries of
which `left a` holds. -/
def Tracks (given : List (Option Char)) (p : Scan α) (left : α → List (Option Char) → Prop) :
    Prop :=
  ∀ P : Pairing, P.InStep → ∀ history s f, P.Along (given ++ history) s f →
    P.Comes left history (p s) (p f)

/-- The scan goes in step and hands back nothing but what it has read itself. -/
def Roams (p : Scan α) : Prop := ∀ given, Tracks given p fun _ _ => True

/-- The scan goes in step, and where it gives nothing it has handed back all that it has read. -/
def Declines (p : Scan (Option α)) : Prop :=
  ∀ given, Tracks given p fun result kept => result = none → kept = given

variable {given : List (Option Char)} {p : Scan α} {k : α → Scan β}
  {left left' : α → List (Option Char) → Prop} {after : β → List (Option Char) → Prop}

/-! ## Composing scans -/

theorem Tracks.pure {a : α} (h : left a given) : Tracks given (Pure.pure a) left :=
  fun _ _ _ _ _ hs => .ok h hs

/-- Entries of the history can be counted among those that are left. -/
theorem Pairing.Comes.shift {P : Pairing} {history : List (Option Char)}
    {first second : EStateM.Result LexError Scanner α}
    (h : P.Comes left (given ++ history) first second)
    (hleft : ∀ a kept, left a kept → left' a (kept ++ given)) :
    P.Comes left' history first second := by
  cases h with
  | ok hkept halong =>
      rw [← List.append_assoc] at halong
      exact .ok (hleft _ _ hkept) halong
  | failed hfailed => exact .failed hfailed
  | alone halone => exact .alone halone

theorem Tracks.mono (hp : Tracks given p left) (h : ∀ a kept, left a kept → left' a kept) :
    Tracks given p left' := by
  intro P hP history s f hs
  have hcomes : P.Comes left ([] ++ history) (p s) (p f) := hp P hP history s f hs
  exact hcomes.shift fun a kept hkept => (List.append_nil kept).symm ▸ h a kept hkept

theorem Tracks.bind (hp : Tracks given p left)
    (hk : ∀ a kept, left a kept → Tracks kept (k a) after) : Tracks given (p >>= k) after := by
  intro P hP history s f hs
  have hcomes := hp P hP history s f hs
  simp only [Bind.bind, EStateM.bind]
  generalize p s = first at hcomes
  generalize p f = second at hcomes
  cases hcomes with
  | ok hleft halong => exact hk _ _ hleft P hP history _ _ halong
  | failed hfailed => exact .failed hfailed
  | alone halone => exact .alone halone

theorem Roams.bind (hp : Roams p) (hk : ∀ a kept, Tracks kept (k a) after) :
    Tracks given (p >>= k) after :=
  (hp given).bind fun a kept _ => hk a kept

theorem Declines.roams {p : Scan (Option α)} (hp : Declines p) : Roams p :=
  fun given => (hp given).mono fun _ _ _ => trivial

theorem Declines.bind {p : Scan (Option α)} {k : Option α → Scan β} (hp : Declines p)
    (hsome : ∀ a kept, Tracks kept (k (some a)) after) (hnone : Tracks given (k none) after) :
    Tracks given (p >>= k) after := by
  refine (hp given).bind fun result kept hkept => ?_
  cases result with
  | some a => exact hsome a kept
  | none => exact hkept rfl ▸ hnone

end Scan

/-! ## Single entries -/

namespace Scanner

open Scan

variable {β : Type} {given : List (Option Char)} {after : β → List (Option Char) → Prop}

theorem next_tracks : Tracks given next fun entry kept => kept = entry :: given :=
  fun _ hP _ _ _ hs => (hP.next hs).shift fun _ _ hkept => hkept ▸ rfl

theorem pushBack_tracks (entry : Option Char) :
    Tracks (entry :: given) (pushBack entry) fun _ kept => kept = given :=
  fun _ hP _ _ _ hs => (hP.pushBack hs).shift fun _ _ hkept => hkept ▸ rfl

theorem next_bind {k : Option Char → Scan β}
    (hk : ∀ entry, Tracks (entry :: given) (k entry) after) : Tracks given (next >>= k) after :=
  next_tracks.bind fun entry _ hkept => hkept ▸ hk entry

theorem pushBack_bind {entry : Option Char} {k : Unit → Scan β} (hk : Tracks given (k ()) after) :
    Tracks (entry :: given) (pushBack entry >>= k) after :=
  (pushBack_tracks entry).bind fun _ _ hkept => hkept ▸ hk

theorem takeIf_tracks (accept : Char → Bool) : Tracks given (takeIf accept) fun result kept =>
    kept = (result.map some).toList ++ given ∧ ∀ c, result = some c → accept c = true := by
  refine next_bind fun entry => ?_
  cases entry with
  | none => exact pushBack_bind (.pure ⟨rfl, nofun⟩)
  | some c =>
      by_cases hc : accept c = true
      · simp only [hc, if_true]
        exact .pure ⟨rfl, fun d hd => Option.some.inj hd ▸ hc⟩
      · simp only [hc]
        exact pushBack_bind (.pure ⟨rfl, nofun⟩)

theorem takeIf_bind {accept : Char → Bool} {k : Option Char → Scan β}
    (hsome : ∀ c, accept c = true → Tracks (some c :: given) (k (some c)) after)
    (hnone : Tracks given (k none) after) : Tracks given (takeIf accept >>= k) after := by
  refine (takeIf_tracks accept).bind ?_
  rintro result _ ⟨rfl, haccept⟩
  cases result with
  | none => exact hnone
  | some c => exact hsome c (haccept c rfl)

theorem takeIf_declines (accept : Char → Bool) : Declines (takeIf accept) := by
  refine fun given => (takeIf_tracks accept).mono ?_
  rintro _ _ ⟨rfl, -⟩ rfl
  rfl

theorem eat_tracks (c : Char) : Tracks given (eat c) fun eaten kept =>
    kept = if eaten then some c :: given else given := by
  refine next_bind fun entry => ?_
  split
  · next hentry => exact .pure (by rw [hentry]; rfl)
  · exact pushBack_bind (.pure rfl)

theorem eat_bind {c : Char} {k : Bool → Scan β} (htrue : Tracks (some c :: given) (k true) after)
    (hfalse : Tracks given (k false) after) : Tracks given (eat c >>= k) after := by
  refine (eat_tracks c).bind fun eaten kept hkept => ?_
  subst hkept
  cases eaten with
  | true => exact htrue
  | false => exact hfalse

end Scanner

/-! ## Loops -/

namespace Loop

open Scan Scanner

variable {α β : Type} {given : List (Option Char)} {loop : Loop α β}

theorem runFrom_eq (read : List α) (s : Scanner) :
    loop.runFrom read s =
      match loop.turn s with
      | .error e s' => .error e s'
      | .ok (.stop last) s' => .ok (read.reverse, last) s'
      | .ok (.more item) s' => loop.runFrom (item :: read) s' := by
  rw [runFrom]
  split <;> next h => simp only [h]

/-- What a turn makes of the items that were read and of the entries that it leaves. -/
def After (kept : List α → List (Option Char) → Prop)
    (left : List α × β → List (Option Char) → Prop) (read : List α) :
    Turn α β → List (Option Char) → Prop
  | .more item => kept (item :: read)
  | .stop last => left (read.reverse, last)

/-- What holds of the items and the entries in front of each turn holds behind the loop. -/
theorem runFrom_tracks (kept : List α → List (Option Char) → Prop)
    {left : List α × β → List (Option Char) → Prop}
    (h : ∀ read given, kept read given → Tracks given loop.turn (After kept left read))
    {read : List α} (hread : kept read given) : Tracks given (loop.runFrom read) left := by
  intro P hP history s f hs
  -- along the run of the first scanner; the second one takes the same turns as long as both go on
  fun_induction runFrom loop read s generalizing given f with
  | case1 read s e s' hturn =>
      have hcomes := h read given hread P hP history s f hs
      rw [runFrom_eq read f]
      rw [hturn] at hcomes
      generalize loop.turn f = second at hcomes
      cases hcomes with
      | failed hfailed => exact .failed hfailed
      | alone halone => exact .alone halone
  | case2 read s last s' hturn =>
      have hcomes := h read given hread P hP history s f hs
      rw [runFrom_eq read f]
      rw [hturn] at hcomes
      generalize loop.turn f = second at hcomes
      cases hcomes with
      | ok hleft halong => exact .ok hleft halong
  | case3 read s item s' hturn _ ih =>
      have hcomes := h read given hread P hP history s f hs
      rw [runFrom_eq read f]
      rw [hturn] at hcomes
      generalize loop.turn f = second at hcomes
      cases hcomes with
      | ok hleft halong => exact ih hleft _ halong

theorem run_roams (h : Roams loop.turn) : Roams loop.run := by
  intro given
  refine runFrom_tracks (fun _ _ => True) (fun read given _ => ?_) trivial
  exact (h given).mono fun turn kept _ => by cases turn <;> trivial

/-- A reader that is repeated. -/
theorem repeating_roams {reader : Scan (Option α)}
    {hspends : Scan.Spends reader fun item => if item.isSome then 1 else 0} (h : Roams reader) :
    Roams (Loop.repeating reader hspends).run := by
  refine run_roams fun given => h.bind fun item kept => ?_
  cases item <;> exact .pure trivial

end Loop
end CssLex
