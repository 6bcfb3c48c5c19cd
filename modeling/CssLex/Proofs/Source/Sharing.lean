import Mathlib.Data.List.Nodup
import CssLex.Source.Window

/-! Windows that share an array. Handles arise from one window by splitting, and each of them can be
read and split at any time. What the reads have returned and what the handles have left to read are
together the positions of the first window, each of them once. -/

namespace CssLex

/-! ## One window -/

namespace Window

/-- The unread positions in order. -/
def positions (w : Window) : List Nat := List.range' w.index w.remaining

/-- A position is still unread. -/
def Holds (w : Window) (p : Nat) : Prop := w.index ≤ p ∧ p < w.limit

instance (w : Window) (p : Nat) : Decidable (w.Holds p) := inferInstanceAs (Decidable (_ ∧ _))

variable {w first last : Window} {c : Char} {p : Nat}

theorem mem_positions : p ∈ w.positions ↔ w.Holds p := by
  have hle := w.index_le_limit
  rw [positions, remaining, List.mem_range'_1, Holds]
  omega

theorem nodup_positions (w : Window) : w.positions.Nodup := List.nodup_range'

theorem count_positions (w : Window) (p : Nat) :
    w.positions.count p = if w.Holds p then 1 else 0 := by
  rw [w.nodup_positions.count]
  simp only [mem_positions]

/-- A read takes the first unread position off, if there is one. -/
theorem read_cases (w : Window) :
    (w.remaining = 0 ∧ w.read = (none, w)) ∨
      ∃ c w', w.read = (some c, w') ∧ w.chars[w.index]? = some c ∧ w'.chars = w.chars ∧
        w.positions = w.index :: w'.positions := by
  have hsize := w.limit_le_size
  by_cases h : w.index < w.limit
  · right
    refine ⟨_, ⟨w.chars, w.index + 1, w.limit, h, hsize⟩, by rw [read, dif_pos h],
      Array.getElem?_eq_getElem _, rfl, ?_⟩
    have hremaining : w.remaining = (w.limit - (w.index + 1)) + 1 := by
      rw [remaining]
      omega
    rw [positions, hremaining, List.range'_succ]
    rfl
  · exact .inl ⟨Nat.sub_eq_zero_of_le (Nat.le_of_not_lt h), by rw [read, dif_neg h]⟩

theorem read_isSome (w : Window) : w.read.1.isSome ↔ 1 ≤ w.remaining := by
  obtain ⟨hempty, hread⟩ | ⟨c, w', hread, -, -, hpositions⟩ := w.read_cases
  · simp [hempty, hread]
  · have hlength := congrArg List.length hpositions
    rw [positions, List.length_range', List.length_cons] at hlength
    simp [hread, hlength]

theorem split?_isSome (w : Window) : w.split?.isSome ↔ 2 ≤ w.remaining := by
  have hmiddle : w.index < w.middle ↔ 2 ≤ w.remaining := by
    rw [middle, remaining]
    omega
  rw [← hmiddle, split?]
  by_cases h : w.index < w.middle <;> simp [h]

/-- The first part has the first half of the unread positions, rounded down, and the last part the
others. -/
theorem split?_parts (h : w.split? = some (first, last)) :
    first.chars = w.chars ∧ last.chars = w.chars ∧
      first.index = w.index ∧ first.limit = last.index ∧ last.limit = w.limit ∧
      first.remaining = w.remaining / 2 ∧ last.remaining = (w.remaining + 1) / 2 := by
  have hle := w.index_le_limit
  unfold split? at h
  split at h
  · cases h
    refine ⟨rfl, rfl, rfl, rfl, rfl, ?_, ?_⟩
    · change w.middle - w.index = (w.limit - w.index) / 2
      rw [middle]
      omega
    · change w.limit - w.middle = (w.limit - w.index + 1) / 2
      rw [middle]
      omega
  · cases h

theorem positions_split (h : w.split? = some (first, last)) :
    w.positions = first.positions ++ last.positions := by
  obtain ⟨-, -, hindex, hlimit, -, hfirst, hlast⟩ := split?_parts h
  have hmiddle : last.index = first.index + first.remaining := by
    have := first.index_le_limit
    rw [← hlimit, remaining]
    omega
  have hremaining : w.remaining = first.remaining + last.remaining := by omega
  rw [positions, positions, positions, hmiddle, List.range'_append_1, hindex, hremaining]

end Window

/-! ## Handles -/

/-- A call on one of the handles, which are numbered in the order in which they arise. -/
inductive Use where
  | read (handle : Nat)
  | split (handle : Nat)
deriving Repr, DecidableEq

/-- The handles on one array, and what reading them has returned, with the positions. -/
structure Sharing where
  handles : List Window
  returned : List (Nat × Char) := []

namespace Sharing

/-- A split keeps the last part at the handle and adds the first part as a new handle. What does not
succeed, or names a handle that does not exist, changes nothing. -/
def use (s : Sharing) : Use → Sharing
  | .read i =>
    match s.handles[i]? with
    | none => s
    | some w =>
      { handles := s.handles.set i w.read.2
        returned := s.returned ++ (w.read.1.map (w.index, ·)).toList }
  | .split i =>
    match s.handles[i]? with
    | none => s
    | some w =>
      match w.split? with
      | none => s
      | some (first, last) => { s with handles := s.handles.set i last ++ [first] }

/-- The positions that were returned. -/
def spent (s : Sharing) : List Nat := s.returned.map Prod.fst

/-- The positions that are unread at some handle. -/
def owed (s : Sharing) : List Nat := s.handles.flatMap Window.positions

/-- What was returned and what is owed come to the positions of a window, and stem from its
array. -/
structure Shares (w : Window) (s : Sharing) : Prop where
  chars : ∀ v ∈ s.handles, v.chars = w.chars
  returned : ∀ p c, (p, c) ∈ s.returned → w.chars[p]? = some c
  positions : (s.spent ++ s.owed).Perm w.positions

variable {w : Window} {s : Sharing}

/-- What a call does to the handles: nothing, or it takes a character off one of them, or parts one
of them. -/
inductive Step (s : Sharing) : Sharing → Prop where
  | idle : Step s s
  | read {front back : List Window} {v v' : Window} {c : Char} (hs : s.handles = front ++ v :: back)
      (hc : v.chars[v.index]? = some c) (hchars : v'.chars = v.chars)
      (hpositions : v.positions = v.index :: v'.positions) :
      Step s { handles := front ++ v' :: back, returned := s.returned ++ [(v.index, c)] }
  | split {front back : List Window} {v first last : Window} (hs : s.handles = front ++ v :: back)
      (h : v.split? = some (first, last)) :
      Step s { s with handles := front ++ last :: back ++ [first] }

theorem exists_set {handles : List Window} {i : Nat} {v : Window} (h : handles[i]? = some v) :
    ∃ front back, handles = front ++ v :: back ∧
      ∀ v', handles.set i v' = front ++ v' :: back := by
  obtain ⟨hi, rfl⟩ := List.getElem?_eq_some_iff.mp h
  refine ⟨handles.take i, handles.drop (i + 1), ?_, fun v' => ?_⟩
  · rw [List.getElem_cons_drop, List.take_append_drop]
  · rw [List.set_eq_take_append_cons_drop, if_pos hi]

theorem use_step (s : Sharing) (u : Use) : Step s (s.use u) := by
  cases u with
  | read i =>
      cases hi : s.handles[i]? with
      | none =>
          simp only [use, hi]
          exact .idle
      | some v =>
          obtain ⟨front, back, hs, hset⟩ := exists_set hi
          obtain ⟨-, hread⟩ | ⟨c, v', hread, hc, hchars, hpositions⟩ := v.read_cases
          · simp only [use, hi, hread, hset, ← hs]
            simpa using Step.idle
          · simp only [use, hi, hread, hset]
            exact .read hs hc hchars hpositions
  | split i =>
      cases hi : s.handles[i]? with
      | none =>
          simp only [use, hi]
          exact .idle
      | some v =>
          obtain ⟨front, back, hs, hset⟩ := exists_set hi
          cases hsplit : v.split? with
          | none =>
              simp only [use, hi, hsplit]
              exact .idle
          | some parts =>
              simp only [use, hi, hsplit, hset]
              exact .split hs hsplit

/-- A call moves positions from one place to another. -/
theorem Shares.step {s' : Sharing} (h : s.Shares w) (hstep : Step s s') : s'.Shares w := by
  obtain ⟨hchars, hreturned, hpositions⟩ := h
  cases hstep with
  | idle => exact ⟨hchars, hreturned, hpositions⟩
  | @read front back v v' c hs hc hsame hv =>
      rw [hs, List.forall_mem_append, List.forall_mem_cons] at hchars
      obtain ⟨hfront, hchars, hback⟩ := hchars
      -- The position goes from the owed to the spent ones, which counting shows without a detour.
      refine ⟨?_, ?_, (List.perm_iff_count.mpr fun p => ?_).trans hpositions⟩
      · rw [List.forall_mem_append, List.forall_mem_cons]
        exact ⟨hfront, hsame.trans hchars, hback⟩
      · intro p d hd
        rcases List.mem_append.mp hd with hd | hd
        · exact hreturned p d hd
        · cases List.mem_singleton.mp hd
          rw [← hchars, hc]
      · simp only [spent, owed, hs, List.map_append, List.map_cons, List.map_nil,
          List.flatMap_append, List.flatMap_cons, List.count_append, hv, List.count_cons,
          List.count_nil]
        omega
  | @split front back v first last hs hv =>
      obtain ⟨hfirst, hlast, -⟩ := Window.split?_parts hv
      rw [hs, List.forall_mem_append, List.forall_mem_cons] at hchars
      obtain ⟨hfront, hchars, hback⟩ := hchars
      refine ⟨?_, hreturned, (List.perm_iff_count.mpr fun p => ?_).trans hpositions⟩
      · rw [List.forall_mem_append, List.forall_mem_append, List.forall_mem_cons,
          List.forall_mem_singleton]
        exact ⟨⟨hfront, hlast.trans hchars, hback⟩, hfirst.trans hchars⟩
      · simp only [spent, owed, hs, List.flatMap_append, List.flatMap_cons, List.flatMap_nil,
          List.count_append, Window.positions_split hv, List.count_nil]
        omega

/-- The handles after some calls, the first of them at the window. -/
def after (w : Window) (uses : List Use) : Sharing := uses.foldl use { handles := [w] }

theorem shares_after (w : Window) (uses : List Use) : (after w uses).Shares w := by
  have hstart : Shares w { handles := [w] } := by
    refine ⟨by simp, by simp, ?_⟩
    simp [spent, owed]
  unfold after
  generalize ({ handles := [w] } : Sharing) = s at hstart
  induction uses generalizing s with
  | nil => exact hstart
  | cons u uses ih => exact ih _ (hstart.step (use_step s u))

/-! ## Every position once -/

theorem count_owed (s : Sharing) (p : Nat) : s.owed.count p = s.handles.countP (·.Holds p) := by
  unfold owed
  induction s.handles with
  | nil => rfl
  | cons v handles ih =>
      rw [List.flatMap_cons, List.count_append, ih, v.count_positions, List.countP_cons,
        Nat.add_comm]
      simp

theorem Shares.count (h : s.Shares w) (p : Nat) :
    s.spent.count p + s.handles.countP (·.Holds p) = if w.Holds p then 1 else 0 := by
  rw [← count_owed, ← List.count_append, h.positions.count_eq, w.count_positions]

theorem Shares.disjoint (h : s.Shares w) :
    s.handles.Pairwise fun u v => ∀ p, ¬ (u.Holds p ∧ v.Holds p) := by
  have hnodup := h.positions.nodup_iff.mpr w.nodup_positions
  obtain ⟨-, hpairwise⟩ := List.nodup_flatMap.mp (List.nodup_append.mp hnodup).2.1
  refine hpairwise.imp fun hdisjoint p hp => ?_
  exact hdisjoint (Window.mem_positions.mpr hp.1) (Window.mem_positions.mpr hp.2)

/-- Splitting a window and reading any of its parts, in any order, neither loses nor repeats a
character. The handles stay within the array and are pairwise disjoint; each position of the window
was either returned by one read, with the character that stands there, or is unread at one handle.
A read succeeds with at least one unread character and a split with at least two, and a split gives
away the first half, rounded down. -/
theorem after_keeps (w : Window) (uses : List Use) :
    (∀ v ∈ (after w uses).handles,
      v.index ≤ v.limit ∧ v.limit ≤ v.chars.size ∧ v.chars = w.chars) ∧
    (after w uses).handles.Pairwise (fun u v => ∀ p, ¬ (u.Holds p ∧ v.Holds p)) ∧
    (∀ p, (after w uses).spent.count p + (after w uses).handles.countP (·.Holds p) =
      if w.Holds p then 1 else 0) ∧
    (∀ p c, (p, c) ∈ (after w uses).returned → w.chars[p]? = some c) ∧
    ∀ v ∈ (after w uses).handles, (v.read.1.isSome ↔ 1 ≤ v.remaining) ∧
      (v.split?.isSome ↔ 2 ≤ v.remaining) ∧ ∀ first last, v.split? = some (first, last) →
        first.index = v.index ∧ first.limit = last.index ∧ last.limit = v.limit ∧
        first.remaining = v.remaining / 2 ∧ last.remaining = (v.remaining + 1) / 2 := by
  have h := shares_after w uses
  refine ⟨fun v hv => ⟨v.index_le_limit, v.limit_le_size, h.chars v hv⟩, h.disjoint, h.count,
    h.returned, fun v _ => ⟨v.read_isSome, v.split?_isSome, fun first last hsplit => ?_⟩⟩
  exact (Window.split?_parts hsplit).2.2

/-- The handle keeps the last three of five characters, then the last two of three. -/
example :
    (after (.whole #['a', 'b', 'c', 'd', 'e']) [.split 0, .read 1, .split 0]).handles.map
      Window.positions = [[3, 4], [1], [2]] := by decide

end Sharing
end CssLex
