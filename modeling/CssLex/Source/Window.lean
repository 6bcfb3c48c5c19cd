import CssLex.LexError

/-!
Windows over an array of characters. A window reads its characters from the front and can give
the first half of them away.
-/

namespace CssLex

/-- The unread characters `index ≤ i < limit` of an array. -/
structure Window where
  chars : Array Char
  index : Nat
  limit : Nat
  index_le_limit : index ≤ limit
  limit_le_size : limit ≤ chars.size

namespace Window

/-- The window that includes `lo` and excludes `hi`. -/
def ofRange (chars : Array Char) (lo hi : Nat) : Except LexError Window :=
  if h : lo ≤ hi ∧ hi ≤ chars.size then .ok ⟨chars, lo, hi, h.1, h.2⟩
  else .error (.invalidRange lo hi chars.size)

/-- The window over a whole array. -/
def whole (chars : Array Char) : Window := ⟨chars, 0, chars.size, by omega, by omega⟩

/-- The number of unread characters. -/
def remaining (w : Window) : Nat := w.limit - w.index

/-- The unread characters in order. -/
def rest (w : Window) : List Char := (w.chars.extract w.index w.limit).toList

/-- Takes the first unread character off. -/
def read (w : Window) : Option Char × Window :=
  if h : w.index < w.limit then
    have : w.index < w.chars.size := Nat.lt_of_lt_of_le h w.limit_le_size
    (some w.chars[w.index],
      { w with index := w.index + 1, index_le_limit := h })
  else (none, w)

/-- Where the first half of the unread characters ends. -/
def middle (w : Window) : Nat := w.index + (w.limit - w.index) / 2

/-- Parts the window into the first half of its unread characters and the remainder. Fewer than
two characters cannot be parted. -/
def split? (w : Window) : Option (Window × Window) :=
  have hl := w.index_le_limit
  have hs := w.limit_le_size
  if h : w.index < w.middle then
    some
      ({ w with
          limit := w.middle
          index_le_limit := Nat.le_of_lt h
          limit_le_size := by unfold middle; omega },
        { w with index := w.middle, index_le_limit := by unfold middle; omega })
  else none

/-- Reading lowers the number of unread characters by what is read. -/
theorem remaining_read (w : Window) :
    w.read.2.remaining + w.read.1.toList.length = w.remaining := by
  unfold read
  split
  · simp [remaining]
    omega
  · simp

end Window
end CssLex
