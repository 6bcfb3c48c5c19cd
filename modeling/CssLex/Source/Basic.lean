import CssLex.Source.Utf8
import CssLex.Source.Window

/-!
Where raw characters come from. A source gives code points as they stand in the input; line ends
and NUL are treated by the scanner, so all kinds of source look the same to it.
-/

namespace CssLex

/-- A source of raw characters. -/
inductive Source where
  /-- Text that is in memory. -/
  | text (rest : List Char)
  /-- A part of a character array. -/
  | window (unread : Window)
  /-- A byte stream in UTF-8. -/
  | stream (reader : Utf8Reader)

namespace Source

/-- A source over a whole text. -/
def ofString (text : String) : Source := .text text.toList

/-- A source over part of a character array. -/
def ofRange (chars : Array Char) (lo hi : Nat) : Except LexError Source :=
  (Window.ofRange chars lo hi).map .window

/-- A source over a byte stream that is fetched `capacity` bytes at a time. -/
def ofDeliveries (capacity : Nat) (script : List Delivery) : Source :=
  .stream { bytes := { capacity, script } }

/-- An upper bound for the number of characters that are still to come. -/
def size : Source → Nat
  | text rest => rest.length
  | window unread => unread.remaining
  | stream reader => reader.size

/-- The next raw character, or `none` at the end. -/
def read : EStateM String Source (Option Char)
  | text [] => .ok none (text [])
  | text (c :: rest) => .ok (some c) (text rest)
  | window unread => .ok unread.read.1 (window unread.read.2)
  | stream reader =>
    match reader.next with
    | .ok c reader => .ok c (stream reader)
    | .error reason reader => .error reason (stream reader)

/-- A character that is read lowers the bound. -/
theorem read_size {s s' : Source} {c : Option Char} (h : read s = .ok c s') :
    s'.size + c.toList.length ≤ s.size := by
  unfold read at h
  split at h
  · cases h; simp
  · cases h; simp [size]
  · next unread =>
    cases h
    exact Nat.le_of_eq unread.remaining_read
  · split at h
    · next heq =>
      cases h
      exact Utf8Reader.next_size heq
    · cases h

end Source
end CssLex
