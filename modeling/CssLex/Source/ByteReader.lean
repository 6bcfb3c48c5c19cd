/-!
A buffered reader over a scripted byte stream. The script says what each read of the stream meets;
the reader fetches at most its capacity at a time and hands out single bytes.
-/

namespace CssLex

/-- What one read of a byte stream meets. -/
inductive Delivery where
  /-- These bytes are served, by as many reads as the capacity asks for. -/
  | bytes (chunk : List UInt8)
  /-- The read was interrupted and is tried again. -/
  | interrupted
  /-- The read fails once. -/
  | failed (reason : String)
deriving Repr, DecidableEq

/-- The bytes that a delivery brings. -/
def Delivery.size : Delivery → Nat
  | bytes chunk => chunk.length
  | interrupted => 0
  | failed _ => 0

/-- A byte stream behind a buffer. -/
structure ByteReader where
  capacity : Nat
  script : List Delivery
  buffer : List UInt8 := []
deriving Repr, DecidableEq

namespace ByteReader

-- Sums start at the zero of the core library, whatever is imported beside this module.
attribute [local instance (high)] Zero.ofOfNat0

/-- The number of bytes that are still to come. -/
def size (r : ByteReader) : Nat := r.buffer.length + (r.script.map Delivery.size).sum

/-- Reads at most `room` bytes from the stream, and at least one unless the stream has ended. -/
def fetch (room : Nat) : EStateM String (List Delivery) (List UInt8)
  | [] => .ok [] []
  | .interrupted :: script => fetch room script
  | .failed reason :: script => .error reason script
  | .bytes [] :: script => fetch room script
  | .bytes (byte :: chunk) :: script =>
      .ok (byte :: chunk.take (room - 1)) (.bytes (chunk.drop (room - 1)) :: script)

/-- The next byte, or `none` at the end. A failure surfaces when the buffer has run out. -/
def next : EStateM String ByteReader (Option UInt8) := fun r =>
  match r.buffer with
  | byte :: buffer => .ok (some byte) { r with buffer }
  | [] =>
    match fetch r.capacity r.script with
    | .error reason script => .error reason { r with script }
    | .ok [] script => .ok none { r with script }
    | .ok (byte :: buffer) script => .ok (some byte) { r with script, buffer }

theorem fetch_size {room : Nat} {script script' : List Delivery} {bytes : List UInt8}
    (h : fetch room script = .ok bytes script') :
    bytes.length + (script'.map Delivery.size).sum = (script.map Delivery.size).sum := by
  fun_induction fetch room script <;> simp_all [Delivery.size]
  case case5 =>
    obtain ⟨rfl, rfl⟩ := h
    simp [Delivery.size]
    omega

/-- A byte that is handed out is one fewer to come. -/
theorem next_size {r r' : ByteReader} {byte : Option UInt8} (h : next r = .ok byte r') :
    r'.size + byte.toList.length = r.size := by
  unfold next at h
  split at h
  · cases h
    simp_all [size]
    omega
  · split at h
    · cases h
    · next heq =>
      cases h
      have := fetch_size heq
      simp_all [size]
    · next heq =>
      cases h
      have := fetch_size heq
      simp_all [size]
      omega

end ByteReader
end CssLex
