import CssLex.Alphabet
import CssLex.Decimal.Binary64

/-!
Reading decimal literals. A literal has an optional sign, digits with an optional point among
them, and an optional exponent.
-/

namespace CssLex

/-- The parts of a decimal literal. -/
structure Decimal where
  negative : Bool
  whole : List Char
  /-- The digits after the point, if there is a point. -/
  fraction : Option (List Char)
  exponent : Option Int
deriving Repr, DecidableEq

namespace Decimal

-- Powers are those of the core library, whatever is imported beside this module.
attribute [local instance (high)] instPowNat instNatPowNat

/-- The number that a run of digits writes. -/
def ofDigits (digits : List Char) : Nat :=
  digits.foldl (fun n c => 10 * n + (c.toNat - '0'.toNat)) 0

/-- The number that the digits of an exponent write. It stops growing beyond 65535, where it has
left the range of doubles for any literal of fewer digits. -/
def ofExponentDigits (digits : List Char) : Nat :=
  digits.foldl (fun n c => if n < 65536 then 10 * n + (c.toNat - '0'.toNat) else n) 0

/-- Parts an optional sign from a literal; the first result tells whether it is a minus. -/
def splitSign : List Char → Bool × List Char
  | '-' :: rest => (true, rest)
  | '+' :: rest => (false, rest)
  | rest => (false, rest)

/-- Reads what follows the digits of a literal: nothing, or an exponent. -/
def readExponent? : List Char → Option (Option Int)
  | [] => some none
  | marker :: rest =>
    let (negative, digits) := splitSign rest
    if (marker = 'e' || marker = 'E') && digits != [] && digits.all isDigit then
      let n := Int.ofNat (ofExponentDigits digits)
      some (some (if negative then -n else n))
    else none

/-- Reads a whole literal. It has to hold a digit before or after the point. -/
def read? (literal : List Char) : Option Decimal := do
  let (negative, unsigned) := splitSign literal
  let whole := unsigned.takeWhile isDigit
  match unsigned.dropWhile isDigit with
  | '.' :: rest =>
    let fraction := rest.takeWhile isDigit
    guard (whole != [] || fraction != [])
    let exponent ← readExponent? (rest.dropWhile isDigit)
    pure { negative, whole, fraction := some fraction, exponent }
  | rest =>
    guard (whole != [])
    let exponent ← readExponent? rest
    pure { negative, whole, fraction := none, exponent }

/-- A literal with neither point nor exponent is a whole number. -/
def integer? (d : Decimal) : Option Int :=
  if d.fraction.isNone && d.exponent.isNone then
    let n := Int.ofNat (ofDigits d.whole)
    some (if d.negative then -n else n)
  else none

/-- The pattern of the double nearest to `m * 10 ^ e`. Magnitudes far out of range are settled
without the power. -/
def nearestPattern (m : Nat) (e : Int) : Nat :=
  if m = 0 then 0
  else if 400 < e then Binary64.infinity
  else if 0 ≤ e then Binary64.nearest (m * 10 ^ e.toNat) 1
  else if Int.ofNat m.log2 + 1 + 3 * e < -1080 then 0
  else Binary64.nearest m (10 ^ (-e).toNat)

/-- The double nearest to a literal. -/
def toFloat (d : Decimal) : Float :=
  let fraction := d.fraction.getD []
  Binary64.toFloat d.negative
    (nearestPattern (ofDigits (d.whole ++ fraction)) (d.exponent.getD 0 - fraction.length))

end Decimal
end CssLex
