/-!
Double precision numbers as exact binary fractions. A finite double is `m * 2 ^ q`, and every
non-negative ratio has a nearest double, where a tie goes to the even significand.
-/

namespace CssLex
namespace Binary64

-- Powers are those of the core library, whatever is imported beside this module.
attribute [local instance (high)] instPowNat instNatPowNat

/-- The pattern of infinity; every pattern below it is that of a finite magnitude. -/
def infinity : Nat := 0x7ff * 2 ^ (52 : Nat)

/-- The smallest exponent `q`, that of the subnormal doubles. -/
def leastExponent : Int := -1074

/-- Rounds a ratio to a whole number, ties to the even one. -/
def roundToEven (num den : Nat) : Nat :=
  let floor := num / den
  let double := 2 * (num % den)
  if double < den then floor
  else if den < double then floor + 1
  else floor + floor % 2

/-- The ratio `num / den` in units of `2 ^ q`. -/
def inUnits (num den : Nat) (q : Int) : Nat × Nat :=
  if 0 ≤ q then (num, den * 2 ^ q.toNat) else (num * 2 ^ (-q).toNat, den)

/-- The exponent of the last place that a double near `num / den` has. -/
def lastPlace (num den : Nat) : Int :=
  let q := max (Int.ofNat num.log2 - Int.ofNat den.log2 - 53) leastExponent
  let (num, den) := inUnits num den q
  if num / den < 2 ^ (53 : Nat) then q else q + 1

/-- The pattern of the double nearest to `num / den`, or of infinity if that is too large. -/
def nearest (num den : Nat) : Nat :=
  if num = 0 then 0
  else
    let q := lastPlace num den
    let (num, den) := inUnits num den q
    min infinity ((q - leastExponent).toNat * 2 ^ (52 : Nat) + roundToEven num den)

/-- The number with a sign and the pattern of a magnitude. -/
def toFloat (negative : Bool) (magnitude : Nat) : Float :=
  Float.ofBits (UInt64.ofNat (magnitude + if negative then 2 ^ (63 : Nat) else 0))

/-- The pattern of a number's magnitude. -/
def magnitude (x : Float) : Nat := x.toBits.toNat % 2 ^ (63 : Nat)

/-- Whether a number has its sign set; zero may have it too. -/
def isNegative (x : Float) : Bool := 2 ^ (63 : Nat) ≤ x.toBits.toNat

/-- The `m` and `q` with which a finite magnitude is `m * 2 ^ q`. -/
def significand (magnitude : Nat) : Nat × Int :=
  if magnitude < 2 ^ (52 : Nat) then (magnitude, leastExponent)
  else (2 ^ (52 : Nat) + magnitude % 2 ^ (52 : Nat),
    Int.ofNat (magnitude / 2 ^ (52 : Nat)) - 1 + leastExponent)

end Binary64
end CssLex
