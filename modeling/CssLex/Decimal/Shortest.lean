import CssLex.Decimal.Binary64

/-!
The shortest decimal that reads back as a given double. Of the decimals with the fewest digits the
one nearest to the double is taken.
-/

namespace CssLex

/-- Which of two equally near decimals is taken. -/
inductive Tie where
  | up
  | toEven
deriving Repr, DecidableEq

/-- The decimal `digits * 10 ^ exponent`. -/
structure ShortDecimal where
  digits : Nat
  exponent : Int
deriving Repr, DecidableEq

namespace ShortDecimal

-- Powers are those of the core library, whatever is imported beside this module.
attribute [local instance (high)] instPowNat instNatPowNat

/-- A positive double in quarters of its last place, between the ends of the interval of reals
that round to it. -/
structure Interval where
  low : Nat
  value : Nat
  high : Nat
  /-- The exponent of two that the unit has. -/
  unit : Int
  /-- Whether the ends round to the double as well. -/
  closed : Bool

/-- The interval of `m * 2 ^ q`. Below a power of two the doubles lie twice as dense. -/
def Interval.ofDouble (m : Nat) (q : Int) : Interval where
  low := 4 * m - if m = 2 ^ (52 : Nat) && Binary64.leastExponent < q then 1 else 2
  value := 4 * m
  high := 4 * m + 2
  unit := q - 2
  closed := m % 2 = 0

/-- How many times `10 ^ k` the unit is, as a ratio of whole numbers. -/
def Interval.scales (i : Interval) (k : Int) : Nat × Nat :=
  let (num, den) := if 0 ≤ i.unit then (2 ^ i.unit.toNat, 1) else (1, 2 ^ (-i.unit).toNat)
  if 0 ≤ k then (num, den * 10 ^ k.toNat) else (num * 10 ^ (-k).toNat, den)

/-- The decimal on the grid of `10 ^ k` that reads back as the double and is the nearer one of its
two neighbours there; `none` if neither reads back. -/
def onGrid? (i : Interval) (tie : Tie) (k : Int) : Option Nat :=
  let (num, den) := i.scales k
  let value := i.value * num
  let inside (d : Nat) : Bool :=
    let point := d * den
    if i.closed then i.low * num ≤ point && point ≤ i.high * num
    else i.low * num < point && point < i.high * num
  let below := value / den
  let above := below + 1
  let belowIn := 0 < below && inside below
  let aboveIn := inside above
  if belowIn && aboveIn then
    let double := 2 * (value % den)
    if double < den then some below
    else if den < double then some above
    else
      match tie with
      | .up => some above
      | .toEven => some (if below % 2 = 0 then below else above)
  else if belowIn then some below
  else if aboveIn then some above
  else none

/-- The largest `e` with `10 ^ e ≤ value`, searched downwards from an upper bound. -/
def leadingExponent (i : Interval) : Nat → Int → Int
  | 0, e => e
  | steps + 1, e =>
    let (num, den) := i.scales e
    if den ≤ i.value * num then e else leadingExponent i steps (e - 1)

/-- An upper bound for the leading exponent that is off by at most two. -/
def exponentBound (i : Interval) : Int :=
  (Int.ofNat i.value.log2 + 1 + i.unit) * 30103 / 100000 + 1

/-- Tries the grids from `10 ^ k` downwards. -/
def search (i : Interval) (tie : Tie) : Nat → Int → ShortDecimal
  | 0, k => ⟨i.value, k⟩
  | steps + 1, k =>
    match onGrid? i tie k with
    | some digits => ⟨digits, k⟩
    | none => search i tie steps (k - 1)

/-- The shortest decimal of the positive double `m * 2 ^ q`. The first grid holds only the power of
ten above the double, and seventeen digits always do. -/
def ofDouble (tie : Tie) (m : Nat) (q : Int) : ShortDecimal :=
  let i := Interval.ofDouble m q
  search i tie 18 (leadingExponent i 4 (exponentBound i) + 1)

end ShortDecimal
end CssLex
