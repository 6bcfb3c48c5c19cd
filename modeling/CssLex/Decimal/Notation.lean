import CssLex.Decimal.Shortest

/-!
Writing doubles. A style says which magnitudes are written positionally, how an exponent is
written and which way a tie between two shortest decimals goes.
-/

namespace CssLex

/-- The decisions that a float notation makes. -/
structure FloatStyle where
  /-- The least decimal exponent that is written positionally. -/
  leastPositional : Int
  /-- The greatest decimal exponent that is written positionally. -/
  greatestPositional : Int
  /-- What stands before the digits of an exponent that is not negative. -/
  exponentPlus : String
  tie : Tie
deriving Repr, DecidableEq

namespace FloatStyle

/-- Digits with the point moved to stand after `point` of them; a fraction is always written. -/
def positional (digits : List Char) (point : Int) : List Char :=
  if point ≤ 0 then '0' :: '.' :: (List.replicate (-point).toNat '0' ++ digits)
  else
    let whole := digits.take point.toNat
    let fraction := digits.drop point.toNat
    whole ++ List.replicate (point.toNat - whole.length) '0' ++
      '.' :: (if fraction = [] then ['0'] else fraction)

/-- Digits with the point after the first one and an exponent behind them. -/
def scientific (style : FloatStyle) (digits : List Char) (exponent : Int) : List Char :=
  let fraction := digits.drop 1
  digits.take 1 ++ (if fraction = [] then [] else '.' :: fraction) ++ ['e'] ++
    (if exponent < 0 then ['-'] else style.exponentPlus.toList) ++
    (toString exponent.natAbs).toList

/-- The text of a short decimal. -/
def writeDecimal (style : FloatStyle) (d : ShortDecimal) : List Char :=
  let digits := (toString d.digits).toList
  let exponent := d.exponent + digits.length - 1
  if style.leastPositional ≤ exponent && exponent ≤ style.greatestPositional then
    positional digits (exponent + 1)
  else scientific style digits exponent

/-- The text of a finite double: its sign and the shortest digits that read back. -/
def write (style : FloatStyle) (x : Float) : String :=
  let magnitude := Binary64.magnitude x
  let (m, q) := Binary64.significand magnitude
  let text :=
    if m = 0 then ['0', '.', '0'] else style.writeDecimal (ShortDecimal.ofDouble style.tie m q)
  String.ofList (if Binary64.isNegative x then '-' :: text else text)

/-- The notation in which tokens are displayed: positional from `1e-4` to below `1e16`, and a bare
exponent elsewhere. -/
def display : FloatStyle := ⟨-4, 15, "", .up⟩

/-- The notation of numbers in JSON: positional from `1e-5` to below `1e16`, and a signed exponent
elsewhere. -/
def json : FloatStyle := ⟨-5, 15, "+", .toEven⟩

end FloatStyle
end CssLex
