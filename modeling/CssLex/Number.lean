import CssLex.Decimal.Notation
import CssLex.Decimal.Reading

/-!
Values of numeric tokens. A literal without point and exponent is an integer as long as it fits
into 64 bits with a sign, and every other literal is a float.
-/

namespace CssLex

/-- The value of a number literal. -/
inductive Number where
  | integer (value : Int)
  | float (value : Float)

namespace Number

-- Powers are those of the core library, whatever is imported beside this module.
attribute [local instance (high)] instPowNat Int.instNatPow

/-- The integers that are kept as such. -/
def fitsInteger (n : Int) : Bool := -2 ^ (63 : Nat) ≤ n && n < 2 ^ (63 : Nat)

/-- The value of a literal that was read. -/
def ofDecimal (d : Decimal) : Number :=
  match d.integer? with
  | some n => if fitsInteger n then integer n else float d.toFloat
  | none => float d.toFloat

/-- The value of a literal, if it is one. -/
def ofLiteral? (literal : List Char) : Option Number := (Decimal.read? literal).map ofDecimal

/-- The value as a float. -/
def toFloat : Number → Float
  | integer n =>
    Binary64.toFloat (n < 0) (Binary64.nearest n.natAbs 1)
  | float x => x

/-- Whether the value is kept as an integer. -/
def isInteger : Number → Bool
  | integer _ => true
  | float _ => false

/-- The greatest finite double. -/
def greatestFinite : Float := Binary64.toFloat false (Binary64.infinity - 1)

/-- A literal that reads back as the number. Infinities and what is no number are written as the
greatest finite double with the sign that they have. -/
def render : Number → String
  | integer n => toString n
  | float x =>
    if Binary64.magnitude x < Binary64.infinity then FloatStyle.display.write x
    else (if Binary64.isNegative x then "-" else "") ++ FloatStyle.display.write greatestFinite

/-- The text of a number in JSON, where infinities and what is no number are null. -/
def renderJson : Number → String
  | integer n => toString n
  | float x =>
    if Binary64.magnitude x < Binary64.infinity then FloatStyle.json.write x else "null"

end Number
end CssLex
