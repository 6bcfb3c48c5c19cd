import CssLex.Decimal.Reading
import CssLex.Toml.Basic
import CssLex.Toml.Lexical

/-!
Numbers, truth values, dates and times of the configuration format.
-/

namespace CssLex
namespace Toml.Grammar

open Reader

-- Powers are those of the core library, whatever is imported beside this module.
attribute [local instance (high)] instPowNat instNatPowNat Int.instNatPow

/-- Digits of a class, where single underscores may stand between two of them. -/
def digitGroups (isMember : Char → Bool) : Reader (List Char) := do
  let group : Reader (List Char) := do
    let _ ← char '_'
    run1 isMember
  let first ← run1 isMember
  let more ← many group
  pure (first ++ more.flatten)

/-- An optional sign. -/
def sign : Reader (List Char) := do
  let c ← option (satisfying fun c => c = '+' || c = '-')
  pure c.toList

/-- The whole part of a number, where a zero stands alone. -/
def wholePart : Reader (List Char) := do
  let first ← satisfying isDigit
  if first = '0' then pure ['0']
  else do
    let more ← option (run1 isDigit)
    let group : Reader (List Char) := do
      let _ ← char '_'
      run1 isDigit
    let groups ← many group
    pure (first :: more.getD [] ++ groups.flatten)

/-- A fraction with its point. -/
def fractionPart : Reader (List Char) := do
  let _ ← char '.'
  let digits ← digitGroups isDigit
  pure ('.' :: digits)

/-- An exponent with its marker. -/
def exponentPart : Reader (List Char) := do
  let _ ← satisfying fun c => c = 'e' || c = 'E'
  let s ← sign
  let digits ← digitGroups isDigit
  pure ('e' :: s ++ digits)

/-- A number with a fraction or an exponent. It must not be too large for a double; a negative one
may be. -/
def decimalFloat : Reader Toml := do
  let s ← sign
  let whole ← wholePart
  let fraction ← option fractionPart
  let exponent ← option exponentPart
  guard (fraction.isSome || exponent.isSome)
  match Decimal.read? (s ++ whole ++ fraction.getD [] ++ exponent.getD []) with
  | some d => do
    let x := d.toFloat
    guard (Binary64.magnitude x < Binary64.infinity || Binary64.isNegative x)
    pure (.float x)
  | none => failure

/-- An infinity, or what is no number. -/
def specialFloat : Reader Toml := do
  let s ← sign
  let pattern ←
    ((fun _ => Binary64.infinity) <$> exactly ['i', 'n', 'f'] <|>
      (fun _ => Binary64.infinity + 2 ^ (51 : Nat)) <$> exactly ['n', 'a', 'n'])
  pure (.float (Binary64.toFloat (s = ['-']) pattern))

/-- A whole number that fits into 64 bits with a sign. -/
def inRange (n : Int) : Reader Toml :=
  if -2 ^ (63 : Nat) ≤ n && n < 2 ^ (63 : Nat) then pure (.integer n) else failure

/-- A whole number in a base that its second character names. -/
def basedInteger (letter : Char) (base : Nat) : Reader Toml := do
  exactly ['0', letter]
  let digits ← digitGroups fun c => (hexValue? c).any (· < base)
  inRange (Int.ofNat (digits.foldl (fun n c => base * n + (hexValue? c).getD 0) 0))

/-- A whole number in base ten. -/
def decimalInteger : Reader Toml := do
  let s ← sign
  let digits ← wholePart
  let n := Int.ofNat (Decimal.ofDigits digits)
  inRange (if s = ['-'] then -n else n)

/-- A whole number. -/
def integer : Reader Toml :=
  basedInteger 'x' 16 <|> basedInteger 'o' 8 <|> basedInteger 'b' 2 <|> decimalInteger

/-- A truth value. -/
def boolean : Reader Toml :=
  (fun _ => .boolean true) <$> exactly ['t', 'r', 'u', 'e'] <|>
  (fun _ => .boolean false) <$> exactly ['f', 'a', 'l', 's', 'e']

/-- A number of exactly this many digits between two bounds. -/
def fixedNumber (digits lo hi : Nat) : Reader Nat := fun input =>
  let written := input.take digits
  let n := Decimal.ofDigits written
  if written.length = digits && written.all isDigit && lo ≤ n && n ≤ hi then
    some (n, input.drop digits)
  else none

/-- The number of days in a month. -/
def daysIn (year month : Nat) : Nat :=
  if month = 2 then
    if year % 4 = 0 && (year % 100 ≠ 0 || year % 400 = 0) then 29 else 28
  else if month = 4 || month = 6 || month = 9 || month = 11 then 30
  else 31

/-- A date of the calendar. -/
def date : Reader Unit := do
  let year ← fixedNumber 4 0 9999
  let _ ← char '-'
  let month ← fixedNumber 2 1 12
  let _ ← char '-'
  let _ ← fixedNumber 2 1 (daysIn year month)
  pure ()

/-- A time of day, where a minute may have a leap second. -/
def time : Reader Unit := do
  let _ ← fixedNumber 2 0 23
  let _ ← char ':'
  let _ ← fixedNumber 2 0 59
  let _ ← char ':'
  let _ ← fixedNumber 2 0 60
  let fraction : Reader Unit := do
    let _ ← char '.'
    let _ ← run1 isDigit
    pure ()
  let _ ← option fraction
  pure ()

/-- The offset of a time zone. -/
def offset : Reader Unit :=
  (do
    let _ ← satisfying fun c => c = 'Z' || c = 'z'
    pure ()) <|>
  (do
    let _ ← satisfying fun c => c = '+' || c = '-'
    let _ ← fixedNumber 2 0 23
    let _ ← char ':'
    let _ ← fixedNumber 2 0 59
    pure ())

/-- A date, a time of day, or both, with an offset at most behind both. -/
def datetime : Reader Toml := fun input => do
  let timeOfDate : Reader Unit := do
    let _ ← satisfying fun c => c = 'T' || c = 't' || c = ' '
    time
    let _ ← option offset
    pure ()
  let both : Reader Unit := do
    date
    let _ ← option timeOfDate
    pure ()
  let (_, rest) ← (both <|> time) input
  pure (.datetime (String.ofList (input.take (input.length - rest.length))), rest)

/-- A value without parts. -/
def scalar : Reader Toml :=
  .string <$> string <|> datetime <|> decimalFloat <|> specialFloat <|> integer <|> boolean

end Toml.Grammar
end CssLex
