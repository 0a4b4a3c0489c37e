import Bourse.Decimal.Arithmetic
import Bourse.Decimal.Text

/-! Numerals as numbers of double precision, as far as it matters whether they are in range. A
numeral is converted in two steps, and each of them rounds: its leading digits, as many as make a
count, become a significand, which is then multiplied by a power of ten. Near the end of the range
the steps decide, and not the exact value. -/
namespace Bourse.Json

open Bourse.Text

/-- The nearest number of fifty-three significant bits, half to even. -/
def significant (n : Nat) : Nat :=
  let unit := Nat.pow 2 (n.log2 + 1 - 53)
  Decimal.roundHalfEven n unit * unit

/-- Takes digits into a significand as long as it stays a count, and leaves the rest. -/
def gather (m : Nat) : List Char → Nat × List Char
  | [] => (m, [])
  | c :: cs =>
    let next := 10 * m + (c.toNat - '0'.toNat)
    if next ≤ maxCount then gather next cs else (m, c :: cs)

/-- Significand and power of ten of the size of a numeral. Digits that were left are passed over,
and those before the point raise the power. -/
def significand (literal : List Char) : Nat × Int :=
  let mantissa := literal.takeWhile fun c => !Decimal.isExponentMark c
  let exponent := (literal.dropWhile fun c => !Decimal.isExponentMark c).drop 1
  let fraction := (mantissa.dropWhile (· != '.')).drop 1
  let (whole, dropped) := gather 0 ((mantissa.takeWhile (· != '.')).filter Char.isDigit)
  let (all, passed) := gather whole fraction
  let size : Int := Nat.ofDigitChars 10 (exponent.filter Char.isDigit) 0
  (all, dropped.length + passed.length - fraction.length +
    (if exponent.head? = some '-' then -size else size))

/-- The largest power of ten within the range. -/
def largestPower : Int := 308

/-- Half a step above the largest number of double precision. What is not below it has left the
range. -/
def rangeEnd : Nat := Nat.pow 2 1024 - Nat.pow 2 970

def outOfRange (literal : List Char) : Bool :=
  let (m, e) := significand literal
  if m = 0 ∨ e < 0 then false
  else if largestPower < e then true
  else decide (rangeEnd ≤ significant m * significant (tenTo e.toNat))

end Bourse.Json
