import Bourse.Decimal.Basic
import Bourse.Text.Digits

/-! Decimals as text. Writing shows every digit of the fraction. Reading takes digits from the left
until the next one would not fit: before the point that is an error, after it that digit rounds and
the rest is passed over. A text that is no plain numeral may still be one with an exponent. Zero is
read without a sign, but a negative value that is rounded to zero keeps its own. -/
namespace Bourse.Decimal

open Bourse.Text

/-- The digits, with enough zeros before them that one stands before the point. -/
def toChars (d : Decimal) : List Char :=
  let digits := padded (d.scale + 1) d.magnitude
  let whole := digits.take (digits.length - d.scale)
  let fraction := digits.drop (digits.length - d.scale)
  let sign := if d.negative then ['-'] else []
  sign ++ whole ++ (if d.scale = 0 then [] else '.' :: fraction)

def text (d : Decimal) : String := String.ofList d.toChars

/-- The magnitude after the first digit that did not fit, over scale `s`. -/
def roundedUp (m s : Nat) : Option (Nat × Nat) :=
  if m + 1 < limit then some (m + 1, s)
  else if s = 0 then none
  else some ((m + 1 + 4) / 10, s - 1)

/-- From here on a coefficient is wide. -/
def wide : Nat := 1844674407370954906

/-- The last digit of the longest fraction was added to a coefficient that was not wide. -/
def isNarrowEnd (m s : Nat) : Bool := decide (s = maxScale) && decide (m / 10 < wide)

def isDigitOrUnderscore (c : Char) : Bool := c.isDigit || c == '_'

/-- Magnitude and scale of an unsigned numeral, from `m` and `s` read so far. An underscore may
stand anywhere after the first digit. It is passed over, but at a narrow end it takes the place of
the digit that rounds, and rounds nothing up. -/
def scan (point digit : Bool) (m s : Nat) : List Char → Option (Nat × Nat)
  | [] => if digit then some (m, s) else none
  | c :: cs =>
    if c = '.' then if point then none else scan true digit m s cs
    else if c = '_' then
      if !digit then none
      else if isNarrowEnd m s then if cs.all isDigitOrUnderscore then some (m, s) else none
      else scan point digit m s cs
    else match digit? c with
      | none => none
      | some d =>
        let s' := if point then s + 1 else s
        if s' ≤ maxScale ∧ 10 * m + d < limit then scan point true (10 * m + d) s' cs
        else if !point then none
        else if !cs.all isDigitOrUnderscore then none
        else if d < 5 then some (m, s)
        else roundedUp m s

/-- Whether a minus stands in front, and the text after the sign. -/
def splitSign : List Char → Bool × List Char
  | '-' :: cs => (true, cs)
  | '+' :: cs => (false, cs)
  | cs => (false, cs)

def readPlain (cs : List Char) : Option Decimal :=
  let (negative, body) := splitSign cs
  (scan false false 0 0 body).bind fun (m, s) => make? (if negative then -m else m) s

/-- The magnitude rounded to `s` digits of fraction, half away from zero. -/
def rescaled (d : Decimal) (s : Nat) : Nat :=
  let p := tenTo (d.scale - s)
  (2 * d.magnitude + p) / (2 * p)

/-- The value times ten to the `k`. A scale takes up what it can. -/
def shiftUp (d : Decimal) (k : Nat) : Option Decimal :=
  if k ≤ d.scale then ofParts? d.negative d.magnitude (d.scale - k)
  else if k > maxScale then none
  else ofParts? d.negative (d.magnitude * tenTo (k - d.scale)) 0

/-- The value over ten to the `k`. Digits beyond the largest scale are rounded off first. -/
def shiftDown (d : Decimal) (k : Nat) : Option Decimal :=
  if k > maxScale then none
  else if d.scale + k ≤ maxScale then ofParts? d.negative d.magnitude (d.scale + k)
  else ofParts? d.negative (rescaled d (maxScale - k)) maxScale

/-- The largest exponent that is a numeral at all. -/
def maxExponent : Nat := 4294967295

def isExponentMark (c : Char) : Bool := c == 'e' || c == 'E'

def readScientific (cs : List Char) : Option Decimal :=
  match cs.span (fun c => !isExponentMark c) with
  | (_, []) => none
  | (base, _ :: exponent) =>
    (readPlain base).bind fun d =>
      match exponent with
      | '-' :: e => (boundedNatural? maxExponent e).bind (shiftDown d)
      | e => (boundedNatural? maxExponent e).bind (shiftUp d)

def ofChars? (cs : List Char) : Option Decimal :=
  match readPlain cs with
  | some d => some d
  | none => readScientific cs

def ofText? (s : String) : Option Decimal := ofChars? s.toList

end Bourse.Decimal
