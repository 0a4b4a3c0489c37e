import Bourse.Decimal.Basic

/-! Products and differences. The exact result is kept when it fits; otherwise the fewest digits of
its fraction are dropped, rounding once from the exact result and half to even. When no digit of
the fraction is left to drop the result overflows. -/
namespace Bourse.Decimal

open Bourse.Text

inductive Overflow where
  | product
  | difference
deriving DecidableEq

def Overflow.message : Overflow → String
  | .product => "Multiplication overflowed"
  | .difference => "Subtraction overflowed"

/-- The nearest natural to `n / d`, and of two equally near ones the even one. -/
def roundHalfEven (n d : Nat) : Nat :=
  let q := n / d
  let r := n % d
  if 2 * r < d ∨ (2 * r = d ∧ q % 2 = 0) then q else q + 1

def dropDigits (c : Int) (k : Nat) : Int := c.sign * roundHalfEven c.natAbs (tenTo k)

/-- The first of the roundings to scale `s`, `s - 1`, … `0` that is a decimal. -/
def fit? (c : Int) (s : Nat) : Option Decimal :=
  (List.range (s + 1)).findSome? fun k => make? (dropDigits c k) (s - k)

/-- Times a count. A product of zero has no fraction. -/
def times (d : Decimal) (n : Nat) : Except Overflow Decimal :=
  if d.coefficient * n = 0 then .ok zero
  else match fit? (d.coefficient * n) d.scale with
    | some r => .ok r
    | none => .error .product

/-- The difference at the larger of the two scales; its trailing zeros stay. -/
def minus (a b : Decimal) : Except Overflow Decimal :=
  let s := max a.scale b.scale
  match fit? (a.coefficient * tenTo (s - a.scale) - b.coefficient * tenTo (s - b.scale)) s with
  | some r => .ok r
  | none => .error .difference

end Bourse.Decimal
