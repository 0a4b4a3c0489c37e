import Bourse.Text.Digits

/-! Exact decimals: a sign, a magnitude of less than ninety-six bits, and the power of ten of at
most twenty-eight that it stands over. Two decimals of one value may differ in scale, and zero has
two signs; `strip` picks the smallest scale. Comparison is of values. -/
namespace Bourse

/-- Two to the power ninety-six. -/
def Decimal.limit : Nat := 0x1000000000000000000000000

def Decimal.maxScale : Nat := 28

structure Decimal where
  negative : Bool
  magnitude : Nat
  scale : Nat
  magnitude_lt : magnitude < Decimal.limit
  scale_le : scale ≤ Decimal.maxScale
deriving DecidableEq

namespace Decimal

open Bourse.Text

def coefficient (d : Decimal) : Int := if d.negative then -d.magnitude else d.magnitude

/-- The decimal of this sign, magnitude and scale, when both numbers are within bounds. -/
def ofParts? (negative : Bool) (m s : Nat) : Option Decimal :=
  if h : m < limit ∧ s ≤ maxScale then some ⟨negative, m, s, h.1, h.2⟩ else none

/-- The decimal of this coefficient and scale. Its zero has no sign. -/
def make? (c : Int) (s : Nat) : Option Decimal := ofParts? (decide (c < 0)) c.natAbs s

def zero : Decimal := ⟨false, 0, 0, by decide, Nat.zero_le _⟩

instance : Inhabited Decimal := ⟨zero⟩

/-- Both coefficients over the common scale, so that integers are compared. -/
def compare (a b : Decimal) : Ordering :=
  Ord.compare (a.coefficient * tenTo b.scale) (b.coefficient * tenTo a.scale)

def stripParts : Nat → Nat → Nat × Nat
  | m, 0 => (m, 0)
  | m, s + 1 => if m % 10 = 0 then stripParts (m / 10) s else (m, s + 1)

theorem stripParts_le (m s : Nat) : (stripParts m s).1 ≤ m := by
  induction s generalizing m with
  | zero => exact Nat.le_refl _
  | succ s ih =>
    simp only [stripParts]
    split
    · exact Nat.le_trans (ih (m / 10)) (Nat.div_le_self _ _)
    · exact Nat.le_refl _

theorem stripParts_scale_le (m s : Nat) : (stripParts m s).2 ≤ s := by
  induction s generalizing m with
  | zero => exact Nat.le_refl _
  | succ s ih =>
    simp only [stripParts]
    split
    · exact Nat.le_succ_of_le (ih (m / 10))
    · exact Nat.le_refl _

theorem stripParts_pos (m s : Nat) (h : 0 < m) : 0 < (stripParts m s).1 := by
  induction s generalizing m with
  | zero => exact h
  | succ s ih =>
    simp only [stripParts]
    split
    · exact ih (m / 10) (by omega)
    · exact h

/-- No zero is left to strip: the scale is zero or the last digit is not. -/
theorem stripParts_stripped (m s : Nat) :
    (stripParts m s).2 = 0 ∨ (stripParts m s).1 % 10 ≠ 0 := by
  induction s generalizing m with
  | zero => exact Or.inl rfl
  | succ s ih =>
    simp only [stripParts]
    split
    · exact ih (m / 10)
    · rename_i h; exact Or.inr h

/-- The same value without trailing zeros in its fraction. -/
def strip (d : Decimal) : Decimal where
  negative := d.negative
  magnitude := (stripParts d.magnitude d.scale).1
  scale := (stripParts d.magnitude d.scale).2
  magnitude_lt := Nat.lt_of_le_of_lt (stripParts_le _ _) d.magnitude_lt
  scale_le := Nat.le_trans (stripParts_scale_le _ _) d.scale_le

def isPositive (d : Decimal) : Bool := !d.negative && decide (0 < d.magnitude)

theorem isPositive_strip (d : Decimal) (h : d.isPositive = true) : d.strip.isPositive = true := by
  simp only [isPositive, Bool.and_eq_true, decide_eq_true_eq] at h ⊢
  exact ⟨h.1, stripParts_pos _ _ h.2⟩

end Decimal
end Bourse
