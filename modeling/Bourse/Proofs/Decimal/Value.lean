import Bourse.Proofs.Market.PriceOrder
import Mathlib.Algebra.Order.Field.Rat
import Mathlib.Algebra.Order.Ring.Int
import Mathlib.Data.Rat.Cast.Order
import Mathlib.Tactic.FieldSimp
import Mathlib.Tactic.Linarith
import Mathlib.Tactic.Positivity

/-! The numbers that decimals stand for. Decimals are compared as their numbers are, taking zeros
off the end of a fraction does not change the number, and a number that is too long for a given
scale is held only if it ends there. -/
namespace Bourse

open Text

theorem Text.cast_tenTo (n : Nat) : (tenTo n : ℚ) = 10 ^ n := by
  change ((10 ^ n : ℕ) : ℚ) = 10 ^ n
  push_cast
  rfl

namespace Decimal

variable {a b d : Decimal} {q : ℚ} {s : Nat}

/-- The number a decimal stands for. -/
def toRat (d : Decimal) : ℚ := d.coefficient / 10 ^ d.scale

/-- The number is that of some decimal. -/
def Held (q : ℚ) : Prop := ∃ d : Decimal, d.toRat = q

theorem toRat_lt_iff :
    a.toRat < b.toRat ↔ a.coefficient * tenTo b.scale < b.coefficient * tenTo a.scale := by
  rw [toRat, toRat, div_lt_div_iff₀ (by positivity) (by positivity), ← cast_tenTo, ← cast_tenTo]
  norm_cast

theorem toRat_eq_iff :
    a.toRat = b.toRat ↔ a.coefficient * tenTo b.scale = b.coefficient * tenTo a.scale := by
  rw [toRat, toRat, div_eq_div_iff (by positivity) (by positivity), ← cast_tenTo, ← cast_tenTo]
  norm_cast

/-- A sign as a factor. -/
def signum (negative : Bool) : ℚ := if negative then -1 else 1

theorem abs_signum (negative : Bool) : |signum negative| = 1 := by
  cases negative <;> simp [signum]

theorem toRat_eq (d : Decimal) :
    d.toRat = signum d.negative * (d.magnitude / 10 ^ d.scale) := by
  unfold toRat coefficient signum
  cases d.negative
  · simp
  · simp [neg_div]

theorem abs_toRat (d : Decimal) : |d.toRat| = d.magnitude / 10 ^ d.scale := by
  rw [toRat_eq, abs_mul, abs_signum, one_mul, abs_of_nonneg (by positivity)]

@[simp] theorem toRat_strip (d : Decimal) : d.strip.toRat = d.toRat := by
  have parts := stripParts_value d.magnitude d.scale
  have cast : (d.strip.magnitude : ℚ) * 10 ^ d.scale = d.magnitude * 10 ^ d.strip.scale := by
    rw [← cast_tenTo, ← cast_tenTo]
    exact_mod_cast parts
  have same : (d.strip.magnitude : ℚ) / 10 ^ d.strip.scale = d.magnitude / 10 ^ d.scale := by
    rw [div_eq_div_iff (by positivity) (by positivity)]
    exact cast
  rw [toRat_eq, toRat_eq, same]
  rfl

theorem Held.abs_le (held : Held q) : |q| ≤ (limit : ℚ) - 1 := by
  obtain ⟨d, rfl⟩ := held
  have fits : ((d.magnitude + 1 : ℕ) : ℚ) ≤ limit := by exact_mod_cast d.magnitude_lt
  have fraction : (d.magnitude : ℚ) / 10 ^ d.scale ≤ d.magnitude :=
    div_le_self (by positivity) (one_le_pow₀ (by norm_num))
  push_cast at fits
  rw [abs_toRat]
  linarith

theorem toRat_mul_pow (d : Decimal) : d.toRat * 10 ^ d.scale = d.coefficient := by
  rw [toRat, div_mul_cancel₀ _ (by positivity)]

/-- The fraction of the number ends after so many digits, or before. -/
def EndsBy (q : ℚ) (s : Nat) : Prop := ∃ c : ℤ, q * 10 ^ s = c

theorem EndsBy.mono {t : Nat} (ends : EndsBy q s) (le : s ≤ t) : EndsBy q t := by
  obtain ⟨c, whole⟩ := ends
  obtain ⟨k, rfl⟩ := Nat.exists_eq_add_of_le le
  refine ⟨c * 10 ^ k, ?_⟩
  rw [pow_add, ← mul_assoc, whole]
  push_cast
  rfl

theorem endsBy_toRat (d : Decimal) : EndsBy d.toRat d.scale := ⟨d.coefficient, d.toRat_mul_pow⟩

/-- With a digit more the number would be too long, so if it is held it ends before it. -/
theorem Held.endsBy (held : Held q)
    (full : maxScale ≤ s ∨ (limit : ℚ) - 1 < |q| * 10 ^ (s + 1)) : EndsBy q s := by
  obtain ⟨d, rfl⟩ := held
  rcases Nat.lt_or_ge s d.scale with short | enough
  · exfalso
    have below : s < maxScale := Nat.lt_of_lt_of_le short d.scale_le
    have long := full.resolve_left (Nat.not_le_of_lt below)
    have wider : (10 : ℚ) ^ (s + 1) ≤ 10 ^ d.scale := pow_le_pow_right₀ (by norm_num) short
    have magnitude : |d.toRat| * 10 ^ d.scale = d.magnitude := by
      rw [abs_toRat, div_mul_cancel₀ _ (by positivity)]
    have above : (limit : ℚ) - 1 < d.magnitude := by
      calc (limit : ℚ) - 1 < |d.toRat| * 10 ^ (s + 1) := long
        _ ≤ |d.toRat| * 10 ^ d.scale := mul_le_mul_of_nonneg_left wider (abs_nonneg _)
        _ = d.magnitude := magnitude
    have reached : limit < d.magnitude + 1 := by
      have cast : (limit : ℚ) < (d.magnitude + 1 : ℕ) := by
        push_cast
        linarith
      exact_mod_cast cast
    have fits := d.magnitude_lt
    omega
  · exact d.endsBy_toRat.mono enough

/-- Numbers that end at one digit are no less than a unit apart. -/
theorem EndsBy.eq_of_near {a b : ℚ} (ends : EndsBy a s) (ends' : EndsBy b s)
    (near : |a - b| < 1 / 10 ^ s) : a = b := by
  obtain ⟨c, whole⟩ := ends
  obtain ⟨c', whole'⟩ := ends'
  have unit : (0 : ℚ) < 10 ^ s := by positivity
  have close : |((c - c' : ℤ) : ℚ)| < 1 := by
    push_cast
    rw [← whole, ← whole', ← sub_mul, abs_mul, abs_of_pos unit]
    exact (lt_div_iff₀ unit).mp near
  have same : c - c' = 0 := Int.abs_lt_one_iff.mp (by exact_mod_cast close)
  have equal : a * 10 ^ s = b * 10 ^ s := by rw [whole, whole', sub_eq_zero.mp same]
  exact mul_right_cancel₀ (ne_of_gt unit) equal

/-- What is near in units of a digit is near. -/
theorem near_of_scaled {x : ℚ} (close : |x - q * 10 ^ s| < 1) : |x / 10 ^ s - q| < 1 / 10 ^ s := by
  have unit : (0 : ℚ) < 10 ^ s := by positivity
  have scaled : x / 10 ^ s - q = (x - q * 10 ^ s) / 10 ^ s := by field_simp
  rw [scaled, abs_div, abs_of_pos unit]
  exact div_lt_div_of_pos_right close unit

end Decimal

namespace Price

variable {p q : Price}

theorem magnitude_pos (p : Price) : 0 < p.value.magnitude := by
  have positive := Decimal.isPositive_iff.mp p.positive
  rw [coefficient_eq] at positive
  exact_mod_cast positive

theorem toRat_lt_iff : p.value.toRat < q.value.toRat ↔ p < q := Decimal.toRat_lt_iff

theorem toRat_inj : p.value.toRat = q.value.toRat ↔ p = q := by
  constructor
  · intro same
    rw [Decimal.toRat_eq_iff, coefficient_eq, coefficient_eq] at same
    exact eq_of_same (by exact_mod_cast same)
  · rintro rfl
    rfl

end Price
end Bourse
