import Bourse.Market.Price
import Mathlib.Tactic.Ring

/-! The order of prices and what the two sides make of it. A price is a positive decimal in its
shortest form, so prices that are neither above nor below each other are the same price. -/
namespace Bourse

open Text

theorem Text.tenTo_pos (n : Nat) : 0 < tenTo n := Nat.pow_pos (by decide)

theorem Text.tenTo_add (m n : Nat) : tenTo (m + n) = tenTo m * tenTo n := Nat.pow_add 10 m n

theorem Decimal.isPositive_iff {d : Decimal} : d.isPositive = true ↔ 0 < d.coefficient := by
  unfold isPositive coefficient
  cases d.negative <;> simp

theorem Decimal.stripParts_value (m s : Nat) :
    (stripParts m s).1 * tenTo s = m * tenTo (stripParts m s).2 := by
  induction s generalizing m with
  | zero => rfl
  | succ s ih =>
    simp only [stripParts]
    split
    · rename_i even
      calc (stripParts (m / 10) s).1 * tenTo (s + 1)
          = (stripParts (m / 10) s).1 * tenTo s * 10 := by rw [tenTo_add, ← Nat.mul_assoc]; rfl
        _ = m / 10 * 10 * tenTo (stripParts (m / 10) s).2 := by rw [ih]; ring
        _ = m * tenTo (stripParts (m / 10) s).2 := by
          rw [Nat.div_mul_cancel (Nat.dvd_of_mod_eq_zero even)]
    · rfl

namespace Price

theorem sign_false (p : Price) : p.value.negative = false := by
  have h := p.positive
  simp only [Decimal.isPositive, Bool.and_eq_true, Bool.not_eq_true'] at h
  exact h.1

theorem coefficient_eq (p : Price) : p.value.coefficient = p.value.magnitude := by
  simp only [Decimal.coefficient, sign_false, Bool.false_eq_true, if_false]

theorem lt_iff (p q : Price) :
    p < q ↔ p.value.magnitude * tenTo q.value.scale < q.value.magnitude * tenTo p.value.scale := by
  change p.value.coefficient * _ < q.value.coefficient * _ ↔ _
  rw [coefficient_eq, coefficient_eq]
  norm_cast

theorem lt_irrefl (p : Price) : ¬ p < p := by
  rw [lt_iff]
  exact Nat.lt_irrefl _

theorem lt_trans {p q r : Price} (hpq : p < q) (hqr : q < r) : p < r := by
  rw [lt_iff] at *
  have hs := tenTo_pos q.value.scale
  have h₁ := Nat.mul_lt_mul_of_pos_right hpq (tenTo_pos r.value.scale)
  have h₂ := Nat.mul_lt_mul_of_pos_right hqr (tenTo_pos p.value.scale)
  have h : tenTo q.value.scale * (p.value.magnitude * tenTo r.value.scale) <
      tenTo q.value.scale * (r.value.magnitude * tenTo p.value.scale) := by
    calc tenTo q.value.scale * (p.value.magnitude * tenTo r.value.scale)
        = p.value.magnitude * tenTo q.value.scale * tenTo r.value.scale := by ring
      _ < q.value.magnitude * tenTo p.value.scale * tenTo r.value.scale := h₁
      _ = q.value.magnitude * tenTo r.value.scale * tenTo p.value.scale := by ring
      _ < r.value.magnitude * tenTo q.value.scale * tenTo p.value.scale := h₂
      _ = tenTo q.value.scale * (r.value.magnitude * tenTo p.value.scale) := by ring
  exact Nat.lt_of_mul_lt_mul_left h

/-- Of two prices of one value neither has the larger scale: the other would end in a zero. -/
theorem scale_le_of_same {p q : Price}
    (h : p.value.magnitude * tenTo q.value.scale = q.value.magnitude * tenTo p.value.scale) :
    q.value.scale ≤ p.value.scale := by
  by_contra hlt
  obtain ⟨k, hk⟩ := Nat.exists_eq_add_of_lt (Nat.lt_of_not_le hlt)
  have hq : q.value.magnitude = p.value.magnitude * tenTo k * 10 := by
    rw [hk, tenTo_add, tenTo_add] at h
    have ten : tenTo 1 = 10 := rfl
    apply Nat.eq_of_mul_eq_mul_right (tenTo_pos p.value.scale)
    rw [← h, ten]
    ring
  rcases q.stripped with hz | hz
  · omega
  · exact hz (by rw [hq]; exact Nat.mul_mod_left _ _)

theorem eq_of_same {p q : Price}
    (h : p.value.magnitude * tenTo q.value.scale = q.value.magnitude * tenTo p.value.scale) :
    p = q := by
  have hs : p.value.scale = q.value.scale :=
    Nat.le_antisymm (scale_le_of_same h.symm) (scale_le_of_same h)
  have hm : p.value.magnitude = q.value.magnitude := by
    rw [hs] at h
    exact Nat.eq_of_mul_eq_mul_right (tenTo_pos _) h
  have hn : p.value.negative = q.value.negative := by rw [sign_false, sign_false]
  obtain ⟨⟨n, m, s, _, _⟩, _, _⟩ := p
  obtain ⟨⟨n', m', s', _, _⟩, _, _⟩ := q
  simp only at hs hm hn
  subst hs hm hn
  rfl

theorem lt_total {p q : Price} (h : p ≠ q) : p < q ∨ q < p := by
  rw [lt_iff, lt_iff]
  rcases Nat.lt_trichotomy (p.value.magnitude * tenTo q.value.scale)
    (q.value.magnitude * tenTo p.value.scale) with hl | he | hg
  · exact .inl hl
  · exact absurd (eq_of_same he) h
  · exact .inr hg

/-- A positive decimal is a price, and only that price has its value. -/
theorem ofDecimal_positive {d : Decimal} (h : 0 < d.coefficient) :
    ∃ p, ofDecimal d = .ok p ∧ ∀ q : Price, q.value.compare d = .eq ↔ q = p := by
  have positive := Decimal.isPositive_iff.mpr h
  refine ⟨_, dif_pos positive, fun q => ?_⟩
  have strip : d.strip.magnitude * tenTo d.scale = d.magnitude * tenTo d.strip.scale :=
    Decimal.stripParts_value d.magnitude d.scale
  have value : d.coefficient = d.magnitude := by
    simp only [Decimal.isPositive, Bool.and_eq_true, Bool.not_eq_true'] at positive
    simp [Decimal.coefficient, positive.1]
  rw [Decimal.compare, Int.compare_eq_eq, coefficient_eq, value]
  norm_cast
  constructor
  · intro same
    apply eq_of_same
    apply Nat.eq_of_mul_eq_mul_right (tenTo_pos d.scale)
    calc q.value.magnitude * tenTo d.strip.scale * tenTo d.scale
        = q.value.magnitude * tenTo d.scale * tenTo d.strip.scale := by ring
      _ = d.magnitude * tenTo d.strip.scale * tenTo q.value.scale := by rw [same]; ring
      _ = d.strip.magnitude * tenTo q.value.scale * tenTo d.scale := by rw [← strip]; ring
  · rintro rfl
    exact strip

end Price

namespace Side

theorem better_irrefl (s : Side) (p : Price) : s.better p p = false := by
  cases s <;> simp only [better, decide_eq_false_iff_not] <;> exact Price.lt_irrefl p

theorem better_trans {s : Side} {p q r : Price} (hpq : s.better p q = true)
    (hqr : s.better q r = true) : s.better p r = true := by
  cases s with
  | buy =>
    simp only [better, decide_eq_true_eq] at *
    exact Price.lt_trans hqr hpq
  | sell =>
    simp only [better, decide_eq_true_eq] at *
    exact Price.lt_trans hpq hqr

theorem better_asymm {s : Side} {p q : Price} (h : s.better p q = true) : s.better q p = false := by
  by_contra h'
  have := better_trans h (Bool.not_eq_false _ ▸ h')
  simp [better_irrefl] at this

theorem better_total {s : Side} {p q : Price} (h : p ≠ q) (hb : s.better p q = false) :
    s.better q p = true := by
  cases s with
  | buy =>
    simp only [better, decide_eq_true_eq, decide_eq_false_iff_not] at *
    exact (Price.lt_total h).resolve_right hb
  | sell =>
    simp only [better, decide_eq_true_eq, decide_eq_false_iff_not] at *
    exact (Price.lt_total h).resolve_left hb

/-- A limit crosses what rests at a price unless it would itself stand before it on that side. -/
theorem crosses_eq (s : Side) (limit resting : Price) :
    s.crosses limit resting = !s.opposite.better limit resting := by
  cases s <;> simp only [crosses, opposite, better, decide_not.symm] <;> rfl

/-- What is better than a crossing price crosses. -/
theorem crosses_of_better {s : Side} {limit p q : Price} (h : s.crosses limit q = true)
    (hb : s.opposite.better p q = true) : s.crosses limit p = true := by
  rw [crosses_eq, Bool.not_eq_true'] at *
  by_contra hl
  have := better_trans (Bool.not_eq_false _ ▸ hl) hb
  simp [h] at this

/-- What is better for the one side is worse for the other. -/
theorem better_opposite (s : Side) (p q : Price) : s.opposite.better p q = s.better q p := by
  cases s <;> rfl

/-- A limit that crosses what another limit of its side does not is the better one of the two. -/
theorem better_of_crosses {s : Side} {limit other p : Price} (meets : s.crosses limit p = true)
    (apart : s.crosses other p = false) : s.better limit other = true := by
  rw [crosses_eq, better_opposite, Bool.not_eq_true'] at meets
  rw [crosses_eq, better_opposite, Bool.not_eq_false'] at apart
  by_contra worse
  by_cases same : limit = other
  · rw [same, apart] at meets
    cases meets
  · have ahead := better_total same (Bool.eq_false_iff.mpr worse)
    rw [better_trans apart ahead] at meets
    cases meets

@[simp] theorem opposite_opposite (s : Side) : s.opposite.opposite = s := by cases s <;> rfl

theorem eq_or_eq_opposite (s t : Side) : s = t ∨ s = t.opposite := by
  cases s <;> cases t <;> decide

theorem opposite_ne (s : Side) : s.opposite ≠ s := by cases s <;> decide

end Side
end Bourse
