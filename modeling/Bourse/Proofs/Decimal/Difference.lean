import Bourse.Decimal.Arithmetic
import Bourse.Proofs.Market.PriceOrder

/-! The difference of two prices. Digits of its fraction may have to be dropped, but never so many
that nothing is left: the one below the other, the difference is a positive decimal. -/
namespace Bourse.Decimal

open Bourse.Text

variable {n d m s : Nat}

theorem div_le_roundHalfEven : n / d ≤ roundHalfEven n d := by
  unfold roundHalfEven
  dsimp only
  split <;> omega

theorem roundHalfEven_le_succ : roundHalfEven n d ≤ n / d + 1 := by
  unfold roundHalfEven
  dsimp only
  split <;> omega

/-- Rounding does not pass a whole number. -/
theorem roundHalfEven_le (positive : 0 < d) (h : n ≤ m * d) : roundHalfEven n d ≤ m := by
  rcases Nat.lt_or_eq_of_le h with less | same
  · have quotient : n / d < m := (Nat.div_lt_iff_lt_mul positive).mpr less
    exact Nat.le_trans roundHalfEven_le_succ quotient
  · have exact_quotient : n / d = m := by rw [same, Nat.mul_div_cancel _ positive]
    have no_rest : n % d = 0 := by rw [same, Nat.mul_mod_left]
    unfold roundHalfEven
    dsimp only
    rw [if_pos (.inl (by omega)), exact_quotient]

theorem dropDigits_natCast (positive : 0 < n) (k : Nat) :
    dropDigits n k = roundHalfEven n (tenTo k) := by
  have sign : (n : Int).sign = 1 := Int.sign_eq_one_of_pos (by omega)
  rw [dropDigits, sign, Int.one_mul, Int.natAbs_natCast]

theorem make?_natCast (magnitude : n < limit) (scale : s ≤ maxScale) :
    make? n s = some ⟨false, n, s, magnitude, scale⟩ := by
  have sign : decide ((n : Int) < 0) = false := decide_eq_false (by omega)
  rw [make?, sign, Int.natAbs_natCast, ofParts?, dif_pos ⟨magnitude, scale⟩]

theorem make?_natCast_eq_none (magnitude : limit ≤ n) : make? n s = none := by
  rw [make?, Int.natAbs_natCast, ofParts?, dif_neg (by omega)]

theorem findSome?_range {α : Type} {f : Nat → Option α} {a : α} {k : Nat} (within : k ≤ s)
    (here : f k = some a) (before : ∀ j < k, f j = none) :
    (List.range (s + 1)).findSome? f = some a := by
  obtain ⟨rest, rfl⟩ := Nat.exists_eq_add_of_le within
  have split : List.range (k + rest + 1) =
      List.range k ++ k :: (List.range rest).map (k + Nat.succ ·) := by
    rw [Nat.add_assoc, List.range_add, List.range_succ_eq_map, List.map_cons, List.map_map]
    rfl
  refine List.findSome?_eq_some_iff.mpr ⟨_, k, _, split, here, ?_⟩
  intro j hj
  exact before j (List.mem_range.mp hj)

/-- A positive number that fits with fewer digits loses the fewest that it can. -/
theorem fit?_of_fits (positive : 0 < n) (scale : s ≤ maxScale)
    (fits : ∃ k, k ≤ s ∧ roundHalfEven n (tenTo k) < limit) :
    ∃ k d, k ≤ s ∧ fit? n s = some d ∧ d.negative = false ∧
      d.magnitude = roundHalfEven n (tenTo k) ∧ d.scale = s - k ∧
      ∀ j < k, limit ≤ roundHalfEven n (tenTo j) := by
  obtain ⟨within, short⟩ := Nat.find_spec fits
  have wide : ∀ j < Nat.find fits, limit ≤ roundHalfEven n (tenTo j) := by
    intro j hj
    have none := Nat.find_min fits hj
    omega
  refine ⟨Nat.find fits, ⟨false, _, s - Nat.find fits, short, by omega⟩, within, ?_, rfl, rfl,
    rfl, wide⟩
  apply findSome?_range within
  · rw [dropDigits_natCast positive, make?_natCast short (by omega)]
  · intro j hj
    rw [dropDigits_natCast positive, make?_natCast_eq_none (wide j hj)]

theorem isPositive_fit? (positive : 0 < n) (bound : n ≤ m * tenTo s) (whole : m < limit)
    (scale : s ≤ maxScale) : ∃ d, fit? n s = some d ∧ d.isPositive = true := by
  have fits : ∃ k, k ≤ s ∧ roundHalfEven n (tenTo k) < limit :=
    ⟨s, Nat.le_refl s, Nat.lt_of_le_of_lt (roundHalfEven_le (tenTo_pos s) bound) whole⟩
  obtain ⟨k, d, -, hfit, sign, magnitude, -, wide⟩ := fit?_of_fits positive scale fits
  refine ⟨d, hfit, ?_⟩
  have quotient : 0 < n / tenTo k := by
    cases k with
    | zero =>
      have one : tenTo 0 = 1 := rfl
      rw [one, Nat.div_one]
      exact positive
    | succ j =>
      -- With one digit more it did not fit, so many digits are still there.
      have before := Nat.le_trans (wide j (Nat.lt_succ_self j)) roundHalfEven_le_succ
      have ten : tenTo (j + 1) = tenTo j * 10 := rfl
      have large : 11 ≤ limit := by decide
      rw [ten, ← Nat.div_div_eq_div_mul]
      omega
  have left : 0 < d.magnitude := by
    rw [magnitude]
    exact Nat.lt_of_lt_of_le quotient div_le_roundHalfEven
  simp only [isPositive, sign, left, Bool.not_false, decide_true, Bool.and_self]

end Bourse.Decimal

namespace Bourse.Price

open Bourse.Text

variable {p q : Price}

/-- Over a common scale the smaller price has the smaller magnitude. -/
theorem scaled_lt (h : p < q) {s : Nat} (hp : p.value.scale ≤ s) (hq : q.value.scale ≤ s) :
    p.value.magnitude * tenTo (s - p.value.scale) <
      q.value.magnitude * tenTo (s - q.value.scale) := by
  rw [lt_iff] at h
  have raise : ∀ {x : Nat}, x ≤ s → tenTo x * tenTo (s - x) = tenTo s := by
    intro x hx
    rw [← tenTo_add, Nat.add_sub_of_le hx]
  apply Nat.lt_of_mul_lt_mul_left (a := tenTo p.value.scale * tenTo q.value.scale)
  calc tenTo p.value.scale * tenTo q.value.scale *
        (p.value.magnitude * tenTo (s - p.value.scale))
      = p.value.magnitude * tenTo q.value.scale *
          (tenTo p.value.scale * tenTo (s - p.value.scale)) := by ring
    _ = p.value.magnitude * tenTo q.value.scale * tenTo s := by rw [raise hp]
    _ < q.value.magnitude * tenTo p.value.scale * tenTo s :=
      Nat.mul_lt_mul_of_pos_right h (tenTo_pos s)
    _ = q.value.magnitude * tenTo p.value.scale *
          (tenTo q.value.scale * tenTo (s - q.value.scale)) := by rw [raise hq]
    _ = tenTo p.value.scale * tenTo q.value.scale *
          (q.value.magnitude * tenTo (s - q.value.scale)) := by ring

theorem isPositive_minus (h : p < q) :
    ∃ d, q.value.minus p.value = .ok d ∧ d.isPositive = true := by
  let s := max q.value.scale p.value.scale
  have scales : q.value.scale ≤ s ∧ p.value.scale ≤ s := ⟨Nat.le_max_left _ _, Nat.le_max_right _ _⟩
  have less := scaled_lt h scales.2 scales.1
  have difference : q.value.coefficient * tenTo (s - q.value.scale) -
      p.value.coefficient * tenTo (s - p.value.scale) =
      ((q.value.magnitude * tenTo (s - q.value.scale) -
        p.value.magnitude * tenTo (s - p.value.scale) : Nat) : Int) := by
    rw [coefficient_eq, coefficient_eq, Int.natCast_sub (Nat.le_of_lt less)]
    push_cast
    rfl
  have bound : q.value.magnitude * tenTo (s - q.value.scale) -
      p.value.magnitude * tenTo (s - p.value.scale) ≤ q.value.magnitude * tenTo s :=
    Nat.le_trans (Nat.sub_le _ _)
      (Nat.mul_le_mul_left _ (Nat.pow_le_pow_right (by decide) (Nat.sub_le _ _)))
  obtain ⟨d, fits, positive⟩ := Decimal.isPositive_fit? (Nat.sub_pos_of_lt less) bound
    q.value.magnitude_lt (Nat.max_le.mpr ⟨q.value.scale_le, p.value.scale_le⟩)
  refine ⟨d, ?_, positive⟩
  unfold Decimal.minus
  dsimp only
  rw [difference, fits]

end Bourse.Price
