import Bourse.Market.Trade
import Bourse.Proofs.Decimal.Difference
import Bourse.Proofs.Decimal.Value
import Bourse.Proofs.Engine.Runs

/-! What a trade is worth, its price times its quantity. The product is exact if any decimal is the
exact product. Otherwise it is rounded, to as many digits as fit, or there is none, as even its
whole part does not fit. -/
namespace Bourse.Decimal

open Bourse.Text

section Rounding

variable {n d l : Nat}

/-- No more than half is added or taken away, and just half only where this makes an even number. -/
theorem roundHalfEven_near (positive : 0 < d) :
    2 * (roundHalfEven n d * d) ≤ 2 * n + d ∧ 2 * n ≤ 2 * (roundHalfEven n d * d) + d ∧
      (2 * (roundHalfEven n d * d) = 2 * n + d ∨ 2 * n = 2 * (roundHalfEven n d * d) + d →
        roundHalfEven n d % 2 = 0) := by
  have parts : n / d * d + n % d = n := Nat.div_add_mod' n d
  have rest := Nat.mod_lt n positive
  have next : (n / d + 1) * d = n / d * d + d := Nat.succ_mul _ _
  unfold roundHalfEven
  dsimp only
  split
  · omega
  · rw [next]
    omega

/-- An even number is reached from half a step below it. -/
theorem le_roundHalfEven_iff (positive : 0 < d) (even : l % 2 = 0) :
    l ≤ roundHalfEven n d ↔ 2 * (l * d) ≤ 2 * n + d := by
  obtain ⟨above, below, tie⟩ := roundHalfEven_near (n := n) positive
  generalize roundHalfEven n d = r at *
  constructor
  · intro reached
    have wide : l * d ≤ r * d := Nat.mul_le_mul_right d reached
    omega
  · intro half
    by_contra short
    have wide : (r + 1) * d ≤ l * d := Nat.mul_le_mul_right d (by omega)
    rw [Nat.succ_mul] at wide
    -- Then the number is just half a step above the even number that it was rounded to.
    have same : (r + 1) * d = l * d := by
      rw [Nat.succ_mul]
      omega
    have next : r + 1 = l := Nat.eq_of_mul_eq_mul_right positive same
    have even' := tie (by omega)
    omega

theorem abs_roundHalfEven_sub_le (positive : 0 < d) :
    |(roundHalfEven n d : ℚ) - n / d| ≤ 1 / 2 := by
  obtain ⟨above, below, -⟩ := roundHalfEven_near (n := n) positive
  have size : (0 : ℚ) < d := by exact_mod_cast positive
  have above' : 2 * ((roundHalfEven n d : ℚ) * d) ≤ 2 * n + d := by exact_mod_cast above
  have below' : 2 * (n : ℚ) ≤ 2 * (roundHalfEven n d * d) + d := by exact_mod_cast below
  have quotient : (n : ℚ) / d * d = n := div_mul_cancel₀ _ (ne_of_gt size)
  rw [abs_le]
  constructor
  · apply le_of_mul_le_mul_right _ size
    linarith
  · apply le_of_mul_le_mul_right _ size
    linarith

end Rounding

/-- The number, to as many digits as fit: it is off by half a unit of the last digit at most, and
if it is off at all, then a digit more would not fit. -/
structure Rounded (q : ℚ) (d : Decimal) : Prop where
  near : |d.toRat - q| ≤ 1 / 2 / 10 ^ d.scale
  full : d.toRat = q ∨ (limit : ℚ) - 1 / 2 ≤ |q| * 10 ^ (d.scale + 1)

variable {q : ℚ} {d : Decimal} {n s : Nat}

theorem Rounded.exact_iff (rounded : Rounded q d) : d.toRat = q ↔ Held q := by
  constructor
  · intro same
    exact ⟨d, same⟩
  · intro held
    rcases rounded.full with same | long
    · exact same
    · have half : (1 : ℚ) / 2 / 10 ^ d.scale < 1 / 10 ^ d.scale :=
        div_lt_div_of_pos_right (by norm_num) (by positivity)
      have ends : EndsBy q d.scale := held.endsBy (.inr (by linarith))
      exact d.endsBy_toRat.eq_of_near ends (lt_of_le_of_lt rounded.near half)

theorem fit?_rounded (positive : 0 < n) (scale : s ≤ maxScale)
    (fits : ∃ k, k ≤ s ∧ roundHalfEven n (tenTo k) < limit) :
    ∃ d, fit? n s = some d ∧ Rounded (n / 10 ^ s) d := by
  obtain ⟨k, d, within, hfit, sign, magnitude, left, wide⟩ := fit?_of_fits positive scale fits
  obtain ⟨r, rfl⟩ := Nat.exists_eq_add_of_le within
  rw [Nat.add_sub_cancel_left] at left
  have value : d.toRat = roundHalfEven n (tenTo k) / 10 ^ r := by
    rw [toRat_eq, sign, magnitude, left, signum, if_neg Bool.false_ne_true, one_mul]
  have number : (n : ℚ) / 10 ^ (k + r) = n / tenTo k / 10 ^ r := by
    rw [cast_tenTo, pow_add, div_div]
  refine ⟨d, hfit, ?_, ?_⟩
  · rw [value, number, left, ← sub_div, abs_div, abs_of_pos (a := (10 : ℚ) ^ r) (by positivity)]
    exact div_le_div_of_nonneg_right (abs_roundHalfEven_sub_le (tenTo_pos k)) (by positivity)
  · cases k with
    | zero =>
      have all : roundHalfEven n (tenTo 0) = n := by
        have one : tenTo 0 = 1 := rfl
        obtain ⟨above, below, -⟩ := roundHalfEven_near (n := n) (tenTo_pos 0)
        rw [one] at *
        omega
      left
      rw [value, number, all]
      norm_num [cast_tenTo]
    | succ j =>
      right
      have half := (le_roundHalfEven_iff (tenTo_pos j) (by decide)).mp (wide j (Nat.lt_succ_self j))
      have cast : 2 * ((limit : ℚ) * 10 ^ j) ≤ 2 * n + 10 ^ j := by
        rw [← cast_tenTo]
        exact_mod_cast half
      have digits : |(n : ℚ) / 10 ^ (j + 1 + r)| * 10 ^ (d.scale + 1) = n / 10 ^ j := by
        rw [abs_of_nonneg (by positivity), left, Nat.add_right_comm, pow_add, pow_add, pow_add]
        field_simp
      rw [digits, le_div_iff₀ (by positivity)]
      linarith

theorem limit_le_roundHalfEven_iff (k : Nat) :
    limit ≤ roundHalfEven n (tenTo k) ↔ (limit : ℚ) - 1 / 2 ≤ n / 10 ^ k := by
  have cast : 2 * (limit * tenTo k) ≤ 2 * n + tenTo k ↔
      2 * ((limit : ℚ) * tenTo k) ≤ 2 * n + tenTo k := by norm_cast
  rw [le_roundHalfEven_iff (tenTo_pos k) (by decide), cast, cast_tenTo,
    le_div_iff₀ (by positivity)]
  constructor <;> intro h <;> linarith

theorem fit?_spec (positive : 0 < n) (scale : s ≤ maxScale) :
    match fit? n s with
    | some d => (n : ℚ) / 10 ^ s < limit - 1 / 2 ∧ Rounded (n / 10 ^ s) d
    | none => (limit : ℚ) - 1 / 2 ≤ n / 10 ^ s := by
  by_cases fits : ∃ k, k ≤ s ∧ roundHalfEven n (tenTo k) < limit
  · obtain ⟨d, hfit, rounded⟩ := fit?_rounded positive scale fits
    obtain ⟨k, within, short⟩ := fits
    have below := mt (limit_le_roundHalfEven_iff k).mpr (Nat.not_le_of_lt short)
    have fewer : (n : ℚ) / 10 ^ s ≤ n / 10 ^ k :=
      div_le_div_of_nonneg_left (by positivity) (by positivity)
        (pow_le_pow_right₀ (by norm_num) within)
    rw [hfit]
    exact ⟨lt_of_le_of_lt fewer (not_le.mp below), rounded⟩
  · have wide : ∀ k, k ≤ s → limit ≤ roundHalfEven n (tenTo k) := by
      intro k within
      by_contra short
      exact fits ⟨k, within, Nat.lt_of_not_le short⟩
    have none : fit? n s = none := by
      apply List.findSome?_eq_none_iff.mpr
      intro k hk
      rw [dropDigits_natCast positive,
        make?_natCast_eq_none (wide k (Nat.lt_succ_iff.mp (List.mem_range.mp hk)))]
    rw [none]
    exact (limit_le_roundHalfEven_iff s).mp (wide s (Nat.le_refl s))

end Decimal

namespace Trade

open Text

variable {t : Trade}

/-- Price times quantity. -/
def worth (t : Trade) : ℚ := t.price.value.toRat * t.quantity

theorem worth_eq (t : Trade) :
    t.worth = (t.price.value.magnitude * t.quantity : ℕ) / 10 ^ t.price.value.scale := by
  rw [worth, Decimal.toRat, Price.coefficient_eq, Int.cast_natCast, Nat.cast_mul,
    div_mul_eq_mul_div]

theorem notional_of_pos (some : 0 < t.quantity) : 0 < t.price.value.magnitude * t.quantity ∧
    t.notional = match Decimal.fit? (t.price.value.magnitude * t.quantity : ℕ)
      t.price.value.scale with
    | .some d => .ok d
    | none => .error .product := by
  have product : 0 < t.price.value.magnitude * t.quantity :=
    Nat.mul_pos t.price.magnitude_pos some
  refine ⟨product, ?_⟩
  have number : t.price.value.coefficient * t.quantity =
      (t.price.value.magnitude * t.quantity : ℕ) := by
    rw [Price.coefficient_eq, Int.natCast_mul]
  rw [notional, Decimal.times, number]
  exact if_neg (by omega)

/-- The notional of a trade is its exact worth just if that is the number of some decimal. If not,
it is rounded to as many digits as fit, unless even the whole number next to it is too large: then
there is none. -/
theorem notional_exact_just_if_held (t : Trade) :
    match t.notional with
    | .ok d => t.worth < Decimal.limit - 1 / 2 ∧ Decimal.Rounded t.worth d ∧
      (d.toRat = t.worth ↔ Decimal.Held t.worth)
    | .error o => o = .product ∧ Decimal.limit - 1 / 2 ≤ t.worth ∧ ¬ Decimal.Held t.worth := by
  rcases Nat.eq_zero_or_pos t.quantity with none | some
  · have nothing : t.worth = 0 := by rw [worth, none, Nat.cast_zero, mul_zero]
    have zero : Decimal.zero.toRat = 0 := by
      norm_num [Decimal.toRat, Decimal.zero, Decimal.coefficient]
    have notional : t.notional = .ok .zero := by
      rw [notional, Decimal.times, none]
      exact if_pos (Int.mul_zero _)
    have rounded : Decimal.Rounded t.worth .zero := by
      constructor
      · rw [nothing, zero, sub_zero, abs_zero]
        positivity
      · left
        rw [nothing, zero]
    rw [notional]
    refine ⟨?_, rounded, rounded.exact_iff⟩
    rw [nothing]
    norm_num [Decimal.limit]
  · obtain ⟨product, notional⟩ := notional_of_pos some
    have spec := Decimal.fit?_spec product t.price.value.scale_le
    rw [← worth_eq] at spec
    rw [notional]
    cases hfit : Decimal.fit? (t.price.value.magnitude * t.quantity : ℕ) t.price.value.scale with
    | none =>
      rw [hfit] at spec
      refine ⟨rfl, spec, fun held => ?_⟩
      have bound := le_trans (le_abs_self t.worth) held.abs_le
      linarith
    | some d =>
      rw [hfit] at spec
      exact ⟨spec.1, spec.2, spec.2.exact_iff⟩

/-- The smallest price above one. -/
def aboveOne : Price :=
  ⟨⟨false, 10000000000000000000000000001, 28, by decide, by decide⟩, rfl, .inr (by decide)⟩

/-- The largest price there is. -/
def largest : Price :=
  ⟨⟨false, 79228162514264337593543950335, 0, by decide, by decide⟩, rfl, .inl rfl⟩

/-- The trade of a seller and a buyer who meet at one price. -/
def ofMeeting (p : Price) (n : Nat) : Trade :=
  ⟨.ofNat 1, 1, ⟨"buyer"⟩, ⟨"seller"⟩, .buy, p, n, .epoch⟩

open Engine in
/-- Just above one the notional of a trade is off, and at the largest price there is none. -/
theorem notional_above_one_and_at_largest :
    let meeting (p : Price) (n : Nat) : List Step :=
      [.instruct (.submit (.new ⟨"seller"⟩ .sell p n .epoch) ⟨.epoch, .ofNat⟩),
        .instruct (.submit (.new ⟨"buyer"⟩ .buy p n .epoch) ⟨.epoch, .ofNat⟩)]
    let occurs (ss : List Step) (t : Trade) : Prop :=
      ∃ e outs x, new.run ss = .ok (e, outs) ∧ .submitted (.ok x) ∈ outs ∧ t ∈ x.trades
    (∃ t d, occurs (meeting aboveOne maxCount) t ∧ t.notional = .ok d ∧ d.toRat ≠ t.worth) ∧
    (∃ t, occurs (meeting largest 2) t ∧ t.notional = .error .product) := by
  intro meeting occurs
  constructor
  · have ran : new.run (meeting aboveOne maxCount) =
        .ok (_, [_, .submitted (.ok ⟨_, [⟨ofMeeting aboveOne maxCount, _⟩]⟩)]) := rfl
    refine ⟨ofMeeting aboveOne maxCount,
      ⟨false, 18446744073709551615000000002, 9, by decide, by decide⟩,
      ⟨_, _, _, ran, List.mem_cons_of_mem _ List.mem_cons_self, List.mem_singleton_self _⟩, rfl, ?_⟩
    norm_num [Decimal.toRat, Decimal.coefficient, worth, ofMeeting, aboveOne, maxCount]
  · have ran : new.run (meeting largest 2) =
        .ok (_, [_, .submitted (.ok ⟨_, [⟨ofMeeting largest 2, _⟩]⟩)]) := rfl
    exact ⟨ofMeeting largest 2,
      ⟨_, _, _, ran, List.mem_cons_of_mem _ List.mem_cons_self, List.mem_singleton_self _⟩, rfl⟩

end Trade
end Bourse
