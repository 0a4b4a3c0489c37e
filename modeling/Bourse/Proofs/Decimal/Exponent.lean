import Bourse.Proofs.Decimal.Numeral

/-! What is read for a numeral. The part before the exponent is read first and then shifted, and at
either step digits may be lost: the number is read exactly just if it is held and so is the part
before its exponent. Otherwise it is missed by less than one unit of the last digit read. -/
namespace Bourse.Decimal

open Bourse.Text

variable {cs : List Char} {d r : Decimal} {q n : ℚ} {s k : Nat}

section Plain

theorem plainNumber_eq (cs : List Char) :
    plainNumber cs = signum (splitSign cs).1 * ahead false 0 0 (splitSign cs).2 := by
  have value : digitsAfter 0 cs = digitsAfter 0 (splitSign cs).2 ∧
      fractionLength cs = fractionLength (splitSign cs).2 ∧ hasMinus cs = (splitSign cs).1 := by
    unfold splitSign
    split
    · exact ⟨rfl, rfl, rfl⟩
    · exact ⟨rfl, rfl, rfl⟩
    · rename_i minus _
      refine ⟨rfl, rfl, decide_eq_false fun head => ?_⟩
      obtain ⟨rest, rfl⟩ := List.head?_eq_some_iff.mp head
      exact minus rest rfl
  obtain ⟨digits, length, sign⟩ := value
  rw [plainNumber, digits, length, sign, ahead, Nat.zero_add]
  rfl

theorem ofParts?_value {negative : Bool} {m : Nat} (made : ofParts? negative m s = some d) :
    d.toRat = signum negative * (m / 10 ^ s) ∧ d.magnitude = m ∧ d.scale = s ∧ m < limit := by
  obtain ⟨bounds, made⟩ := Option.dite_none_right_eq_some.mp made
  obtain rfl := Option.some.inj made
  exact ⟨toRat_eq _, rfl, rfl, bounds.1⟩

theorem readPlain_cases (read : readPlain cs = some d) :
    ∃ m s : Nat, scan false false 0 0 (splitSign cs).2 = some (m, s) ∧
      make? (if (splitSign cs).1 then -m else m) s = some d := by
  obtain ⟨⟨m, s⟩, scan, made⟩ := Option.bind_eq_some_iff.mp read
  exact ⟨m, s, scan, made⟩

theorem readPlain_taken (read : readPlain cs = some d) :
    Taken (plainNumber cs) d.toRat d.magnitude d.scale := by
  obtain ⟨m, s, scan, made⟩ := readPlain_cases read
  have taken := (scan_taken (by decide) (by decide) (fun _ => rfl) scan).signed (splitSign cs).1
  obtain ⟨value, magnitude, scale, -⟩ := ofParts?_value made
  have parts : (if (splitSign cs).1 then -m else m : ℤ).natAbs = m ∧
      signum (decide ((if (splitSign cs).1 then -m else m : ℤ) < 0)) * (m : ℚ) =
        signum (splitSign cs).1 * m := by
    cases (splitSign cs).1 with
    | false => simp [signum]
    | true =>
      -- A zero loses its sign.
      rcases Nat.eq_zero_or_pos m with rfl | some
      · simp
      · simp [signum, some]
  rw [parts.1] at magnitude
  rw [parts.1, ← mul_div_assoc, parts.2, mul_div_assoc] at value
  rw [plainNumber_eq, value, magnitude, scale]
  exact taken

theorem isExponentMark_eq_false {c : Char} (shown : c = '.' ∨ isDigitOrUnderscore c = true) :
    isExponentMark c = false := by
  rcases shown with rfl | shown
  · rfl
  · rw [isDigitOrUnderscore, Bool.or_eq_true, beq_iff_eq] at shown
    rcases shown with digit | rfl
    · simp [isExponentMark, ne_of_isDigit digit]
    · rfl

theorem no_exponentMark (read : readPlain cs = some d) : ∀ c ∈ cs, isExponentMark c = false := by
  obtain ⟨m, s, scan, -⟩ := readPlain_cases read
  have body := fun c hc => isExponentMark_eq_false (scan_chars scan c hc)
  unfold splitSign at body
  split at body
  · exact List.forall_mem_cons.mpr ⟨rfl, body⟩
  · exact List.forall_mem_cons.mpr ⟨rfl, body⟩
  · exact body

/-- Without a mark there is no exponent. -/
theorem number_eq_plainNumber (plain : ∀ c ∈ cs, isExponentMark c = false) :
    mantissa cs = cs ∧ number cs = plainNumber cs := by
  have all : ∀ c ∈ cs, (!isExponentMark c) = true := fun c hc => by rw [plain c hc]; rfl
  have before : mantissa cs = cs := List.takeWhile_eq_self_iff.mpr all
  have behind : (cs.dropWhile fun c => !isExponentMark c) = [] := List.dropWhile_eq_nil_iff.mpr all
  have zero : exponent cs = 0 := by
    rw [exponent, behind]
    rfl
  refine ⟨before, ?_⟩
  rw [number, before, zero, zpow_zero, mul_one]

end Plain

section Shifts

/-- The decimal was read for the number `n`, which is `q` before its exponent. -/
structure Reads (q n : ℚ) (r : Decimal) : Prop where
  exact_iff : r.toRat = n ↔ Held q ∧ Held n
  near : |r.toRat - n| < 1 / 10 ^ r.scale

theorem Taken.reads (taken : Taken q d.toRat d.magnitude d.scale) : Reads q q d where
  exact_iff := (taken.exact_iff ⟨d, rfl⟩).trans (and_self_iff).symm
  near := taken.near

/-- A shift that loses nothing is exact where reading was. -/
theorem Taken.shifted_iff (taken : Taken q d.toRat d.magnitude d.scale) {shift : ℚ → ℚ}
    (injective : shift.Injective) (value : r.toRat = shift d.toRat) :
    r.toRat = shift q ↔ Held q ∧ Held (shift q) := by
  rw [value, injective.eq_iff, taken.exact_iff ⟨d, rfl⟩]
  constructor
  · intro held
    have all := (taken.exact_iff ⟨d, rfl⟩).mpr held
    exact ⟨held, r, all ▸ value⟩
  · exact And.left

/-- Shifting up loses nothing. -/
theorem shiftUp_value (shifted : shiftUp d k = some r) :
    r.toRat = d.toRat * 10 ^ k ∧ r.scale = d.scale - k ∧
      (d.scale < k → k ≤ maxScale ∧ d.magnitude * 10 ^ (k - d.scale) < limit) := by
  unfold shiftUp at shifted
  split at shifted
  · rename_i within
    obtain ⟨value, -, scale, -⟩ := ofParts?_value shifted
    refine ⟨?_, scale, fun beyond => absurd within (Nat.not_le_of_lt beyond)⟩
    obtain ⟨t, same⟩ := Nat.exists_eq_add_of_le within
    rw [value, toRat_eq, same, Nat.add_sub_cancel_left, pow_add]
    field_simp
  · rename_i beyond
    obtain ⟨few, shifted⟩ := Option.ite_none_left_eq_some.mp shifted
    obtain ⟨value, -, scale, bound⟩ := ofParts?_value shifted
    obtain ⟨t, same⟩ := Nat.exists_eq_add_of_le (Nat.le_of_not_le beyond)
    refine ⟨?_, by omega, fun _ => ⟨Nat.le_of_not_lt few, bound⟩⟩
    rw [value, toRat_eq, same, Nat.add_sub_cancel_left, pow_add, Nat.cast_mul, cast_tenTo]
    field_simp

theorem shiftUp_reads (taken : Taken q d.toRat d.magnitude d.scale)
    (shifted : shiftUp d k = some r) : Reads q (q * 10 ^ k) r := by
  obtain ⟨value, scale, room⟩ := shiftUp_value shifted
  have unit : (10 : ℚ) ^ k ≠ 0 := by positivity
  constructor
  · exact taken.shifted_iff (mul_left_injective₀ unit) value
  · rcases taken.all_or_cut with all | ⟨-, -, -, full⟩
    · rw [value, all, sub_self, abs_zero]
      positivity
    · -- A number that was cut off has no room for a zero more either.
      have within : k ≤ d.scale := by
        by_contra beyond
        obtain ⟨few, small⟩ := room (Nat.lt_of_not_le beyond)
        rcases full with last | full
        · exact beyond (last ▸ few)
        · have ten : 10 ^ 1 ≤ 10 ^ (k - d.scale) := Nat.pow_le_pow_right (by decide) (by omega)
          have long : d.magnitude * 10 ^ 1 ≤ d.magnitude * 10 ^ (k - d.scale) :=
            Nat.mul_le_mul_left _ ten
          omega
      obtain ⟨t, same⟩ := Nat.exists_eq_add_of_le within
      have near := taken.near
      rw [same, pow_add] at near
      rw [value, scale, same, Nat.add_sub_cancel_left, ← sub_mul, abs_mul,
        abs_of_nonneg (by positivity : (0 : ℚ) ≤ 10 ^ k)]
      calc |d.toRat - q| * 10 ^ k < 1 / (10 ^ k * 10 ^ t) * 10 ^ k :=
            mul_lt_mul_of_pos_right near (by positivity)
        _ = 1 / 10 ^ t := by field_simp

/-- Rounding stays within half a unit. -/
theorem rescaled_near (d : Decimal) (s : Nat) :
    |(rescaled d s : ℚ) * 10 ^ (d.scale - s) - d.magnitude| ≤ 10 ^ (d.scale - s) / 2 := by
  have unit : 0 < tenTo (d.scale - s) := Nat.pow_pos (by decide)
  have low := Nat.div_mul_le_self (2 * d.magnitude + tenTo (d.scale - s))
    (2 * tenTo (d.scale - s))
  have high := Nat.lt_mul_div_succ (2 * d.magnitude + tenTo (d.scale - s))
    (show 0 < 2 * tenTo (d.scale - s) by omega)
  rw [← cast_tenTo, abs_le]
  have low : (rescaled d s * (2 * tenTo (d.scale - s)) : ℚ) ≤ 2 * d.magnitude +
      tenTo (d.scale - s) := by exact_mod_cast low
  have high : (2 * d.magnitude + tenTo (d.scale - s) : ℚ) <
      2 * tenTo (d.scale - s) * (rescaled d s + 1) := by exact_mod_cast high
  constructor <;> linarith

/-- Shifting down keeps the digits that the largest scale has room for. -/
theorem shiftDown_value (shifted : shiftDown d k = some r) :
    r.toRat = d.toRat / 10 ^ k ∧ r.scale = d.scale + k ∨
      k ≤ maxScale ∧ maxScale < d.scale + k ∧ r.scale = maxScale ∧
        |r.toRat - d.toRat / 10 ^ k| ≤ 1 / 10 ^ maxScale / 2 := by
  obtain ⟨few, shifted⟩ := Option.ite_none_left_eq_some.mp shifted
  split at shifted
  · obtain ⟨value, -, scale, -⟩ := ofParts?_value shifted
    refine .inl ⟨?_, scale⟩
    rw [value, toRat_eq, pow_add, mul_div_assoc, div_div]
  · rename_i long
    obtain ⟨value, -, scale, -⟩ := ofParts?_value shifted
    refine .inr ⟨Nat.le_of_not_lt few, Nat.lt_of_not_le long, scale, ?_⟩
    have near := rescaled_near d (maxScale - k)
    obtain ⟨t, same⟩ := Nat.exists_eq_add_of_le (Nat.le_of_not_le long)
    have dropped : d.scale - (maxScale - k) = t := by omega
    have shift : (10 : ℚ) ^ d.scale * 10 ^ k = 10 ^ maxScale * 10 ^ t := by
      rw [← pow_add, ← pow_add, same]
    have apart : r.toRat - d.toRat / 10 ^ k = signum d.negative *
        ((rescaled d (maxScale - k) * 10 ^ t - d.magnitude) / (10 ^ maxScale * 10 ^ t)) := by
      rw [value, toRat_eq, mul_div_assoc, div_div, shift]
      field_simp
    rw [dropped] at near
    rw [apart, abs_mul, abs_signum, one_mul, abs_div,
      abs_of_nonneg (by positivity : (0 : ℚ) ≤ 10 ^ maxScale * 10 ^ t)]
    rw [div_le_iff₀ (by positivity)]
    calc _ ≤ (10 : ℚ) ^ t / 2 := near
      _ = 1 / 10 ^ maxScale / 2 * (10 ^ maxScale * 10 ^ t) := by field_simp

theorem EndsBy.of_div (ends : EndsBy (q / 10 ^ k) s) (few : k ≤ s) : EndsBy q (s - k) := by
  obtain ⟨c, whole⟩ := ends
  refine ⟨c, ?_⟩
  obtain ⟨t, rfl⟩ := Nat.exists_eq_add_of_le few
  rw [← whole, Nat.add_sub_cancel_left, pow_add]
  field_simp

theorem Taken.div_near (taken : Taken q d.toRat d.magnitude d.scale) (k : Nat) :
    |d.toRat / 10 ^ k - q / 10 ^ k| < 1 / 10 ^ (d.scale + k) := by
  have unit : (0 : ℚ) < 10 ^ k := by positivity
  rw [← sub_div, abs_div, abs_of_pos unit, pow_add, ← div_div]
  exact div_lt_div_of_pos_right taken.near unit

/-- Digits are lost below the largest scale, whether they had been read or cut off. -/
theorem Taken.rounded_reads (taken : Taken q d.toRat d.magnitude d.scale) (few : k ≤ maxScale)
    (long : maxScale < d.scale + k) (scale : r.scale = maxScale)
    (rounded : |r.toRat - d.toRat / 10 ^ k| ≤ 1 / 10 ^ maxScale / 2) :
    Reads q (q / 10 ^ k) r := by
  have small : (1 : ℚ) / 10 ^ (d.scale + k) ≤ 1 / 10 ^ maxScale / 2 := by
    have ten : (10 : ℚ) ^ (maxScale + 1) ≤ 10 ^ (d.scale + k) :=
      pow_le_pow_right₀ (by norm_num) long
    calc (1 : ℚ) / 10 ^ (d.scale + k) ≤ 1 / 10 ^ (maxScale + 1) :=
          one_div_le_one_div_of_le (by positivity) ten
      _ ≤ 1 / 10 ^ maxScale / 2 := by norm_num [maxScale]
  have near : |r.toRat - q / 10 ^ k| < 1 / 10 ^ maxScale := by
    calc |r.toRat - q / 10 ^ k|
        ≤ |r.toRat - d.toRat / 10 ^ k| + |d.toRat / 10 ^ k - q / 10 ^ k| := abs_sub_le _ _ _
      _ < 1 / 10 ^ maxScale / 2 + 1 / 10 ^ maxScale / 2 :=
          add_lt_add_of_le_of_lt rounded (lt_of_lt_of_le (taken.div_near k) small)
      _ = 1 / 10 ^ maxScale := add_halves _
  have ends : EndsBy r.toRat maxScale := scale ▸ r.endsBy_toRat
  refine ⟨?_, scale ▸ near⟩
  constructor
  · intro same
    refine ⟨(taken.exact_iff ⟨d, rfl⟩).mp ?_, r, same⟩
    rcases taken.all_or_cut with all | ⟨j, le, cut, -⟩
    · exact all
    · have before : EndsBy q (maxScale - k) := EndsBy.of_div (same ▸ ends) few
      exact absurd (before.mono (by omega)) cut.goesOn
  · rintro ⟨-, held⟩
    exact ends.eq_of_near (held.endsBy (.inl (Nat.le_refl _))) near

theorem shiftDown_reads (taken : Taken q d.toRat d.magnitude d.scale)
    (shifted : shiftDown d k = some r) : Reads q (q / 10 ^ k) r := by
  rcases shiftDown_value shifted with ⟨value, scale⟩ | ⟨few, long, scale, rounded⟩
  · have unit : (10 : ℚ) ^ k ≠ 0 := by positivity
    have injective : Function.Injective fun x : ℚ => x / 10 ^ k :=
      fun _ _ same => (div_left_inj' unit).mp same
    refine ⟨taken.shifted_iff injective value, ?_⟩
    rw [value, scale]
    exact taken.div_near k
  · exact taken.rounded_reads few long scale rounded

end Shifts

section Whole

theorem boundedNatural?_value {limit : Nat} (read : boundedNatural? limit cs = some k) :
    digitsAfter 0 cs = k := by
  obtain ⟨signed, -⟩ := Option.filter_eq_some_iff.mp read
  have value {ds : List Char} (natural : natural? ds = some k) : digitsAfter 0 ds = k := by
    obtain ⟨digits, same⟩ := Option.ite_none_right_eq_some.mp natural
    have all := List.all_eq_true.mp (Bool.and_eq_true_iff.mp digits).2
    rw [digitsAfter, List.filter_eq_self.mpr all]
    exact Option.some.inj same
  unfold signedNatural? at signed
  split at signed
  · have skipped := value signed
    exact skipped
  · exact value signed

theorem readScientific_reads (read : readScientific cs = some d) :
    Reads (plainNumber (mantissa cs)) (number cs) d := by
  unfold readScientific at read
  rw [List.span_eq_takeWhile_dropWhile] at read
  split at read
  · cases read
  · rename_i base mark rest parts
    obtain ⟨before, behind⟩ := Prod.mk.inj parts
    obtain ⟨b, plain, read⟩ := Option.bind_eq_some_iff.mp read
    have taken : Taken (plainNumber (mantissa cs)) b.toRat b.magnitude b.scale := by
      rw [mantissa, before]
      exact readPlain_taken plain
    have value : exponent cs =
        if hasMinus rest then -(digitsAfter 0 rest : ℤ) else digitsAfter 0 rest := by
      rw [exponent, behind]
      rfl
    rw [number, value]
    split at read
    · rename_i ds _
      obtain ⟨k, exponent, shifted⟩ := Option.bind_eq_some_iff.mp read
      have digits : digitsAfter 0 ds = k := boundedNatural?_value exponent
      have same : digitsAfter 0 ('-' :: ds) = k := digits
      have minus : hasMinus ('-' :: ds) = true := rfl
      rw [same, if_pos minus, zpow_neg, zpow_natCast, ← div_eq_mul_inv]
      exact shiftDown_reads taken shifted
    · rename_i plus
      obtain ⟨k, exponent, shifted⟩ := Option.bind_eq_some_iff.mp read
      have sign : hasMinus rest = false := by
        refine decide_eq_false fun head => ?_
        obtain ⟨ds, rfl⟩ := List.head?_eq_some_iff.mp head
        exact plus ds rfl
      rw [boundedNatural?_value exponent, sign, if_neg (by decide), zpow_natCast]
      exact shiftUp_reads taken shifted

/-- The number of the numeral is held, and so is what stands before its exponent. -/
def Exact (cs : List Char) : Prop := Held (plainNumber (mantissa cs)) ∧ Held (number cs)

theorem ofChars?_reads (read : ofChars? cs = some d) :
    Reads (plainNumber (mantissa cs)) (number cs) d := by
  unfold ofChars? at read
  split at read
  · rename_i plain
    obtain rfl := Option.some.inj read
    obtain ⟨whole, same⟩ := number_eq_plainNumber (no_exponentMark plain)
    rw [same, whole]
    exact (readPlain_taken plain).reads
  · exact readScientific_reads read

end Whole

end Bourse.Decimal
