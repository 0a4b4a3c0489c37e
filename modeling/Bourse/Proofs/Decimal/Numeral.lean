import Bourse.Proofs.Decimal.Text
import Bourse.Proofs.Decimal.Value

/-! The numbers that numerals stand for, of any length and with any exponent, and what is read for
them. Digits are taken as long as they fit, so what is read is the number itself or falls short of
it, or exceeds it, by less than one unit of the last digit taken. -/
namespace Bourse.Decimal

open Bourse.Text

section Numbers

/-- All digits of the text as one whole number, after those that were read before. -/
def digitsAfter (m : Nat) (cs : List Char) : Nat := Nat.ofDigitChars 10 (cs.filter Char.isDigit) m

/-- How many digits stand behind the point. -/
def fractionLength (cs : List Char) : Nat := ((cs.dropWhile (· != '.')).filter Char.isDigit).length

def hasMinus (cs : List Char) : Bool := decide (cs.head? = some '-')

/-- The number of a numeral without an exponent. -/
def plainNumber (cs : List Char) : ℚ :=
  signum (hasMinus cs) * (digitsAfter 0 cs / 10 ^ fractionLength cs)

/-- The numeral up to its exponent. -/
def mantissa (cs : List Char) : List Char := cs.takeWhile fun c => !isExponentMark c

def exponent (cs : List Char) : ℤ :=
  let e := (cs.dropWhile fun c => !isExponentMark c).drop 1
  if hasMinus e then -digitsAfter 0 e else digitsAfter 0 e

/-- The number of a numeral. -/
def number (cs : List Char) : ℚ := plainNumber (mantissa cs) * 10 ^ exponent cs

end Numbers

section Taking

variable {q r : ℚ} {m s k : Nat}

/-- There the number was cut off: it goes on, but with a digit more it would be too long. -/
structure Cut (q : ℚ) (s : Nat) : Prop where
  goesOn : ¬ EndsBy q s
  full : maxScale ≤ s ∨ (limit : ℚ) - 1 < |q| * 10 ^ (s + 1)

theorem Cut.not_held (cut : Cut q s) : ¬ Held q := fun held => cut.goesOn (held.endsBy cut.full)

/-- What was taken for the number `q` is `r`, of this magnitude and scale. Either it is that number,
or the number was cut off, and there is no room for a digit more. -/
structure Taken (q r : ℚ) (m s : Nat) : Prop where
  near : |r - q| < 1 / 10 ^ s
  all_or_cut : r = q ∨ ∃ k, s ≤ k ∧ Cut q k ∧ (s = maxScale ∨ limit ≤ 10 * m)

theorem taken_all (m s : Nat) : Taken q q m s where
  near := by
    rw [sub_self, abs_zero]
    positivity
  all_or_cut := .inl rfl

theorem Taken.exact_iff (taken : Taken q r m s) (held : Held r) : r = q ↔ Held q := by
  constructor
  · rintro rfl
    exact held
  · intro held
    rcases taken.all_or_cut with all | ⟨k, -, cut, -⟩
    · exact all
    · exact absurd held cut.not_held

theorem EndsBy.of_signum {b : Bool} (ends : EndsBy (signum b * q) s) : EndsBy q s := by
  obtain ⟨c, whole⟩ := ends
  cases b with
  | false => exact ⟨c, by rw [← whole, signum, if_neg Bool.false_ne_true, one_mul]⟩
  | true =>
    refine ⟨-c, ?_⟩
    push_cast
    rw [← whole, signum, if_pos rfl]
    ring

theorem Cut.signed (cut : Cut q s) (b : Bool) : Cut (signum b * q) s where
  goesOn ends := cut.goesOn ends.of_signum
  full := by
    rw [abs_mul, abs_signum, one_mul]
    exact cut.full

theorem Taken.signed (taken : Taken q r m s) (b : Bool) :
    Taken (signum b * q) (signum b * r) m s where
  near := by
    rw [← mul_sub, abs_mul, abs_signum, one_mul]
    exact taken.near
  all_or_cut := taken.all_or_cut.imp (congrArg (signum b * ·))
    fun ⟨k, le, cut, full⟩ => ⟨k, le, cut.signed b, full⟩

/-- Between a whole number of units and the next no number ends. -/
theorem not_endsBy_of_between (low : (m : ℚ) < q * 10 ^ s) (high : q * 10 ^ s < m + 1) :
    ¬ EndsBy q s := by
  rintro ⟨c, whole⟩
  rw [whole] at low high
  have above : (m : ℤ) < c := by exact_mod_cast low
  have below : c < (m : ℤ) + 1 := by exact_mod_cast high
  omega

variable (positive : 0 ≤ q)

include positive in
theorem cut_between (low : (m : ℚ) < q * 10 ^ s) (high : q * 10 ^ s < m + 1)
    (full : s = maxScale ∨ (limit : ℚ) ≤ q * 10 ^ (s + 1)) : Cut q s where
  goesOn := not_endsBy_of_between low high
  full := by
    rw [abs_of_nonneg positive]
    exact full.imp (fun last => Nat.le_of_eq last.symm) fun wide => by linarith

include positive in
/-- The rest was passed over. -/
theorem taken_down (low : (m : ℚ) ≤ q * 10 ^ s) (high : q * 10 ^ s < m + 1)
    (full : s = maxScale ∨ (limit : ℚ) ≤ q * 10 ^ (s + 1) ∧ q * 10 ^ (s + 1) < 10 * m + 5) :
    Taken q (m / 10 ^ s) m s := by
  have unit : (0 : ℚ) < 10 ^ s := by positivity
  rcases eq_or_lt_of_le low with same | less
  · have all : (m : ℚ) / 10 ^ s = q := by rw [same, mul_div_cancel_right₀ _ (ne_of_gt unit)]
    rw [all]
    exact taken_all m s
  · constructor
    · apply near_of_scaled
      rw [abs_lt]
      constructor <;> linarith
    · have cut := cut_between positive less high (full.imp_right And.left)
      refine .inr ⟨s, Nat.le_refl s, cut, full.imp_right fun ⟨wide, short⟩ => ?_⟩
      have cast : (limit : ℚ) < (10 * m + 5 : ℕ) := by
        push_cast
        linarith
      have small : limit < 10 * m + 5 := by exact_mod_cast cast
      -- The limit ends in a six.
      unfold limit at *
      omega

include positive in
/-- The rest was rounded up. -/
theorem taken_up (low : (m : ℚ) + 1 / 2 ≤ q * 10 ^ s) (high : q * 10 ^ s < m + 1)
    (full : s = maxScale ∨ (limit : ℚ) ≤ q * 10 ^ (s + 1)) {r : Nat × Nat} (fits : m < limit)
    (up : roundedUp m s = some r) : Taken q (r.1 / 10 ^ r.2) r.1 r.2 := by
  have cut : Cut q s := cut_between positive (by linarith) high full
  have ten : q * 10 ^ (s + 1) = 10 * (q * 10 ^ s) := by
    rw [pow_succ]
    ring
  unfold roundedUp at up
  split at up
  · obtain rfl := Option.some.inj up
    constructor
    · apply near_of_scaled
      rw [Nat.cast_succ, abs_lt]
      constructor <;> linarith
    · refine .inr ⟨s, Nat.le_refl s, cut, full.imp_right fun wide => ?_⟩
      have cast : (limit : ℚ) < (10 * (m + 1) : ℕ) := by
        push_cast
        linarith
      exact Nat.le_of_lt (by exact_mod_cast cast)
  · split at up
    · cases up
    · -- One more is the limit, and that has room only with a digit less.
      rename_i wide some
      obtain rfl := Option.some.inj up
      obtain ⟨t, rfl⟩ := Nat.exists_eq_succ_of_ne_zero some
      have last : m = 79228162514264337593543950335 := by
        unfold limit at *
        omega
      have value : q * 10 ^ (t + 1) = q * 10 ^ t * 10 := by rw [pow_succ, mul_assoc]
      rw [last] at low high ⊢
      rw [Nat.succ_eq_add_one, value] at low high
      norm_num at low high ⊢
      constructor
      · apply near_of_scaled
        rw [abs_lt]
        constructor <;> linarith
      · exact .inr ⟨t + 1, Nat.le_succ t, cut, .inr (by decide)⟩

end Taking

section Scan

variable {c : Char} {cs : List Char} {point digit : Bool} {m s : Nat} {r : Nat × Nat}

/-- How many digits of the fraction the text still has. -/
def fractionAhead (point : Bool) (cs : List Char) : Nat :=
  if point then (cs.filter Char.isDigit).length else fractionLength cs

/-- The number of the whole numeral, of which the digits of `m` have been read, `s` of them behind
the point. -/
def ahead (point : Bool) (m s : Nat) (cs : List Char) : ℚ :=
  digitsAfter m cs / 10 ^ (s + fractionAhead point cs)

theorem ahead_nonneg (point : Bool) (m s : Nat) (cs : List Char) : 0 ≤ ahead point m s cs := by
  unfold ahead
  positivity

theorem ahead_nil (point : Bool) (m s : Nat) : ahead point m s [] = m / 10 ^ s := by
  cases point <;> rfl

theorem ahead_point (m s : Nat) (cs : List Char) :
    ahead false m s ('.' :: cs) = ahead true m s cs := rfl

theorem ahead_underscore (point : Bool) (m s : Nat) (cs : List Char) :
    ahead point m s ('_' :: cs) = ahead point m s cs := by
  cases point <;> rfl

theorem ahead_digit (isDigit : c.isDigit = true) (point : Bool) (m s : Nat) (cs : List Char) :
    ahead point m s (c :: cs) =
      ahead point (10 * m + (c.toNat - '0'.toNat)) (if point then s + 1 else s) cs := by
  have digits : digitsAfter m (c :: cs) = digitsAfter (10 * m + (c.toNat - '0'.toNat)) cs := by
    rw [digitsAfter, List.filter_cons_of_pos isDigit, Nat.ofDigitChars_cons]
    rfl
  have dot : (c != '.') = true := bne_iff_ne.mpr (ne_of_isDigit isDigit rfl)
  have count : s + fractionAhead point (c :: cs) =
      (if point then s + 1 else s) + fractionAhead point cs := by
    cases point with
    | false => simp [fractionAhead, fractionLength, dot]
    | true =>
      simp only [fractionAhead, if_true, List.filter_cons_of_pos isDigit, List.length_cons]
      omega
  rw [ahead, ahead, digits, count]

/-- Behind the point the digits that were read lead the number. -/
theorem ahead_bounds (m s : Nat) (cs : List Char) :
    (m : ℚ) ≤ ahead true m s cs * 10 ^ s ∧ ahead true m s cs * 10 ^ s < m + 1 := by
  have digits : ∀ c ∈ cs.filter Char.isDigit, c.isDigit = true :=
    fun c hc => (List.mem_filter.mp hc).2
  obtain ⟨low, high⟩ := ofDigitChars_bounds digits m
  have value : ahead true m s cs * 10 ^ s =
      digitsAfter m cs / 10 ^ (cs.filter Char.isDigit).length := by
    rw [ahead, fractionAhead, if_pos rfl, pow_add]
    field_simp
  rw [value]
  constructor
  · rw [le_div_iff₀ (by positivity)]
    exact_mod_cast low
  · rw [div_lt_iff₀ (by positivity)]
    exact_mod_cast high

/-- The next digit has no room any more, and rounds. -/
theorem taken_rounded (isDigit : c.isDigit = true) (fits : m < limit) (room : s ≤ maxScale)
    (long : ¬ (s + 1 ≤ maxScale ∧ 10 * m + (c.toNat - '0'.toNat) < limit))
    (rounds : (if c.toNat - '0'.toNat < 5 then some (m, s) else roundedUp m s) = some r) :
    Taken (ahead true m s (c :: cs)) (r.1 / 10 ^ r.2) r.1 r.2 := by
  obtain ⟨low, high⟩ := ahead_bounds m s (c :: cs)
  obtain ⟨low', high'⟩ := ahead_bounds (10 * m + (c.toNat - '0'.toNat)) (s + 1) cs
  have positive := ahead_nonneg true m s (c :: cs)
  obtain ⟨d, -, -, value⟩ := toNat_of_isDigit isDigit
  have next : ahead true (10 * m + d) (s + 1) cs = ahead true m s (c :: cs) := by
    rw [ahead_digit isDigit, value]
    rfl
  rw [value] at long rounds low' high'
  rw [next] at low' high'
  have full : s = maxScale ∨ (limit : ℚ) ≤ ahead true m s (c :: cs) * 10 ^ (s + 1) := by
    rcases Nat.lt_or_ge s maxScale with more | last
    · have beyond : limit ≤ 10 * m + d := Nat.le_of_not_lt fun short => long ⟨more, short⟩
      exact .inr (le_trans (by exact_mod_cast beyond) low')
    · exact .inl (Nat.le_antisymm room last)
  push_cast at low' high'
  split at rounds
  · rename_i down
    obtain rfl := Option.some.inj rounds
    apply taken_down positive low high
    refine full.imp_right fun beyond => ⟨beyond, ?_⟩
    have small : (d : ℚ) + 1 ≤ 5 := by exact_mod_cast down
    linarith
  · rename_i up
    apply taken_up positive ?_ high full fits rounds
    have half : (5 : ℚ) ≤ d := by exact_mod_cast Nat.le_of_not_lt up
    rw [pow_succ, ← mul_assoc] at low'
    linarith

/-- What reading does at a character, if the whole text is read as `r`. -/
inductive Scanned (c : Char) (cs : List Char) (point digit : Bool) (m s : Nat) (r : Nat × Nat) :
    Prop
  | point (dot : c = '.') (first : point = false) (rest : scan true digit m s cs = some r)
  | underscore (skip : c = '_') (rest : scan point digit m s cs = some r)
  | narrow (skip : c = '_') (last : s = maxScale) (passed : cs.all isDigitOrUnderscore = true)
      (ends : r = (m, s))
  | digit (isDigit : c.isDigit = true)
      (room : (if point then s + 1 else s) ≤ maxScale ∧ 10 * m + (c.toNat - '0'.toNat) < limit)
      (rest : scan point true (10 * m + (c.toNat - '0'.toNat)) (if point then s + 1 else s) cs =
        some r)
  | rounds (isDigit : c.isDigit = true) (behind : point = true)
      (long : ¬ (s + 1 ≤ maxScale ∧ 10 * m + (c.toNat - '0'.toNat) < limit))
      (passed : cs.all isDigitOrUnderscore = true)
      (ends : (if c.toNat - '0'.toNat < 5 then some (m, s) else roundedUp m s) = some r)

theorem scanned (read : scan point digit m s (c :: cs) = some r) :
    Scanned c cs point digit m s r := by
  rw [scan] at read
  split at read
  · rename_i dot
    cases point with
    | true => cases read
    | false => exact .point dot rfl read
  · split at read
    · rename_i skip
      split at read
      · cases read
      · split at read
        · rename_i narrow
          obtain ⟨passed, ends⟩ := Option.ite_none_right_eq_some.mp read
          have last : s = maxScale := by
            simpa [isNarrowEnd] using (Bool.and_eq_true_iff.mp narrow).1
          exact .narrow skip last passed (Option.some.inj ends).symm
        · exact .underscore skip read
    · split at read
      · cases read
      · rename_i value
        obtain ⟨isDigit, same⟩ := Option.ite_none_right_eq_some.mp value
        obtain rfl := Option.some.inj same
        by_cases room : (if point then s + 1 else s) ≤ maxScale ∧
            10 * m + (c.toNat - '0'.toNat) < limit
        · exact .digit isDigit room ((if_pos room).symm.trans read)
        · replace read := (if_neg room).symm.trans read
          cases point with
          | false => cases read
          | true =>
            obtain ⟨-, passes⟩ := Option.ite_none_left_eq_some.mp read
            obtain ⟨passed, ends⟩ := Option.ite_none_left_eq_some.mp passes
            exact .rounds isDigit rfl room (by simpa using passed) ends

/-- Reading takes the number of the numeral, as far as it has room. -/
theorem scan_taken (fits : m < limit) (room : s ≤ maxScale) (whole : point = false → s = 0)
    (read : scan point digit m s cs = some r) :
    Taken (ahead point m s cs) (r.1 / 10 ^ r.2) r.1 r.2 := by
  induction cs generalizing point digit m s with
  | nil =>
    cases digit with
    | false => cases read
    | true =>
      obtain rfl := Option.some.inj read
      rw [ahead_nil]
      exact taken_all m s
  | cons c cs ih =>
    cases scanned read with
    | point dot first rest =>
      rw [dot, first, ahead_point]
      exact ih fits room (fun early => absurd early (by decide)) rest
    | underscore skip rest =>
      rw [skip, ahead_underscore]
      exact ih fits room whole rest
    | narrow skip last _ ends =>
      -- What follows is passed over, at the largest scale.
      have behind : point = true := by
        by_contra before
        have none := whole (Bool.eq_false_of_not_eq_true before)
        exact absurd (none.symm.trans last) (by decide)
      subst behind ends
      obtain ⟨low, high⟩ := ahead_bounds m s (c :: cs)
      exact taken_down (ahead_nonneg true m s (c :: cs)) low high (.inl last)
    | digit isDigit room rest =>
      rw [ahead_digit isDigit]
      apply ih room.2 room.1 _ rest
      rintro rfl
      exact whole rfl
    | rounds isDigit behind long _ ends =>
      subst behind
      exact taken_rounded isDigit fits room long ends

/-- Of what is read every character is a digit, a point or an underscore. -/
theorem scan_chars (read : scan point digit m s cs = some r) :
    ∀ c ∈ cs, c = '.' ∨ isDigitOrUnderscore c = true := by
  induction cs generalizing point digit m s with
  | nil => exact fun c hc => absurd hc List.not_mem_nil
  | cons c cs ih =>
    have shown : isDigitOrUnderscore '_' = true := rfl
    have passing (all : cs.all isDigitOrUnderscore = true) :
        ∀ c ∈ cs, c = '.' ∨ isDigitOrUnderscore c = true :=
      fun c hc => .inr (List.all_eq_true.mp all c hc)
    rw [List.forall_mem_cons]
    cases scanned read with
    | point dot _ rest => exact ⟨.inl dot, ih rest⟩
    | underscore skip rest => exact ⟨.inr (skip ▸ shown), ih rest⟩
    | narrow skip _ passed _ => exact ⟨.inr (skip ▸ shown), passing passed⟩
    | digit isDigit _ rest => exact ⟨.inr (by rw [isDigitOrUnderscore, isDigit]; rfl), ih rest⟩
    | rounds isDigit _ _ passed _ =>
      exact ⟨.inr (by rw [isDigitOrUnderscore, isDigit]; rfl), passing passed⟩

end Scan

end Bourse.Decimal
