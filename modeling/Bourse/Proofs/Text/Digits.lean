import Bourse.Text.Blank
import Bourse.Text.Digits
import Mathlib.Algebra.Group.Nat.Defs
import Mathlib.Data.List.TakeWhile

/-! Numerals are read back: the digits of a number, filled up or not, have its value. Of numerals of
one width the texts are in the order of the numbers. -/
namespace Bourse.Text

variable {c : Char} {n width : Nat}

theorem isBlank_of_isDigit (h : c.isDigit = true) : isBlank c = false := by
  obtain ⟨low, high⟩ : 48 ≤ c.toNat ∧ c.toNat ≤ 57 := Char.isDigit_iff_toNat.mp h
  simp only [isBlank, inRanges, blankRanges, List.any_cons, List.any_nil, Bool.or_false,
    Bool.or_eq_false_iff, Bool.and_eq_false_iff, decide_eq_false_iff_not]
  omega

theorem ne_of_isDigit {d : Char} (h : c.isDigit = true) (other : d.isDigit = false) : c ≠ d := by
  rintro rfl
  rw [h] at other
  cases other

/-- Digits end where something else follows. -/
theorem span_digits {ds rest : List Char} (digits : ∀ c ∈ ds, c.isDigit = true)
    (ends : ∀ c, rest.head? = some c → c.isDigit = false) :
    (ds ++ rest).takeWhile Char.isDigit = ds ∧ (ds ++ rest).dropWhile Char.isDigit = rest := by
  rw [List.takeWhile_append_of_pos digits, List.dropWhile_append_of_pos digits]
  cases rest with
  | nil => simp
  | cons c cs => simp [ends c rfl]

section Decimal

theorem isDigit_of_mem_padded (h : c ∈ padded width n) : c.isDigit = true := by
  rcases List.mem_append.mp h with zero | digit
  · rw [List.eq_of_mem_replicate zero]
    rfl
  · exact Nat.isDigit_of_mem_toDigits (by decide) (by decide) digit

theorem length_padded (width n : Nat) :
    (padded width n).length = max width (decimal n).length := by
  rw [padded, List.length_append, List.length_replicate]
  omega

theorem length_padded_of_lt (some : 0 < width) (fits : n < 10 ^ width) :
    (padded width n).length = width := by
  have short : (decimal n).length ≤ width :=
    (Nat.length_toDigits_le_iff (by decide) some).mpr fits
  rw [length_padded, Nat.max_eq_left short]

theorem padded_ne_nil (width n : Nat) : padded width n ≠ [] := by
  intro none
  have long := length_padded width n
  have some : 0 < (decimal n).length := Nat.length_toDigits_pos
  rw [none, List.length_nil] at long
  omega

@[simp] theorem ofDigitChars_padded (width n : Nat) :
    Nat.ofDigitChars 10 (padded width n) 0 = n := by
  rw [padded, Nat.ofDigitChars_append, Nat.ofDigitChars_replicate_zero, Nat.mul_zero]
  exact Nat.ofDigitChars_ten_toDigits

@[simp] theorem natural?_padded (width n : Nat) : natural? (padded width n) = some n := by
  have all : (padded width n).all Char.isDigit = true :=
    List.all_eq_true.mpr fun _ => isDigit_of_mem_padded
  rw [natural?, all, List.isEmpty_eq_false_iff.mpr (padded_ne_nil width n),
    ofDigitChars_padded]
  rfl

theorem decimal_eq_padded (n : Nat) : decimal n = padded 0 n := by
  rw [padded, Nat.zero_sub]
  rfl

/-- Only zero is written with a zero in front. -/
theorem eq_zero_of_head_decimal (h : (decimal n).head? = some '0') : n = 0 := by
  induction n using Nat.strong_induction_on with
  | _ n ih =>
    rw [decimal, Nat.toDigits_eq_if (by decide)] at h
    split at h
    · simpa using h
    · rename_i large
      rw [List.head?_append, List.head?_eq_some_head Nat.toDigits_ne_nil, Option.some_or,
        ← List.head?_eq_some_head Nat.toDigits_ne_nil] at h
      have zero := ih (n / 10) (by omega) h
      omega

theorem toNat_of_isDigit {c : Char} (h : c.isDigit = true) :
    ∃ d, d < 10 ∧ c.toNat = 48 + d ∧ c.toNat - '0'.toNat = d := by
  obtain ⟨low, high⟩ : 48 ≤ c.toNat ∧ c.toNat ≤ 57 := Char.isDigit_iff_toNat.mp h
  exact ⟨c.toNat - 48, by omega, by omega, rfl⟩

/-- With further digits a number remains the leading part of the value. -/
theorem ofDigitChars_bounds {ds : List Char} (digits : ∀ c ∈ ds, c.isDigit = true) (n : Nat) :
    n * 10 ^ ds.length ≤ Nat.ofDigitChars 10 ds n ∧
      Nat.ofDigitChars 10 ds n < (n + 1) * 10 ^ ds.length := by
  induction ds generalizing n with
  | nil => simp
  | cons c cs ih =>
    obtain ⟨d, small, -, value⟩ := toNat_of_isDigit (digits c List.mem_cons_self)
    obtain ⟨low, high⟩ := ih (fun x hx => digits x (List.mem_cons_of_mem _ hx)) (10 * n + d)
    rw [Nat.ofDigitChars_cons, value, List.length_cons, Nat.pow_succ']
    constructor
    · calc n * (10 * 10 ^ cs.length) = n * 10 * 10 ^ cs.length := (Nat.mul_assoc _ _ _).symm
        _ ≤ (10 * n + d) * 10 ^ cs.length := Nat.mul_le_mul_right _ (by omega)
        _ ≤ _ := low
    · calc _ < (10 * n + d + 1) * 10 ^ cs.length := high
        _ ≤ (n + 1) * 10 * 10 ^ cs.length := Nat.mul_le_mul_right _ (by omega)
        _ = (n + 1) * (10 * 10 ^ cs.length) := Nat.mul_assoc _ _ _

/-- Of two texts that begin with as many digits the one whose number is smaller comes first. -/
theorem append_lt_of_ofDigitChars_lt {ds es : List Char} {n : Nat} (long : ds.length = es.length)
    (digits : ∀ c ∈ ds, c.isDigit = true) (digits' : ∀ c ∈ es, c.isDigit = true)
    (less : Nat.ofDigitChars 10 ds n < Nat.ofDigitChars 10 es n) (rest rest' : List Char) :
    ds ++ rest < es ++ rest' := by
  induction ds generalizing es n with
  | nil =>
    rw [List.length_eq_zero_iff.mp long.symm] at less
    exact absurd less (Nat.lt_irrefl _)
  | cons c cs ih =>
    cases es with
    | nil => cases long
    | cons e es =>
      have long : cs.length = es.length := Nat.succ.inj long
      have digits_cs := fun x hx => digits x (List.mem_cons_of_mem _ hx)
      have digits_es := fun x hx => digits' x (List.mem_cons_of_mem _ hx)
      obtain ⟨i, -, first, value⟩ := toNat_of_isDigit (digits c List.mem_cons_self)
      obtain ⟨j, -, first', value'⟩ := toNat_of_isDigit (digits' e List.mem_cons_self)
      rw [Nat.ofDigitChars_cons, Nat.ofDigitChars_cons, value, value'] at less
      rw [List.cons_append, List.cons_append, List.cons_lt_cons_iff]
      rcases Nat.lt_trichotomy i j with before | same | behind
      · have earlier : c.toNat < e.toNat := by omega
        exact .inl earlier
      · subst same
        exact .inr ⟨Char.toNat_inj.mp (first.trans first'.symm), ih long digits_cs digits_es less⟩
      · have low := (ofDigitChars_bounds digits_cs (10 * n + i)).1
        have high := (ofDigitChars_bounds digits_es (10 * n + j)).2
        have between : (10 * n + j + 1) * 10 ^ es.length ≤ (10 * n + i) * 10 ^ cs.length := by
          rw [long]
          exact Nat.mul_le_mul_right _ (by omega)
        omega

/-- Texts that begin with numerals of one width are in the order of the numbers, and where these are
equal in the order of what follows. -/
theorem padded_append_lt {m n width : Nat} {cs ds : List Char} (some : 0 < width)
    (fits : m < 10 ^ width) (fits' : n < 10 ^ width) (less : m < n ∨ m = n ∧ cs < ds) :
    padded width m ++ cs < padded width n ++ ds := by
  rcases less with less | ⟨rfl, less⟩
  · apply append_lt_of_ofDigitChars_lt (n := 0)
    · rw [length_padded_of_lt some fits, length_padded_of_lt some fits']
    · exact fun c hc => isDigit_of_mem_padded hc
    · exact fun c hc => isDigit_of_mem_padded hc
    · rwa [ofDigitChars_padded, ofDigitChars_padded]
  · exact List.append_left_lt less

end Decimal

section Hexadecimal

theorem hexDigit?_digitChar (small : n < 16) : hexDigit? n.digitChar = some n := by
  decide +revert

theorem hexValue?_append (cs ds : List Char) : hexValue? (cs ++ ds) =
    (hexValue? cs).bind fun n => ds.foldlM (fun n c => (hexDigit? c).map (16 * n + ·)) n := by
  rw [hexValue?, List.foldlM_append]
  rfl

@[simp] theorem hexValue?_hexadecimal (n : Nat) : hexValue? (hexadecimal n) = some n := by
  induction n using Nat.strong_induction_on with
  | _ n ih =>
    rw [hexadecimal, Nat.toDigits_eq_if (by decide)]
    split
    · rename_i small
      simp [hexValue?, hexDigit?_digitChar small]
    · rename_i large
      have last : n % 16 < 16 := Nat.mod_lt _ (by decide)
      have first : hexValue? (Nat.toDigits 16 (n / 16)) = some (n / 16) := ih (n / 16) (by omega)
      rw [hexValue?_append, first]
      simp [hexDigit?_digitChar last, Nat.div_add_mod]

@[simp] theorem hexValue?_hexPadded (width n : Nat) : hexValue? (hexPadded width n) = some n := by
  have zeros : ∀ k, hexValue? (List.replicate k '0') = some 0 := fun k => by
    induction k with
    | zero => rfl
    | succ k ih =>
      rw [List.replicate_succ', hexValue?_append, ih]
      rfl
  rw [hexPadded, hexValue?_append, zeros]
  exact hexValue?_hexadecimal n

theorem length_hexPadded (some : 0 < width) (fits : n < 16 ^ width) :
    (hexPadded width n).length = width := by
  have short : (hexadecimal n).length ≤ width :=
    (Nat.length_toDigits_le_iff (by decide) some).mpr fits
  rw [hexPadded, List.length_append, List.length_replicate]
  omega

end Hexadecimal
end Bourse.Text
