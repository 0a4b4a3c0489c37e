import Bourse.Decimal.Text
import Bourse.Proofs.Text.Digits

/-! Decimals are read back from their text, digit for digit and with their scale. Only a zero that
has a sign loses it. -/
namespace Bourse.Decimal

open Bourse.Text

section Scan

variable {c : Char} {ds rest : List Char} {point digit : Bool} {m s : Nat}

theorem le_ofDigitChars (ds : List Char) (m : Nat) : m ≤ Nat.ofDigitChars 10 ds m := by
  rw [Nat.ofDigitChars_eq_ofDigitChars_zero]
  exact Nat.le_add_right_of_le (Nat.le_mul_of_pos_left m (Nat.pow_pos (by decide)))

/-- The scale after `n` more digits. -/
def scaleAfter (point : Bool) (s n : Nat) : Nat := if point then s + n else s

theorem scan_cons (isDigit : c.isDigit = true) (fits : Nat.ofDigitChars 10 (c :: ds) m < limit)
    (room : scaleAfter point s (ds.length + 1) ≤ maxScale) :
    scan point digit m s (c :: ds ++ rest) =
      scan point true (10 * m + (c.toNat - '0'.toNat)) (scaleAfter point s 1) (ds ++ rest) := by
  have dot : c ≠ '.' := ne_of_isDigit isDigit rfl
  have underscore : c ≠ '_' := ne_of_isDigit isDigit rfl
  have value : digit? c = some (c.toNat - '0'.toNat) := if_pos isDigit
  have small : 10 * m + (c.toNat - '0'.toNat) < limit := by
    rw [Nat.ofDigitChars_cons] at fits
    exact Nat.lt_of_le_of_lt (le_ofDigitChars _ _) fits
  have below : scaleAfter point s 1 ≤ maxScale := by
    cases point with
    | false => exact room
    | true => exact Nat.le_trans (Nat.add_le_add_left (Nat.le_add_left 1 _) s) room
  rw [List.cons_append, scan, if_neg dot, if_neg underscore, value]
  exact if_pos ⟨below, small⟩

/-- Digits that fit are taken one by one. -/
theorem scan_digits (digits : ∀ c ∈ ds, c.isDigit = true) (some : ds ≠ [])
    (fits : Nat.ofDigitChars 10 ds m < limit) (room : scaleAfter point s ds.length ≤ maxScale) :
    scan point digit m s (ds ++ rest) =
      scan point true (Nat.ofDigitChars 10 ds m) (scaleAfter point s ds.length) rest := by
  induction ds generalizing digit m s with
  | nil => exact absurd rfl some
  | cons c ds ih =>
    rw [scan_cons (digits c List.mem_cons_self) fits room]
    rw [Nat.ofDigitChars_cons] at fits ⊢
    cases ds with
    | nil => rfl
    | cons d ds =>
      have count : scaleAfter point (scaleAfter point s 1) (d :: ds).length =
          scaleAfter point s (c :: d :: ds).length := by
        cases point with
        | false => rfl
        | true => exact (Nat.add_assoc s 1 _).trans (congrArg (s + ·) (Nat.add_comm 1 _))
      have digits := fun x hx => digits x (List.mem_cons_of_mem _ hx)
      rw [ih digits (by simp) fits (count ▸ room), count]

end Scan

section Parts

variable (d : Decimal)

def wholeDigits : List Char :=
  (padded (d.scale + 1) d.magnitude).take ((padded (d.scale + 1) d.magnitude).length - d.scale)

def fractionDigits : List Char :=
  (padded (d.scale + 1) d.magnitude).drop ((padded (d.scale + 1) d.magnitude).length - d.scale)

theorem wholeDigits_append_fractionDigits :
    d.wholeDigits ++ d.fractionDigits = padded (d.scale + 1) d.magnitude :=
  List.take_append_drop _ _

theorem isDigit_of_mem_wholeDigits : ∀ c ∈ d.wholeDigits, c.isDigit = true :=
  fun _ hc => isDigit_of_mem_padded (List.mem_of_mem_take hc)

theorem isDigit_of_mem_fractionDigits : ∀ c ∈ d.fractionDigits, c.isDigit = true :=
  fun _ hc => isDigit_of_mem_padded (List.mem_of_mem_drop hc)

theorem length_fractionDigits : d.fractionDigits.length = d.scale := by
  have long := length_padded (d.scale + 1) d.magnitude
  rw [fractionDigits, List.length_drop]
  omega

theorem fractionDigits_eq_nil : d.fractionDigits = [] ↔ d.scale = 0 := by
  rw [← List.length_eq_zero_iff, length_fractionDigits]

theorem wholeDigits_ne_nil : d.wholeDigits ≠ [] := by
  have long := length_padded (d.scale + 1) d.magnitude
  have sum := congrArg List.length d.wholeDigits_append_fractionDigits
  rw [List.length_append, length_fractionDigits] at sum
  intro none
  rw [none, List.length_nil] at sum
  omega

theorem toChars_eq : d.toChars = (if d.negative then ['-'] else []) ++ d.wholeDigits ++
    (if d.fractionDigits = [] then [] else '.' :: d.fractionDigits) := by
  simp only [fractionDigits_eq_nil]
  rfl

/-- If a zero stands before the point it stands alone. -/
theorem wholeDigits_zero (zero : d.wholeDigits.head? = some '0') : d.wholeDigits = ['0'] := by
  have sum := congrArg List.length d.wholeDigits_append_fractionDigits
  rw [List.length_append, length_fractionDigits, length_padded] at sum
  by_cases short : (decimal d.magnitude).length ≤ d.scale + 1
  · have one : d.wholeDigits.length = 1 := by omega
    obtain ⟨c, single⟩ := List.length_eq_one_iff.mp one
    rw [single] at zero ⊢
    cases zero
    rfl
  · -- Then nothing is filled up, and only the number zero starts with a zero.
    have filled : padded (d.scale + 1) d.magnitude = decimal d.magnitude := by
      rw [padded, Nat.sub_eq_zero_of_le (by omega)]
      rfl
    rw [wholeDigits, filled, List.head?_take, if_neg (by omega)] at zero
    rw [eq_zero_of_head_decimal zero] at short
    exact absurd (Nat.le_add_left 1 d.scale) short

end Parts

/-- What the text of a decimal is read as: a zero has no sign. -/
def unsignedZero (d : Decimal) : Decimal :=
  { d with negative := d.negative && decide (0 < d.magnitude) }

@[simp] theorem unsignedZero_coefficient (d : Decimal) :
    d.unsignedZero.coefficient = d.coefficient := by
  obtain ⟨negative, m, s, _, _⟩ := d
  cases negative <;> cases m <;> rfl

theorem unsignedZero_of_pos {d : Decimal} (h : 0 < d.magnitude) : d.unsignedZero = d := by
  rw [unsignedZero, decide_eq_true h, Bool.and_true]

theorem make?_coefficient (d : Decimal) : make? d.coefficient d.scale = some d.unsignedZero := by
  have magnitude : d.coefficient.natAbs = d.magnitude := by
    unfold coefficient
    split <;> omega
  have sign : decide (d.coefficient < 0) = (d.negative && decide (0 < d.magnitude)) := by
    unfold coefficient
    cases d.negative <;> simp
  have bounds := And.intro d.magnitude_lt d.scale_le
  simp only [make?, ofParts?, magnitude, sign]
  exact dif_pos bounds

theorem scan_body (d : Decimal) : scan false false 0 0 (d.wholeDigits ++
    (if d.fractionDigits = [] then [] else '.' :: d.fractionDigits)) =
      some (d.magnitude, d.scale) := by
  have value : Nat.ofDigitChars 10 d.fractionDigits (Nat.ofDigitChars 10 d.wholeDigits 0) =
      d.magnitude := by
    rw [← Nat.ofDigitChars_append, wholeDigits_append_fractionDigits, ofDigitChars_padded]
  have whole : Nat.ofDigitChars 10 d.wholeDigits 0 < limit :=
    Nat.lt_of_le_of_lt (value ▸ le_ofDigitChars _ _) d.magnitude_lt
  rw [scan_digits d.isDigit_of_mem_wholeDigits d.wholeDigits_ne_nil whole (Nat.zero_le _)]
  by_cases none : d.fractionDigits = []
  · rw [if_pos none, (fractionDigits_eq_nil d).mp none, ← value, none]
    rfl
  · have scale : scaleAfter true 0 d.fractionDigits.length = d.scale := by
      rw [length_fractionDigits, scaleAfter, if_pos rfl, Nat.zero_add]
    have all : scan true true (Nat.ofDigitChars 10 d.wholeDigits 0) 0 (d.fractionDigits ++ []) =
        scan true true d.magnitude d.scale [] := by
      rw [scan_digits d.isDigit_of_mem_fractionDigits none (value ▸ d.magnitude_lt)
        (scale ▸ d.scale_le), value, scale]
    rw [List.append_nil] at all
    rw [if_neg none]
    exact all

theorem splitSign_toChars (d : Decimal) : splitSign d.toChars = (d.negative, d.wholeDigits ++
    (if d.fractionDigits = [] then [] else '.' :: d.fractionDigits)) := by
  rw [toChars_eq]
  cases d.negative with
  | true => rfl
  | false =>
    obtain ⟨c, cs, whole⟩ := List.exists_cons_of_ne_nil d.wholeDigits_ne_nil
    have digit := d.isDigit_of_mem_wholeDigits c (whole ▸ List.mem_cons_self)
    have minus : c ≠ '-' := ne_of_isDigit digit rfl
    have plus : c ≠ '+' := ne_of_isDigit digit rfl
    simp [whole, splitSign, minus, plus]

theorem ofText?_text (d : Decimal) : ofText? d.text = some d.unsignedZero := by
  have plain : readPlain d.toChars = some d.unsignedZero := by
    simp only [readPlain, splitSign_toChars, scan_body, Option.bind_some]
    exact d.make?_coefficient
  rw [ofText?, text, String.toList_ofList, ofChars?, plain]

end Bourse.Decimal
