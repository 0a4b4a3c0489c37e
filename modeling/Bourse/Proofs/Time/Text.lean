import Bourse.Proofs.Text.Digits
import Bourse.Proofs.Time.Calendar
import Bourse.Time.Text

/-! An instant is read back from its text, whatever the digits of its fraction. -/
namespace Bourse.Instant

open Bourse.Text Bourse.Time

/-- The year in UTC. -/
def year (t : Instant) : Int := (Date.ofDays (t.second / secondsPerDay)).year

/-- Within the years of four digits, and not in a leap second. -/
structure Plain (t : Instant) : Prop where
  first : 0 ≤ t.year
  last : t.year ≤ 9999
  nano : t.nano < nanosPerSecond

section Parts

variable {ds rest : List Char} {width n : Nat}

theorem takeDigits_append (digits : ∀ c ∈ ds, c.isDigit = true) (short : ds.length ≤ width)
    (ends : ds.length = width ∨ ∀ c, rest.head? = some c → c.isDigit = false) :
    takeDigits width (ds ++ rest) = (ds, rest) := by
  induction ds generalizing width with
  | nil =>
    cases width with
    | zero => rfl
    | succ width =>
      cases rest with
      | nil => rfl
      | cons c cs =>
        have other := ends.resolve_left (by simp) c rfl
        simp [takeDigits, other]
  | cons d ds ih =>
    obtain ⟨width, rfl⟩ : ∃ k, width = k + 1 := ⟨width - 1, by simp at short; omega⟩
    have more := ih (fun c hc => digits c (List.mem_cons_of_mem _ hc)) (by simpa using short)
      (by simpa using ends)
    simp [takeDigits, digits d List.mem_cons_self, more]

theorem number_padded (some : 0 < width) (fits : n < 10 ^ width) (rest : List Char) :
    number width (padded width n ++ rest) = .some (n, rest) := by
  have long := length_padded_of_lt some fits
  rw [number, takeDigits_append (fun _ => isDigit_of_mem_padded) (Nat.le_of_eq long) (.inl long)]
  simp

theorem trimStart_cons {c : Char} (solid : isBlank c = false) (cs : List Char) :
    trimStart (c :: cs) = c :: cs := by
  rw [trimStart, List.dropWhile_cons_of_neg (by simp [solid])]

theorem padded_eq_cons (width n : Nat) : ∃ c cs, padded width n = c :: cs ∧ c.isDigit = true := by
  obtain ⟨c, cs, digits⟩ := List.exists_cons_of_ne_nil (padded_ne_nil width n)
  exact ⟨c, cs, digits, isDigit_of_mem_padded (digits ▸ List.mem_cons_self)⟩

theorem trimStart_padded (width n : Nat) (rest : List Char) :
    trimStart (padded width n ++ rest) = padded width n ++ rest := by
  obtain ⟨c, cs, digits, digit⟩ := padded_eq_cons width n
  rw [digits, List.cons_append, trimStart_cons (isBlank_of_isDigit digit)]

theorem field_padded (fits : n < 100) (rest : List Char) :
    field 2 (padded 2 n ++ rest) = some (n, rest) := by
  rw [field, trimStart_padded, number_padded (by decide) fits]

theorem yearField_padded (fits : n < 10000) (rest : List Char) :
    yearField (padded 4 n ++ rest) = some ((n : Int), rest) := by
  have read := number_padded (by decide : 0 < 4) fits rest
  have solid := trimStart_padded 4 n rest
  obtain ⟨c, cs, digits, digit⟩ := padded_eq_cons 4 n
  rw [digits, List.cons_append] at read solid ⊢
  have minus : c ≠ '-' := ne_of_isDigit digit rfl
  have plus : c ≠ '+' := ne_of_isDigit digit rfl
  simp [yearField, solid, minus, plus, read]

theorem separator_cons {c : Char} (solid : isBlank c = false) (cs : List Char) :
    separator c (c :: cs) = some cs := by
  rw [separator, trimStart_cons solid]
  exact if_pos rfl

end Parts

theorem readDate_chars {date : Date} (valid : date.valid = true) (first : 0 ≤ date.year)
    (last : date.year ≤ 9999) (rest : List Char) :
    readDate (yearChars date.year ++ '-' :: padded 2 date.month ++ '-' :: padded 2 date.day ++
      rest) = some (date, rest) := by
  obtain ⟨year, month, day⟩ := date
  obtain ⟨n, rfl⟩ := Int.eq_ofNat_of_zero_le first
  obtain ⟨-, months, -, days⟩ : 1 ≤ month ∧ month ≤ 12 ∧ 1 ≤ day ∧ day ≤ 31 :=
    Date.bounds_of_valid valid
  have digits : n < 10000 := Int.ofNat_lt.mp (Int.lt_of_le_of_lt last (by decide))
  have bounds : firstYear ≤ (n : Int) ∧ (n : Int) ≤ lastYear := by
    unfold firstYear lastYear
    omega
  rw [yearChars, if_pos ⟨first, last⟩, Int.natAbs_natCast]
  simp only [List.append_assoc, List.cons_append]
  simp [readDate, yearField_padded digits, separator_cons (c := '-') rfl,
    field_padded (n := month) (by omega), field_padded (n := day) (by omega), valid, bounds]

/-- The digits of a fraction, of which there are nine at most. -/
theorem readFraction_padded {width n : Nat} (some : 0 < width) (nine : width ≤ 9)
    (fits : n < 10 ^ width) : readFraction ('.' :: padded width n ++ ['Z']) =
      .some (n * tenTo (9 - width), ['Z']) := by
  have long := length_padded_of_lt some fits
  have taken : takeDigits 9 (padded width n ++ ['Z']) = (padded width n, ['Z']) :=
    takeDigits_append (fun _ => isDigit_of_mem_padded) (by omega) (.inr (by rintro _ ⟨⟩; rfl))
  rw [List.cons_append, readFraction, taken]
  simp [long]

theorem readFraction_chars {n : Nat} (fits : n < nanosPerSecond) :
    readFraction (fractionChars n ++ ['Z']) = some (n, ['Z']) := by
  have ten : nanosPerSecond = 10 ^ 9 := rfl
  have read (width : Nat) (some : 0 < width) (nine : width ≤ 9) (m : Nat)
      (value : m * tenTo (9 - width) = n) (small : m < 10 ^ width) :
      readFraction ('.' :: padded width m ++ ['Z']) = .some (n, ['Z']) := by
    rw [readFraction_padded some nine small, value]
  unfold fractionChars
  split
  · rename_i zero
    rw [zero]
    rfl
  split
  · refine read 3 (by decide) (by decide) _ ?_ (by omega)
    rw [show tenTo (9 - 3) = 1000000 from rfl]
    omega
  split
  · refine read 6 (by decide) (by decide) _ ?_ (by omega)
    rw [show tenTo (9 - 6) = 1000 from rfl]
    omega
  · exact read 9 (by decide) (by decide) _ (Nat.mul_one n) (by omega)

theorem readClock_chars {s n : Nat} (day : s < 86400) (fits : n < nanosPerSecond) :
    readClock (padded 2 (s / 3600) ++ ':' :: padded 2 (s / 60 % 60) ++ ':' :: padded 2 (s % 60) ++
      fractionChars n ++ ['Z']) = some (s, n, ['Z']) := by
  have hours : s / 3600 < 24 := by omega
  have minutes : s / 60 % 60 < 60 := by omega
  have seconds : s % 60 < 60 := by omega
  have sum : 3600 * (s / 3600) + 60 * (s / 60 % 60) + s % 60 = s := by omega
  simp only [List.append_assoc, List.cons_append]
  simp [readClock, separator_cons (c := ':') rfl, field_padded (n := s / 3600) (by omega),
    field_padded (n := s / 60 % 60) (by omega), field_padded (n := s % 60) (by omega),
    readFraction_chars fits, hours, minutes, seconds, sum]

theorem toDays_bounds {date : Date} (valid : date.valid = true) (first : 0 ≤ date.year)
    (last : date.year ≤ 9999) : -1000000 ≤ date.toDays ∧ date.toDays ≤ 4000000 := by
  have small := Date.bounds_of_valid valid
  simp only [Date.toDays]
  split <;> omega

namespace Plain

variable {t : Instant}

theorem within? (h : t.Plain) : within? t.second t.nano = some t := by
  have bounds := toDays_bounds (valid_ofDays (t.second / secondsPerDay)) h.first h.last
  rw [toDays_ofDays] at bounds
  unfold secondsPerDay at bounds
  refine if_pos ⟨?_, ?_⟩
  · rw [show Date.toDays ⟨firstYear, 1, 1⟩ * secondsPerDay = -8334601228800 by decide]
    omega
  · rw [show Date.toDays ⟨lastYear + 1, 1, 1⟩ * secondsPerDay = 8210266876800 by decide]
    omega

theorem toChars_eq (h : t.Plain) : t.toChars =
    yearChars t.year ++ '-' :: padded 2 (Date.ofDays (t.second / secondsPerDay)).month ++
      '-' :: padded 2 (Date.ofDays (t.second / secondsPerDay)).day ++
      'T' :: (padded 2 ((t.second % secondsPerDay).natAbs / 3600) ++
        ':' :: padded 2 ((t.second % secondsPerDay).natAbs / 60 % 60) ++
        ':' :: padded 2 ((t.second % secondsPerDay).natAbs % 60) ++
        fractionChars t.nano ++ ['Z']) := by
  have leap : t.nano / nanosPerSecond = 0 := Nat.div_eq_of_lt h.nano
  have nano : t.nano % nanosPerSecond = t.nano := Nat.mod_eq_of_lt h.nano
  simp [toChars, localChars, year, leap, nano]

theorem ofText?_text (h : t.Plain) : ofText? t.text = some t := by
  have date := readDate_chars (valid_ofDays (t.second / secondsPerDay)) h.first h.last
  have day : (t.second % secondsPerDay).natAbs < 86400 := by
    unfold secondsPerDay
    omega
  have clock := readClock_chars day h.nano
  have sum : (t.second / secondsPerDay) * secondsPerDay +
      ((t.second % secondsPerDay).natAbs : Int) = t.second := by
    unfold secondsPerDay
    omega
  rw [ofText?, text, String.toList_ofList, h.toChars_eq, ofChars?, year, date]
  have zone : readOffset (trimStart ['Z']) = some (0, []) := by decide
  simp only [Option.bind_eq_bind, Option.bind_some, clock, zone, toDays_ofDays, sum, Int.sub_zero]
  exact h.within?

end Plain
end Bourse.Instant
