import Bourse.Time.Calendar
import Mathlib.Tactic.IntervalCases

/-! The calendar counts days without gaps: every day has a date of the calendar, this date is
counted as the day, and later days have later dates. -/
namespace Bourse.Time

/-- The days of an era before its year `y`. -/
def daysBefore (y : Int) : Int := 365 * y + y / 4 - y / 100 + y / 400

/-- A year that starts in March has the leap day of the year in which it ends. -/
theorem daysBefore_succ (y : Int) :
    daysBefore (y + 1) = daysBefore y + if isLeapYear (y + 1) then 366 else 365 := by
  have quarter : (y + 1) / 4 = y / 4 + if (y + 1) % 4 = 0 then 1 else 0 := by
    split <;> omega
  have century : (y + 1) / 100 = y / 100 + if (y + 1) % 100 = 0 then 1 else 0 := by
    split <;> omega
  have era : (y + 1) / 400 = y / 400 + if (y + 1) % 400 = 0 then 1 else 0 := by
    split <;> omega
  have leap : isLeapYear (y + 1) = true ↔
      (y + 1) % 4 = 0 ∧ ((y + 1) % 100 ≠ 0 ∨ (y + 1) % 400 = 0) := by
    simp [isLeapYear]
  simp only [daysBefore, leap, quarter, century, era]
  split <;> split <;> split <;> split <;> omega

theorem daysBefore_mono {y y' : Int} (le : y ≤ y') : daysBefore y ≤ daysBefore y' := by
  unfold daysBefore
  omega

theorem daysBefore_eras (y era : Int) :
    daysBefore (y + era * 400) = daysBefore y + 146097 * era := by
  unfold daysBefore
  omega

/-- The year of an era in which its day falls. -/
def yearOfEra (day : Int) : Int := (day - day / 1460 + day / 36524 - day / 146096) / 365

theorem yearOfEra_mono {a b : Int} (le : a ≤ b) : yearOfEra a ≤ yearOfEra b := by
  have eras (n : Int) : n / 146096 = n / 36524 / 4 := by omega
  have days : b / 1460 - a / 1460 ≤ b - a := by omega
  have centuries : a / 36524 ≤ b / 36524 := by omega
  rw [yearOfEra, yearOfEra, eras, eras]
  omega

/-- The first and the last day of a year of an era fall into it. -/
theorem yearOfEra_borders : ∀ y : Fin 400,
    yearOfEra (daysBefore y) = y ∧ yearOfEra (daysBefore (y + 1) - 1) = y := by
  decide +kernel

theorem yearOfEra_daysBefore {y : Int} (low : 0 ≤ y) (high : y < 400) :
    yearOfEra (daysBefore y) = y ∧ yearOfEra (daysBefore (y + 1) - 1) = y := by
  obtain ⟨n, rfl⟩ := Int.eq_ofNat_of_zero_le low
  exact yearOfEra_borders ⟨n, by omega⟩

/-- As the year does not go back while days go on, every day is between the borders of its year. -/
theorem yearOfEra_bounds {day : Int} (low : 0 ≤ day) (high : day < 146097) :
    0 ≤ yearOfEra day ∧ yearOfEra day < 400 ∧ daysBefore (yearOfEra day) ≤ day ∧
      day < daysBefore (yearOfEra day + 1) := by
  have least : 0 ≤ yearOfEra day := by unfold yearOfEra; omega
  have most : yearOfEra day < 400 := by unfold yearOfEra; omega
  generalize year : yearOfEra day = y at least most ⊢
  refine ⟨least, most, ?_, ?_⟩
  · by_contra before
    have mono := yearOfEra_mono (a := day) (b := daysBefore (y - 1 + 1) - 1)
      (by rw [Int.sub_add_cancel]; omega)
    have positive : 0 < y := by
      unfold daysBefore at before
      omega
    rw [(yearOfEra_daysBefore (y := y - 1) (by omega) (by omega)).2] at mono
    omega
  · by_contra after
    have mono := yearOfEra_mono (a := daysBefore (y + 1)) (b := day) (by omega)
    have last : y + 1 < 400 := by
      unfold daysBefore at after
      omega
    rw [(yearOfEra_daysBefore (y := y + 1) (by omega) last).1] at mono
    omega

/-- The date of a day of a year that starts in March. -/
def dateOf (year day : Int) : Date :=
  let m := (5 * day + 2) / 153
  let month := if m < 10 then m + 3 else m - 9
  { year := year + (if month ≤ 2 then 1 else 0)
    month := month.toNat
    day := (day - (153 * m + 2) / 5 + 1).toNat }

theorem daysInMonth_le (year : Int) (month : Nat) : daysInMonth year month ≤ 31 := by
  unfold daysInMonth
  split
  · split <;> decide
  · split <;> decide

theorem Date.bounds_of_valid {date : Date} (valid : date.valid = true) :
    1 ≤ date.month ∧ date.month ≤ 12 ∧ 1 ≤ date.day ∧ date.day ≤ 31 := by
  simp only [Date.valid, Bool.and_eq_true, decide_eq_true_eq] at valid
  obtain ⟨⟨⟨first, last⟩, one⟩, days⟩ := valid
  exact ⟨first, last, one, Nat.le_trans days (daysInMonth_le _ _)⟩

section DateOf

variable {day : Int}

/-- The day falls into one of the twelve months from March on. -/
theorem exists_dateOf (year : Int) (low : 0 ≤ day) (high : day ≤ 365) : ∃ m : Nat, m < 12 ∧
    (153 * m + 2) / 5 ≤ day ∧ day < (153 * (m + 1) + 2) / 5 ∧
    dateOf year day =
      ⟨year + (m / 10 : Nat), (m + 2) % 12 + 1, (day - (153 * m + 2) / 5 + 1).toNat⟩ := by
  obtain ⟨m, month⟩ := Int.eq_ofNat_of_zero_le (a := (5 * day + 2) / 153) (by omega)
  have most : m < 12 := by omega
  refine ⟨m, most, by omega, by omega, ?_⟩
  simp only [dateOf, month]
  interval_cases m <;> rfl

theorem toDays_dateOf (year : Int) (low : 0 ≤ day) (high : day ≤ 365) :
    (dateOf year day).toDays = daysBefore year + day - 719468 := by
  obtain ⟨m, most, first, last, date⟩ := exists_dateOf year low high
  rw [date]
  simp only [Date.toDays, daysBefore]
  interval_cases m <;> simp <;> omega

theorem valid_dateOf {year : Int} (low : 0 ≤ day) (high : day ≤ 365)
    (leap : day = 365 → isLeapYear (year + 1) = true) : (dateOf year day).valid = true := by
  obtain ⟨m, most, first, last, date⟩ := exists_dateOf year low high
  rw [date]
  simp only [Date.valid, daysInMonth, Bool.and_eq_true, decide_eq_true_eq]
  by_cases february : m = 11
  · have within : day < 365 ∨ isLeapYear (year + 1) = true :=
      (Int.lt_or_eq_of_le high).imp_right leap
    subst february
    rcases within with short | long
    · simp
      split <;> omega
    · simp [long]
      omega
  · interval_cases m <;> simp at february ⊢ <;> omega

end DateOf

/-- A day is found in its year, which starts in March. -/
theorem exists_ofDays (z : Int) : ∃ year day : Int, 0 ≤ day ∧ day ≤ 365 ∧
    (day = 365 → isLeapYear (year + 1) = true) ∧ z + 719468 = daysBefore year + day ∧
    Date.ofDays z = dateOf year day := by
  have bounds := yearOfEra_bounds (show 0 ≤ (z + 719468) % 146097 by omega) (by omega)
  have date : Date.ofDays z = dateOf
      (yearOfEra ((z + 719468) % 146097) + (z + 719468) / 146097 * 400)
      ((z + 719468) % 146097 - (365 * yearOfEra ((z + 719468) % 146097) +
        yearOfEra ((z + 719468) % 146097) / 4 - yearOfEra ((z + 719468) % 146097) / 100)) := rfl
  generalize yearOfEra ((z + 719468) % 146097) = y at bounds date
  obtain ⟨least, most, first, last⟩ := bounds
  have start : 365 * y + y / 4 - y / 100 = daysBefore y := by
    unfold daysBefore
    omega
  have eras := daysBefore_eras y ((z + 719468) / 146097)
  have next := daysBefore_succ (y + (z + 719468) / 146097 * 400)
  rw [Int.add_right_comm, daysBefore_eras] at next
  rw [start] at date
  refine ⟨y + (z + 719468) / 146097 * 400, _, ?_, ?_, ?_, ?_, date⟩
  · omega
  · split at next <;> omega
  · intro long
    by_contra short
    rw [if_neg (by rwa [Int.add_right_comm] at short)] at next
    omega
  · omega

theorem toDays_ofDays (z : Int) : (Date.ofDays z).toDays = z := by
  obtain ⟨year, day, low, high, -, count, date⟩ := exists_ofDays z
  rw [date, toDays_dateOf year low high]
  omega

theorem valid_ofDays (z : Int) : (Date.ofDays z).valid = true := by
  obtain ⟨year, day, low, high, leap, -, date⟩ := exists_ofDays z
  rw [date]
  exact valid_dateOf low high leap

/-- Of two dates the one with the earlier year, month or day. -/
def Date.Before (a b : Date) : Prop :=
  a.year < b.year ∨ a.year = b.year ∧ (a.month < b.month ∨ a.month = b.month ∧ a.day < b.day)

/-- January and February belong to the year that started the March before. -/
theorem month_cases {m : Nat} (most : m < 12) :
    m / 10 = 0 ∧ (m + 2) % 12 + 1 = m + 3 ∨ m / 10 = 1 ∧ (m + 2) % 12 + 1 = m - 9 := by
  omega

theorem dateOf_before {year year' day day' : Int} (low : 0 ≤ day) (high : day ≤ 365)
    (low' : 0 ≤ day') (high' : day' ≤ 365) (less : year < year' ∨ year = year' ∧ day < day') :
    (dateOf year day).Before (dateOf year' day') := by
  obtain ⟨m, most, first, last, date⟩ := exists_dateOf year low high
  obtain ⟨m', most', first', last', date'⟩ := exists_dateOf year' low' high'
  have months : year = year' → m < m' ∨ m = m' ∧ day < day' := by omega
  rw [date, date', Date.Before]
  dsimp only
  rcases month_cases most with ⟨turn, month⟩ | ⟨turn, month⟩ <;>
    rcases month_cases most' with ⟨turn', month'⟩ | ⟨turn', month'⟩ <;>
    rw [turn, month, turn', month'] <;> omega

/-- A later day has a later date. -/
theorem ofDays_before {z z' : Int} (less : z < z') : (Date.ofDays z).Before (Date.ofDays z') := by
  obtain ⟨year, day, low, high, leap, count, date⟩ := exists_ofDays z
  obtain ⟨year', day', low', high', leap', count', date'⟩ := exists_ofDays z'
  rw [date, date']
  apply dateOf_before low high low' high'
  rcases Int.lt_trichotomy year year' with before | same | behind
  · exact .inl before
  · subst same
    exact .inr ⟨rfl, by omega⟩
  · have mono : daysBefore (year' + 1) ≤ daysBefore year := daysBefore_mono (by omega)
    have next := daysBefore_succ year'
    by_cases leapyear : isLeapYear (year' + 1) = true
    · rw [if_pos leapyear] at next
      omega
    · rw [if_neg leapyear] at next
      have short : day' ≠ 365 := fun h => leapyear (leap' h)
      omega

end Bourse.Time
