import Bourse.Journal
import Bourse.Proofs.Time.Text
import Mathlib.Data.String.Basic

/-! The names of journal files. They are in the order of the times they are made of, but a name does
not tell times within one microsecond apart. -/
namespace Bourse

open Bourse.Text Bourse.Time

namespace Instant

variable {t u : Instant}

/-- Whole microseconds from the epoch. -/
def micros (t : Instant) : Int := t.second * 1000000 + (t.nano / 1000 : Nat)

def date (t : Instant) : Date := Date.ofDays (t.second / secondsPerDay)

/-- The second of the day. -/
def clock (t : Instant) : Nat := (t.second % secondsPerDay).natAbs

theorem micros_le_of_le (plain : t.Plain) (onward : t.le u = true) : t.micros ≤ u.micros := by
  have nano := plain.nano
  unfold nanosPerSecond at nano
  unfold micros
  rcases Int.lt_trichotomy t.second u.second with before | same | behind
  · omega
  · have nanos : t.nano ≤ u.nano := by
      simpa [Instant.le, Instant.compare, same, Nat.isLE_compare] using onward
    omega
  · simp [Instant.le, Instant.compare, Int.compare_eq_gt.mpr behind] at onward

theorem Plain.date_year (plain : t.Plain) : 0 ≤ t.date.year ∧ t.date.year ≤ 9999 :=
  And.intro plain.first plain.last

/-- Of two times the one in an earlier microsecond has an earlier date, or an earlier second of the
same day, or an earlier microsecond of the same second. -/
theorem before_of_micros_lt (plain : t.Plain) (plain' : u.Plain) (later : t.micros < u.micros) :
    t.date.Before u.date ∨ t.date = u.date ∧ (t.clock < u.clock ∨
      t.clock = u.clock ∧ t.nano / 1000 < u.nano / 1000) := by
  have nano := plain.nano
  have nano' := plain'.nano
  unfold nanosPerSecond at nano nano'
  unfold micros at later
  rcases Int.lt_trichotomy (t.second / secondsPerDay) (u.second / secondsPerDay) with
    before | same | behind
  · exact .inl (ofDays_before before)
  · refine .inr ⟨congrArg Date.ofDays same, ?_⟩
    unfold clock
    unfold secondsPerDay at same ⊢
    omega
  · unfold secondsPerDay at behind
    omega

end Instant

namespace Journal

variable {t u : Instant}

theorem fileName_congr (plain : t.Plain) (plain' : u.Plain) (same : t.micros = u.micros) :
    fileName t = fileName u := by
  have nano := plain.nano
  have nano' := plain'.nano
  unfold Instant.nanosPerSecond at nano nano'
  unfold Instant.micros at same
  have second : t.second = u.second := by omega
  have micro : t.nano / 1000 = u.nano / 1000 := by omega
  unfold fileName
  rw [second, micro]

theorem fileName_eq (t : Instant) : fileName t = String.ofList ("events_".toList ++
    Instant.yearChars t.date.year ++ padded 2 t.date.month ++ padded 2 t.date.day ++
    '_' :: padded 2 (t.clock / 3600) ++ padded 2 (t.clock / 60 % 60) ++ padded 2 (t.clock % 60) ++
    '_' :: padded 6 (t.nano / 1000) ++ ".jsonl".toList) :=
  rfl

theorem toList_fileName (plain : t.Plain) : (fileName t).toList =
    "events_".toList ++ (padded 4 t.date.year.natAbs ++ (padded 2 t.date.month ++
      (padded 2 t.date.day ++ '_' :: (padded 2 (t.clock / 3600) ++ (padded 2 (t.clock / 60 % 60) ++
        (padded 2 (t.clock % 60) ++ '_' :: (padded 6 (t.nano / 1000) ++ ".jsonl".toList))))))) := by
  have year : Instant.yearChars t.date.year = padded 4 t.date.year.natAbs := by
    rw [Instant.yearChars, if_pos (plain.date_year)]
  rw [fileName_eq, String.toList_ofList, year]
  simp only [List.append_assoc, List.cons_append]

section Fields

variable {rest rest' : List Char}

theorem date_append_lt {a b : Date} (valid : a.valid = true) (valid' : b.valid = true)
    (year : 0 ≤ a.year ∧ a.year ≤ 9999) (year' : 0 ≤ b.year ∧ b.year ≤ 9999)
    (before : a.Before b) :
    padded 4 a.year.natAbs ++ (padded 2 a.month ++ (padded 2 a.day ++ rest)) <
      padded 4 b.year.natAbs ++ (padded 2 b.month ++ (padded 2 b.day ++ rest')) := by
  have small := Date.bounds_of_valid valid
  have small' := Date.bounds_of_valid valid'
  apply padded_append_lt (by decide) (by omega) (by omega)
  rcases before with earlier | ⟨same, before⟩
  · exact .inl (by omega)
  · refine .inr ⟨congrArg Int.natAbs same, padded_append_lt (by decide) (by omega) (by omega) ?_⟩
    rcases before with earlier | ⟨same, earlier⟩
    · exact .inl earlier
    · exact .inr ⟨same, padded_append_lt (by decide) (by omega) (by omega) (.inl earlier)⟩

theorem clock_append_lt {s s' : Nat} (day : s < 86400) (day' : s' < 86400)
    (less : s < s' ∨ s = s' ∧ rest < rest') :
    padded 2 (s / 3600) ++ (padded 2 (s / 60 % 60) ++ (padded 2 (s % 60) ++ rest)) <
      padded 2 (s' / 3600) ++ (padded 2 (s' / 60 % 60) ++ (padded 2 (s' % 60) ++ rest')) := by
  rcases less with earlier | ⟨rfl, less⟩
  · apply padded_append_lt (by decide) (by omega) (by omega)
    by_cases hour : s / 3600 = s' / 3600
    · refine .inr ⟨hour, padded_append_lt (by decide) (by omega) (by omega) ?_⟩
      by_cases minute : s / 60 % 60 = s' / 60 % 60
      · exact .inr ⟨minute, padded_append_lt (by decide) (by omega) (by omega) (.inl (by omega))⟩
      · exact .inl (by omega)
    · exact .inl (by omega)
  · exact List.append_left_lt (List.append_left_lt (List.append_left_lt less))

end Fields

theorem fileName_lt (plain : t.Plain) (plain' : u.Plain) (later : t.micros < u.micros) :
    fileName t < fileName u := by
  have nano := plain.nano
  have nano' := plain'.nano
  unfold Instant.nanosPerSecond at nano nano'
  have day (v : Instant) : v.clock < 86400 := by
    unfold Instant.clock Instant.secondsPerDay
    omega
  rw [String.lt_iff_toList_lt, toList_fileName plain, toList_fileName plain']
  apply List.append_left_lt
  rcases Instant.before_of_micros_lt plain plain' later with before | ⟨same, before⟩
  · exact date_append_lt (valid_ofDays _) (valid_ofDays _) plain.date_year plain'.date_year before
  · rw [same]
    refine List.append_left_lt (List.append_left_lt (List.append_left_lt ?_))
    refine List.cons_lt_cons_iff.mpr (.inr ⟨rfl, clock_append_lt (day t) (day u) ?_⟩)
    rcases before with earlier | ⟨same, earlier⟩
    · exact .inl earlier
    · refine .inr ⟨same, List.cons_lt_cons_iff.mpr (.inr ⟨rfl, ?_⟩)⟩
      exact padded_append_lt (by decide) (by omega) (by omega) (.inl earlier)

theorem fileName_eq_iff (plain : t.Plain) (plain' : u.Plain) :
    fileName t = fileName u ↔ t.micros = u.micros := by
  constructor
  · intro same
    rcases Int.lt_trichotomy t.micros u.micros with before | micros | behind
    · exact absurd same (ne_of_lt (fileName_lt plain plain' before))
    · exact micros
    · exact absurd same.symm (ne_of_lt (fileName_lt plain' plain behind))
  · exact fileName_congr plain plain'

end Journal
end Bourse
