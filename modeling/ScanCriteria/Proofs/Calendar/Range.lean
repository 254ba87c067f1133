import Mathlib.Tactic.IntervalCases
import ScanCriteria.Calendar.Moment

/-!
# The ends of the range

A date is an instant in range with an offset. Within a day of the ends of the range its local year
may lie just outside; then it has an offset, for in UTC the local year is that of the instant.
-/
namespace ScanCriteria

namespace Calendar

theorem daysBeforeYear_mono {y z : Int} (h : y ≤ z) : daysBeforeYear y ≤ daysBeforeYear z := by
  simp only [daysBeforeYear]
  omega

theorem daysBeforeMonth_add_le {year : Int} {month day : Nat} (hm : 1 ≤ month ∧ month ≤ 12)
    (hd : day ≤ daysInMonth year month) :
    daysBeforeMonth year month + day ≤ if isLeap year then 366 else 365 := by
  obtain ⟨h₁, h₁₂⟩ := hm
  cases hl : isLeap year <;> interval_cases month <;>
    simp [daysBeforeMonth, daysInMonth, hl] at hd ⊢ <;> omega

variable {year : Int} {month day : Nat}

/-- A day lies before the next year begins. -/
theorem dayNumber_lt (hm : 1 ≤ month ∧ month ≤ 12) (hd : day ≤ daysInMonth year month) :
    dayNumber year month day < dayNumber (year + 1) 1 1 := by
  have h := daysBeforeMonth_add_le hm hd
  have hone : daysBeforeMonth (year + 1) 1 = 0 := rfl
  simp only [dayNumber, hone, daysBeforeYear_succ]
  split at h <;> simp_all <;> omega

theorem dayNumber_le (hd : 1 ≤ day) : dayNumber year 1 1 ≤ dayNumber year month day := by
  have hone : daysBeforeMonth year 1 = 0 := rfl
  simp only [dayNumber, hone]
  omega

theorem dayNumber_mono {y z : Int} (h : y ≤ z) : dayNumber y 1 1 ≤ dayNumber z 1 1 := by
  have hy : daysBeforeMonth y 1 = 0 := rfl
  have hz : daysBeforeMonth z 1 = 0 := rfl
  have hyz := daysBeforeYear_mono h
  simp only [dayNumber, hy, hz]
  omega

end Calendar

open Calendar

namespace MomentParts

/-- Parts of a date: a day of the calendar, a time of day, an offset of less than a day, and an
instant in range. -/
def Dated (p : MomentParts) : Prop :=
  (1 ≤ p.month ∧ p.month ≤ 12) ∧ (1 ≤ p.day ∧ p.day ≤ daysInMonth p.year p.month) ∧
  p.hour < 24 ∧ p.minute < 60 ∧ p.second < 60 ∧ p.nanos < 2 * nanosPerSecond ∧
  (nanosPerSecond ≤ p.nanos → p.second = 59) ∧ (-1440 < p.offset ∧ p.offset < 1440) ∧
  inRange p.seconds

instance (p : MomentParts) : Decidable p.Dated := by unfold Dated; infer_instance

theorem valid_iff {p : MomentParts} :
    p.Valid ↔ (leastYear ≤ p.year ∧ p.year ≤ greatestYear) ∧ p.Dated := Iff.rfl

/-- A moment whose text can be read: its year has four digits, or it is in UTC. -/
def Readable (p : MomentParts) : Prop := (0 ≤ p.year ∧ p.year ≤ 9999) ∨ p.offset = 0

instance (p : MomentParts) : Decidable p.Readable := inferInstanceAs (Decidable (_ ∨ _))

theorem Dated.year_of_utc {p : MomentParts} (h : p.Dated) (hz : p.offset = 0) :
    leastYear ≤ p.year ∧ p.year ≤ greatestYear := by
  obtain ⟨hm, ⟨hd, hd'⟩, hh, hmi, hs, -, -, -, hlow, hhigh⟩ := h
  have hbefore := dayNumber_lt hm hd'
  have hafter : dayNumber p.year 1 1 ≤ dayNumber p.year p.month p.day := dayNumber_le hd
  simp only [seconds, localSeconds, hz] at hlow hhigh
  constructor
  · by_contra hyear
    have hnext := dayNumber_mono (y := p.year + 1) (z := leastYear) (by omega)
    omega
  · by_contra hyear
    have hnext := dayNumber_mono (y := greatestYear + 1) (z := p.year) (by omega)
    omega

theorem Dated.valid {p : MomentParts} (h : p.Dated) (hr : p.Readable) : p.Valid := by
  rw [valid_iff]
  refine ⟨?_, h⟩
  rcases hr with hy | hz
  · rw [leastYear, greatestYear]
    omega
  · exact h.year_of_utc hz

end MomentParts
end ScanCriteria
