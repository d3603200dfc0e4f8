import Mathlib.Tactic.IntervalCases
import SessionWarden.Calendar
/-!
# The calendar, counted day by day

A date is numbered by adding up the years and the months before it, as a calendar on the wall would. Numbered so, the
date of a day is a date of the calendar and has the number of the day, for all days before the epoch and after it.
-/

namespace SessionWarden

namespace CivilDate

/-! ### Counting days -/

/-- The days from the first of January of the year 1 to that of another year. -/
def daysBeforeYear (year : Int) : Int :=
  365 * (year - 1) + (year - 1) / 4 - (year - 1) / 100 + (year - 1) / 400

def daysBeforeMonth (year : Int) : Nat → Nat
  | 0 => 0
  | month + 1 => daysBeforeMonth year month + daysInMonth year month

/-- The number of a date: the days from the epoch to it. -/
def dayNumber (d : CivilDate) : Int :=
  daysBeforeYear d.year + daysBeforeMonth d.year d.month + d.day - 719163

/-- The days since Sunday on a date, the first of January 1970 having been a Thursday. -/
def weekday (d : CivilDate) : Nat := ((d.dayNumber + 4) % 7).toNat

structure Valid (d : CivilDate) : Prop where
  month_pos : 1 ≤ d.month
  month_le : d.month ≤ 12
  day_pos : 1 ≤ d.day
  day_le : d.day ≤ daysInMonth d.year d.month

theorem valid_iff {d : CivilDate} : d.Valid ↔
    1 ≤ d.month ∧ d.month ≤ 12 ∧ 1 ≤ d.day ∧ d.day ≤ daysInMonth d.year d.month :=
  ⟨fun ⟨h₁, h₂, h₃, h₄⟩ => ⟨h₁, h₂, h₃, h₄⟩, fun ⟨h₁, h₂, h₃, h₄⟩ => ⟨h₁, h₂, h₃, h₄⟩⟩

instance (d : CivilDate) : Decidable d.Valid := decidable_of_iff' _ valid_iff

@[simp] theorem daysInMonth_zero (year : Int) : daysInMonth year 0 = 0 := rfl

theorem isLeapYear_iff (year : Int) :
    isLeapYear year = true ↔ year % 4 = 0 ∧ (year % 100 ≠ 0 ∨ year % 400 = 0) := by
  simp [isLeapYear]

theorem daysBeforeMonth_thirteen (year : Int) :
    daysBeforeMonth year 13 = if isLeapYear year then 366 else 365 := by
  simp only [daysBeforeMonth, daysInMonth]
  split <;> rfl

theorem daysBeforeYear_succ (year : Int) :
    daysBeforeYear (year + 1) = daysBeforeYear year + daysBeforeMonth year 13 := by
  rw [daysBeforeMonth_thirteen]
  unfold daysBeforeYear
  by_cases h : isLeapYear year = true
  · rw [if_pos h]
    rw [isLeapYear_iff] at h
    omega
  · rw [if_neg h]
    rw [isLeapYear_iff] at h
    omega

theorem daysBeforeMonth_mono (year : Int) : Monotone (daysBeforeMonth year) :=
  monotone_nat_of_le_succ fun _ => Nat.le_add_right _ _

theorem Valid.year_bounds {d : CivilDate} (h : d.Valid) :
    daysBeforeYear d.year < d.dayNumber + 719163 ∧ d.dayNumber + 719163 ≤ daysBeforeYear (d.year + 1) := by
  have hmonth : daysBeforeMonth d.year (d.month + 1) ≤ daysBeforeMonth d.year 13 :=
    daysBeforeMonth_mono d.year (Nat.succ_le_succ h.month_le)
  have hday := h.day_pos
  have hlast := h.day_le
  have hyear := daysBeforeYear_succ d.year
  rw [daysBeforeMonth] at hmonth
  unfold dayNumber
  omega

theorem weekday_lt (d : CivilDate) : d.weekday < 7 := by
  unfold weekday
  omega

theorem daysInMonth_le (year : Int) (month : Nat) : daysInMonth year month ≤ 31 := by
  unfold daysInMonth
  split
  · split <;> decide
  all_goals decide

/-! ### A day of an era -/

/-- A day of an era of four hundred years that begin in March: after whole centuries, after spans of four years, and
after single years it is the last number that is left. The last day of a year that is longer than others ends a span
of four years, and ends a century only in the last of them. -/
structure Parts (dayOfEra century olympiad year day : Int) : Prop where
  eq : dayOfEra = 36524 * century + 1461 * olympiad + 365 * year + day
  century_le : 0 ≤ century ∧ century ≤ 3
  olympiad_le : 0 ≤ olympiad ∧ olympiad ≤ 24
  year_le : 0 ≤ year ∧ year ≤ 3
  day_le : 0 ≤ day ∧ day ≤ 365
  leapDay : day = 365 → year = 3 ∧ (olympiad ≠ 24 ∨ century = 3)

variable {d c q s r : Int}

theorem exists_parts (hlow : 0 ≤ d) (hhigh : d < 146097) : ∃ c q s r, Parts d c q s r := by
  obtain ⟨c, rest, hd, hc, hrest, hlast⟩ : ∃ c rest, d = 36524 * c + rest ∧ (0 ≤ c ∧ c ≤ 3) ∧
      (0 ≤ rest ∧ rest ≤ 36524) ∧ (rest = 36524 → c = 3) := by
    by_cases h : d / 36524 ≤ 3
    · exact ⟨d / 36524, d % 36524, by omega, by omega, by omega, by omega⟩
    · exact ⟨3, d - 109572, by omega, by omega, by omega, by omega⟩
  obtain ⟨s, r, hrem, hs, hr, hlong⟩ : ∃ s r, rest % 1461 = 365 * s + r ∧ (0 ≤ s ∧ s ≤ 3) ∧ (0 ≤ r ∧ r ≤ 365) ∧
      (r = 365 → s = 3) := by
    by_cases h : rest % 1461 / 365 ≤ 3
    · exact ⟨rest % 1461 / 365, rest % 1461 % 365, by omega, by omega, by omega, by omega⟩
    · exact ⟨3, 365, by omega, by omega, by omega, by omega⟩
  exact ⟨c, rest / 1461, s, r, by omega, hc, by omega, hs, hr, by omega⟩

theorem Parts.yearOfEra (h : Parts d c q s r) :
    (d - d / 1460 + d / 36524 - d / 146096) / 365 = 100 * c + 4 * q + s := by
  obtain ⟨heq, hc, hq, hs, hr, hlong⟩ := h
  have hcenturies : d / 36524 - d / 146096 = c := by
    by_cases hlast : d = 146096
    · omega
    · have hrest : 1461 * q + 365 * s + r < 36524 := by omega
      have hquotient : d / 36524 = c := by omega
      omega
  -- a leap day is taken out too early by as many days as it was not yet reached
  obtain ⟨e, holympiads, he⟩ : ∃ e, d / 1460 = 25 * c + q + e ∧ ((e = 0 ∧ r ≤ 364) ∨ (e = 1 ∧ 1 ≤ r)) := by
    by_cases hover : 24 * c + q + 365 * s + r < 1460
    · exact ⟨0, by omega, by omega⟩
    · exact ⟨1, by omega, by omega⟩
  generalize d / 36524 = x at *
  generalize d / 146096 = y at *
  rw [holympiads]
  omega

theorem Parts.dayOfYear (h : Parts d c q s r) :
    d - (365 * (100 * c + 4 * q + s) + (100 * c + 4 * q + s) / 4 - (100 * c + 4 * q + s) / 100) = r := by
  obtain ⟨rfl, hc, hq, hs, hr, hlong⟩ := h
  omega

/-! ### A day of a year that begins in March -/

/-- The date of a day of a year that begins in March. -/
def ofMarch (marchYear dayOfYear : Int) : CivilDate :=
  let monthIndex := (5 * dayOfYear + 2) / 153
  let day := dayOfYear - (153 * monthIndex + 2) / 5 + 1
  let month := if monthIndex < 10 then monthIndex + 3 else monthIndex - 9
  let year := marchYear + (if month ≤ 2 then 1 else 0)
  ⟨year, month.toNat, day.toNat⟩

theorem ofDays_eq_ofMarch {n : Int} (h : Parts ((n + 719468) % 146097) c q s r) :
    ofDays n = ofMarch (100 * c + 4 * q + s + (n + 719468) / 146097 * 400) r := by
  rw [← h.dayOfYear, ← h.yearOfEra]
  rfl

theorem spec_of_month {year start first : Int} {month : Nat} (hmonth : 1 ≤ month ∧ month ≤ 12) (hlow : first ≤ r)
    (hhigh : r - first < daysInMonth year month)
    (hstart : daysBeforeYear year + daysBeforeMonth year month = start + first - 306) :
    (CivilDate.mk year month (r - first + 1).toNat).Valid ∧
      (CivilDate.mk year month (r - first + 1).toNat).dayNumber = start + r - 719468 := by
  refine ⟨⟨hmonth.1, hmonth.2, ?_, ?_⟩, ?_⟩
  · dsimp only
    omega
  · dsimp only
    omega
  · dsimp only [dayNumber]
    omega

theorem ofMarch_spec {y : Int} (hlow : 0 ≤ r) (hhigh : r ≤ 365) (hleap : r = 365 → isLeapYear (y + 1) = true) :
    (ofMarch y r).Valid ∧ (ofMarch y r).dayNumber = daysBeforeYear (y + 1) + r - 719468 := by
  obtain ⟨i, hi, hindex⟩ : ∃ i : Nat, i < 12 ∧ (5 * r + 2) / 153 = i :=
    ⟨((5 * r + 2) / 153).toNat, by omega, by omega⟩
  have hyear := daysBeforeYear_succ y
  rw [daysBeforeMonth_thirteen] at hyear
  unfold ofMarch
  rw [hindex]
  interval_cases i
  -- January and February belong to the next year, and February is where the leap day is
  case «10» => exact spec_of_month (by decide) (by omega) (by simp [daysInMonth]; omega) (by simp [daysBeforeMonth])
  case «11» =>
    refine spec_of_month (by decide) (by omega) ?_ (by simp [daysBeforeMonth, daysInMonth]; omega)
    by_cases hlong : isLeapYear (y + 1) = true
    · simp [daysInMonth, hlong]
      omega
    · have hshort : r ≠ 365 := fun heq => hlong (hleap heq)
      simp [daysInMonth, hlong]
      omega
  all_goals
    refine spec_of_month (by decide) (by omega) (by simp [daysInMonth]; omega) ?_
    by_cases hlong : isLeapYear y = true
    all_goals
      simp [daysBeforeMonth, daysInMonth, hlong] at hyear ⊢
      omega

/-! ### Days and their dates -/

theorem ofDays_spec (n : Int) : (ofDays n).Valid ∧ (ofDays n).dayNumber = n := by
  obtain ⟨c, q, s, r, hparts⟩ := exists_parts (d := (n + 719468) % 146097) (by omega) (by omega)
  rw [ofDays_eq_ofMarch hparts]
  obtain ⟨heq, hc, hq, hs, hr, hlong⟩ := hparts
  generalize hera : (n + 719468) / 146097 = era
  have hleap : r = 365 → isLeapYear (100 * c + 4 * q + s + era * 400 + 1) = true := by
    intro h
    have hend := hlong h
    rw [isLeapYear_iff]
    omega
  obtain ⟨hvalid, hnumber⟩ := ofMarch_spec hr.1 hr.2 hleap
  have hfour : (100 * c + 4 * q + s + era * 400) / 4 = 25 * c + q + 100 * era := by omega
  have hcentury : (100 * c + 4 * q + s + era * 400) / 100 = c + 4 * era := by omega
  have hcenturies : (100 * c + 4 * q + s + era * 400) / 400 = era := by omega
  refine ⟨hvalid, ?_⟩
  rw [hnumber, daysBeforeYear, Int.add_sub_cancel, hfour, hcentury, hcenturies]
  omega

theorem year_mem_iff (n : Int) :
    (0 ≤ (ofDays n).year ∧ (ofDays n).year ≤ 9999) ↔ (-719528 ≤ n ∧ n < 2932897) := by
  obtain ⟨hvalid, hnumber⟩ := ofDays_spec n
  have hbounds := hvalid.year_bounds
  rw [hnumber] at hbounds
  generalize (ofDays n).year = year at *
  unfold daysBeforeYear at hbounds
  omega

end CivilDate

/-! ### Times of day -/

namespace Instant

/-- The civil time of an instant is a time of the calendar. -/
structure Civil (t : Instant) (c : CivilTime) : Prop where
  valid : c.date.Valid
  weekday_eq : c.weekday = c.date.weekday
  hour_lt : c.hour < 24
  minute_lt : c.minute < 60
  second_lt : c.second < 60
  second_eq : t.second = c.date.dayNumber * 86400 + c.hour * 3600 + c.minute * 60 + c.second

theorem toCivil_spec (t : Instant) : t.Civil t.toCivil := by
  obtain ⟨hvalid, hnumber⟩ := CivilDate.ofDays_spec (t.second / 86400)
  constructor
  · exact hvalid
  · simp only [toCivil, CivilDate.weekday, hnumber]
  · simp only [toCivil]
    omega
  · simp only [toCivil]
    omega
  · simp only [toCivil]
    omega
  · simp only [toCivil, hnumber]
    omega

end Instant

end SessionWarden
