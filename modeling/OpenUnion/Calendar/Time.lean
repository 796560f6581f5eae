import Mathlib.Data.Int.Notation
import Mathlib.Tactic.ByContra
import Mathlib.Tactic.SplitIfs

/-!
# Time values in UTC

The time values of a date, in milliseconds since the first of January 1970, and the calendar
fields of one, as the standard of the language defines them.  A date is a time value, or none if
it is not valid.

* `dayFromYear_succ`: a year has 365 days, and one more if it is a leap year.
* `le_yearFromDay`: the years up to that of a day are those that have begun.
* `makeDay_fields`: a day is the day of its year, month and date.
* `utc_fields`: from the year 100 on a whole hour is the time of its fields.
* `setUTCHours_add`: hours are added whatever day, month or year they lead to.
-/

namespace OpenUnion.Calendar

def msPerDay : ℤ := 86400000

def msPerHour : ℤ := 3600000

/-- The largest time value. -/
def maxTime : ℤ := 8640000000000000

/-! ## Days and years -/

/-- The first day of a year. -/
def dayFromYear (y : ℤ) : ℤ :=
  365 * (y - 1970) + (y - 1969) / 4 - (y - 1901) / 100 + (y - 1601) / 400

/-- Whether a year is a leap year, as a number. -/
def inLeapYear (y : ℤ) : ℤ := if y % 4 = 0 ∧ (y % 100 ≠ 0 ∨ y % 400 = 0) then 1 else 0

/-- The year of a day: a guess by the mean length of a year, which is at most one year off. -/
def yearFromDay (d : ℤ) : ℤ :=
  let y := 1970 + d * 400 / 146097
  if d < dayFromYear y then y - 1 else if dayFromYear (y + 1) ≤ d then y + 1 else y

theorem inLeapYear_cases (y : ℤ) : inLeapYear y = 0 ∨ inLeapYear y = 1 := by
  unfold inLeapYear
  split_ifs
  · exact .inr rfl
  · exact .inl rfl

theorem dayFromYear_succ (y : ℤ) : dayFromYear (y + 1) = dayFromYear y + 365 + inLeapYear y := by
  unfold dayFromYear inLeapYear
  split_ifs <;> omega

theorem dayFromYear_mono {y y' : ℤ} (h : y ≤ y') : dayFromYear y ≤ dayFromYear y' := by
  unfold dayFromYear
  omega

/-- A year begins on one of three days around its mean. -/
theorem dayFromYear_bounds (y : ℤ) : 146097 * (y - 1970) - 608 ≤ 400 * dayFromYear y ∧
    400 * dayFromYear y ≤ 146097 * (y - 1970) + 593 := by
  unfold dayFromYear
  omega

theorem yearFromDay_spec (d : ℤ) :
    dayFromYear (yearFromDay d) ≤ d ∧ d < dayFromYear (yearFromDay d + 1) := by
  unfold yearFromDay
  have hguess : 146097 * (d * 400 / 146097) ≤ d * 400 ∧
      d * 400 < 146097 * (d * 400 / 146097) + 146097 := by omega
  generalize d * 400 / 146097 = n at hguess
  have hbefore := dayFromYear_bounds (1970 + n - 1)
  have hafter := dayFromYear_bounds (1970 + n + 1 + 1)
  simp only
  split_ifs with hlow hhigh
  · rw [Int.sub_add_cancel]
    omega
  · omega
  · omega

/-- The years up to that of a day are those that have begun. -/
theorem le_yearFromDay {y d : ℤ} : y ≤ yearFromDay d ↔ dayFromYear y ≤ d := by
  obtain ⟨hle, hlt⟩ := yearFromDay_spec d
  constructor
  · intro h
    exact Int.le_trans (dayFromYear_mono h) hle
  · intro h
    by_contra hnot
    have hmono := dayFromYear_mono (show yearFromDay d + 1 ≤ y by omega)
    omega

/-! ## Months -/

/-- The first day of a month in its year; the months count from 0. -/
def monthStart (leap : ℤ) : ℤ → ℤ
  | 0 => 0
  | 1 => 31
  | 2 => 59 + leap
  | 3 => 90 + leap
  | 4 => 120 + leap
  | 5 => 151 + leap
  | 6 => 181 + leap
  | 7 => 212 + leap
  | 8 => 243 + leap
  | 9 => 273 + leap
  | 10 => 304 + leap
  | _ => 334 + leap

/-- The month of a day in its year. -/
def monthFromDay (leap d : ℤ) : ℤ :=
  if d < 31 then 0 else if d < 59 + leap then 1 else if d < 90 + leap then 2
  else if d < 120 + leap then 3 else if d < 151 + leap then 4 else if d < 181 + leap then 5
  else if d < 212 + leap then 6 else if d < 243 + leap then 7 else if d < 273 + leap then 8
  else if d < 304 + leap then 9 else if d < 334 + leap then 10 else 11

/-- Each day of a year, in the table of the months. -/
theorem months_table : ∀ (leap : Fin 2) (d : Fin 366), (d : ℤ) < 365 + (leap : ℤ) →
    0 ≤ monthFromDay leap d ∧ monthFromDay leap d ≤ 11 ∧
      monthStart leap (monthFromDay leap d) ≤ d ∧
      d < monthStart leap (monthFromDay leap d) + 31 := by
  decide +kernel

/-- A day of the year lies in its month, and no month has more than 31 days. -/
theorem monthFromDay_spec {leap d : ℤ} (hleap : leap = 0 ∨ leap = 1) (h0 : 0 ≤ d)
    (hd : d < 365 + leap) : 0 ≤ monthFromDay leap d ∧ monthFromDay leap d ≤ 11 ∧
      monthStart leap (monthFromDay leap d) ≤ d ∧
      d < monthStart leap (monthFromDay leap d) + 31 := by
  obtain ⟨n, rfl⟩ := Int.eq_ofNat_of_zero_le h0
  have hn : n < 366 := by omega
  rcases hleap with rfl | rfl
  · exact months_table 0 ⟨n, hn⟩ hd
  · exact months_table 1 ⟨n, hn⟩ hd

/-! ## Time values -/

section Fields

variable (t : ℤ)

def day : ℤ := t / msPerDay

def yearFromTime : ℤ := yearFromDay (day t)

def dayWithinYear : ℤ := day t - dayFromYear (yearFromTime t)

def monthFromTime : ℤ := monthFromDay (inLeapYear (yearFromTime t)) (dayWithinYear t)

def dateFromTime : ℤ :=
  dayWithinYear t - monthStart (inLeapYear (yearFromTime t)) (monthFromTime t) + 1

def hourFromTime : ℤ := t / msPerHour % 24

def minFromTime : ℤ := t / 60000 % 60

def secFromTime : ℤ := t / 1000 % 60

def msFromTime : ℤ := t % 1000

end Fields

def makeTime (hour min sec ms : ℤ) : ℤ := hour * msPerHour + min * 60000 + sec * 1000 + ms

/-- A month that is none of the twelve leads to another year. -/
def makeDay (year month date : ℤ) : ℤ :=
  let y := year + month / 12
  dayFromYear y + monthStart (inLeapYear y) (month % 12) + date - 1

def makeDate (day time : ℤ) : ℤ := day * msPerDay + time

/-- A time value, if it is in range. -/
def timeClip (t : ℤ) : Option ℤ := if -maxTime ≤ t ∧ t ≤ maxTime then some t else none

/-- `Date.UTC`; two digits stand for a year of the twentieth century. -/
def utc (year month date hour min sec ms : ℤ) : Option ℤ :=
  let y := if 0 ≤ year ∧ year ≤ 99 then 1900 + year else year
  timeClip (makeDate (makeDay y month date) (makeTime hour min sec ms))

/-- `setUTCMinutes` of a valid date. -/
def setUTCMinutes (t min sec ms : ℤ) : Option ℤ :=
  timeClip (makeDate (day t) (makeTime (hourFromTime t) min sec ms))

/-- `setUTCHours` of a valid date. -/
def setUTCHours (t hour : ℤ) : Option ℤ :=
  timeClip (makeDate (day t) (makeTime hour (minFromTime t) (secFromTime t) (msFromTime t)))

/-! ## Fields and back -/

variable {t : ℤ}

/-- The day of the year is one of its days. -/
theorem dayWithinYear_spec (t : ℤ) : 0 ≤ dayWithinYear t ∧
    dayWithinYear t < 365 + inLeapYear (yearFromTime t) := by
  obtain ⟨hle, hlt⟩ := yearFromDay_spec (day t)
  rw [dayFromYear_succ] at hlt
  unfold dayWithinYear yearFromTime
  omega

/-- The month and the date are those of a calendar. -/
theorem month_date_spec (t : ℤ) : 0 ≤ monthFromTime t ∧ monthFromTime t ≤ 11 ∧
    1 ≤ dateFromTime t ∧ dateFromTime t ≤ 31 := by
  obtain ⟨h0, hd⟩ := dayWithinYear_spec t
  obtain ⟨hm0, hm, hlow, hhigh⟩ := monthFromDay_spec (inLeapYear_cases _) h0 hd
  unfold dateFromTime monthFromTime
  omega

theorem hourFromTime_spec (t : ℤ) : 0 ≤ hourFromTime t ∧ hourFromTime t < 24 := by
  unfold hourFromTime
  omega

/-- A day is the day of its year, month and date. -/
theorem makeDay_fields (t : ℤ) :
    makeDay (yearFromTime t) (monthFromTime t) (dateFromTime t) = day t := by
  obtain ⟨hm0, hm, -, -⟩ := month_date_spec t
  have hyear : yearFromTime t + monthFromTime t / 12 = yearFromTime t := by omega
  have hmonth : monthFromTime t % 12 = monthFromTime t := by omega
  unfold makeDay
  simp only [hyear, hmonth]
  unfold dateFromTime dayWithinYear
  omega

/-- From the year 100 on a whole hour is the time of its fields. -/
theorem utc_fields (hyear : 100 ≤ yearFromTime t) (hwhole : t % msPerHour = 0) :
    utc (yearFromTime t) (monthFromTime t) (dateFromTime t) (hourFromTime t) 0 0 0 =
      timeClip t := by
  have hnot : ¬ (0 ≤ yearFromTime t ∧ yearFromTime t ≤ 99) := by omega
  unfold utc
  simp only [hnot, if_false, makeDay_fields]
  congr 1
  unfold makeDate makeTime day hourFromTime
  simp only [msPerDay, msPerHour] at *
  omega

/-- The minutes, seconds and milliseconds are dropped. -/
theorem setUTCMinutes_zero (t : ℤ) : setUTCMinutes t 0 0 0 = timeClip (t - t % msPerHour) := by
  unfold setUTCMinutes
  congr 1
  unfold makeDate makeTime day hourFromTime
  simp only [msPerDay, msPerHour]
  omega

/-- Hours are added whatever day, month or year they lead to. -/
theorem setUTCHours_add (t k : ℤ) :
    setUTCHours t (hourFromTime t + k) = timeClip (t + k * msPerHour) := by
  unfold setUTCHours
  congr 1
  unfold makeDate makeTime day hourFromTime minFromTime secFromTime msFromTime
  simp only [msPerDay, msPerHour]
  omega

/-- A later time is in no earlier year. -/
theorem yearFromTime_mono {t t' : ℤ} (h : t ≤ t') {y : ℤ} (hy : y ≤ yearFromTime t) :
    y ≤ yearFromTime t' := by
  have hday : day t ≤ day t' := by
    unfold day
    simp only [msPerDay]
    omega
  exact le_yearFromDay.mpr (Int.le_trans (le_yearFromDay.mp hy) hday)

theorem timeClip_of_le (h0 : -maxTime ≤ t) (h : t ≤ maxTime) : timeClip t = some t :=
  if_pos ⟨h0, h⟩

end OpenUnion.Calendar
