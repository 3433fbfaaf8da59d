import Mathlib.Data.Int.Notation
import Mathlib.Algebra.Order.Ring.Int
import Mathlib.Tactic.Common
/-!
# The calendar

Days are counted from the first of January 1970, and a clock in a time zone of a
fixed offset is a count of seconds. A date of the Gregorian calendar is read off
a day by cycles of 400, 100, 4 and single years that begin in March, so that the
day a year may have more is its last one (`ofDay`); `toDay` goes back, and
undoes it (`toDay_ofDay`).
-/

namespace Athena

namespace Calendar

/-- **A date.** -/
structure Date where
  year : ℤ
  month : ℤ
  day : ℤ
  deriving DecidableEq

/-- The days from the first of March of the year 0 to the first of January 1970. -/
def epoch : ℤ := 719468

/-- The year of a day, when years begin in March. -/
def marchYear (z : ℤ) : ℤ :=
  let doe := (z + epoch) % 146097
  let c := min (doe / 36524) 3
  let r := doe - 36524 * c
  400 * ((z + epoch) / 146097) + 100 * c + 4 * (r / 1461) + min (r % 1461 / 365) 3

/-- The first day of such a year. -/
def firstOfMarch (year : ℤ) : ℤ := 365 * year + year / 4 - year / 100 + year / 400 - epoch

/-- The date of the day with this number in such a year, from zero. -/
def ofMarch (year doy : ℤ) : Date :=
  let mp := (5 * doy + 2) / 153
  { year := if mp < 10 then year else year + 1
    month := if mp < 10 then mp + 3 else mp - 9
    day := doy - (153 * mp + 2) / 5 + 1 }

/-- **The date of a day.** -/
def ofDay (z : ℤ) : Date := ofMarch (marchYear z) (z - firstOfMarch (marchYear z))

/-- **The day of a date.** -/
def toDay (d : Date) : ℤ :=
  if 2 < d.month then firstOfMarch d.year + (153 * (d.month - 3) + 2) / 5 + d.day - 1
  else firstOfMarch (d.year - 1) + (153 * (d.month + 9) + 2) / 5 + d.day - 1

/-- A year that begins in March has at most 366 days. -/
theorem marchYear_spec (z : ℤ) :
    0 ≤ z - firstOfMarch (marchYear z) ∧ z - firstOfMarch (marchYear z) ≤ 365 := by
  have hera := Int.emod_add_mul_ediv (z + epoch) 146097
  have hlt := Int.emod_lt_of_pos (z + epoch) (show (0 : ℤ) < 146097 by omega)
  have hpos := Int.emod_nonneg (z + epoch) (show (146097 : ℤ) ≠ 0 by omega)
  -- the hundreds of years, then the fours, then the single ones
  obtain ⟨era, hera'⟩ : ∃ era, era = (z + epoch) / 146097 := ⟨_, rfl⟩
  obtain ⟨doe, hdoe⟩ : ∃ doe, doe = (z + epoch) % 146097 := ⟨_, rfl⟩
  obtain ⟨c, hc⟩ : ∃ c, c = min (doe / 36524) 3 := ⟨_, rfl⟩
  obtain ⟨r, hr⟩ : ∃ r, r = doe - 36524 * c := ⟨_, rfl⟩
  obtain ⟨q, hq⟩ : ∃ q, q = r / 1461 := ⟨_, rfl⟩
  obtain ⟨y, hy⟩ : ∃ y, y = min (r % 1461 / 365) 3 := ⟨_, rfl⟩
  have hyear : marchYear z = 400 * era + 100 * c + 4 * q + y := by
    simp only [marchYear, hera', hdoe, hc, hr, hq, hy]
  rw [← hera', ← hdoe] at hera
  rw [← hdoe] at hlt hpos
  have hc0 : 0 ≤ c ∧ c ≤ 3 := by omega
  have hr0 : 0 ≤ r ∧ r ≤ 36524 := by omega
  have hq0 : 0 ≤ q ∧ q ≤ 24 := by omega
  have hy0 : 0 ≤ y ∧ y ≤ 3 := by omega
  have ht0 : 0 ≤ r - 1461 * q - 365 * y ∧ r - 1461 * q - 365 * y ≤ 365 := by omega
  have h400 : (400 * era + 100 * c + 4 * q + y) / 400 = era := by omega
  have h100 : (400 * era + 100 * c + 4 * q + y) / 100 = 4 * era + c := by omega
  have h4 : (400 * era + 100 * c + 4 * q + y) / 4 = 100 * era + 25 * c + q := by omega
  rw [hyear, firstOfMarch, h400, h100, h4]
  constructor <;> omega

/-- The date of a day of such a year is of that day. -/
theorem toDay_ofMarch {year doy : ℤ} (h0 : 0 ≤ doy) (h : doy ≤ 365) :
    toDay (ofMarch year doy) = firstOfMarch year + doy := by
  obtain ⟨mp, hmp⟩ : ∃ mp, mp = (5 * doy + 2) / 153 := ⟨_, rfl⟩
  simp only [toDay, ofMarch, ← hmp]
  by_cases hm : mp < 10
  · have h2 : 2 < mp + 3 := by omega
    simp only [hm, if_true, h2]
    omega
  · have h2 : ¬ 2 < mp - 9 := by omega
    simp only [hm, if_false, h2, add_sub_cancel_right]
    omega

/-- **Every day is the day of its date.** -/
theorem toDay_ofDay (z : ℤ) : toDay (ofDay z) = z := by
  obtain ⟨h0, h⟩ := marchYear_spec z
  rw [ofDay, toDay_ofMarch h0 h]
  omega

/-- `%j`: the day of the year, from one. -/
def yday (z : ℤ) : ℤ := z - toDay ⟨(ofDay z).year, 1, 1⟩ + 1

/-- Within a year, days and days of the year differ by the same. -/
theorem yday_sub {z z' : ℤ} (h : (ofDay z).year = (ofDay z').year) : yday z - yday z' = z - z' := by
  simp only [yday, h]
  omega

/-! ## Years and weeks -/

/-- The first day of a year. -/
def newyear (year : ℤ) : ℤ := toDay ⟨year, 1, 1⟩

theorem yday_eq (z : ℤ) : yday z = z - newyear (ofDay z).year + 1 := rfl

theorem newyear_eq (year : ℤ) : newyear year = firstOfMarch (year - 1) + 306 := by
  simp only [newyear, toDay]
  omega

theorem newyear_add_le {year year' : ℤ} (h : year < year') : newyear year + 365 ≤ newyear year' := by
  simp only [newyear_eq, firstOfMarch]
  omega

theorem newyear_mono {year year' : ℤ} (h : year ≤ year') : newyear year ≤ newyear year' := by
  rcases h.lt_or_eq with hlt | heq
  · have := newyear_add_le hlt
    omega
  · rw [heq]

/-- **A year lasts from its first day to that of the next one.** -/
theorem year_spec (z : ℤ) : newyear (ofDay z).year ≤ z ∧ z < newyear ((ofDay z).year + 1) := by
  obtain ⟨h0, h⟩ := marchYear_spec z
  obtain ⟨doy, hdoy⟩ : ∃ doy, doy = z - firstOfMarch (marchYear z) := ⟨_, rfl⟩
  simp only [ofDay, ofMarch, ← hdoy] at h0 h ⊢
  rw [newyear_eq, newyear_eq]
  -- the first two months are of the next year
  split_ifs with hmp
  · have hstep : firstOfMarch (marchYear z - 1) + 365 ≤ firstOfMarch (marchYear z) := by
      simp only [firstOfMarch]
      omega
    rw [add_sub_cancel_right]
    omega
  · have hstep : firstOfMarch (marchYear z) + 365 ≤ firstOfMarch (marchYear z + 1) := by
      simp only [firstOfMarch]
      omega
    rw [add_sub_cancel_right, add_sub_cancel_right]
    omega

theorem month_mem (z : ℤ) : 1 ≤ (ofDay z).month ∧ (ofDay z).month ≤ 12 := by
  obtain ⟨h0, h⟩ := marchYear_spec z
  simp only [ofDay, ofMarch]
  split_ifs <;> omega

theorem day_mem (z : ℤ) : 1 ≤ (ofDay z).day ∧ (ofDay z).day ≤ 31 := by
  obtain ⟨h0, h⟩ := marchYear_spec z
  simp only [ofDay, ofMarch]
  omega

/-- **The day of the year changes at every midnight**, and is the same again after
a year only. -/
theorem yday_inj {z z' : ℤ} (hlt : z < z' + 365) (hlt' : z' < z + 365) : yday z = yday z' ↔ z = z' := by
  refine ⟨fun h => ?_, fun h => by rw [h]⟩
  simp only [yday_eq] at h
  rcases lt_trichotomy (ofDay z).year (ofDay z').year with hyear | hyear | hyear
  · have := newyear_add_le hyear
    omega
  · rw [hyear] at h
    omega
  · have := newyear_add_le hyear
    omega

/-- The Monday of a day. The first of January 1970 was a Thursday. -/
def monday (z : ℤ) : ℤ := z - (z + 3) % 7

/-- `%W`: the week of the year, from its first Monday. -/
def week (z : ℤ) : ℤ := (yday z - 1 - (z + 3) % 7 + 7) / 7

/-- **Days a week apart at most are in the same week of the year** when they have
the same Monday and are in the same year. -/
theorem week_eq_iff {z z' : ℤ} (hle : z ≤ z' + 7) (hle' : z' ≤ z + 7) :
    week z = week z' ↔ monday z = monday z' ∧ (ofDay z).year = (ofDay z').year := by
  obtain ⟨h0, h⟩ := year_spec z
  obtain ⟨h0', h'⟩ := year_spec z'
  simp only [week, monday, yday_eq]
  rcases lt_trichotomy (ofDay z).year (ofDay z').year with hyear | hyear | hyear
  · -- the last week of a year is the fifty-first at least, the first one the first at most
    have hnext : newyear ((ofDay z).year + 1) ≤ newyear (ofDay z').year := newyear_mono (by omega)
    have hlong := newyear_add_le (show (ofDay z).year < (ofDay z).year + 1 by omega)
    omega
  · rw [hyear]
    omega
  · have hnext : newyear ((ofDay z').year + 1) ≤ newyear (ofDay z).year := newyear_mono (by omega)
    have hlong := newyear_add_le (show (ofDay z').year < (ofDay z').year + 1 by omega)
    omega

/-! ## Clocks -/

/-- The day of a clock value, in the zone. -/
def dayOf (zone t : ℤ) : ℤ := (t + zone) / 86400

/-- The first second of a day. -/
def midnight (zone day : ℤ) : ℤ := 86400 * day - zone

/-- The second of its day. -/
def secondOf (zone t : ℤ) : ℤ := (t + zone) % 86400

variable {zone t t' d : ℤ}

theorem midnight_add_secondOf (zone t : ℤ) : midnight zone (dayOf zone t) + secondOf zone t = t := by
  have h := Int.emod_add_mul_ediv (t + zone) 86400
  simp only [midnight, dayOf, secondOf]
  omega

theorem secondOf_nonneg (zone t : ℤ) : 0 ≤ secondOf zone t := by
  simp only [secondOf]
  omega

theorem secondOf_lt (zone t : ℤ) : secondOf zone t < 86400 := by
  simp only [secondOf]
  omega

theorem dayOf_mono (h : t ≤ t') : dayOf zone t ≤ dayOf zone t' := by
  simp only [dayOf]
  omega

/-- **A day lasts from its midnight to the next one.** -/
theorem dayOf_eq_iff : dayOf zone t = d ↔ midnight zone d ≤ t ∧ t < midnight zone (d + 1) := by
  simp only [dayOf, midnight]
  omega

theorem lt_midnight_of_dayOf_lt (h : dayOf zone t < d) : t < midnight zone d := by
  simp only [dayOf, midnight] at *
  omega

end Calendar

end Athena
