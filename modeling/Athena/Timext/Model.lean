import Athena.Common.Calendar
import Mathlib.Data.Int.Notation
import Mathlib.Data.Nat.Notation
/-!
# Time — model

`timext.lua`: the fields of a date, the tests for the same day and week, and the
events at a time of day. The host's zone has a fixed offset, without daylight
saving; its calendar has every year.

An event keeps the next time at which its function is called. The clock calls it
when this time has passed and computes the next one from its own time. The
function of an event is read as a record of the call; it does not fail, and no
event comes or goes.
-/

namespace Athena

namespace Timext

/-- The fields of `struct tm`, but `tm_isdst`, which is zero. -/
structure Tm where
  year : ℤ
  month : ℤ
  day : ℤ
  hour : ℤ
  min : ℤ
  sec : ℤ
  wday : ℤ
  yday : ℤ

/-- The date of a time. The first day of the epoch was a Thursday. -/
def Tm.ofTime (t : ℤ) : Tm :=
  let d := Calendar.ofDay (t / 86400)
  { year := d.year
    month := d.month
    day := d.day
    hour := t % 86400 / 3600
    min := t % 3600 / 60
    sec := t % 60
    wday := (t / 86400 + 4) % 7 + 1
    yday := Calendar.yday (t / 86400) }

/-- The year of a time. -/
def yearof (t : ℤ) : ℤ := (Tm.ofTime t).year

/-- **The times that have a date**: `tm_year`, which counts from 1900, is an `int`. -/
def Dated (t : ℤ) : Prop := -2 ^ 31 ≤ yearof t - 1900 ∧ yearof t - 1900 < 2 ^ 31

instance (t : ℤ) : Decidable (Dated t) := inferInstanceAs (Decidable (_ ∧ _))

/-- **`os.date("!*t", t)`**, and what `os.date` reads for other formats: it raises where
`gmtime` has no date. -/
def osdate (t : ℤ) : Option Tm := if Dated t then some (.ofTime t) else none

/-- `timext.day_zero_time`. -/
def day_zero_time (utc : ℤ) : Option ℤ := do
  let t ← osdate utc
  return utc - t.hour * 60 * 60 - t.min * 60 - t.sec

/-- The seconds from Monday to the weekday. -/
def Tm.sinceMonday (t : Tm) : ℤ :=
  if t.wday = 1 then 6 * 24 * 60 * 60 else (t.wday - 2) * 24 * 60 * 60

/-- `timext.last_monday_time`. -/
def last_monday_time (utc : ℤ) : Option ℤ := do
  let t ← osdate utc
  return utc - t.hour * 60 * 60 - t.min * 60 - t.sec - t.sinceMonday

/-- `timext.system_zero_time`. -/
def system_zero_time (sys_timezone utc : ℤ) : Option ℤ := do
  let t ← osdate utc
  let zero_utc := utc - t.hour * 60 * 60 - t.min * 60 - t.sec - sys_timezone
  return if zero_utc < utc - 86400 then zero_utc + 86400 else zero_utc

/-- `timext.last_system_monday_time`. -/
def last_system_monday_time (sys_timezone utc : ℤ) : Option ℤ := do
  let t ← osdate utc
  let monday_utc := utc - t.hour * 60 * 60 - t.min * 60 - t.sec - t.sinceMonday - sys_timezone
  return if monday_utc < utc - 7 * 86400 then monday_utc + 7 * 86400 else monday_utc

/-! ## Times of dates -/

/-- What `os.time` is given. The time of day may be absent. -/
structure Param where
  year : ℤ
  month : ℤ
  day : ℤ
  hour : Option ℤ
  min : Option ℤ
  sec : Option ℤ

/-- `mktime`: months and days may be past the ends of the year and the month. -/
def mktime (zone year month day hour min sec : ℤ) : ℤ :=
  let first := Calendar.toDay ⟨year + (month - 1) / 12, (month - 1) % 12 + 1, 1⟩
  (first + day - 1) * 86400 + hour * 3600 + min * 60 + sec - zone

/-- `L_MAXDATEFIELD`. -/
def maxdatefield : ℤ := 1073741823

/-- `getfield`: a none is an error. -/
def getfield (field : Option ℤ) (default : ℤ) : Option ℤ :=
  match field with
  | none => some default
  | some res => if -maxdatefield ≤ res ∧ res ≤ maxdatefield then some res else none

/-- **`os.time` of a date**: the time, and the date with its fields normalized. What
`mktime` has for an error is one, also where it is the time. No field that is taken
leads to a year that is no `int`. -/
def os_time (zone : ℤ) (p : Param) : Option (ℤ × Tm) := do
  let sec ← getfield p.sec 0
  let min ← getfield p.min 0
  let hour ← getfield p.hour 12
  let day ← getfield (some p.day) 0
  let month ← getfield (some p.month) 0
  let year ← getfield (some p.year) 0
  let t := mktime zone year month day hour min sec
  if t = -1 then none else some (t, .ofTime (t + zone))

/-- `timezone`, as it is measured when the module is loaded. -/
def timezone (zone now : ℤ) : Option ℤ := do
  let d ← osdate now
  let t ← os_time zone ⟨d.year, d.month, d.day, some d.hour, some d.min, some d.sec⟩
  return now - t.1

/-- `timext.ostime`. -/
def ostime (zone timezone : ℤ) (param : Param) : Option (ℤ × Tm) :=
  (os_time zone param).map fun t => (t.1 + timezone, t.2)

/-! ## The same day and week -/

/-- `timext.IsSameDay`, of numbers. -/
def IsSameDay (t1 t2 : ℤ) : Option Bool :=
  if t1 = 0 ∨ t2 = 0 then some false
  else if 24 * 60 * 60 < (t2 - t1).natAbs then some false
  else do
    let d1 ← osdate t1
    let d2 ← osdate t2
    return d1.yday = d2.yday

/-- `timext.IsSameSystemDay`. -/
def IsSameSystemDay (sys_timezone t1 t2 : ℤ) : Option Bool :=
  IsSameDay (t1 + sys_timezone) (t2 + sys_timezone)

/-- `os.date("!%W", t)`. -/
def weekof (t : ℤ) : Option ℤ := (osdate t).map fun _ => Calendar.week (t / 86400)

/-- `timext.IsSameWeek`. -/
def IsSameWeek (t1 t2 : ℤ) : Option Bool :=
  if t1 = 0 ∨ t2 = 0 then some false
  else if 7 * 24 * 60 * 60 < (t2 - t1).natAbs then some false
  else do
    let week1 ← weekof t1
    let week2 ← weekof t2
    return week1 = week2

/-- `timext.system_refresh_time`: a number, which `from_unix_time` does not read. -/
def system_refresh_time : ℤ := 0

/-- `timext.IsSameWeekBy5`, of times in order. -/
def sameWeekBy5 (t1 t2 : ℤ) : Option Bool :=
  if 7 * 24 * 60 * 60 < t2 - t1 then some false
  else do
    let week1 ← weekof t1
    let week2 ← weekof t2
    let d1 ← osdate t1
    let d2 ← osdate t2
    let sec1 := d1.hour * 60 * 60 + d1.min * 60 + d1.sec
    let sec2 := d2.hour * 60 * 60 + d2.min * 60 + d2.sec
    let tempsec := system_refresh_time
    if week1 = week2 then
      return !(d1.wday = 2 ∧ sec1 < tempsec ∧ (d2.wday ≠ d1.wday ∨ tempsec ≤ sec2))
    else return d2.wday = 2 ∧ sec2 < tempsec ∧ (d1.wday ≠ d2.wday ∨ tempsec ≤ sec1)

/-- **`timext.IsSameWeekBy5`.** -/
def IsSameWeekBy5 (t1 t2 : ℤ) : Option Bool :=
  if t1 = 0 ∨ t2 = 0 then some false
  else if t2 < t1 then sameWeekBy5 t2 t1 else sameWeekBy5 t1 t2

/-- **`timext.IsTowWeek`.** -/
def IsTowWeek (zone timezone t1 t2 : ℤ) : Option Bool := do
  let d2 ← osdate t2
  let temp2 ← ostime zone timezone ⟨d2.year, d2.month, d2.day, none, none, none⟩
  let d2_week := if d2.wday - 1 = 0 then 7 else d2.wday - 1
  let TwoWeeksAgo := temp2.1 - (d2_week - 1 + 7) * 24 * 3600
  some (t1 < TwoWeeksAgo)

/-! ## Events -/

/-- `timext.week_day` and `_week_day`: Sunday is the first. -/
def week_day : List ℤ := [1, 2, 3, 4, 5, 6, 7]

/-- The bit of a day in a mask. -/
def bitof (mask : ℕ) (day : ℤ) : Bool := mask.testBit (day - 1).toNat

def all_day : ℕ := 127

/-- The time on one day of the week, from the weekday and the midnight of the last time:
today, or within the next days. -/
def timeon (last_time wday zerotime sec day : ℤ) : ℤ :=
  if day = wday then
    let temp := zerotime + sec
    if temp ≤ last_time then temp + 7 * 24 * 60 * 60 else temp
  else
    let day := if day < wday then day + 7 else day
    zerotime + (day - wday) * 24 * 60 * 60 + sec

/-- The loop of `next_event_time` over the days. -/
def closest (last_time wday zerotime sec : ℤ) (mask : ℕ) : List ℤ → Option ℤ → Option ℤ
  | [], closest_time => closest_time
  | day :: days, closest_time =>
    if bitof mask day then
      let temp := timeon last_time wday zerotime sec day
      match closest_time with
      | none => closest last_time wday zerotime sec mask days (some temp)
      | some c => closest last_time wday zerotime sec mask days (some (if temp < c then temp else c))
    else closest last_time wday zerotime sec mask days closest_time

/-- **`timext.next_event_time`**, when `pairs` has the days in some order. -/
def next_event_in (days : List ℤ) (last_time hour min sec : ℤ) (day : ℕ) : Option ℤ := do
  let d ← osdate last_time
  let zerotime ← day_zero_time last_time
  closest last_time d.wday zerotime (hour * 60 * 60 + min * 60 + sec) day days none

/-- **`timext.next_event_time`.** -/
def next_event_time (last_time hour min sec : ℤ) (day : ℕ) : Option ℤ :=
  next_event_in week_day last_time hour min sec day

/-- What an event is registered with. -/
structure Reg where
  last_event_time : ℤ
  hour : ℤ
  min : ℤ
  sec : ℤ
  day : ℕ

/-- An event. It uses the system's time. -/
structure Event where
  hour : ℤ
  min : ℤ
  sec : ℤ
  day : ℕ
  next_time : ℤ

/-- **`timext.reg_time_event`** and `reg_systemtime_event`. Without a day it raises
an error. -/
def reg_time_event (sys_timezone : ℤ) (r : Reg) : Option Event :=
  (next_event_time (r.last_event_time + sys_timezone) r.hour r.min r.sec r.day).map fun next =>
    ⟨r.hour, r.min, r.sec, r.day, next - sys_timezone⟩

/-- One event in a turn of `clock`: whether its function is called, and the event. -/
def fire (sys_timezone current : ℤ) (e : Event) : Option (Event × Bool) :=
  if e.next_time < current then
    (next_event_time (current + sys_timezone) e.hour e.min e.sec e.day).map fun next =>
      ({ e with next_time := next - sys_timezone }, true)
  else some (e, false)

/-- **One turn of `clock`**: the events, and which of their functions are called. -/
def clock (sys_timezone current : ℤ) : List Event → Option (List Event × List Bool)
  | [] => some ([], [])
  | e :: es => do
    let (e, called) ← fire sys_timezone current e
    let (es, calls) ← clock sys_timezone current es
    return (e :: es, called :: calls)

/-- The turns of `clock` at some times: the calls of each. -/
def turns (sys_timezone : ℤ) : List ℤ → List Event → Option (List (List Bool))
  | [], _ => some []
  | current :: times, es => do
    let (es, calls) ← clock sys_timezone current es
    let rest ← turns sys_timezone times es
    return calls :: rest

end Timext

end Athena
