import Athena.Timext.Event
/-!
# Time — days and weeks in the system's time zone

The start of a day in the system's zone is its midnight, and that of a week its
Monday. The functions take the start of the day or week in UTC, move it by the offset
and correct it forwards, when it is more than a day or a week ago. What they give
is the start where it is not in the future and the instant is not a start itself.
They raise for an instant that has no date.
-/

namespace Athena

namespace Timext

variable {sys_timezone utc v m : ℤ}

/-- The seconds of the week, which begins on Monday. -/
def timeofweek (t : ℤ) : ℤ := (Tm.ofTime t).sinceMonday + timeofday t

theorem timeofweek_eq (t : ℤ) : timeofweek t = (t + 3 * 86400) % (7 * 86400) := by
  simp only [timeofweek, timeofday_eq, Tm.sinceMonday, Tm.ofTime]
  split_ifs <;> omega

/-- The starts of days in the system's zone, up to an instant, -/
def dayStarts (sys_timezone utc : ℤ) : Set ℤ := { m | m ≤ utc ∧ timeofday (m + sys_timezone) = 0 }

/-- and those of weeks. -/
def weekStarts (sys_timezone utc : ℤ) : Set ℤ :=
  { m | m ≤ utc ∧ weekday (m + sys_timezone) = 2 ∧ timeofday (m + sys_timezone) = 0 }

theorem mem_dayStarts : m ∈ dayStarts sys_timezone utc ↔ m ≤ utc ∧ (m + sys_timezone) % 86400 = 0 := by
  rw [dayStarts, Set.mem_ofPred_eq, timeofday_eq]

theorem mem_weekStarts : m ∈ weekStarts sys_timezone utc ↔
    m ≤ utc ∧ (m + sys_timezone + 3 * 86400) % (7 * 86400) = 0 := by
  rw [weekStarts, Set.mem_ofPred_eq, timeofday_eq, weekday_eq]
  omega

/-- What is taken for the start of a day, from the time that has passed in UTC's, -/
def startfrom (sys_timezone utc passed length : ℤ) : ℤ :=
  if length < passed + sys_timezone then utc - passed - sys_timezone + length else utc - passed - sys_timezone

theorem system_zero_time_eq (sys_timezone : ℤ) (h : Dated utc) :
    system_zero_time sys_timezone utc = some (startfrom sys_timezone utc (timeofday utc) 86400) := by
  have hpassed : timeofday utc = (Tm.ofTime utc).hour * 60 * 60 + (Tm.ofTime utc).min * 60 + (Tm.ofTime utc).sec := by
    rw [timeofday]
    omega
  simp only [system_zero_time, osdate_eq h, Option.bind_eq_bind, Option.bind_some, Option.pure_def, startfrom, hpassed,
    Option.some.injEq]
  split_ifs <;> omega

/-- and for that of a week. -/
theorem last_system_monday_time_eq (sys_timezone : ℤ) (h : Dated utc) :
    last_system_monday_time sys_timezone utc = some (startfrom sys_timezone utc (timeofweek utc) (7 * 86400)) := by
  have hpassed : timeofweek utc = (Tm.ofTime utc).sinceMonday + ((Tm.ofTime utc).hour * 60 * 60 +
      (Tm.ofTime utc).min * 60 + (Tm.ofTime utc).sec) := by
    rw [timeofweek, timeofday]
    omega
  simp only [last_system_monday_time, osdate_eq h, Option.bind_eq_bind, Option.bind_some, Option.pure_def, startfrom,
    hpassed, Option.some.injEq]
  split_ifs <;> omega

theorem dated_of_system_zero_time (h : system_zero_time sys_timezone utc = some m) : Dated utc := by
  by_contra hnot
  rw [system_zero_time, osdate_eq_none hnot] at h
  cases h

theorem dated_of_last_system_monday_time (h : last_system_monday_time sys_timezone utc = some m) : Dated utc := by
  by_contra hnot
  rw [last_system_monday_time, osdate_eq_none hnot] at h
  cases h

/-- **The day starts** where the instant has a date, is not the start itself, and has the
offset's part of the day behind it. -/
theorem system_zero_time_iff (hlo : -43200 ≤ sys_timezone) (hhi : sys_timezone ≤ 50400) :
    (∃ m, system_zero_time sys_timezone utc = some m ∧ IsGreatest (dayStarts sys_timezone utc) m) ↔
      Dated utc ∧ 0 ≤ timeofday utc + sys_timezone ∧ timeofday utc + sys_timezone ≠ 86400 := by
  constructor
  · rintro ⟨m, hm, hmem, hgreatest⟩
    have hdated := dated_of_system_zero_time hm
    rw [system_zero_time_eq _ hdated, Option.some.injEq, startfrom, timeofday_eq] at hm
    obtain ⟨hle, -⟩ := mem_dayStarts.mp hmem
    rw [timeofday_eq]
    refine ⟨hdated, by split_ifs at hm <;> omega, fun heq => ?_⟩
    -- the instant itself is a start
    have hself := hgreatest (mem_dayStarts.mpr ⟨le_rfl, (by omega : (utc + sys_timezone) % 86400 = 0)⟩)
    split_ifs at hm <;> omega
  · rintro ⟨hdated, h0, hne⟩
    rw [timeofday_eq] at h0 hne
    refine ⟨_, system_zero_time_eq _ hdated, mem_dayStarts.mpr ?_, fun x hx => ?_⟩
    · rw [startfrom, timeofday_eq]
      split_ifs <;> omega
    · obtain ⟨hxle, hx0⟩ := mem_dayStarts.mp hx
      rw [startfrom, timeofday_eq]
      split_ifs <;> omega

/-- **The week starts** where the same holds of the week. -/
theorem last_system_monday_time_iff (hlo : -43200 ≤ sys_timezone) (hhi : sys_timezone ≤ 50400) :
    (∃ m, last_system_monday_time sys_timezone utc = some m ∧ IsGreatest (weekStarts sys_timezone utc) m) ↔
      Dated utc ∧ 0 ≤ timeofweek utc + sys_timezone ∧ timeofweek utc + sys_timezone ≠ 7 * 86400 := by
  constructor
  · rintro ⟨m, hm, hmem, hgreatest⟩
    have hdated := dated_of_last_system_monday_time hm
    rw [last_system_monday_time_eq _ hdated, Option.some.injEq, startfrom, timeofweek_eq] at hm
    obtain ⟨hle, -⟩ := mem_weekStarts.mp hmem
    rw [timeofweek_eq]
    refine ⟨hdated, by split_ifs at hm <;> omega, fun heq => ?_⟩
    have hself := hgreatest (mem_weekStarts.mpr
      ⟨le_rfl, (by omega : (utc + sys_timezone + 3 * 86400) % (7 * 86400) = 0)⟩)
    split_ifs at hm <;> omega
  · rintro ⟨hdated, h0, hne⟩
    rw [timeofweek_eq] at h0 hne
    refine ⟨_, last_system_monday_time_eq _ hdated, mem_weekStarts.mpr ?_, fun x hx => ?_⟩
    · rw [startfrom, timeofweek_eq]
      split_ifs <;> omega
    · obtain ⟨hxle, hx0⟩ := mem_weekStarts.mp hx
      rw [startfrom, timeofweek_eq]
      split_ifs <;> omega

/-- A time in the same day has a date too. -/
theorem Dated.of_day (h : Dated utc) (heq : m / 86400 = utc / 86400) : Dated m := by
  have hyear : yearof m = yearof utc := by
    rw [yearof, yearof, Tm.ofTime, Tm.ofTime, heq]
  rwa [Dated, hyear]

/-- To the east of UTC the start of a day is taken for an instant of the day before. -/
theorem system_zero_time_idem_iff (hlo : -43200 ≤ sys_timezone) (hhi : sys_timezone ≤ 50400)
    (h : system_zero_time sys_timezone utc = some m) :
    system_zero_time sys_timezone m = some m ↔ sys_timezone ≤ 0 := by
  have hdated := dated_of_system_zero_time h
  rw [system_zero_time_eq _ hdated, Option.some.injEq, startfrom, timeofday_eq] at h
  constructor
  · intro hm
    rw [system_zero_time_eq _ (dated_of_system_zero_time hm), Option.some.injEq, startfrom, timeofday_eq] at hm
    split_ifs at h hm <;> omega
  · intro hle
    -- to the west the start is in the same day of UTC
    have hday : m / 86400 = utc / 86400 := by split_ifs at h <;> omega
    rw [system_zero_time_eq _ (hdated.of_day hday), Option.some.injEq, startfrom, timeofday_eq]
    split_ifs at h ⊢ <;> omega

/-- The same holds of a week, whose Monday may be without a date. -/
theorem last_system_monday_time_idem_iff (hlo : -43200 ≤ sys_timezone) (hhi : sys_timezone ≤ 50400)
    (h : last_system_monday_time sys_timezone utc = some m) :
    last_system_monday_time sys_timezone m = some m ↔
      sys_timezone ≤ 0 ∧ Dated (utc - timeofweek utc - sys_timezone) := by
  have hdated := dated_of_last_system_monday_time h
  rw [last_system_monday_time_eq _ hdated, Option.some.injEq, startfrom, timeofweek_eq] at h
  have hwest : sys_timezone ≤ 0 → m = utc - timeofweek utc - sys_timezone := by
    intro hle
    rw [timeofweek_eq]
    split_ifs at h <;> omega
  constructor
  · intro hm
    have hdatedm := dated_of_last_system_monday_time hm
    rw [last_system_monday_time_eq _ hdatedm, Option.some.injEq, startfrom, timeofweek_eq] at hm
    have hle : sys_timezone ≤ 0 := by split_ifs at h hm <;> omega
    rw [← hwest hle]
    exact ⟨hle, hdatedm⟩
  · rintro ⟨hle, hdatedm⟩
    rw [← hwest hle] at hdatedm
    rw [last_system_monday_time_eq _ hdatedm, Option.some.injEq, startfrom, timeofweek_eq]
    split_ifs at h ⊢ <;> omega

theorem system_zero_time_mono {n : ℤ} (hlo : -43200 ≤ sys_timezone) (hhi : sys_timezone ≤ 50400) (hle : utc ≤ v)
    (hm : system_zero_time sys_timezone utc = some m) (hn : system_zero_time sys_timezone v = some n) : m ≤ n := by
  rw [system_zero_time_eq _ (dated_of_system_zero_time hm), Option.some.injEq, startfrom, timeofday_eq] at hm
  rw [system_zero_time_eq _ (dated_of_system_zero_time hn), Option.some.injEq, startfrom, timeofday_eq] at hn
  split_ifs at hm hn <;> omega

theorem last_system_monday_time_mono {n : ℤ} (hlo : -43200 ≤ sys_timezone) (hhi : sys_timezone ≤ 50400)
    (hle : utc ≤ v) (hm : last_system_monday_time sys_timezone utc = some m)
    (hn : last_system_monday_time sys_timezone v = some n) : m ≤ n := by
  rw [last_system_monday_time_eq _ (dated_of_last_system_monday_time hm), Option.some.injEq, startfrom,
    timeofweek_eq] at hm
  rw [last_system_monday_time_eq _ (dated_of_last_system_monday_time hn), Option.some.injEq, startfrom,
    timeofweek_eq] at hn
  split_ifs at hm hn <;> omega

/-- **Days and weeks in the system's zone** start where the functions say, exactly for the
instants that have a date, are no start themselves and lie behind it; both functions are
monotone, and idempotent exactly to the west of UTC. -/
theorem system_starts_iff (sys_timezone utc : ℤ) (hlo : -43200 ≤ sys_timezone)
    (hhi : sys_timezone ≤ 50400) :
    (((∃ m, system_zero_time sys_timezone utc = some m ∧ IsGreatest (dayStarts sys_timezone utc) m) ↔
        Dated utc ∧ 0 ≤ timeofday utc + sys_timezone ∧ timeofday utc + sys_timezone ≠ 86400) ∧
      ((∃ m, last_system_monday_time sys_timezone utc = some m ∧ IsGreatest (weekStarts sys_timezone utc) m) ↔
        Dated utc ∧ 0 ≤ timeofweek utc + sys_timezone ∧ timeofweek utc + sys_timezone ≠ 7 * 86400)) ∧
      ((∀ m, system_zero_time sys_timezone utc = some m →
          (system_zero_time sys_timezone m = some m ↔ sys_timezone ≤ 0)) ∧
        ∀ m, last_system_monday_time sys_timezone utc = some m →
          (last_system_monday_time sys_timezone m = some m ↔
            sys_timezone ≤ 0 ∧ Dated (utc - timeofweek utc - sys_timezone))) ∧
      ∀ v m n, utc ≤ v →
        (system_zero_time sys_timezone utc = some m → system_zero_time sys_timezone v = some n → m ≤ n) ∧
        (last_system_monday_time sys_timezone utc = some m →
          last_system_monday_time sys_timezone v = some n → m ≤ n) :=
  ⟨⟨system_zero_time_iff hlo hhi, last_system_monday_time_iff hlo hhi⟩,
    ⟨fun _ => system_zero_time_idem_iff hlo hhi, fun _ => last_system_monday_time_idem_iff hlo hhi⟩,
    fun _ _ _ h => ⟨system_zero_time_mono hlo hhi h, last_system_monday_time_mono hlo hhi h⟩⟩

/-- An instant in a zone eight hours to the east. -/
theorem system_starts_iff_east :
    (∃ m, system_zero_time 28800 100000 = some m ∧ IsGreatest (dayStarts 28800 100000) m) ∧
      ∃ m, last_system_monday_time 28800 100000 = some m ∧ IsGreatest (weekStarts 28800 100000) m :=
  have h := (system_starts_iff 28800 100000 (by decide) (by decide)).1
  ⟨h.1.mpr (by decide +kernel), h.2.mpr (by decide +kernel)⟩

/-- **At midnight in that zone** the day that is over is found. -/
theorem system_starts_midnight : ¬ ∀ sys_timezone utc : ℤ, -43200 ≤ sys_timezone → sys_timezone ≤ 50400 →
    (∃ m, system_zero_time sys_timezone utc = some m ∧ IsGreatest (dayStarts sys_timezone utc) m) ∧
      ∃ m, last_system_monday_time sys_timezone utc = some m ∧ IsGreatest (weekStarts sys_timezone utc) m := by
  intro h
  have hday := (h 28800 57600 (by decide) (by decide)).1
  exact ((system_zero_time_iff (by decide) (by decide)).mp hday).2.2 (by decide)

end Timext

/-!
## Time — the same day and the same week

Two instants are in the same day when their dates have the same number in the year,
within a day of each other. This is exact (`sameday`), since the number changes at
every midnight. Weeks are compared by their numbers in the year too, and a week that
a year's end divides has two of them. The start of the week before the last is taken
at noon, the hour that `os.time` has for a date without one.
-/

namespace Timext

open Calendar

variable {zone now tz utc t1 t2 z : ℤ}

/-- The Monday of a time. -/
def mondayof (t : ℤ) : ℤ := 86400 * monday (t / 86400)

theorem last_monday_time_eq (h : Dated utc) : last_monday_time utc = some (mondayof utc) := by
  simp only [last_monday_time, osdate_eq h, Option.bind_eq_bind, Option.bind_some, Option.pure_def, Tm.sinceMonday,
    Tm.ofTime, mondayof, monday, Option.some.injEq]
  split_ifs <;> omega

theorem dated_of_last_monday_time {m : ℤ} (h : last_monday_time utc = some m) : Dated utc := by
  by_contra hnot
  rw [last_monday_time, osdate_eq_none hnot] at h
  cases h

/-! ## Days -/

/-- **The same day**: more than a day apart they are not, and within a day the numbers
are those of the days. -/
theorem IsSameDay_eq (h1 : t1 ≠ 0) (h2 : t2 ≠ 0) (hd1 : Dated t1) (hd2 : Dated t2) :
    ∃ m1 m2, day_zero_time t1 = some m1 ∧ day_zero_time t2 = some m2 ∧ IsSameDay t1 t2 = some (decide (m1 = m2)) := by
  refine ⟨_, _, day_zero_time_eq hd1, day_zero_time_eq hd2, ?_⟩
  rw [IsSameDay, if_neg (by omega)]
  split_ifs with hfar
  · exact congrArg some (decide_eq_false (by omega)).symm
  · have hyday : (Tm.ofTime t1).yday = (Tm.ofTime t2).yday ↔ 86400 * (t1 / 86400) = 86400 * (t2 / 86400) :=
      (yday_inj (by omega) (by omega)).trans (by omega)
    simp only [osdate_eq hd1, osdate_eq hd2, Option.bind_eq_bind, Option.bind_some, Option.pure_def, hyday]

/-- A test that compares values is an equivalence. -/
theorem equivalence_of_eq {α β : Type} [DecidableEq β] {r : α → α → Option Bool} {f : α → β}
    (h : ∀ x y, r x y = some (decide (f x = f y))) : Equivalence (fun x y => r x y = some true) := by
  have hiff : ∀ x y, r x y = some true ↔ f x = f y := fun x y => by
    rw [h, Option.some.injEq, decide_eq_true_eq]
  exact ⟨fun x => (hiff x x).mpr rfl, fun hxy => (hiff _ _).mpr ((hiff _ _).mp hxy).symm,
    fun hxy hyz => (hiff _ _).mpr (((hiff _ _).mp hxy).trans ((hiff _ _).mp hyz))⟩

theorem IsSameDay_eq_decide (h1 : t1 ≠ 0) (h2 : t2 ≠ 0) (hd1 : Dated t1) (hd2 : Dated t2) :
    IsSameDay t1 t2 = some (decide (day_zero_time t1 = day_zero_time t2)) := by
  obtain ⟨m1, m2, hm1, hm2, hsame⟩ := IsSameDay_eq h1 h2 hd1 hd2
  rw [hsame, hm1, hm2]
  exact congrArg some (decide_eq_decide.mpr Option.some_inj.symm)

/-- **The tests for the same day compare midnights** of the times that have a date, and are
equivalences on them. -/
theorem sameday :
    (∀ t1 t2, t1 ≠ 0 → t2 ≠ 0 → Dated t1 → Dated t2 → ∃ m1 m2, day_zero_time t1 = some m1 ∧
      day_zero_time t2 = some m2 ∧ IsSameDay t1 t2 = some (decide (m1 = m2))) ∧
    (∀ tz t1 t2, t1 + tz ≠ 0 → t2 + tz ≠ 0 → Dated (t1 + tz) → Dated (t2 + tz) → ∃ m1 m2,
      day_zero_time (t1 + tz) = some m1 ∧ day_zero_time (t2 + tz) = some m2 ∧
        IsSameSystemDay tz t1 t2 = some (decide (m1 = m2))) ∧
    Equivalence (fun x y : { t : ℤ // t ≠ 0 ∧ Dated t } => IsSameDay x y = some true) ∧
    ∀ tz, Equivalence (fun x y : { t : ℤ // t + tz ≠ 0 ∧ Dated (t + tz) } => IsSameSystemDay tz x y = some true) :=
  ⟨fun _ _ => IsSameDay_eq, fun _ _ _ => IsSameDay_eq,
    equivalence_of_eq fun x y => IsSameDay_eq_decide x.2.1 y.2.1 x.2.2 y.2.2,
    fun _ => equivalence_of_eq fun x y => IsSameDay_eq_decide x.2.1 y.2.1 x.2.2 y.2.2⟩

/-- The last second of 1971 and the first of 1972 are not in the same day, in UTC, and
are in the system's zone. -/
theorem sameday_newyear : IsSameDay 63071999 63072000 = some false ∧
    IsSameSystemDay 28800 63071999 63072000 = some true := by
  constructor
  · obtain ⟨m1, m2, hm1, hm2, h⟩ :=
      sameday.1 63071999 63072000 (by decide) (by decide) (by decide +kernel) (by decide +kernel)
    have hne : day_zero_time 63071999 ≠ day_zero_time 63072000 := by decide +kernel
    rw [h, decide_eq_false fun heq => hne (by rw [hm1, hm2, heq])]
  · obtain ⟨m1, m2, hm1, hm2, h⟩ :=
      sameday.2.1 28800 63071999 63072000 (by decide) (by decide) (by decide +kernel) (by decide +kernel)
    have heq : day_zero_time (63071999 + 28800) = day_zero_time (63072000 + 28800) := by decide +kernel
    rw [hm1, hm2, Option.some.injEq] at heq
    rw [h, decide_eq_true heq]

/-- **A time without a date** has no midnight, and is not in the same day as itself. -/
theorem sameday_undated :
    (¬ ∀ t1 t2, t1 ≠ 0 → t2 ≠ 0 → ∃ m1 m2, day_zero_time t1 = some m1 ∧ day_zero_time t2 = some m2 ∧
      IsSameDay t1 t2 = some (decide (m1 = m2))) ∧
    ¬ Equivalence (fun x y : { t : ℤ // t ≠ 0 } => IsSameDay x y = some true) := by
  constructor
  · intro h
    obtain ⟨m1, -, hm1, -⟩ := h (2 ^ 60) (2 ^ 60) (by decide) (by decide)
    have hnone : day_zero_time (2 ^ 60) = none := by decide +kernel
    rw [hnone] at hm1
    cases hm1
  · intro h
    have hself : IsSameDay (2 ^ 60) (2 ^ 60) = some true := h.refl ⟨2 ^ 60, by decide⟩
    have hnone : IsSameDay (2 ^ 60) (2 ^ 60) = none := by decide +kernel
    rw [hnone] at hself
    cases hself

/-! ## Weeks -/

theorem weekof_eq (h : Dated utc) : weekof utc = some (week (utc / 86400)) := by
  rw [weekof, osdate_eq h]
  rfl

/-- **The same week of the year**: the same Monday and the same year. -/
theorem IsSameWeek_eq (h1 : t1 ≠ 0) (h2 : t2 ≠ 0) (hd1 : Dated t1) (hd2 : Dated t2) :
    IsSameWeek t1 t2 = some (decide (mondayof t1 = mondayof t2 ∧ yearof t1 = yearof t2)) := by
  rw [IsSameWeek, if_neg (by omega)]
  split_ifs with hfar
  · refine congrArg some (decide_eq_false ?_).symm
    rintro ⟨h, -⟩
    simp only [mondayof, monday] at h
    omega
  · have hweek : week (t1 / 86400) = week (t2 / 86400) ↔ mondayof t1 = mondayof t2 ∧ yearof t1 = yearof t2 := by
      rw [week_eq_iff (by omega) (by omega), mondayof, mondayof]
      exact and_congr_left fun _ => by omega
    simp only [weekof_eq hd1, weekof_eq hd2, Option.bind_eq_bind, Option.bind_some, Option.pure_def, hweek]

theorem sameWeekBy5_eq (h1 : t1 ≠ 0) (h2 : t2 ≠ 0) (hd1 : Dated t1) (hd2 : Dated t2) (hle : t1 ≤ t2) :
    sameWeekBy5 t1 t2 = IsSameWeek t1 t2 := by
  have hfar : 7 * 24 * 60 * 60 < t2 - t1 ↔ 7 * 24 * 60 * 60 < (t2 - t1).natAbs := by omega
  -- no second is before the time of the refresh
  have hsec : ∀ t, ¬ (Tm.ofTime t).hour * 60 * 60 + (Tm.ofTime t).min * 60 + (Tm.ofTime t).sec < 0 := by
    intro t
    simp only [Tm.ofTime]
    omega
  rw [IsSameWeek, if_neg (by omega), sameWeekBy5]
  simp only [weekof_eq hd1, weekof_eq hd2, osdate_eq hd1, osdate_eq hd2, Option.bind_eq_bind, Option.bind_some,
    Option.pure_def, system_refresh_time, hsec, false_and, and_false, decide_false, Bool.not_false]
  by_cases h : 7 * 24 * 60 * 60 < t2 - t1
  · rw [if_pos h, if_pos (hfar.mp h)]
  · rw [if_neg h, if_neg (mt hfar.mpr h)]
    by_cases hweek : week (t1 / 86400) = week (t2 / 86400)
    · rw [if_pos hweek, decide_eq_true hweek]
    · rw [if_neg hweek, decide_eq_false hweek]

theorem IsSameWeekBy5_eq (h1 : t1 ≠ 0) (h2 : t2 ≠ 0) (hd1 : Dated t1) (hd2 : Dated t2) :
    IsSameWeekBy5 t1 t2 = IsSameWeek t1 t2 := by
  rw [IsSameWeekBy5, if_neg (by omega)]
  split_ifs with hlt
  · rw [sameWeekBy5_eq h2 h1 hd2 hd1 (by omega), IsSameWeek_eq h2 h1 hd2 hd1, IsSameWeek_eq h1 h2 hd1 hd2]
    exact congrArg some (decide_eq_decide.mpr
      ⟨fun h => ⟨h.1.symm, h.2.symm⟩, fun h => ⟨h.1.symm, h.2.symm⟩⟩)
  · exact sameWeekBy5_eq h1 h2 hd1 hd2 (by omega)

/-- **A test of the week agrees with the Mondays.** -/
def Agrees (same : Option Bool) (t1 t2 : ℤ) : Prop :=
  ∃ m1 m2, last_monday_time t1 = some m1 ∧ last_monday_time t2 = some m2 ∧ same = some (decide (m1 = m2))

/-- A test for the same week of the year agrees where no year ends in the week. -/
theorem agrees_iff {same : Option Bool} (h : Dated t1 → Dated t2 →
    same = some (decide (mondayof t1 = mondayof t2 ∧ yearof t1 = yearof t2))) :
    Agrees same t1 t2 ↔
      Dated t1 ∧ Dated t2 ∧ (last_monday_time t1 = last_monday_time t2 → yearof t1 = yearof t2) := by
  constructor
  · rintro ⟨m1, m2, hm1, hm2, hsame⟩
    have hd1 := dated_of_last_monday_time hm1
    have hd2 := dated_of_last_monday_time hm2
    rw [last_monday_time_eq hd1, Option.some.injEq] at hm1
    rw [last_monday_time_eq hd2, Option.some.injEq] at hm2
    rw [h hd1 hd2, Option.some.injEq, decide_eq_decide, hm1, hm2] at hsame
    refine ⟨hd1, hd2, fun heq => ?_⟩
    rw [last_monday_time_eq hd1, last_monday_time_eq hd2, Option.some.injEq, hm1, hm2] at heq
    exact (hsame.mpr heq).2
  · rintro ⟨hd1, hd2, hyear⟩
    rw [last_monday_time_eq hd1, last_monday_time_eq hd2, Option.some.injEq] at hyear
    refine ⟨_, _, last_monday_time_eq hd1, last_monday_time_eq hd2, ?_⟩
    rw [h hd1 hd2]
    exact congrArg some (decide_eq_decide.mpr ⟨fun heq => heq.1, fun heq => ⟨heq, hyear heq⟩⟩)

/-! ## `os.time` -/

/-- A field that `os.time` takes. -/
def Fits (n : ℤ) : Prop := -maxdatefield ≤ n ∧ n ≤ maxdatefield

instance (n : ℤ) : Decidable (Fits n) := inferInstanceAs (Decidable (_ ∧ _))

theorem Fits.dated (h : Fits (yearof t1)) : Dated t1 := by
  simp only [Fits, maxdatefield] at h
  rw [Dated]
  omega

theorem getfield_of_fits {n d : ℤ} (h : Fits n) : getfield (some n) d = some n := if_pos h

theorem mktime_ofDay (zone z hour min sec : ℤ) :
    mktime zone (ofDay z).year (ofDay z).month (ofDay z).day hour min sec =
      z * 86400 + hour * 3600 + min * 60 + sec - zone := by
  have hmonth := month_mem z
  have hday := toDay_ofDay z
  have hfirst : toDay ⟨(ofDay z).year + ((ofDay z).month - 1) / 12, ((ofDay z).month - 1) % 12 + 1, 1⟩ +
      (ofDay z).day - 1 = z := by
    rw [show (ofDay z).year + ((ofDay z).month - 1) / 12 = (ofDay z).year by omega,
      show ((ofDay z).month - 1) % 12 + 1 = (ofDay z).month by omega]
    simp only [toDay] at hday ⊢
    split_ifs at hday ⊢ <;> omega
  rw [mktime]
  simp only [hfirst]

/-- **`os.time` of a day**, at a time of day that may be absent. -/
theorem os_time_ofDay (zone z : ℤ) {hour min sec : Option ℤ} {h m s : ℤ}
    (hh : getfield hour 12 = some h) (hm : getfield min 0 = some m) (hs : getfield sec 0 = some s) :
    os_time zone ⟨(ofDay z).year, (ofDay z).month, (ofDay z).day, hour, min, sec⟩ =
      if Fits (ofDay z).year ∧ z * 86400 + h * 3600 + m * 60 + s - zone ≠ -1 then
        some (z * 86400 + h * 3600 + m * 60 + s - zone, .ofTime (z * 86400 + h * 3600 + m * 60 + s))
      else none := by
  have hmonth : Fits (ofDay z).month := by
    have := month_mem z
    simp only [Fits, maxdatefield]
    omega
  have hday : Fits (ofDay z).day := by
    have := day_mem z
    simp only [Fits, maxdatefield]
    omega
  by_cases hyear : Fits (ofDay z).year
  · simp only [os_time, hh, hm, hs, getfield_of_fits hmonth, getfield_of_fits hday,
      getfield_of_fits hyear, Option.bind_eq_bind, Option.bind_some, mktime_ofDay, hyear, true_and,
      sub_add_cancel, ne_eq, ite_not]
  · have hnone : getfield (some (ofDay z).year) 0 = none := if_neg hyear
    simp only [os_time, hh, hm, hs, getfield_of_fits hmonth, getfield_of_fits hday, hnone,
      Option.bind_eq_bind, Option.bind_some, Option.bind_none, hyear, false_and, if_false]

/-- `os.time` of a date that `os.date` gave. -/
theorem os_time_ofTime (zone t : ℤ) :
    os_time zone ⟨(Tm.ofTime t).year, (Tm.ofTime t).month, (Tm.ofTime t).day, some (Tm.ofTime t).hour,
      some (Tm.ofTime t).min, some (Tm.ofTime t).sec⟩ =
      if Fits (yearof t) ∧ t - zone ≠ -1 then some (t - zone, .ofTime t) else none := by
  have hh : getfield (some (Tm.ofTime t).hour) 12 = some (Tm.ofTime t).hour := getfield_of_fits (by
    simp only [Fits, maxdatefield, Tm.ofTime]
    omega)
  have hm : getfield (some (Tm.ofTime t).min) 0 = some (Tm.ofTime t).min := getfield_of_fits (by
    simp only [Fits, maxdatefield, Tm.ofTime]
    omega)
  have hs : getfield (some (Tm.ofTime t).sec) 0 = some (Tm.ofTime t).sec := getfield_of_fits (by
    simp only [Fits, maxdatefield, Tm.ofTime]
    omega)
  have ht : t / 86400 * 86400 + (Tm.ofTime t).hour * 3600 + (Tm.ofTime t).min * 60 + (Tm.ofTime t).sec = t := by
    simp only [Tm.ofTime]
    omega
  have := os_time_ofDay zone (t / 86400) hh hm hs
  rwa [ht] at this

/-- **What is measured is the offset**: the time at which it is measured cancels. -/
theorem timezone_eq (h : timezone zone now = some tz) : tz = zone := by
  rw [timezone] at h
  by_cases hdated : Dated now
  · simp only [osdate_eq hdated, Option.bind_eq_bind, Option.bind_some, os_time_ofTime, Option.pure_def] at h
    split_ifs at h
    · rw [Option.bind_some, Option.some.injEq] at h
      omega
    · cases h
  · rw [osdate_eq_none hdated] at h
    cases h

/-! ## Two weeks -/

/-- The noon of a time's day. -/
def noonof (t : ℤ) : ℤ := 86400 * (t / 86400) + 43200

/-- **`IsTowWeek` has the middle of the day.** -/
theorem IsTowWeek_eq (zone t1 t2 : ℤ) : IsTowWeek zone zone t1 t2 =
    if Fits (yearof t2) ∧ noonof t2 - zone ≠ -1 then
      some (decide (t1 < mondayof t2 - 7 * 86400 + 43200))
    else none := by
  have htime := os_time_ofDay zone (t2 / 86400) (show getfield none 12 = some 12 from rfl)
    (show getfield none 0 = some 0 from rfl) (show getfield none 0 = some 0 from rfl)
  have hnoon : t2 / 86400 * 86400 + 12 * 3600 + 0 * 60 + 0 - zone = noonof t2 - zone := by
    rw [noonof]
    omega
  rw [hnoon] at htime
  have hyear : yearof t2 = (ofDay (t2 / 86400)).year := rfl
  rw [hyear]
  by_cases hdated : Dated t2
  · rw [IsTowWeek, osdate_eq hdated, Option.bind_eq_bind, Option.bind_some, ostime]
    simp only [show (Tm.ofTime t2).year = (ofDay (t2 / 86400)).year from rfl,
      show (Tm.ofTime t2).month = (ofDay (t2 / 86400)).month from rfl,
      show (Tm.ofTime t2).day = (ofDay (t2 / 86400)).day from rfl, htime]
    by_cases hcond : Fits (ofDay (t2 / 86400)).year ∧ noonof t2 - zone ≠ -1
    · have hwday : (if (Tm.ofTime t2).wday - 1 = 0 then 7 else (Tm.ofTime t2).wday - 1) - 1 =
          (t2 / 86400 + 3) % 7 := by
        simp only [Tm.ofTime]
        split_ifs <;> omega
      rw [if_pos hcond, if_pos hcond]
      simp only [Option.map_some, Option.bind_eq_bind, Option.bind_some, hwday]
      rw [mondayof, monday, noonof]
      refine congrArg some (decide_eq_decide.mpr ?_)
      omega
    · rw [if_neg hcond, if_neg hcond]
      rfl
  · rw [IsTowWeek, osdate_eq_none hdated, if_neg fun h => hdated (Fits.dated h.1)]
    rfl

/-- **Where the tests agree with the Mondays**: the first two where both times have a date
and no year ends in the week, the third outside a half day, where `os.time` has no error. -/
theorem sameweek_iff (hload : timezone zone now = some tz) (h1 : t1 ≠ 0) (h2 : t2 ≠ 0) :
    (Agrees (IsSameWeek t1 t2) t1 t2 ↔
      Dated t1 ∧ Dated t2 ∧ (last_monday_time t1 = last_monday_time t2 → yearof t1 = yearof t2)) ∧
    (Agrees (IsSameWeekBy5 t1 t2) t1 t2 ↔
      Dated t1 ∧ Dated t2 ∧ (last_monday_time t1 = last_monday_time t2 → yearof t1 = yearof t2)) ∧
    ((∃ m, last_monday_time t2 = some m ∧ IsTowWeek zone tz t1 t2 = some (decide (t1 < m - 7 * 86400))) ↔
      Fits (yearof t2) ∧ noonof t2 - zone ≠ -1 ∧
        ¬ (mondayof t2 - 7 * 86400 ≤ t1 ∧ t1 < mondayof t2 - 7 * 86400 + 43200)) := by
  refine ⟨agrees_iff (IsSameWeek_eq h1 h2), agrees_iff fun hd1 hd2 => ?_, ?_⟩
  · rw [IsSameWeekBy5_eq h1 h2 hd1 hd2, IsSameWeek_eq h1 h2 hd1 hd2]
  · rw [timezone_eq hload, IsTowWeek_eq, ← and_assoc]
    split_ifs with hcond
    · rw [last_monday_time_eq hcond.1.dated]
      simp only [Option.some.injEq, decide_eq_decide, exists_eq_left']
      constructor
      · intro h
        refine ⟨hcond, ?_⟩
        omega
      · rintro ⟨-, h⟩
        omega
    · constructor
      · rintro ⟨m, -, h⟩
        cases h
      · rintro ⟨h, -⟩
        exact absurd h hcond

/-- A Monday and the Sunday after it, and a time three weeks before them. -/
theorem sameweek_september : Agrees (IsSameWeek 1600646400 1601164800) 1600646400 1601164800 ∧
    Agrees (IsSameWeekBy5 1600646400 1601164800) 1600646400 1601164800 ∧
    ∃ m, last_monday_time 1600646400 = some m ∧
      IsTowWeek 28800 28800 1598832000 1600646400 = some (decide (1598832000 < m - 7 * 86400)) := by
  have hload : timezone 28800 1600000000 = some 28800 := by decide +kernel
  refine ⟨?_, ?_, ?_⟩
  · exact (sameweek_iff hload (by decide) (by decide)).1.mpr (by decide +kernel)
  · exact (sameweek_iff hload (by decide) (by decide)).2.1.mpr (by decide +kernel)
  · exact (sameweek_iff hload (by decide) (by decide)).2.2.mpr (by decide +kernel)

/-- The last second of 1971, a Friday, and the first of 1972; and the Monday a week before
another one. -/
theorem sameweek_yearend : ¬ Agrees (IsSameWeek 63071999 63072000) 63071999 63072000 ∧
    ¬ Agrees (IsSameWeekBy5 63071999 63072000) 63071999 63072000 ∧
    timezone 28800 1600000000 = some 28800 ∧
    ¬ ∃ m, last_monday_time 1600646400 = some m ∧
      IsTowWeek 28800 28800 1600041600 1600646400 = some (decide (1600041600 < m - 7 * 86400)) := by
  have hload : timezone 28800 1600000000 = some 28800 := by decide +kernel
  have hagrees : ∀ same, same = some false → ¬ Agrees same 63071999 63072000 := by
    rintro same rfl ⟨m1, m2, hm1, hm2, hsame⟩
    have heq : last_monday_time 63071999 = last_monday_time 63072000 := by decide +kernel
    rw [hm1, hm2, Option.some.injEq] at heq
    exact of_decide_eq_false (Option.some.inj hsame).symm heq
  refine ⟨hagrees _ (by decide +kernel), hagrees _ (by decide +kernel), hload, ?_⟩
  rintro ⟨m, hm, hweek⟩
  have hmonday : last_monday_time 1600646400 = some 1600646400 := by decide +kernel
  have htwo : IsTowWeek 28800 28800 1600041600 1600646400 = some true := by decide +kernel
  rw [hmonday, Option.some.injEq] at hm
  rw [htwo, Option.some.injEq, eq_comm, decide_eq_true_eq] at hweek
  omega

end Timext

end Athena
