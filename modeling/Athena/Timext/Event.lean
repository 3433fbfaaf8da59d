import Athena.Timext.Model
import Mathlib.Order.Bounds.Basic
import Mathlib.Order.Defs.LinearOrder
import Mathlib.Data.List.Forall2
/-!
# Time — events at a time of day

The next time of an event is the first instant after a given one that has its day
and its time. So the clock calls the function of an event exactly when such an
instant lies between the last call and the turn. Both take a date of a time, which
those beyond some two thousand million years do not have.
-/

namespace Athena

namespace Timext

variable {sys_timezone last_time wday zerotime sec utc current f n o day : ℤ} {mask : ℕ} {days : List ℤ} {r : Reg}
  {e e' : Event}

/-- The time of day of an event. -/
def Reg.time (r : Reg) : ℤ := r.hour * 60 * 60 + r.min * 60 + r.sec

/-- A time within the day, on some day of the week. -/
structure Reg.Proper (r : Reg) : Prop where
  nonneg : 0 ≤ r.time
  lt : r.time < 86400
  day : ∃ day ∈ week_day, bitof r.day day = true

/-- The weekday of an instant: Sunday is 1. -/
def weekday (t : ℤ) : ℤ := (Tm.ofTime t).wday

theorem weekday_eq (t : ℤ) : weekday t = (t / 86400 + 4) % 7 + 1 := rfl

/-- **An instant is an occurrence**: with the offset it has a weekday in the mask and
the time of day. -/
def Occurs (sys_timezone : ℤ) (r : Reg) (o : ℤ) : Prop :=
  bitof r.day (weekday (o + sys_timezone)) = true ∧ (o + sys_timezone) % 86400 = r.time

/-! ## Dates -/

theorem osdate_eq (h : Dated utc) : osdate utc = some (.ofTime utc) := if_pos h

theorem osdate_eq_none (h : ¬ Dated utc) : osdate utc = none := if_neg h

/-- The midnight of a day is a time that is a whole number of days. -/
theorem day_zero_time_eq (h : Dated utc) : day_zero_time utc = some (86400 * (utc / 86400)) := by
  simp only [day_zero_time, osdate_eq h, Tm.ofTime, Option.bind_eq_bind, Option.bind_some, Option.pure_def,
    Option.some.injEq]
  omega

/-! ## The next time -/

theorem weekday_mem (t : ℤ) : weekday t ∈ week_day := by
  simp only [weekday_eq, week_day, List.mem_cons, List.not_mem_nil, or_false]
  omega

theorem week_day_bounds (h : day ∈ week_day) : 1 ≤ day ∧ day ≤ 7 := by
  simp only [week_day, List.mem_cons, List.not_mem_nil, or_false] at h
  omega

/-- The time on a day of the week, as it is asked for. -/
def firston (last_time sec day : ℤ) : ℤ :=
  timeon last_time (weekday last_time) (86400 * (last_time / 86400)) sec day

/-- **The time on a day of the week** is the first one after the last time. -/
theorem timeon_spec (last_time : ℤ) (hday : day ∈ week_day) (hsec : 0 ≤ sec) (hlt : sec < 86400) :
    last_time < firston last_time sec day ∧ weekday (firston last_time sec day) = day ∧
      firston last_time sec day % 86400 = sec ∧
      ∀ x, last_time < x → weekday x = day → x % 86400 = sec → firston last_time sec day ≤ x := by
  obtain ⟨hone, hseven⟩ := week_day_bounds hday
  simp only [firston, timeon, weekday_eq]
  split_ifs
  all_goals refine ⟨by omega, by omega, by omega, fun x hx hwday htime => by omega⟩

/-- **The loop finds the least** of the days in the mask, and of what it starts with. -/
theorem closest_spec (days : List ℤ) : ∀ acc n, closest last_time wday zerotime sec mask days acc = some n →
    (acc = some n ∨ ∃ day ∈ days, bitof mask day = true ∧ n = timeon last_time wday zerotime sec day) ∧
      (∀ a, acc = some a → n ≤ a) ∧ ∀ day ∈ days, bitof mask day = true → n ≤ timeon last_time wday zerotime sec day := by
  induction days with
  | nil =>
    intro acc n h
    refine ⟨Or.inl h, fun a ha => ?_, fun day hday => absurd hday List.not_mem_nil⟩
    rw [closest, ha] at h
    exact (Option.some.inj h).ge
  | cons d days ih =>
    intro acc n h
    unfold closest at h
    split at h
    · rename_i hbit
      simp only at h
      cases acc with
      | none =>
        obtain ⟨hfrom, hacc, hall⟩ := ih _ n h
        refine ⟨Or.inr ?_, fun a ha => (by cases ha), fun day hday hd => ?_⟩
        · rcases hfrom with heq | ⟨day, hday, hd, heq⟩
          · exact ⟨d, List.mem_cons_self, hbit, (Option.some.inj heq).symm⟩
          · exact ⟨day, List.mem_cons_of_mem d hday, hd, heq⟩
        · rcases List.mem_cons.mp hday with rfl | hday
          · exact hacc _ rfl
          · exact hall day hday hd
      | some c =>
        obtain ⟨hfrom, hacc, hall⟩ := ih _ n h
        have hle := hacc _ rfl
        refine ⟨?_, fun a ha => ?_, fun day hday hd => ?_⟩
        · rcases hfrom with heq | ⟨day, hday, hd, heq⟩
          · rw [Option.some.injEq] at heq
            split at heq
            · exact Or.inr ⟨d, List.mem_cons_self, hbit, heq.symm⟩
            · exact Or.inl (congrArg some heq)
          · exact Or.inr ⟨day, List.mem_cons_of_mem d hday, hd, heq⟩
        · rw [← Option.some.inj ha]
          split at hle <;> omega
        · rcases List.mem_cons.mp hday with rfl | hday
          · split at hle <;> omega
          · exact hall day hday hd
    · rename_i hbit
      obtain ⟨hfrom, hacc, hall⟩ := ih _ n h
      refine ⟨?_, hacc, fun day hday hd => ?_⟩
      · rcases hfrom with heq | ⟨day, hday, hd, heq⟩
        · exact Or.inl heq
        · exact Or.inr ⟨day, List.mem_cons_of_mem d hday, hd, heq⟩
      · rcases List.mem_cons.mp hday with rfl | hday
        · exact absurd hd hbit
        · exact hall day hday hd

theorem closest_isSome (days : List ℤ) : ∀ acc, (acc.isSome ∨ ∃ day ∈ days, bitof mask day = true) →
    (closest last_time wday zerotime sec mask days acc).isSome := by
  induction days with
  | nil =>
    intro acc h
    rcases h with h | ⟨day, hday, -⟩
    · exact h
    · cases hday
  | cons d days ih =>
    intro acc h
    unfold closest
    split
    · simp only
      cases acc with
      | none => exact ih _ (Or.inl rfl)
      | some c => exact ih _ (Or.inl rfl)
    · rename_i hbit
      refine ih _ (h.imp_right fun ⟨day, hday, hd⟩ => ?_)
      rcases List.mem_cons.mp hday with rfl | hday
      · exact absurd hd hbit
      · exact ⟨day, hday, hd⟩

/-- **The least of the days** is the first instant with a day in the mask and the time,
in whichever order the days come. -/
theorem next_event_in_least (last_time hour min sec : ℤ) (hdated : Dated last_time)
    (hsec : 0 ≤ hour * 60 * 60 + min * 60 + sec) (hlt : hour * 60 * 60 + min * 60 + sec < 86400)
    (hmask : ∃ day ∈ week_day, bitof mask day = true) (hdays : ∀ day, day ∈ days ↔ day ∈ week_day) :
    ∃ n, next_event_in days last_time hour min sec mask = some n ∧
      IsLeast { o | last_time < o ∧ bitof mask (weekday o) = true ∧
        o % 86400 = hour * 60 * 60 + min * 60 + sec } n := by
  obtain ⟨d, hd, hbitd⟩ := hmask
  have hclosest : next_event_in days last_time hour min sec mask =
      closest last_time (weekday last_time) (86400 * (last_time / 86400)) (hour * 60 * 60 + min * 60 + sec)
        mask days none := by
    rw [next_event_in, osdate_eq hdated, day_zero_time_eq hdated]
    rfl
  rw [hclosest]
  have hsome : (closest last_time (weekday last_time) (86400 * (last_time / 86400))
      (hour * 60 * 60 + min * 60 + sec) mask days none).isSome :=
    closest_isSome days none (Or.inr ⟨d, (hdays d).mpr hd, hbitd⟩)
  obtain ⟨n, hn⟩ := Option.isSome_iff_exists.mp hsome
  refine ⟨n, hn, ?_⟩
  obtain ⟨hfrom, -, hall⟩ := closest_spec days none n hn
  rcases hfrom with heq | ⟨day, hday, hbit, rfl⟩
  · cases heq
  · obtain ⟨hlast, hwday, htime, -⟩ := timeon_spec last_time ((hdays day).mp hday) hsec hlt
    refine ⟨⟨hlast, ?_, htime⟩, fun o ho => ?_⟩
    · rw [← firston, hwday]
      exact hbit
    · obtain ⟨hof, hobit, hotime⟩ := ho
      -- on the weekday of the instant nothing is earlier
      have hle := hall _ ((hdays _).mpr (weekday_mem o)) hobit
      have hfirst := (timeon_spec last_time (weekday_mem o) hsec hlt).2.2.2 o hof rfl hotime
      exact le_trans hle hfirst

/-- **The next time of an event** is its first occurrence after an instant. -/
theorem next_event_time_spec (hr : r.Proper) (sys_timezone f : ℤ) (hdated : Dated (f + sys_timezone)) :
    ∃ n, next_event_time (f + sys_timezone) r.hour r.min r.sec r.day = some n ∧
      IsLeast { o | Occurs sys_timezone r o ∧ f < o } (n - sys_timezone) := by
  obtain ⟨n, hn, ⟨hlast, hbit, htime⟩, hleast⟩ :=
    next_event_in_least (f + sys_timezone) r.hour r.min r.sec hdated hr.nonneg hr.lt hr.day fun _ => Iff.rfl
  have hback : n - sys_timezone + sys_timezone = n := by omega
  refine ⟨n, hn, ⟨⟨⟨?_, ?_⟩, ?_⟩, fun o ho => ?_⟩⟩
  · rw [hback]
    exact hbit
  · rw [hback]
    exact htime
  · omega
  · obtain ⟨⟨hobit, hotime⟩, hof⟩ := ho
    have hle : n ≤ o + sys_timezone := hleast ⟨by omega, hobit, hotime⟩
    omega

/-- The time of day of an instant. -/
def timeofday (t : ℤ) : ℤ := (Tm.ofTime t).hour * 3600 + (Tm.ofTime t).min * 60 + (Tm.ofTime t).sec

theorem timeofday_eq (t : ℤ) : timeofday t = t % 86400 := by
  simp only [timeofday, Tm.ofTime]
  omega

/-- **`next_event_time` is the first instant** after a last one that has a date, with a
weekday in the mask and the time of day, in whichever order the weekdays are visited; after
any other it raises. -/
theorem next_event_time_least (last_time hour min sec : ℤ) (mask : ℕ)
    (hnonneg : 0 ≤ hour * 3600 + min * 60 + sec) (hlt : hour * 3600 + min * 60 + sec < 86400)
    (hmask : ∃ day ∈ week_day, bitof mask day = true) :
    (Dated last_time → ∃ n, next_event_time last_time hour min sec mask = some n ∧
      (∀ days : List ℤ, days.Perm week_day → next_event_in days last_time hour min sec mask = some n) ∧
      IsLeast { o | last_time < o ∧ bitof mask (weekday o) = true ∧
        timeofday o = hour * 3600 + min * 60 + sec } n) ∧
    (¬ Dated last_time → ∀ days, next_event_in days last_time hour min sec mask = none) := by
  have hsec : hour * 60 * 60 + min * 60 + sec = hour * 3600 + min * 60 + sec := by omega
  have hset : { o | last_time < o ∧ bitof mask (weekday o) = true ∧
      timeofday o = hour * 3600 + min * 60 + sec } =
        { o | last_time < o ∧ bitof mask (weekday o) = true ∧
          o % 86400 = hour * 60 * 60 + min * 60 + sec } := by
    ext o
    simp only [Set.mem_ofPred_eq, timeofday_eq, hsec]
  rw [← hsec] at hnonneg hlt
  refine ⟨fun hdated => ?_, fun hdated days => ?_⟩
  · obtain ⟨n, hn, hleast⟩ :=
      next_event_in_least last_time hour min sec hdated hnonneg hlt hmask fun _ => Iff.rfl
    refine ⟨n, hn, fun days hperm => ?_, ?_⟩
    · obtain ⟨n', hn', hleast'⟩ :=
        next_event_in_least last_time hour min sec hdated hnonneg hlt hmask fun _ => hperm.mem_iff
      rw [hn', hleast'.unique hleast]
    · rw [hset]
      exact hleast
  · rw [next_event_in, osdate_eq_none hdated]
    rfl

/-- From a Thursday, the next Monday or Friday at noon is a Friday. -/
theorem next_event_time_least_friday : ∃ n, next_event_time 0 12 0 0 (2 + 32) = some n ∧
    (∀ days : List ℤ, days.Perm week_day → next_event_in days 0 12 0 0 (2 + 32) = some n) ∧
    IsLeast { o | 0 < o ∧ bitof (2 + 32) (weekday o) = true ∧ timeofday o = 12 * 3600 + 0 * 60 + 0 } n :=
  (next_event_time_least 0 12 0 0 (2 + 32) (by decide) (by decide) ⟨2, by decide, by decide⟩).1
    (by decide +kernel)

/-- **After a time without a date** there is no next time. -/
theorem next_event_time_undated : ¬ ∀ last_time hour min sec : ℤ, ∀ mask : ℕ,
    0 ≤ hour * 3600 + min * 60 + sec → hour * 3600 + min * 60 + sec < 86400 →
      (∃ day ∈ week_day, bitof mask day = true) → ∃ n, next_event_time last_time hour min sec mask = some n ∧
        IsLeast { o | last_time < o ∧ bitof mask (weekday o) = true ∧
          timeofday o = hour * 3600 + min * 60 + sec } n := by
  intro h
  obtain ⟨n, hn, -⟩ := h (2 ^ 60) 12 0 0 2 (by decide) (by decide) ⟨2, by decide, by decide⟩
  have hnone : next_event_time (2 ^ 60) 12 0 0 2 = none := by decide +kernel
  rw [hnone] at hn
  cases hn

/-! ## The clock -/

/-- **An event waits for its first occurrence** after an instant. -/
structure Waits (sys_timezone : ℤ) (r : Reg) (f : ℤ) (e : Event) : Prop where
  proper : r.Proper
  fields : e.hour = r.hour ∧ e.min = r.min ∧ e.sec = r.sec ∧ e.day = r.day
  least : IsLeast { o | Occurs sys_timezone r o ∧ f < o } e.next_time

theorem reg_time_event_spec (hr : r.Proper) (sys_timezone : ℤ)
    (hdated : Dated (r.last_event_time + sys_timezone)) :
    ∃ e, reg_time_event sys_timezone r = some e ∧ Waits sys_timezone r r.last_event_time e := by
  obtain ⟨n, hn, hleast⟩ := next_event_time_spec hr sys_timezone r.last_event_time hdated
  exact ⟨⟨r.hour, r.min, r.sec, r.day, n - sys_timezone⟩, by rw [reg_time_event, hn]; rfl, hr,
    ⟨rfl, rfl, rfl, rfl⟩, hleast⟩

/-- An occurrence has passed since an instant. -/
def Passed (sys_timezone : ℤ) (r : Reg) (f current : ℤ) : Prop :=
  ∃ o, Occurs sys_timezone r o ∧ f < o ∧ o < current

theorem Waits.passed_iff (h : Waits sys_timezone r f e) :
    e.next_time < current ↔ Passed sys_timezone r f current := by
  refine ⟨fun hlt => ⟨e.next_time, h.least.1.1, h.least.1.2, hlt⟩, fun ⟨o, ho, hf, hlt⟩ => ?_⟩
  exact lt_of_le_of_lt (h.least.2 ⟨ho, hf⟩) hlt

/-- **One event in a turn** is called when an occurrence has passed, and then waits
for the first one after the turn. -/
theorem Waits.fire (h : Waits sys_timezone r f e) (current : ℤ) (hdated : Dated (current + sys_timezone)) :
    ∃ e' called, fire sys_timezone current e = some (e', called) ∧
      (called = true ↔ Passed sys_timezone r f current) ∧
      Waits sys_timezone r (if called then current else f) e' := by
  unfold Timext.fire
  split
  · rename_i hlt
    obtain ⟨hhour, hmin, hsec, hday⟩ := h.fields
    obtain ⟨n, hn, hleast⟩ := next_event_time_spec h.proper sys_timezone current hdated
    rw [hhour, hmin, hsec, hday, hn]
    exact ⟨_, true, rfl, ⟨fun _ => h.passed_iff.mp hlt, fun _ => rfl⟩, h.proper,
      ⟨rfl, rfl, rfl, rfl⟩, hleast⟩
  · rename_i hlt
    exact ⟨e, false, rfl, ⟨fun hfalse => (by cases hfalse), fun hp => absurd (h.passed_iff.mpr hp) hlt⟩,
      h⟩

/-- **The calls of some turns**, when each event is there with the last turn that
called it. -/
def Scheduled (sys_timezone : ℤ) : List (Reg × ℤ) → List ℤ → List (List Bool) → Prop
  | _, [], calls => calls = []
  | regs, current :: times, calls =>
    ∃ called rest, calls = called :: rest ∧
      List.Forall₂ (fun x b => b = true ↔ Passed sys_timezone x.1 x.2 current) regs called ∧
      Scheduled sys_timezone (List.zipWith (fun x b => (x.1, if b then current else x.2)) regs called)
        times rest

/-- **A turn of the clock** calls those events whose occurrence has passed. -/
theorem clock_spec {regs : List (Reg × ℤ)} {es : List Event}
    (h : List.Forall₂ (fun x e => Waits sys_timezone x.1 x.2 e) regs es) (current : ℤ)
    (hdated : Dated (current + sys_timezone)) :
    ∃ es' called, clock sys_timezone current es = some (es', called) ∧
      List.Forall₂ (fun x b => b = true ↔ Passed sys_timezone x.1 x.2 current) regs called ∧
      List.Forall₂ (fun x e => Waits sys_timezone x.1 x.2 e)
        (List.zipWith (fun x b => (x.1, if b then current else x.2)) regs called) es' := by
  induction h with
  | nil => exact ⟨[], [], rfl, .nil, .nil⟩
  | cons hx _ ih =>
    obtain ⟨e', b, hfire, hb, hwaits⟩ := hx.fire current hdated
    obtain ⟨es', called, hclock, hcalled, hes⟩ := ih
    refine ⟨e' :: es', b :: called, ?_, .cons hb hcalled, .cons hwaits hes⟩
    simp [clock, hfire, hclock]

theorem turns_spec (times : List ℤ) (hdated : ∀ c ∈ times, Dated (c + sys_timezone)) : ∀ {regs : List (Reg × ℤ)} {es : List Event},
    List.Forall₂ (fun x e => Waits sys_timezone x.1 x.2 e) regs es →
    ∃ calls, turns sys_timezone times es = some calls ∧ Scheduled sys_timezone regs times calls := by
  induction times with
  | nil => exact fun _ => ⟨[], rfl, rfl⟩
  | cons current times ih =>
    intro regs es h
    obtain ⟨es', called, hclock, hcalled, hes⟩ := clock_spec h current (hdated current List.mem_cons_self)
    obtain ⟨calls, hturns, hscheduled⟩ := ih (fun c hc => hdated c (List.mem_cons_of_mem current hc)) hes
    exact ⟨called :: calls, by simp [turns, hclock, hturns], called, calls, rfl, hcalled, hscheduled⟩

theorem regs_spec {regs : List Reg} (h : ∀ r ∈ regs, r.Proper)
    (hdated : ∀ r ∈ regs, Dated (r.last_event_time + sys_timezone)) :
    ∃ es, regs.mapM (reg_time_event sys_timezone) = some es ∧
      List.Forall₂ (fun x e => Waits sys_timezone x.1 x.2 e)
        (regs.map fun r => (r, r.last_event_time)) es := by
  induction regs with
  | nil => exact ⟨[], rfl, .nil⟩
  | cons r regs ih =>
    obtain ⟨e, he, hwaits⟩ := reg_time_event_spec (h r List.mem_cons_self) sys_timezone (hdated r List.mem_cons_self)
    obtain ⟨es, hes, hall⟩ := ih (fun r' hr' => h r' (List.mem_cons_of_mem r hr'))
      (fun r' hr' => hdated r' (List.mem_cons_of_mem r hr'))
    exact ⟨e :: es, by simp [he, hes], .cons hwaits hall⟩

/-- **The function of an event is called**, once, in exactly those turns of the clock
before which an occurrence has passed since the last turn that called it. The times have
dates in the system's zone. -/
theorem events_scheduled (sys_timezone : ℤ) (regs : List Reg) (h : ∀ r ∈ regs, r.Proper)
    (hregs : ∀ r ∈ regs, Dated (r.last_event_time + sys_timezone)) (times : List ℤ)
    (htimes : ∀ c ∈ times, Dated (c + sys_timezone)) :
    ∃ es calls, regs.mapM (reg_time_event sys_timezone) = some es ∧
      turns sys_timezone times es = some calls ∧
      Scheduled sys_timezone (regs.map fun r => (r, r.last_event_time)) times calls := by
  obtain ⟨es, hes, hall⟩ := regs_spec h hregs
  obtain ⟨calls, hturns, hscheduled⟩ := turns_spec times htimes hall
  exact ⟨es, calls, hes, hturns, hscheduled⟩

/-- Mondays at noon and every midnight, with a clock that stands still for days. -/
theorem events_scheduled_monday : ∃ es calls,
    [⟨0, 12, 0, 0, 2⟩, ⟨86400, 0, 0, 0, all_day⟩].mapM (reg_time_event 28800) = some es ∧
      turns 28800 [100, 500000, 500000, 1000000] es = some calls ∧
      Scheduled 28800 ([⟨0, 12, 0, 0, 2⟩, ⟨86400, 0, 0, 0, all_day⟩].map fun r => (r, r.last_event_time))
        [100, 500000, 500000, 1000000] calls := by
  refine events_scheduled 28800 _ (fun r hr => ?_) (by decide +kernel) _ (by decide +kernel)
  simp only [List.mem_cons, List.not_mem_nil, or_false] at hr
  rcases hr with rfl | rfl
  · exact ⟨by decide, by decide, by decide⟩
  · exact ⟨by decide, by decide, by decide⟩

/-- **An event whose last time has no date** is not registered. -/
theorem events_unscheduled : ¬ ∀ (sys_timezone : ℤ) (regs : List Reg), (∀ r ∈ regs, r.Proper) →
    ∀ times : List ℤ, times.Pairwise (· ≤ ·) → ∃ es calls, regs.mapM (reg_time_event sys_timezone) = some es ∧
      turns sys_timezone times es = some calls ∧
      Scheduled sys_timezone (regs.map fun r => (r, r.last_event_time)) times calls := by
  intro h
  have hproper : ∀ r ∈ [(⟨2 ^ 60, 12, 0, 0, all_day⟩ : Reg)], r.Proper := by
    intro r hr
    rw [List.mem_singleton] at hr
    subst hr
    exact ⟨by decide, by decide, by decide⟩
  obtain ⟨es, -, hes, -⟩ := h 0 _ hproper [] .nil
  have hnone : [(⟨2 ^ 60, 12, 0, 0, all_day⟩ : Reg)].mapM (reg_time_event 0) = none := by decide +kernel
  rw [hnone] at hes
  cases hes

end Timext

end Athena
