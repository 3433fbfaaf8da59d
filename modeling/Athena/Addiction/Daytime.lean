import Athena.Common.Calendar
import Athena.Common.System
import Mathlib.Algebra.BigOperators.Group.List.Basic
/-!
# The time a player is online — model

`addiction.lua`: a user's row has the times of the last online and the last
offline, the seconds of the day and the seconds of all sessions. Both handlers
compare the fields of two dates to see whether a day has ended. A clock value is
in seconds, and the server is in a zone of a fixed offset.
-/

namespace Athena

namespace Addiction

open Calendar

/-- What the handlers read and write of a user. -/
structure User where
  age : ℤ
  /-- The time of the last online. -/
  ltime : ℤ
  /-- The time of the last offline. -/
  etime : ℤ
  daytime : ℤ
  onlinetime : ℤ

/-- `format_unix_time`, down to the day. There is none for a negative time, and
then the handlers index a nil. -/
def format_unix_time (zone unixTime : ℤ) : Option Date :=
  if 0 ≤ unixTime then some (ofDay (dayOf zone unixTime)) else none

/-- What `addiction_match` does in the end. -/
inductive Verdict
  | pass
  | kick
  deriving DecidableEq

/-- `os.date("%w")`, where Sunday is zero. -/
def weekday (zone now : ℤ) : ℤ := (dayOf zone now + 4) % 7

/-- `os.date("%H")`. -/
def hour (zone now : ℤ) : ℤ := secondOf zone now / 3600

/-- The check of a user under age: three hours at weekends, and otherwise one and
a half between eight and ten. -/
def verdict (zone now : ℤ) (userinfo : User) : Verdict :=
  if 18 ≤ userinfo.age then .pass
  else if weekday zone now = 0 ∨ weekday zone now = 6 then
    if 3 * 3600 ≤ userinfo.daytime then .kick else .pass
  else if hour zone now < 8 ∨ 21 < hour zone now then .kick
  else if 5400 ≤ userinfo.daytime then .kick else .pass

/-- The test of `addiction_match` for a day that has ended. -/
def resets (etime currenttime : Date) : Bool :=
  etime.year = currenttime.year ∧ etime.day ≠ currenttime.day ∨ etime.year ≠ currenttime.year

/-- The test of `offline`. -/
def splits (etime ltime : Date) : Bool := etime.year = ltime.year ∧ etime.day ≠ ltime.day

/-- **`addiction_match`**, for a role that may not exist. -/
def addiction_match (zone now : ℤ) : Option User → Option (Option User × Verdict)
  | none => some (none, .pass)
  | some userinfo => do
    let etime ← format_unix_time zone userinfo.etime
    let currenttime ← format_unix_time zone now
    let daytime := if resets etime currenttime then 0 else userinfo.daytime
    let userinfo := { userinfo with ltime := now, daytime := daytime }
    some (some userinfo, verdict zone now userinfo)

/-- **`response.offline`**, with the hours it reports. -/
def offline (zone now : ℤ) (userinfo : User) : Option (User × ℤ) := do
  let etime ← format_unix_time zone now
  let ltime ← format_unix_time zone userinfo.ltime
  let daytime :=
    if splits etime ltime then now - midnight zone (toDay etime)
    else userinfo.daytime + now - userinfo.ltime
  let onlinetime := userinfo.onlinetime + now - userinfo.ltime
  some ({ userinfo with etime := now, daytime := daytime, onlinetime := onlinetime },
    onlinetime / 3600)

end Addiction

/-!
## The time a player is online — what is counted

`played` is the time of some sessions within a day. Where the comparison of
dates tells the end of a day, `daytime` is what was played on the day of the last
offline, or of the online that came after it (`daytime_counted`). It does not
tell when a session goes over the end of a year, nor when the days have the same
number in two months.
-/

namespace Addiction

open Calendar

/-! ## Sessions -/

/-- From the online to the offline. -/
structure Session where
  start : ℤ
  stop : ℤ

/-- The seconds of a session within a day. -/
def Session.within (zone day : ℤ) (s : Session) : ℤ :=
  max 0 (min s.stop (midnight zone (day + 1)) - max s.start (midnight zone day))

/-- **What was played on a day.** -/
def played (zone : ℤ) (sessions : List Session) (day : ℤ) : ℤ :=
  (sessions.map (·.within zone day)).sum

/-- The length of all sessions. -/
def total (sessions : List Session) : ℤ := (sessions.map fun s => s.stop - s.start).sum

/-- A user, the sessions that have ended, and the time of the last event. -/
structure Life where
  user : User
  isOnline : Bool
  sessions : List Session
  now : ℤ

inductive Event
  | online (now : ℤ)
  | offline (now : ℤ)

variable (zone : ℤ) {day t : ℤ} {s : Session} {sessions : List Session} {l m : Life} {e : Event}

/-- An online, or an offline, which ends the session. -/
inductive Step : Life → Event → Life → Prop
  | online {l : Life} {t : ℤ} {user : User} {v : Verdict} :
      l.isOnline = false → l.now ≤ t → addiction_match zone t (some l.user) = some (some user, v) →
      Step l (.online t) { l with user := user, isOnline := true, now := t }
  | offline {l : Life} {t : ℤ} {user : User} {gametime : ℤ} :
      l.isOnline = true → l.now ≤ t → Addiction.offline zone t l.user = some (user, gametime) →
      Step l (.offline t)
        { user := user, isOnline := false, sessions := ⟨l.user.ltime, t⟩ :: l.sessions, now := t }

/-- **The sessions of a player**, one after the other, from the creation of the
role on. -/
def system : System Life Event where
  init l := l.user.etime = 0 ∧ l.user.daytime = 0 ∧ l.user.onlinetime = 0 ∧ l.isOnline = false ∧
    l.sessions = [] ∧ 0 ≤ l.now
  step := Step zone

/-- **What the fields are to be**: after an offline `daytime` is what was played
on its day, after an online what was played on the day of that, and
`onlinetime` is the length of all sessions. -/
structure Counted (l : Life) : Prop where
  daytime : l.user.daytime
    = played zone l.sessions (dayOf zone (if l.isOnline then l.user.ltime else l.user.etime))
  onlinetime : l.user.onlinetime = total l.sessions

/-- **The dates tell the end of a day**: an online on another day than the last
offline is in another year or on another day of the month, or nothing was counted
yet; a session that ends on another day than it began ends in the same year and
on another day of the month. -/
def Tells (l : Life) : Event → Prop
  | .online t => dayOf zone l.user.etime = dayOf zone t ∨
      resets (ofDay (dayOf zone l.user.etime)) (ofDay (dayOf zone t)) = true ∨ l.user.daytime = 0
  | .offline t => dayOf zone l.user.ltime = dayOf zone t ∨
      splits (ofDay (dayOf zone t)) (ofDay (dayOf zone l.user.ltime)) = true

variable {zone}

/-! ## A day -/

theorem within_before (hs : s.start ≤ s.stop) (h : s.stop ≤ midnight zone day) :
    s.within zone day = 0 := by
  simp only [Session.within]
  omega

theorem within_same (hs : s.start ≤ s.stop) (h : dayOf zone s.start = day)
    (h' : dayOf zone s.stop = day) : s.within zone day = s.stop - s.start := by
  rw [dayOf_eq_iff] at h h'
  simp only [Session.within]
  omega

theorem within_split (h : dayOf zone s.start < day) (h' : dayOf zone s.stop = day) :
    s.within zone day = s.stop - midnight zone day := by
  have hstart := lt_midnight_of_dayOf_lt h
  rw [dayOf_eq_iff] at h'
  simp only [Session.within]
  omega

/-- Sessions of earlier days do not count. -/
theorem played_before (hs : ∀ s ∈ sessions, s.start ≤ s.stop ∧ s.stop ≤ t)
    (h : dayOf zone t < day) : played zone sessions day = 0 := by
  have ht := lt_midnight_of_dayOf_lt h
  refine List.sum_eq_zero fun x hx => ?_
  obtain ⟨s, hmem, rfl⟩ := List.mem_map.mp hx
  obtain ⟨h1, h2⟩ := hs s hmem
  exact within_before h1 (by omega)

theorem played_cons : played zone (s :: sessions) day
    = s.within zone day + played zone sessions day := by
  simp [played]

theorem total_cons : total (s :: sessions) = s.stop - s.start + total sessions := by
  simp [total]

/-- Dates are the same on the same day. -/
theorem resets_self (d : Date) : resets d d = false := by simp [resets]

theorem splits_self (d : Date) : splits d d = false := by simp [splits]

/-! ## The handlers -/

theorem format_unix_time_eq {d : Date} (h : format_unix_time zone t = some d) :
    d = ofDay (dayOf zone t) := by
  unfold format_unix_time at h
  split at h
  · exact (Option.some.inj h).symm
  · cases h

/-- What `addiction_match` does to the row. -/
theorem addiction_match_spec {u user : User} {v : Verdict}
    (h : addiction_match zone t (some u) = some (some user, v)) :
    user = { u with
      ltime := t
      daytime := if resets (ofDay (dayOf zone u.etime)) (ofDay (dayOf zone t)) then 0
        else u.daytime } := by
  obtain ⟨etime, hetime, h⟩ := Option.bind_eq_some_iff.mp h
  obtain ⟨currenttime, hcurrent, h⟩ := Option.bind_eq_some_iff.mp h
  rw [← format_unix_time_eq hetime, ← format_unix_time_eq hcurrent]
  cases h
  rfl

/-- What `offline` does to it. -/
theorem offline_spec {u user : User} {gametime : ℤ}
    (h : Addiction.offline zone t u = some (user, gametime)) :
    user = { u with
      etime := t
      daytime := if splits (ofDay (dayOf zone t)) (ofDay (dayOf zone u.ltime)) then
        t - midnight zone (dayOf zone t) else u.daytime + t - u.ltime
      onlinetime := u.onlinetime + t - u.ltime } := by
  obtain ⟨etime, hetime, h⟩ := Option.bind_eq_some_iff.mp h
  obtain ⟨ltime, hltime, h⟩ := Option.bind_eq_some_iff.mp h
  have hday : toDay etime = dayOf zone t := by
    rw [format_unix_time_eq hetime, toDay_ofDay]
  rw [← format_unix_time_eq hetime, ← format_unix_time_eq hltime, ← hday]
  cases h
  rfl

/-! ## What is kept -/

/-- **The invariant**: the times are in order, the ended sessions lie before the
last of them, and the fields are as they are to be. -/
structure Kept (zone : ℤ) (l : Life) : Prop where
  counted : Counted zone l
  last : (if l.isOnline then l.user.ltime else l.user.etime) ≤ l.now
  before : ∀ s ∈ l.sessions, s.start ≤ s.stop ∧
    s.stop ≤ if l.isOnline then l.user.ltime else l.user.etime

theorem kept_init (h : (system zone).init l) : Kept zone l := by
  obtain ⟨hetime, hdaytime, honlinetime, hoff, hsessions, hnow⟩ := h
  refine ⟨⟨?_, ?_⟩, ?_, by simp [hsessions]⟩
  · simp [hdaytime, hsessions, played]
  · simp [honlinetime, hsessions, total]
  · simpa [hoff, hetime] using hnow

/-- **An online** starts the day anew where it is another one. -/
theorem kept_online {user : User} {v : Verdict} (h : Kept zone l) (hoff : l.isOnline = false)
    (hnow : l.now ≤ t) (hrun : addiction_match zone t (some l.user) = some (some user, v))
    (htells : Tells zone l (.online t)) :
    Kept zone { l with user := user, isOnline := true, now := t } := by
  have hlast : l.user.etime ≤ l.now := by simpa [hoff] using h.last
  have hbefore : ∀ s ∈ l.sessions, s.start ≤ s.stop ∧ s.stop ≤ l.user.etime := by
    simpa [hoff] using h.before
  have hday : l.user.daytime = played zone l.sessions (dayOf zone l.user.etime) := by
    simpa [hoff] using h.counted.daytime
  rw [addiction_match_spec hrun]
  refine ⟨⟨?_, h.counted.onlinetime⟩, le_rfl, fun s hs => ?_⟩
  · simp only [if_true]
    by_cases hsame : dayOf zone l.user.etime = dayOf zone t
    · rw [hsame, resets_self, if_neg Bool.false_ne_true, hday, hsame]
    · -- on a later day nothing was played yet, and the time is set to zero or was
      have hlt : dayOf zone l.user.etime < dayOf zone t :=
        lt_of_le_of_ne (dayOf_mono (hlast.trans hnow)) hsame
      rw [played_before hbefore hlt]
      rcases htells with heq | hresets | hzero
      · exact absurd heq hsame
      · rw [if_pos hresets]
      · rw [hzero, ite_self]
  · obtain ⟨h1, h2⟩ := hbefore s hs
    exact ⟨h1, by simp only [if_true]; omega⟩

/-- **An offline** adds the session, or the part of it since midnight. -/
theorem kept_offline {user : User} {gametime : ℤ} (h : Kept zone l) (hon : l.isOnline = true)
    (hnow : l.now ≤ t) (hrun : Addiction.offline zone t l.user = some (user, gametime))
    (htells : Tells zone l (.offline t)) :
    Kept zone { user := user, isOnline := false, sessions := ⟨l.user.ltime, t⟩ :: l.sessions,
                now := t } := by
  have hlast : l.user.ltime ≤ l.now := by simpa [hon] using h.last
  have hbefore : ∀ s ∈ l.sessions, s.start ≤ s.stop ∧ s.stop ≤ l.user.ltime := by
    simpa [hon] using h.before
  have hday : l.user.daytime = played zone l.sessions (dayOf zone l.user.ltime) := by
    simpa [hon] using h.counted.daytime
  have htotal := h.counted.onlinetime
  have hle : l.user.ltime ≤ t := hlast.trans hnow
  rw [offline_spec hrun]
  refine ⟨⟨?_, ?_⟩, le_rfl, ?_⟩
  · simp only [Bool.false_eq_true, if_false, played_cons]
    by_cases hsame : dayOf zone l.user.ltime = dayOf zone t
    · have hwithin : (⟨l.user.ltime, t⟩ : Session).within zone (dayOf zone t) = t - l.user.ltime :=
        within_same hle hsame rfl
      rw [hsame, splits_self, if_neg Bool.false_ne_true, hwithin, hday, hsame]
      omega
    · have hlt : dayOf zone l.user.ltime < dayOf zone t := lt_of_le_of_ne (dayOf_mono hle) hsame
      rcases htells with heq | hsplits
      · exact absurd heq hsame
      · have hwithin : (⟨l.user.ltime, t⟩ : Session).within zone (dayOf zone t)
            = t - midnight zone (dayOf zone t) := within_split hlt rfl
        rw [if_pos hsplits, hwithin, played_before hbefore hlt, add_zero]
  · rw [total_cons, ← htotal]
    simp only
    omega
  · intro s hs
    simp only [Bool.false_eq_true, if_false]
    rcases List.mem_cons.mp hs with rfl | hs
    · exact ⟨hle, le_rfl⟩
    · obtain ⟨h1, h2⟩ := hbefore s hs
      exact ⟨h1, by omega⟩

theorem kept_step (hstep : ((system zone).restrict (Tells zone)).step l e m) (h : Kept zone l) :
    Kept zone m := by
  obtain ⟨hstep, htells⟩ := hstep
  cases hstep with
  | online hoff hnow hrun => exact kept_online h hoff hnow hrun htells
  | offline hon hnow hrun => exact kept_offline h hon hnow hrun htells

/-- **Where the dates tell the end of every day, the time of the day is counted.** -/
theorem daytime_counted (zone : ℤ) {l : Life}
    (h : ((system zone).restrict (Tells zone)).Reachable l) : Counted zone l :=
  (System.Reachable.invariant (T := (system zone).restrict (Tells zone)) (fun _ => kept_init)
    (fun _ _ _ => kept_step) h).counted

/-- A grown-up whose role was just made, an hour before the year ends. -/
def newUser : Life := ⟨⟨20, 1577804400, 0, 0, 0⟩, false, [], 1577804400⟩

/-- It comes online at once. -/
def newUserOnline : Life := ⟨⟨20, 1577804400, 0, 0, 0⟩, true, [], 1577804400⟩

theorem newUser_init : (system 28800).init newUser := ⟨rfl, rfl, rfl, rfl, rfl, by decide⟩

theorem newUser_online : (system 28800).step newUser (.online 1577804400) newUserOnline :=
  Step.online (v := .pass) rfl (by decide) rfl

/-- It is gone after half an hour. -/
def newYearsEve : Life :=
  ⟨⟨20, 1577804400, 1577806200, 1800, 1800⟩, false, [⟨1577804400, 1577806200⟩], 1577806200⟩

/-- The next evening it is back for two hours, of which one is after midnight. -/
def secondOfJanuary : Life :=
  ⟨⟨20, 1577890800, 1577898000, 3600, 9000⟩, false, ⟨1577890800, 1577898000⟩ :: newYearsEve.sessions, 1577898000⟩

theorem daytime_counted_secondOfJanuary : Counted 28800 secondOfJanuary := by
  have hoffline : (system 28800).step newUserOnline (.offline 1577806200) newYearsEve :=
    Step.offline rfl (by decide) rfl
  refine daytime_counted 28800 ⟨newUser, [_, _, .online 1577890800, .offline 1577898000], newUser_init,
    .cons ⟨newUser_online, ?_⟩ (.cons ⟨hoffline, ?_⟩ (.cons ⟨.online (v := .pass) rfl (by decide) rfl, ?_⟩
      (.cons ⟨.offline rfl (by decide) rfl, ?_⟩ (.nil _))))⟩
  · exact Or.inr (Or.inr rfl)
  · exact Or.inl (by decide)
  · exact Or.inr (Or.inl (by decide))
  · exact Or.inr (by decide)

/-- It is gone after two hours. -/
def newYear : Life :=
  ⟨⟨20, 1577804400, 1577811600, 7200, 7200⟩, false, [⟨1577804400, 1577811600⟩], 1577811600⟩

/-- **A session over the end of a year counts as one day**: an hour was played on
the first of January, two are counted. -/
theorem not_counted : ¬ ∀ zone l, (system zone).Reachable l → Counted zone l := by
  intro h
  have hoffline : (system 28800).step newUserOnline (.offline 1577811600) newYear :=
    Step.offline rfl (by decide) rfl
  have hreach : (system 28800).Reachable newYear :=
    ⟨newUser, _, newUser_init, .cons newUser_online (.cons hoffline (.nil _))⟩
  exact absurd (h 28800 newYear hreach).daytime (by decide)

end Addiction

end Athena
