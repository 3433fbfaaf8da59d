import Athena.Common.System
import Athena.Queue.Model
/-!
# Business queues — the life of an entry

One entry and everything that may end it: the timers `newbusinessqueue`,
`addspeed` and `reflagallbq` set, the coroutines that wait for `cs` and the
one inside it, the `addspeed` and `removebq` requests under way, and a
restart of the service, which leaves nothing but the data centres. Other
coroutines write the lists of ids the entry stands in (`write`), with what
they read of them some time before.
-/

namespace Athena

namespace Queue

open Lua

variable {market : Str → Bool} {bqid : ℕ} {r row : Row} {d d' : Data}

/-- **The service**, as far as the entry goes. -/
structure State where
  now : ℤ
  db : Data
  /-- When the timers of the entry go off. -/
  timers : List ℤ
  /-- How many coroutines wait for `cs` to end it. -/
  waiting : ℕ
  completing : Option Completion
  /-- The end times the `addspeed` requests under way have still to set. -/
  speeding : List ℤ
  removals : List Removal
  /-- `reflagallbq` has still to come to it. -/
  flagging : Bool

inductive Event
  | tick
  /-- A timer goes off. -/
  | fire (endtime : ℤ)
  /-- A coroutine is let into `cs`. -/
  | enter
  | complete
  | addspeed (difftime : ℤ)
  /-- The `k`-th of the `addspeed` requests goes on. -/
  | speed (k : ℕ)
  | removebq (uid : ℤ)
  /-- The `k`-th of the `removebq` requests goes on. -/
  | remove (k : ℕ)
  /-- Another coroutine sets a list. -/
  | write (uid : ℤ) (c : Column) (ids : List ℕ)
  | restart
  | reflag
  deriving DecidableEq

/-- A timer for the end time, or none where it has come. -/
def State.await (s : State) (due : Bool) (endtime : ℤ) : State :=
  if due then { s with waiting := s.waiting + 1 } else { s with timers := endtime :: s.timers }

/-- **One step.** -/
def step (market : Str → Bool) (bqid : ℕ) (s : State) : Event → Option State
  | .tick => some { s with now := s.now + 1 }
  | .fire e =>
    if e ∈ s.timers ∧ e ≤ s.now then
      some { s with timers := s.timers.erase e, waiting := s.waiting + 1 }
    else none
  | .enter =>
    if s.completing.isNone ∧ 0 < s.waiting then
      some { s with completing := some .check, waiting := s.waiting - 1 }
    else none
  | .complete =>
    s.completing.map fun c =>
      { s with completing := (c.step bqid s.db).1, db := (c.step bqid s.db).2 }
  | .addspeed difftime =>
    match s.db.rows bqid with
    -- there is no end time to take from
    | none => some s
    | some row => some { s with speeding := (row.endtime - difftime) :: s.speeding }
  | .speed k =>
    s.speeding[k]?.map fun e =>
      { s with speeding := s.speeding.eraseIdx k, db := s.db.setendtime bqid e }.await (e ≤ s.now) e
  | .removebq uid =>
    match s.db.rows bqid with
    | none => some s
    | some row =>
      if row.playerid = uid then
        some { s with removals := .blueprints uid row.bprewardlist row.proprewardlist :: s.removals }
      else some s
  | .remove k =>
    s.removals[k]?.map fun m =>
      { s with
        removals := (m.step market bqid s.db).1.toList ++ s.removals.eraseIdx k
        db := (m.step market bqid s.db).2 }
  | .write uid c ids => some { s with db := s.db.setvalue uid c ids }
  | .restart =>
    some { s with
      timers := []
      waiting := 0
      completing := none
      speeding := []
      removals := []
      flagging := (s.db.rows bqid).isSome }
  | .reflag =>
    if s.flagging then
      match s.db.rows bqid with
      | none => some { s with flagging := false }
      | some row => some ({ s with flagging := false }.await (row.endtime < s.now) row.endtime)
    else none

/-! ## What becomes of an entry -/

/-- The lists of what is under way. -/
def Column.running : Column → Bool
  | .airfreighter _ | .ingscan | .ingcasting => true
  | .endscan | .endcasting => false

/-- The entry is in no lane and in no list of what is under way. -/
def Unlisted (bqid : ℕ) (d : Data) : Prop :=
  ∀ uid c, c.running → bqid ∉ d.queueinfo uid c

/-- Everything a transport gives out. -/
def Row.grants (r : Row) : List Grant :=
  match r.type with
  | .airfreighter =>
    r.bprewardlist.map (BpReward.grant r.playerid) ++ r.proprewardlist.filterMap (PropReward.grant r.playerid)
  | .scan | .cast => []

/-- What `trancancel` takes back of one reward. -/
def Answer.toReturn : Answer → Option Return
  | .returned r => some r
  | .err_param | .raised => none

/-- Everything that is returned. -/
def Row.returns (market : Str → Bool) (r : Row) : List Return :=
  r.bprewardlist.filterMap (fun b => (b.trancancel market r.playerid).toReturn) ++
    r.proprewardlist.filterMap (fun p => (p.trancancel market r.playerid).toReturn)

/-- **The rewards are delivered once**: for a scan or a casting, as one award. -/
structure Delivered (bqid : ℕ) (r : Row) (d : Data) : Prop where
  granted : d.granted bqid = r.grants
  awarded : (r.type = .airfreighter ∧ d.awarded bqid = []) ∨
    (r.type ≠ .airfreighter ∧ ∃ id, d.awarded bqid = [r.award id])
  returned : d.returned bqid = []

/-- **The entry is cancelled**: its contents are returned once. -/
structure Cancelled (market : Str → Bool) (bqid : ℕ) (r : Row) (d : Data) : Prop where
  granted : d.granted bqid = []
  awarded : d.awarded bqid = []
  returned : d.returned bqid = r.returns market
  /-- Each reward was taken back. -/
  all : (d.returned bqid).length = r.bprewardlist.length + r.proprewardlist.length

/-- A completion of the entry is still to come or under way. -/
def State.Due (s : State) : Prop :=
  s.timers ≠ [] ∨ 0 < s.waiting ∨ s.completing.isSome ∨ s.flagging

/-- **An entry ends exactly once**: as long as its row is there an end is to
come; what has been given of it was given once, what was returned was returned
once, and not both; and when the row is gone it was delivered or cancelled,
and is listed nowhere. -/
structure EndsOnce (market : Str → Bool) (bqid : ℕ) (r : Row) (s : State) : Prop where
  due : (s.db.rows bqid).isSome → s.Due
  granted : s.db.granted bqid <+: r.grants
  awarded : s.db.awarded bqid = [] ∨ r.type ≠ .airfreighter ∧ ∃ id, s.db.awarded bqid = [r.award id]
  returned : s.db.returned bqid <+: r.returns market
  one : (s.db.granted bqid = [] ∧ s.db.awarded bqid = []) ∨ s.db.returned bqid = []
  ended : s.db.rows bqid = none →
    (Delivered bqid r s.db ∨ Cancelled market bqid r s.db) ∧ Unlisted bqid s.db

/-- Nothing of the entry has been given or returned. -/
structure Untouched (bqid : ℕ) (d : Data) : Prop where
  granted : d.granted bqid = []
  awarded : d.awarded bqid = []
  returned : d.returned bqid = []

/-- **As `newbusinessqueue` leaves an entry**: its row is there, it is listed
once, in its own list, and its timer is set. -/
structure Created (bqid : ℕ) (r : Row) (s : State) : Prop where
  row : s.db.rows bqid = some r
  untouched : Untouched bqid s.db
  listed : ∀ uid c, c.running →
    (s.db.queueinfo uid c).count bqid = if uid = r.playerid ∧ c = r.column then 1 else 0
  timers : s.timers = [r.endtime]
  waiting : s.waiting = 0
  completing : s.completing = none
  speeding : s.speeding = []
  removals : s.removals = []
  flagging : s.flagging = false

/-- **The entry under every order of the steps.** -/
def system (market : Str → Bool) (bqid : ℕ) (r : Row) : System State Event where
  init := Created bqid r
  step s e t := step market bqid s e = some t

/-! ## Where it goes right -/

/-- `trancancel` takes back every reward of the entry. -/
def Returnable (market : Str → Bool) (r : Row) : Prop :=
  (∀ b ∈ r.bprewardlist, ∃ x, b.trancancel market r.playerid = .returned x) ∧
    ∀ p ∈ r.proprewardlist, ∃ x, p.trancancel market r.playerid = .returned x

/-- The coroutine inside `cs` has not looked at the row yet. -/
def Before : Option Completion → Prop
  | none | some .check => True
  | some _ => False

/-- **One end at a time.** A `removebq` is let begin for a transport all of
whose goods are taken back, and while no other end of the entry is under way;
`onbq_completed` looks at the row while no `removebq` is under way; a restart
does not come between the first thing given or returned and the deletion of
the row; and no list is set to one with the entry in it oftener than before. -/
def Apart (market : Str → Bool) (bqid : ℕ) (s : State) : Event → Prop
  | .complete => Before s.completing → (s.db.rows bqid).isSome → s.removals = []
  | .removebq uid => ∀ row, s.db.rows bqid = some row → row.playerid = uid →
      row.type = .airfreighter ∧ Returnable market row ∧ Before s.completing ∧ s.removals = []
  | .restart => s.db.rows bqid = none ∨ Untouched bqid s.db
  | .write uid c ids => c.running → ids.count bqid ≤ (s.db.queueinfo uid c).count bqid
  | .tick | .fire _ | .enter | .addspeed _ | .speed _ | .remove _ | .reflag => True

end Queue

end Athena
