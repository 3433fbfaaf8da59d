import Athena.Common.System
import Athena.Queue.Model
/-!
# Business queues — the lanes of a player

The transports of one player. `sendbattle_reward` and `sendshopmarke` ask
`get_shortest_airfreighter` for a lane and make an entry in it with
`newbusinessqueue`, outside `cs`; the entries are ended one at a time
inside it. `get_shortest` reads the lanes and the end times one by one,
and sorts what it has found: `table.sort` raises an error where it has a
missing time to compare, and which of several shortest lanes comes first
is not said (`pick`).
-/

namespace Athena

namespace Queue

namespace Lanes

open Lua

/-- What is to be transported, and for how long. -/
structure Cargo where
  bprewardlist : List BpReward
  proprewardlist : List PropReward
  equiplist : List EquipReward
  time : ℤ
  deriving DecidableEq

/-- A lane with the end time of its last entry, 0 where it has none. -/
abbrev Timeinfo := ℕ × Option ℤ

/-- **Where a request for a transport stands.** -/
inductive Creation
  | maxairfreighter (cargo : Cargo)
  /-- `get_shortest_time_per_airfreighter` reads lane `i`. -/
  | lane (cargo : Cargo) (i : ℕ) (short_timelist tmplist : List Timeinfo)
  /-- It reads the end time of the last entry. -/
  | last (cargo : Cargo) (i tail : ℕ) (short_timelist tmplist : List Timeinfo)
  /-- `isfullbq` reads lane `i`. -/
  | isfullbq (cargo : Cargo) (i : ℕ) (time : Option ℤ) (short_timelist tmplist : List Timeinfo)
  | get_nextid (cargo : Cargo) (i : ℕ)
  /-- `getlast_bqid_byindex`. -/
  | getlast (cargo : Cargo) (i id : ℕ)
  | endtime (cargo : Cargo) (i id tail : ℕ)
  | add (id : ℕ) (row : Row)
  | queueinfo (id : ℕ) (row : Row)
  | setvalue (id : ℕ) (row : Row) (info : Column → List ℕ)

/-- **The service**, as far as the transports of the player go. -/
structure State where
  now : ℤ
  db : Data
  /-- The last id `bq_dc` gave. -/
  nextid : ℕ
  creating : List Creation
  timers : List (ℕ × ℤ)
  waiting : List ℕ
  completing : Option (ℕ × Completion)

/-- The row of `d_queueinfo`, but for its lists. -/
structure Limits where
  uid : ℤ
  maxairfreighter : ℕ
  maxperairfreighter : ℕ

/-- What a request for a transport comes to. -/
inductive Output
  | silent
  /-- All lanes are full. -/
  | refused
  | created (id : ℕ) (row : Row)
  deriving DecidableEq

variable (L : Limits)

/-- Lane `i`. -/
def State.lane (s : State) (i : ℕ) : List ℕ := s.db.queueinfo L.uid (.airfreighter i)

/-- `table.sort` compares a missing time. -/
def sortRaises (list : List Timeinfo) : Bool :=
  2 ≤ list.length && list.any fun x => x.2 = none

/-- A lane that may stand first in the sorted list. -/
def isShortest (list : List Timeinfo) (pick : ℕ) : Bool :=
  list.any fun x => x.1 = pick &&
    list.all fun y =>
      match x.2, y.2 with
      | some a, some b => a ≤ b
      | _, _ => true

/-- The end of `get_shortest`: nothing where it raises an error, and no lane
where all are full. -/
def get_shortest (list tmplist : List Timeinfo) (pick : ℕ) : Option (Option ℕ) :=
  if sortRaises list || sortRaises tmplist then none
  else if list.length = 0 ∧ tmplist.length = L.maxairfreighter then some none
  else if isShortest list pick then some (some pick)
  else none

/-- What a coroutine is after a step. -/
inductive Next
  | goes (c : Creation)
  | refused
  /-- It has returned, or raised an error. -/
  | ended

/-- The loop of `get_shortest` comes to lane `i`. -/
def scan (cargo : Cargo) (i pick : ℕ) (list tmplist : List Timeinfo) : Next :=
  if i ≤ L.maxairfreighter then .goes (.lane cargo i list tmplist)
  else
    match get_shortest L list tmplist pick with
    | none => .ended
    | some none => .refused
    | some (some i) => .goes (.get_nextid cargo i)

/-- A row for lane `i` that starts at a time. -/
def newrow (cargo : Cargo) (i : ℕ) (starttime : ℤ) : Row where
  playerid := L.uid
  type := .airfreighter
  subtype := i
  bprewardlist := cargo.bprewardlist
  proprewardlist := cargo.proprewardlist
  equiplist := cargo.equiplist
  sponsorid := ['0']
  starttime := starttime
  endtime := starttime + cargo.time
  initendtime := starttime + cargo.time

/-- **The next request of a creation.** -/
def Creation.step (pick : ℕ) (s : State) : Creation → Next × State
  | .maxairfreighter cargo => (scan L cargo 1 pick [] [], s)
  | .lane cargo i list tmplist =>
    match (s.lane L i).getLast? with
    | none => (.goes (.isfullbq cargo i (some 0) list tmplist), s)
    | some tail => (.goes (.last cargo i tail list tmplist), s)
  | .last cargo i tail list tmplist =>
    (.goes (.isfullbq cargo i ((s.db.rows tail).map Row.endtime) list tmplist), s)
  | .isfullbq cargo i time list tmplist =>
    if (s.lane L i).length < L.maxperairfreighter then
      (scan L cargo (i + 1) pick (list ++ [(i, time)]) tmplist, s)
    else (scan L cargo (i + 1) pick list (tmplist ++ [(i, time)]), s)
  | .get_nextid cargo i => (.goes (.getlast cargo i (s.nextid + 1)), { s with nextid := s.nextid + 1 })
  | .getlast cargo i id =>
    match (s.lane L i).getLast? with
    | none => (.goes (.add id (newrow L cargo i s.now)), s)
    | some tail => (.goes (.endtime cargo i id tail), s)
  | .endtime cargo i id tail =>
    match s.db.rows tail with
    -- there is no end time to add to
    | none => (.ended, s)
    | some row => (.goes (.add id (newrow L cargo i row.endtime)), s)
  | .add id row =>
    (.goes (.queueinfo id row),
      { s with db := { s.db with rows := Function.update s.db.rows id (some row) } })
  | .queueinfo id row => (.goes (.setvalue id row (s.db.queueinfo L.uid)), s)
  | .setvalue id row info =>
    (.ended,
      { s with
        db := s.db.setvalue L.uid row.column (info row.column ++ [id])
        timers := (id, row.endtime) :: s.timers })

/-- What it comes to. -/
def Creation.output : Creation → Next → Output
  | .setvalue id row _, _ => .created id row
  | _, .refused => .refused
  | _, _ => .silent

/-- A coroutine that goes on. -/
def Next.toList : Next → List Creation
  | .goes c => [c]
  | .refused | .ended => []

inductive Event
  | tick
  /-- A battle reward or a transport from the shop. -/
  | request (cargo : Cargo)
  /-- The `k`-th of the requests goes on. -/
  | create (k pick : ℕ)
  | fire (timer : ℕ × ℤ)
  /-- A coroutine is let into `cs`. -/
  | enter (bqid : ℕ)
  | complete
  deriving DecidableEq

/-- **One step.** -/
def step (s : State) : Event → Option (State × Output)
  | .tick => some ({ s with now := s.now + 1 }, .silent)
  | .request cargo => some ({ s with creating := .maxairfreighter cargo :: s.creating }, .silent)
  | .create k pick =>
    s.creating[k]?.map fun c =>
      let r := c.step L pick s
      ({ r.2 with creating := r.1.toList ++ s.creating.eraseIdx k }, c.output r.1)
  | .fire timer =>
    if timer ∈ s.timers ∧ timer.2 ≤ s.now then
      some ({ s with timers := s.timers.erase timer, waiting := timer.1 :: s.waiting }, .silent)
    else none
  | .enter bqid =>
    if s.completing.isNone ∧ bqid ∈ s.waiting then
      some ({ s with waiting := s.waiting.erase bqid, completing := some (bqid, .check) }, .silent)
    else none
  | .complete =>
    s.completing.map fun c =>
      ({ s with
        completing := (c.2.step c.1 s.db).1.map fun x => (c.1, x)
        db := (c.2.step c.1 s.db).2 }, .silent)

/-- No transport yet. -/
structure Start (s : State) : Prop where
  rows : ∀ id, s.db.rows id = none
  lanes : ∀ i, s.lane L i = []
  creating : s.creating = []
  timers : s.timers = []
  waiting : s.waiting = []
  completing : s.completing = none

/-- **The transports under every order of the steps.** -/
def system : System State (Event × Output) where
  init := Start L
  step s l t := step L s l.1 = some (t, l.2)

/-! ## Sound lanes -/

/-- The row is there, and its id not yet in a lane. -/
def Creation.made : Creation → Option ℕ
  | .queueinfo id _ | .setvalue id _ _ => some id
  | _ => none

/-- An entry that was created and is not finished. -/
structure Unfinished (s : State) (id : ℕ) : Prop where
  row : (s.db.rows id).isSome
  created : ∀ c ∈ s.creating, c.made ≠ some id
  /-- Its row is not the next thing to go. -/
  running : ∀ n, s.completing ≠ some (id, .del n .delete)

/-- **The lanes are sound**: an entry that is not finished is listed once in
one lane, no lane has too many, and each is in the order of the ids. -/
structure Sound (s : State) : Prop where
  listed : ∀ id, Unfinished s id → ∃ i, 1 ≤ i ∧ i ≤ L.maxairfreighter ∧
    (s.lane L i).count id = 1 ∧ ∀ j, j ≠ i → id ∉ s.lane L j
  bounded : ∀ i, (s.lane L i).length ≤ L.maxperairfreighter
  ordered : ∀ i, (s.lane L i).Pairwise (· < ·)

/-- **What may be said of a step that answers a request**: an entry is created
after all that are there, at the end of its lane, and starts when the entry
before it ends; and a request is refused when all lanes are full. -/
def Fair (s t : State) : Output → Prop
  | .silent => True
  | .refused => ∀ i, 1 ≤ i → i ≤ L.maxairfreighter → L.maxperairfreighter ≤ (s.lane L i).length
  | .created id row =>
    (∀ j, (s.db.rows j).isSome → j ≤ id) ∧ t.lane L row.subtype = s.lane L row.subtype ++ [id] ∧
      ∀ tail, (s.lane L row.subtype).getLast? = some tail →
        ∃ before, s.db.rows tail = some before ∧ row.starttime = before.endtime

/-- A completion has the lanes in hand. -/
def Editing : Option (ℕ × Completion) → Bool
  | some (_, .del _ (.lane ..)) | some (_, .del _ .delete) => true
  | _ => false

/-- A completion is about to take them. -/
def Taking : Option (ℕ × Completion) → Bool
  | some (_, .del _ (.queueinfo _)) => true
  | _ => false

/-- **One at a time in the lanes**: a request begins while no other is under
way and no completion has the lanes in hand, and a completion takes them while
no request is under way. -/
def Serial (s : State) (l : Event × Output) : Prop :=
  match l.1 with
  | .request _ => s.creating = [] ∧ Editing s.completing = false
  | .complete => Taking s.completing → s.creating = []
  | .tick | .create .. | .fire _ | .enter _ => True

end Lanes

end Queue

end Athena
