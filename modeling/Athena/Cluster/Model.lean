import Athena.Gated.Step
/-!
# The login master and its game gates — model

`login/logind.lua` over any number of gates `game/gated.lua`. The master
keeps `user_online`, the server and subid of each uid. Its
`login_handler` kicks the last session, looks at `user_online` again and
calls the gate; `CMD.logout` takes the notice of a gate that a session
is over. `login_server.lua` lets one `login_handler` of a uid run at a
time, so the master has one `Stage` for each uid, the call it waits in.

A call of the master becomes a coroutine of the gate once it is
delivered, and can be answered once that coroutine has ended. A gate's
notices reach the master in the order they were sent. The calls of the
master are delivered in any order, which only adds runs: two of them
that are under way at once are for different uids. An agent calls
`logout_handler` whenever it likes, with whatever it likes.
-/

namespace Athena

namespace Cluster

open Lua Gated

/-- A coroutine of a gate: call `k` of the master, for a uid, or a call of
an agent. -/
inductive Task
  | call (k : ℕ) (uid : Int64)
  | own (j : ℕ)
  deriving DecidableEq

/-- A `logout` of the master on its way, with the coroutine that waits. -/
structure Notice where
  task : Task
  uid : Int64
  subid : ℕ
  deriving DecidableEq

variable (N : Type)

/-- An entry of `user_online`. -/
structure Record where
  subid : ℕ
  server : N

/-- **Where the `login_handler` of a uid stands.** -/
inductive Stage
  /-- None runs. -/
  | idle
  /-- Inside the `kick` of `last`, call `k`. -/
  | kicking (k : ℕ) (server : N) (secret : Str) (last : Record N)
  /-- Inside the `login` of `server`, call `k`. -/
  | logging (k : ℕ) (server : N) (secret : Str)

/-- **The state of the cluster.** -/
structure State where
  userOnline : Int64 → Option (Record N)
  stage : Int64 → Stage N
  /-- The number of calls the master has made. -/
  calls : ℕ
  gates : N → Gated.State Task
  /-- What each gate has sent to the master, oldest first. -/
  notices : N → List Notice

/-- The events of the cluster: a login begins, the call of a uid reaches
its gate, its answer the master; a notice reaches the master, its answer
the gate; and what a gate does by itself. -/
inductive Event
  | login (uid : Int64) (server : N) (secret : Str)
  | deliver (uid : Int64)
  | answer (uid : Int64)
  | notice (n : N)
  | reported (n : N) (c : Task)
  | gate (n : N) (e : Gated.Event Task)

variable {N} [DecidableEq N] (conf : N → Conf)

/-! ## The master -/

/-- The last part of `login_handler`: the call of the game server. -/
def callLogin (s : State N) (uid : Int64) (server : N) (secret : Str) : State N :=
  { s with stage := Function.update s.stage uid (.logging s.calls server secret)
           calls := s.calls + 1 }

/-- **`server.login_handler`**, up to its first call. -/
def loginHandler (s : State N) (uid : Int64) (server : N) (secret : Str) : State N :=
  match s.userOnline uid with
  | some last =>
    { s with stage := Function.update s.stage uid (.kicking s.calls server secret last)
             calls := s.calls + 1 }
  | none => callLogin s uid server secret

/-- `login_handler` from the return of the `kick` on: a failed one clears
the entry, and an entry that is still there ends the login. -/
def afterKick (s : State N) (uid : Int64) (server : N) (secret : Str) (ok : Bool) : State N :=
  let s := if ok then s else { s with userOnline := Function.update s.userOnline uid none }
  match s.userOnline uid with
  | some _ => { s with stage := Function.update s.stage uid .idle }
  | none => callLogin s uid server secret

/-- `login_handler` from the return of the gate's `login` on. -/
def afterLogin (s : State N) (uid : Int64) (server : N) (subid : Option ℕ) : State N :=
  match subid with
  | some subid =>
    { s with userOnline := Function.update s.userOnline uid (some ⟨subid, server⟩)
             stage := Function.update s.stage uid .idle }
  | none => { s with stage := Function.update s.stage uid .idle }

/-- **`CMD.logout`** does not look at the subid. -/
def logout (s : State N) (uid : Int64) : State N :=
  { s with userOnline := Function.update s.userOnline uid none }

/-! ## The network -/

/-- The notices among the effects of a gate's event. -/
def notes (out : List (Out Task)) : List Notice :=
  out.filterMap fun o => match o with
    | .masterLogout c uid subid => some ⟨c, uid, subid⟩
    | _ => none

/-- Gate `n` goes to `g` and sends `ns`. -/
def State.put (s : State N) (n : N) (g : Gated.State Task) (ns : List Notice) : State N :=
  { s with gates := Function.update s.gates n g
           notices := Function.update s.notices n (s.notices n ++ ns) }

/-- An event at gate `n`. -/
def State.act (s : State N) (n : N) (e : Gated.Event Task) : Option (State N) :=
  (Gated.step (conf n) (s.gates n) e).map fun r => s.put n r.1 (notes r.2)

/-- What a gate does without the master. -/
def byItself : Gated.Event Task → Bool
  | .created _ _ => true
  | .entered _ _ => true
  | .logout (.own _) _ _ => true
  | .kicked _ => true
  | .socket _ => true
  | _ => false

/-- The call of `uid` reaches its gate. -/
def deliver (s : State N) (uid : Int64) : Option (State N) :=
  match s.stage uid with
  | .idle => none
  | .kicking k _ _ last => s.act conf last.server (.kick (.call k uid) uid last.subid)
  | .logging k server secret => s.act conf server (.login (.call k uid) uid secret)

/-- The call of `uid` has ended at its gate, and the master goes on. -/
def answer (s : State N) (uid : Int64) : Option (State N) :=
  match s.stage uid with
  | .idle => none
  | .kicking k server secret last =>
    match (s.gates last.server).phase (.call k uid) with
    | .finished r => some (afterKick s uid server secret (r ≠ .raised))
    | _ => none
  | .logging k server _ =>
    match (s.gates server).phase (.call k uid) with
    | .finished (.loggedIn _ _ ret) => some (afterLogin s uid server (some ret))
    | .finished .raised => some (afterLogin s uid server none)
    | _ => none

/-- **One event of the cluster.** -/
def step (s : State N) : Event N → Option (State N)
  | .login uid server secret =>
    match s.stage uid with
    | .idle => some (loginHandler s uid server secret)
    | _ => none
  | .deliver uid => deliver conf s uid
  | .answer uid => answer s uid
  | .notice n =>
    match s.notices n with
    | [] => none
    | m :: rest => some (logout { s with notices := Function.update s.notices n rest } m.uid)
  | .reported n c =>
    if c ∈ (s.notices n).map Notice.task then none else s.act conf n (.reported c)
  | .gate n e => if byItself e then s.act conf n e else none

/-- The state a list of events leads to, when none is out of place. -/
def exec (s : State N) : List (Event N) → Option (State N)
  | [] => some s
  | e :: es => (step conf s e).bind fun t => exec t es

def initial (day : ℕ) : State N where
  userOnline _ := none
  stage _ := .idle
  calls := 0
  gates n := Gated.initial (conf n) day
  notices _ := []

/-- **The master and its gates**, under every order of their events. -/
def system : System (State N) (Event N) where
  init s := ∃ day, s = initial conf day
  step s e t := step conf s e = some t

theorem path_of_exec {conf : N → Conf} {s t : State N} {es : List (Event N)}
    (h : exec conf s es = some t) : (system conf).Path s es t := by
  induction es generalizing s with
  | nil =>
    cases h
    exact System.Path.nil _
  | cons e es ih =>
    obtain ⟨m, hstep, hm⟩ := Option.bind_eq_some_iff.mp h
    exact System.Path.cons hstep (ih hm)

end Cluster

end Athena
