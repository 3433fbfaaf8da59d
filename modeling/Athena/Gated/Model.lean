import Athena.Gate.Step
import Athena.Gate.Username
/-!
# The game gate — model

`game/gated.lua`, the handlers `msg_server` calls for `login`, `logout`
and `kick`. The gate keeps the online sessions in `users` (by uid) and
`username_map` (by username), the agents that wait for a player in
`agent_pool`, and the counter `internal_id` the subids come from.

Every call runs in a coroutine of its own. A handler yields inside
`skynet.newservice`, inside the `login` and the `logout` of an agent and
inside the `logout` of the login master, and runs without interruption
between two yields, so a state records for each coroutine the yield it
stands at (`Phase`). `created`, `entered`, `kicked` and `reported` are the
returns of these calls. An event that does not fit cannot happen.

`msg` is the state of `msg_server` underneath, whose socket events go on
by themselves (`Event.socket`). An agent is known by the number of agents
made before it. `uid` is the number `tonumber(uid)` is.
-/

namespace Athena

namespace Gated

open Lua Gate

/-- `NODE_NAME`, and what `msg_server` is started with. -/
structure Conf where
  node : Str
  crypt : Crypt
  maxclient : ℕ

/-- **A session** `u`. -/
structure User where
  username : Str
  agent : ℕ
  uid : Int64
  subid : ℕ
  deriving DecidableEq

/-- What a call ends with: a login with its session, the subid it has told
the agent and the one it returns. -/
inductive Result
  | loggedIn (u : User) (sent ret : ℕ)
  | returned
  | raised
  deriving DecidableEq

/-- **Where a handler stands.** -/
inductive Phase
  /-- Not called yet. -/
  | absent
  /-- Inside `skynet.newservice "msgagent"`. -/
  | creating (uid : Int64) (secret username : Str)
  /-- Inside the `login` of `u.agent`, which was told the subid `sent`. -/
  | entering (u : User) (secret : Str) (sent : ℕ)
  /-- Inside the `logout` of the login master, with `u` gone offline. -/
  | leaving (u : User)
  /-- Inside the `logout` of an agent. -/
  | kicking (agent : ℕ)
  /-- Inside the `logout` of the login master, in the kick of no one. -/
  | reporting
  | finished (r : Result)
  deriving DecidableEq

variable (C : Type)

/-- **The state of the gate.** -/
structure State where
  users : Int64 → Option User
  usernameMap : Str → Option User
  internalId : ℕ
  agentPool : List ℕ
  maxAgent : ℕ
  currAgent : ℕ
  /-- The number of agents made so far. -/
  created : ℕ
  msg : Gate.State
  phase : C → Phase

/-- The calls, their returns, and the socket events of `msg_server`. -/
inductive Event
  | login (c : C) (uid : Int64) (secret : Str)
  | created (c : C) (ok : Bool)
  | entered (c : C) (ok : Bool)
  | logout (c : C) (uid : Int64) (subid : ℕ)
  | reported (c : C)
  | kick (c : C) (uid : Int64) (subid : ℕ)
  | kicked (c : C)
  | socket (e : Gate.Event)

/-- What an event does, as seen from outside: a subid is taken, an agent
or the login master is called, a call is answered. -/
inductive Out
  | took (c : C) (uid : Int64) (id : ℕ)
  | agentLogin (c : C) (agent : ℕ) (uid : Int64) (subid : ℕ)
  | agentLogout (c : C) (agent : ℕ)
  | masterLogout (c : C) (uid : Int64) (subid : ℕ)
  | answer (c : C) (r : Result)
  deriving DecidableEq

variable {C} [DecidableEq C]

def State.goto (s : State C) (c : C) (p : Phase) : State C :=
  { s with phase := Function.update s.phase c p }

/-- A call ends. -/
def State.finish (s : State C) (c : C) (r : Result) : State C × List (Out C) :=
  (s.goto c (.finished r), [.answer c r])

/-- The session of a login that has an agent, up to the agent's `login`:
`internal_id` is read here again. -/
def enter (s : State C) (c : C) (uid : Int64) (secret username : Str) (agent : ℕ) :
    State C × List (Out C) :=
  (s.goto c (.entering ⟨username, agent, uid, s.internalId⟩ secret s.internalId),
    [.agentLogin c agent uid s.internalId])

/-- **`server.login_handler`**, up to its first yield. -/
def loginHandler (conf : Conf) (s : State C) (c : C) (uid : Int64) (secret : Str) :
    State C × List (Out C) :=
  match s.users uid with
  | some _ => s.finish c .raised
  | none =>
    let id := s.internalId + 1
    let s := { s with internalId := id }
    let name := username uid id conf.node
    match s.agentPool.getLast? with
    | some agent =>
      let (s, out) := enter { s with agentPool := s.agentPool.dropLast } c uid secret name agent
      (s, .took c uid id :: out)
    | none =>
      if s.currAgent < s.maxAgent then
        (s.goto c (.creating uid secret name), [.took c uid id])
      else
        let (s, out) := s.finish c .raised
        (s, .took c uid id :: out)

/-- `login_handler` from the return of `newservice` on. -/
def afterCreated (s : State C) (c : C) (uid : Int64) (secret username : Str) (ok : Bool) :
    State C × List (Out C) :=
  if ok then
    enter { s with created := s.created + 1, currAgent := s.currAgent + 1 } c uid secret username
      s.created
  else s.finish c .raised

/-- `login_handler` from the return of the agent's `login` on. The
assertion of `msgserver.login` comes after the session is entered. -/
def afterEntered (s : State C) (c : C) (u : User) (secret : Str) (sent : ℕ) (ok : Bool) :
    State C × List (Out C) :=
  if ok then
    let s := { s with
      users := Function.update s.users u.uid (some u)
      usernameMap := Function.update s.usernameMap u.username (some u) }
    match s.msg.userOnline u.username with
    | some _ => s.finish c .raised
    | none =>
      { s with msg := (Gate.login s.msg u.username secret).1 }.finish c
        (.loggedIn u sent s.internalId)
  else s.finish c .raised

/-- **`server.logout_handler`**, up to the call of the login master. -/
def logoutHandler (conf : Conf) (s : State C) (c : C) (uid : Int64) (subid : ℕ) :
    State C × List (Out C) :=
  match s.users uid with
  | none => s.finish c .returned
  | some u =>
    if u.username = username uid subid conf.node then
      ({ s with
          msg := (Gate.logout s.msg u.username).1
          users := Function.update s.users uid none
          usernameMap := Function.update s.usernameMap u.username none }.goto c (.leaving u),
        [.masterLogout c uid subid])
    else s.finish c .raised

/-- **`server.kick_handler`**, up to its call. -/
def kickHandler (conf : Conf) (s : State C) (c : C) (uid : Int64) (subid : ℕ) :
    State C × List (Out C) :=
  match s.users uid with
  | some u =>
    if u.username = username uid subid conf.node then
      (s.goto c (.kicking u.agent), [.agentLogout c u.agent])
    else s.finish c .raised
  | none => (s.goto c .reporting, [.masterLogout c uid subid])

/-- The return of the login master's `logout`, by success or not: both
callers use `pcall`. -/
def afterReported (s : State C) (c : C) : Option (State C × List (Out C)) :=
  match s.phase c with
  | .leaving u => some ({ s with agentPool := s.agentPool ++ [u.agent] }.finish c .returned)
  | .reporting => some (s.finish c .returned)
  | _ => none

/-- The events of `msg_server` that come from its sockets. -/
def isSocket : Gate.Event → Bool
  | .login _ _ => false
  | .logout _ => false
  | _ => true

/-- **One event of the gate.** -/
def step (conf : Conf) (s : State C) : Event C → Option (State C × List (Out C))
  | .login c uid secret =>
    if s.phase c = .absent then some (loginHandler conf s c uid secret) else none
  | .created c ok =>
    match s.phase c with
    | .creating uid secret name => some (afterCreated s c uid secret name ok)
    | _ => none
  | .entered c ok =>
    match s.phase c with
    | .entering u secret sent => some (afterEntered s c u secret sent ok)
    | _ => none
  | .logout c uid subid =>
    if s.phase c = .absent then some (logoutHandler conf s c uid subid) else none
  | .reported c => afterReported s c
  | .kick c uid subid =>
    if s.phase c = .absent then some (kickHandler conf s c uid subid) else none
  | .kicked c =>
    match s.phase c with
    | .kicking _ => some (s.finish c .returned)
    | _ => none
  | .socket e =>
    if isSocket e then
      some ({ s with msg := (Gate.step conf.crypt conf.maxclient s.msg e).1 }, [])
    else none

/-- The gate as `init_handler` leaves it, with a tenth of `maxclient`
agents made before anyone comes. -/
def initial (conf : Conf) (day : ℕ) : State C where
  users _ := none
  usernameMap _ := none
  internalId := 0
  agentPool := List.range (conf.maxclient / 10)
  maxAgent := 2 * conf.maxclient
  currAgent := conf.maxclient / 10
  created := conf.maxclient / 10
  msg := Gate.initial day
  phase _ := .absent

/-- **The game gate**, under every order of calls and returns. A label is
an event together with what it did. -/
def system (conf : Conf) : System (State C) (Event C × List (Out C)) where
  init s := ∃ day, s = initial conf day
  step s l t := step conf s l.1 = some (t, l.2)

end Gated

end Athena
