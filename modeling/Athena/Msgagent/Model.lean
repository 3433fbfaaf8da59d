import Athena.Gated.Step
/-!
# The agents and their gate — model

`game/msgagent.lua`, any number of agents, with the gate `game/gated.lua`
that gives them to players. An agent keeps the session it serves (`gate`,
`UID`, `SUB_ID` and `SECRET`, which are set and cleared together) and runs
the commands of the gate one at a time, in the order they came, through
the queue `cs`. `logout` is such a command, and is also what the request
`user_logout` of the client runs, outside the queue.

A job is one such run. It yields inside `setfd` and `getfd` of
`agentmgr`, inside `GetServiceName`, inside the `offline` of each service,
inside the gate's `logout` and inside `dcmgr`'s `unload`, and what it does
next reads the session of the agent at that time. An `unload` does not
fail, the errors of the services are caught, and the services are up: the
call of the gate is what can raise. `CMD.auth`, `CMD.online` and the other
requests leave the session alone; nothing sends `afk`, so the timer never
logs out.
-/

namespace Athena

namespace Msgagent

open Lua Gated

/-- What runs at an agent: a command that coroutine `n` of the gate waits
for, one that another handler of the gate sent, or a `user_logout`. -/
inductive Job
  | gate (n : ℕ)
  | asked (j : ℕ)
  | client (j : ℕ)
  deriving DecidableEq

/-- A coroutine of the gate: a call of the login server, or the `logout`
that a job of an agent calls. -/
inductive Task
  | call (n : ℕ)
  | own (agent : ℕ) (job : Job)
  deriving DecidableEq

/-- `UID` and `SUB_ID`. -/
structure Login where
  uid : Int64
  subid : ℕ
  deriving DecidableEq

/-- A command: `CMD.login`, or `CMD.logout` with a reason to tell the
player or without. -/
inductive Req
  | login (l : Login)
  | logout (kick : Bool)
  deriving DecidableEq

/-- **Where a job stands.** -/
inductive Doing
  | absent
  /-- In the queue, not begun. -/
  | waiting (r : Req)
  /-- Inside `setfd`, before the `logout` of a client. -/
  | setting
  /-- Inside `getfd`, to tell the player. -/
  | notifying
  /-- Inside `GetServiceName`. -/
  | naming
  /-- Inside the `offline` of a service, with `rest` to come. -/
  | offline (rest : List String)
  /-- Inside the gate's `logout`, called for `l`. -/
  | leaving (l : Login)
  /-- Inside `unload`. -/
  | unloading
  | finished (ok : Bool)
  deriving DecidableEq

/-- An agent. `cs` is its queue, the job that has the turn first. -/
structure Agent where
  session : Option Login
  cs : List Job
  doing : Job → Doing

/-- What a job does to the session of its agent, or for it. -/
inductive Do
  | login
  | offline (name : String)
  | gate
  | unload
  | cleared
  deriving DecidableEq

/-- `GetServiceName`. -/
def serviceName : List String :=
  ["addiction", "player", "warehouse", "teammatch", "hangar", "chip", "scan", "bqproxy",
    "achievement", "battleproxy", "shop", "assignment"]

/-! ## One agent -/

def Agent.goto (ag : Agent) (j : Job) (d : Doing) : Agent :=
  { ag with doing := Function.update ag.doing j d }

/-- A job ends, and gives up its turn. -/
def Agent.finish (ag : Agent) (j : Job) (ok : Bool) : Agent :=
  { ag.goto j (.finished ok) with cs := ag.cs.erase j }

/-- A command comes to the end of the queue. -/
def Agent.push (ag : Agent) (j : Job) (r : Req) : Agent :=
  { ag.goto j (.waiting r) with cs := ag.cs ++ [j] }

/-- `CMD.login`. -/
def login (ag : Agent) (j : Job) (l : Login) : Agent × List (Option Login × Do) :=
  ({ ag with session := some l }.finish j true, [(some l, .login)])

/-- **`logout`**, up to its first yield. -/
def logout (ag : Agent) (j : Job) (kick : Bool) : Agent :=
  if kick then ag.goto j .notifying else ag.goto j .naming

/-- The loop of `logout` over the services, and the call of the gate after
the last of them. -/
def offlines (ag : Agent) (j : Job) : List String → Agent × List (Option Login × Do)
  | name :: rest => (ag.goto j (.offline rest), [(ag.session, .offline name)])
  | [] =>
    match ag.session with
    | some l => (ag.goto j (.leaving l), [(some l, .gate)])
    | none => (ag.goto j .unloading, [(none, .unload)])

/-- The first job of the queue begins. -/
def start (ag : Agent) (j : Job) : Option (Agent × List (Option Login × Do)) :=
  if ag.cs.head? = some j then
    match ag.doing j with
    | .waiting (.login l) => some (login ag j l)
    | .waiting (.logout kick) => some (logout ag j kick, [])
    | _ => none
  else none

/-- What a job awaited has returned; `answer` is that of the gate. -/
def resume (ag : Agent) (j : Job) (answer : Option Bool) :
    Option (Agent × List (Option Login × Do)) :=
  match ag.doing j with
  | .setting => some (logout ag j false, [])
  | .notifying => some (ag.goto j .naming, [])
  | .naming => some (offlines ag j serviceName)
  | .offline rest => some (offlines ag j rest)
  | .leaving _ =>
    match answer with
    | some true => some (ag.goto j .unloading, [(ag.session, .unload)])
    | some false => some (ag.finish j false, [])
    | none => none
  | .unloading => some ({ ag with session := none }.finish j true, [(ag.session, .cleared)])
  | _ => none

/-- `user_logout`; `setfd` raises on a `UID` that is `nil`. -/
def userLogout (ag : Agent) (j : Job) : Agent :=
  match ag.session with
  | some _ => ag.goto j .setting
  | none => ag.goto j (.finished false)

/-! ## The agents and the gate -/

structure State where
  gate : Gated.State Task
  agents : ℕ → Agent

/-- The events: of the gate; its coroutine `n` goes on after the `login` or
the `logout` of an agent; a handler of the gate asks the agent of a user
to log out; the client does; and what the agents do. -/
inductive Event
  | gate (e : Gated.Event Task)
  | entered (n : ℕ)
  | kicked (n : ℕ)
  | ask (name : Str) (j : ℕ) (kick : Bool)
  | client (name : Str) (j : ℕ)
  | start (a : ℕ) (j : Job)
  | resume (a : ℕ) (j : Job)
  | serve (a : ℕ) (j : Job)

/-- An entry of the history: an agent, its session then, and what it did. -/
structure Act where
  agent : ℕ
  session : Option Login
  act : Do

variable (conf : Conf)

/-- The command an effect of the gate sends to an agent. -/
def send (agents : ℕ → Agent) : Out Task → ℕ → Agent
  | .agentLogin (.call n) a uid subid =>
    Function.update agents a ((agents a).push (.gate n) (.login ⟨uid, subid⟩))
  | .agentLogout (.call n) a =>
    Function.update agents a ((agents a).push (.gate n) (.logout true))
  | _ => agents

/-- An event of the gate, with the commands it sends. -/
def State.act (s : State) (e : Gated.Event Task) : Option State :=
  (Gated.step conf s.gate e).map fun r => ⟨r.1, r.2.foldl send s.agents⟩

/-- An agent goes on. -/
def State.agent (s : State) (a : ℕ) (r : Agent × List (Option Login × Do)) : State × List Act :=
  ({ s with agents := Function.update s.agents a r.1 }, r.2.map fun x => ⟨a, x.1, x.2⟩)

/-- The events of the gate that need no agent. -/
def unattended : Gated.Event Task → Bool
  | .login (.call _) _ _ => true
  | .created _ _ => true
  | .kick (.call _) _ _ => true
  | .reported _ => true
  | .socket _ => true
  | _ => false

/-- The answer of the gate to the `logout` of a job. -/
def answerOf (g : Gated.State Task) (a : ℕ) (j : Job) : Option Bool :=
  match g.phase (.own a j) with
  | .finished r => some (r ≠ .raised)
  | _ => none

/-- Whether a command has ended. -/
def Doing.ended : Doing → Bool
  | .finished _ => true
  | _ => false

/-- **One event of the gate and its agents.** -/
def step (s : State) : Event → Option (State × List Act)
  | .gate e => if unattended e then (s.act conf e).map fun t => (t, []) else none
  | .entered n =>
    match s.gate.phase (.call n) with
    | .entering u _ _ =>
      if ((s.agents u.agent).doing (.gate n)).ended then
        (s.act conf (.entered (.call n) true)).map fun t => (t, [])
      else none
    | _ => none
  | .kicked n =>
    match s.gate.phase (.call n) with
    | .kicking a =>
      if ((s.agents a).doing (.gate n)).ended then
        (s.act conf (.kicked (.call n))).map fun t => (t, [])
      else none
    | _ => none
  | .ask name j kick =>
    match s.gate.usernameMap name with
    | some u =>
      if (s.agents u.agent).doing (.asked j) = .absent then
        some (s.agent u.agent ((s.agents u.agent).push (.asked j) (.logout kick), []))
      else none
    | none => none
  | .client name j =>
    match s.gate.usernameMap name with
    | some u =>
      if (s.agents u.agent).doing (.client j) = .absent then
        some (s.agent u.agent (userLogout (s.agents u.agent) (.client j), []))
      else none
    | none => none
  | .start a j => (start (s.agents a) j).map (s.agent a)
  | .resume a j => (resume (s.agents a) j (answerOf s.gate a j)).map (s.agent a)
  | .serve a j =>
    match (s.agents a).doing j with
    | .leaving l => (s.act conf (.logout (.own a j) l.uid l.subid)).map fun t => (t, [])
    | _ => none

def initial (day : ℕ) : State where
  gate := Gated.initial conf day
  agents _ := ⟨none, [], fun _ => .absent⟩

/-- **The gate and its agents**, under every order of their events. A label
is an event together with what the agents did. -/
def system : System State (Event × List Act) where
  init s := ∃ day, s = initial conf day
  step s l t := step conf s l.1 = some (t, l.2)

end Msgagent

end Athena
