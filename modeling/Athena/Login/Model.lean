import Athena.Common.System
import Mathlib.Data.Int.Notation
/-!
# The login master — model

`lualib/snax/login_server.lua`, the master's side. Every connection runs
`accept` in a coroutine of its own. A coroutine can be interrupted where
it yields — in the call to the slave, at a socket write, inside
`conf.login_handler` — and runs without interruption between two yields,
so a state records for each coroutine the yield it stands at (`Phase`)
and a step is one uninterrupted segment. The slaves are the environment:
what they return is an event.

The replies and the errors of `accept` are kept as constructors, with
the status lines of the source in `Reply.status`.
-/

namespace Athena

namespace Login

variable (Uid Server Secret Ret : Type)

/-- The five results of `skynet.call(s, "lua", fd, addr)`: `none` is
Lua's `nil`, so `ok` tells a lost socket (`nil`) from a refusal
(`false`). -/
structure SlaveReply where
  ok : Option Bool
  result : Option ℤ
  server : Option Server
  uid : Option Uid
  secret : Option Secret

/-- The reply lines `accept` writes. -/
inductive Reply
  | unauthorized
  | password
  | notAcceptable
  | success (uid : Uid) (ret : Option Ret)
  | forbidden

/-- The error a coroutine of the master ends with. -/
inductive Failure
  /-- `error(server)` after a failed authentication. -/
  | slave (server : Option Server)
  | password
  | alreadyLogin (uid : Uid)
  /-- The runtime error of `user_login[nil] = ..`. -/
  | indexIsNil
  /-- `error(err)` after a failing `login_handler`. -/
  | handler (err : Option Ret)

/-- What `pcall(accept, conf, s, fd, addr)` ends with. -/
inductive Outcome
  | returned
  | socketError
  | error (e : Failure Uid Server Ret)

/-- **Where an `accept` coroutine stands.** -/
inductive Phase
  /-- No connection yet. -/
  | absent
  /-- Waiting for slave `s`. -/
  | slave (s : ℕ)
  /-- Writing a reply; `next` is how the coroutine ends once it is out. -/
  | writing (reply : Reply Uid Ret) (next : Outcome Uid Server Ret)
  /-- Inside `pcall(conf.login_handler, server, uid, secret)`. -/
  | handler (server : Option Server) (uid : Option Uid) (secret : Option Secret)
  | finished (outcome : Outcome Uid Server Ret)

/-- What the environment does next: a connection arrives, a slave
answers, a socket write completes or fails, a login handler returns or
raises. `c` names the coroutine. -/
inductive Event
  | accept (c : ℕ)
  | slaveReply (c : ℕ) (r : SlaveReply Uid Server Secret)
  | written (c : ℕ) (ok : Bool)
  | handlerReturn (c : ℕ) (ok : Bool) (ret : Option Ret)

/-- The state of the master: the table `user_login`, the round robin
index and the coroutines. -/
structure Master where
  userLogin : Uid → Bool
  balance : ℕ
  phase : ℕ → Phase Uid Server Secret Ret

/-- The fields of `conf` that `accept` and `launch_master` read. -/
structure Conf where
  multilogin : Bool
  /-- The number of slaves. -/
  instances : ℕ

variable {Uid Server Secret Ret}

/-- The status line of a reply. The success line carries
`base64(uid:subid)` after it. -/
def Reply.status : Reply Uid Ret → String
  | .unauthorized => "401 Unauthorized"
  | .password => "402 Password"
  | .notAcceptable => "406 Not Acceptable"
  | .success _ _ => "200 "
  | .forbidden => "403 Forbidden"

/-- The coroutine an event resumes. -/
def Event.coroutine : Event Uid Server Secret Ret → ℕ
  | .accept c => c
  | .slaveReply c _ => c
  | .written c _ => c
  | .handlerReturn c _ _ => c

/-- Moves coroutine `c` to a phase. -/
def Master.goto (m : Master Uid Server Secret Ret) (c : ℕ) (p : Phase Uid Server Secret Ret) :
    Master Uid Server Secret Ret :=
  { m with phase := Function.update m.phase c p }

/-- `launch_master`'s callback up to the call of the slave: the slave is
taken round robin. -/
def launch (conf : Conf) (m : Master Uid Server Secret Ret) (c : ℕ) :
    Master Uid Server Secret Ret :=
  let balance := m.balance + 1
  { m with balance := if balance > conf.instances then 1 else balance }.goto c (.slave m.balance)

variable [DecidableEq Uid]

/-- `accept` from the return of the slave call to the next yield. -/
def afterSlave (conf : Conf) (m : Master Uid Server Secret Ret) (c : ℕ)
    (r : SlaveReply Uid Server Secret) : Master Uid Server Secret Ret :=
  match r.ok with
  | none => m.goto c (.finished (.error (.slave r.server)))
  | some false => m.goto c (.writing .unauthorized (.error (.slave r.server)))
  | some true =>
    if r.result = some 0 then
      m.goto c (.writing .password (.error .password))
    else if conf.multilogin then
      m.goto c (.handler r.server r.uid r.secret)
    else
      match r.uid with
      -- `user_login[nil]` reads as nil and the assignment then raises
      | none => m.goto c (.finished (.error .indexIsNil))
      | some uid =>
        if m.userLogin uid then
          m.goto c (.writing .notAcceptable (.error (.alreadyLogin uid)))
        else
          { m with userLogin := Function.update m.userLogin uid true }.goto c
            (.handler r.server (some uid) r.secret)

/-- `accept` from the return of `pcall(conf.login_handler, ..)`: the mark
goes first, whatever the handler's outcome. -/
def afterHandler (m : Master Uid Server Secret Ret) (c : ℕ) (uid : Option Uid) (ok : Bool)
    (ret : Option Ret) : Master Uid Server Secret Ret :=
  match uid with
  | none => m.goto c (.finished (.error .indexIsNil))
  | some uid =>
    { m with userLogin := Function.update m.userLogin uid false }.goto c
      (if ok then .writing (.success uid ret) .returned
        else .writing .forbidden (.error (.handler ret)))

/-- **One segment of the master.** An event that does not fit the phase
of its coroutine cannot happen. -/
def step (conf : Conf) (m : Master Uid Server Secret Ret) :
    Event Uid Server Secret Ret → Option (Master Uid Server Secret Ret)
  | .accept c =>
    match m.phase c with
    | .absent => some (launch conf m c)
    | _ => none
  | .slaveReply c r =>
    match m.phase c with
    | .slave _ => some (afterSlave conf m c r)
    | _ => none
  | .written c ok =>
    match m.phase c with
    | .writing _ next => some (m.goto c (.finished (if ok then next else .socketError)))
    | _ => none
  | .handlerReturn c ok ret =>
    match m.phase c with
    | .handler _ uid _ => some (afterHandler m c uid ok ret)
    | _ => none

/-- The master as `launch_master` leaves it, before any connection. -/
def initial : Master Uid Server Secret Ret where
  userLogin _ := false
  balance := 1
  phase _ := .absent

/-- **The login master**, under every order of connections, slave
answers, writes and handler returns. -/
def system (conf : Conf) :
    System (Master Uid Server Secret Ret) (Event Uid Server Secret Ret) where
  init m := m = initial
  step m e m' := step conf m e = some m'

end Login

end Athena
