import Athena.Common.System
import Athena.Lua.Number
/-!
# The gate — model

`lualib/snax/msg_server.lua` over `skynet/lualib/snax/gateserver.lua`.
The gate keeps four tables: `user_online` (username to user object),
`handshake` (connections that still owe a handshake), `authed` and
`connection` (fd to user object). A user object is shared by reference
between `user_online` and `connection`, so objects live in a heap and
the tables hold their numbers. `client` is the gate server's own
`connection` table.

An event runs to the next yield. `do_auth` yields inside `auth_handler`,
`auth` inside `online_handler` and `handler.disconnect` inside
`disconnect_handler`; `authReturn`, `onlineReturn` and
`disconnectReturn` are their returns, by success or by an error. An
event that cannot happen changes nothing. Each event also reports what
it did, as a list of `Out`.

`crypt` is a parameter: nothing here depends on what the hash or the
decoder compute. The response cache (`u.index`, `u.response`,
`retire_response`) is reached from commented code only and is left out.
-/

namespace Athena

namespace Gate

open Lua

abbrev Fd := ℕ

/-- `crypt.hmac_hash` and `crypt.base64decode`; the decoder raises
(`none`) on an invalid text. -/
structure Crypt where
  hmacHash : Str → Str → Str
  b64decode : Str → Option Str

/-- **A user object** `u`. -/
structure User where
  secret : Str
  version : Number
  username : Str
  fd : Option Fd
  ip : Option Str

/-- The yield an `auth` coroutine stands at. -/
inductive Pending
  | none
  /-- Inside `auth_handler(username, fd)`. -/
  | auth (username : Str)
  /-- Inside `online_handler(uid, fd)`. -/
  | online

/-- **The state of the gate.** -/
structure State where
  userOnline : Str → Option ℕ
  obj : ℕ → User
  /-- The number of user objects made so far. -/
  fresh : ℕ
  handshake : Fd → Option Str
  authed : Fd → Bool
  connection : Fd → Option ℕ
  ipsum : Str → Option ℕ
  daynum : ℕ
  /-- `nil`, `true`, or `false` once closed by the gate. -/
  client : Fd → Option Bool
  clientNumber : ℕ
  pending : Fd → Pending
  /-- The fds whose `disconnect_handler` has not returned. -/
  closing : Fd → Bool

/-- A handshake `do_auth` accepts: its text, the fields read from it, and
the connection. -/
structure Accept where
  fd : Fd
  message : Str
  username : Str
  index : Str
  idx : Number
  hmac : Str

/-- What an event does, as seen from outside. -/
inductive Out
  | connected (fd : Fd)
  | loggedIn (username secret : Str)
  | loggedOut (username : Str)
  | accepted (a : Accept)
  | authed (fd : Fd)
  | reply (fd : Fd) (text : String)
  | closed (fd : Fd)
  | forward (fd : Fd) (username message : Str)
  | disconnected (fd : Fd) (username : Str)
  | raised

/-- The events of the gate. `day` is `os.date("%j")` at the event. -/
inductive Event
  | connect (fd : Fd) (addr : Str)
  | message (fd : Fd) (msg : Str) (day : ℕ)
  | authReturn (fd : Fd) (ok : Bool)
  | onlineReturn (fd : Fd) (ok : Bool)
  | disconnect (fd : Fd)
  | disconnectReturn (fd : Fd) (ok : Bool)
  | login (username secret : Str)
  | logout (username : Str)

/-! ## The gate server -/

/-- `gateserver.closeclient`. -/
def closeclient (g : State) (fd : Fd) : State × List Out :=
  if g.client fd = some true then
    ({ g with client := Function.update g.client fd (some false) }, [.closed fd])
  else (g, [])

/-- `close_fd`. -/
def closeFd (g : State) (fd : Fd) : State :=
  if (g.client fd).isSome then
    { g with client := Function.update g.client fd none, clientNumber := g.clientNumber - 1 }
  else g

/-! ## The user table -/

/-- `server.login`: a new object, unless the user is already online. -/
def login (g : State) (username secret : Str) : State × List Out :=
  match g.userOnline username with
  | some _ => (g, [.raised])
  | none =>
    ({ g with
        userOnline := Function.update g.userOnline username (some g.fresh)
        obj := Function.update g.obj g.fresh ⟨secret, .int 0, username, none, none⟩
        fresh := g.fresh + 1 }, [.loggedIn username secret])

/-- `server.logout`: the user goes offline and its `u.fd` is closed. -/
def logout (g : State) (username : Str) : State × List Out :=
  match g.userOnline username with
  | none => (g, [.loggedOut username])
  | some u =>
    let g := { g with userOnline := Function.update g.userOnline username none }
    match (g.obj u).fd with
    | none => (g, [.loggedOut username])
    | some fd =>
      let (g, out) := closeclient g fd
      ({ g with connection := Function.update g.connection fd none }, .loggedOut username :: out)

/-! ## The handlers -/

/-- `MSG.open` and `handler.connect`. -/
def connect (maxclient : ℕ) (g : State) (fd : Fd) (addr : Str) : State × List Out :=
  if maxclient ≤ g.clientNumber then (g, [])
  else
    ({ g with
        client := Function.update g.client fd (some true)
        clientNumber := g.clientNumber + 1
        handshake := Function.update g.handshake fd (some addr) }, [.connected fd])

/-- `handler.disconnect` up to `disconnect_handler`, then `close_fd` when
there is no handler to wait for. -/
def disconnect (g : State) (fd : Fd) : State × List Out :=
  let g := { g with handshake := Function.update g.handshake fd none }
  match g.connection fd with
  | none => (closeFd g fd, [])
  | some c =>
    ({ g with
        obj := Function.update g.obj c { g.obj c with fd := none }
        connection := Function.update g.connection fd none
        closing := Function.update g.closing fd true }, [.disconnected fd (g.obj c).username])

/-- `string.match(addr, "(.*):(.*)")`, its first capture. -/
def addressOf (addr : Str) : Option Str :=
  match addr.reverse.dropWhile (· ≠ ':') with
  | _ :: r => some r.reverse
  | [] => none

/-- `setipsum`; an address without a colon raises. -/
def setipsum (g : State) (addr : Str) (day : ℕ) : Option State :=
  (addressOf addr).map fun address =>
    if day = g.daynum then
      { g with ipsum := Function.update g.ipsum address (some ((g.ipsum address).getD 0 + 1)) }
    else
      { g with ipsum := Function.update g.ipsum address (some 1), daynum := day }

/-- `string.match(message, "([^:]*):([^:]*):([^:]*)")`. -/
def matchFields (s : Str) : Option (Str × Str × Str) :=
  match s.dropWhile (· ≠ ':') with
  | [] => none
  | _ :: r =>
    match r.dropWhile (· ≠ ':') with
    | [] => none
    | _ :: t => some (s.takeWhile (· ≠ ':'), r.takeWhile (· ≠ ':'), t.takeWhile (· ≠ ':'))

/-- How `do_auth` leaves its atomic part: by an error, with a reply, or
inside `auth_handler`. -/
inductive AuthResult
  | raised
  | refused (text : String)
  | waiting (a : Accept)

/-- **`do_auth`** up to the call of `auth_handler`. -/
def doAuth (crypt : Crypt) (g : State) (fd : Fd) (message addr : Str) (day : ℕ) :
    State × AuthResult :=
  match matchFields message with
  | none => (g, .refused "404 User Not Found")
  | some (username, index, hmac) =>
    match g.userOnline username with
    | none => (g, .refused "404 User Not Found")
    | some u =>
      match tonumber index, crypt.b64decode hmac with
      | none, _ => (g, .raised)
      | some _, none => (g, .raised)
      | some idx, some hmac =>
        if idx.le (g.obj u).version then (g, .refused "403 Index Expired")
        else if crypt.hmacHash (g.obj u).secret (username ++ ':' :: index) ≠ hmac then
          (g, .refused "401 Unauthorized")
        else
          let g := { g with
            obj := Function.update g.obj u
              { g.obj u with version := idx, fd := some fd, ip := some addr } }
          match setipsum g addr day with
          | none => (g, .raised)
          | some g =>
            ({ g with connection := Function.update g.connection fd (some u) },
              .waiting ⟨fd, message, username, index, idx, hmac⟩)

/-- The end of `auth` when the handshake failed, and `handshake[fd] = nil`
after it. -/
def refuse (g : State) (fd : Fd) (text : String) : State × List Out :=
  let (g, out) := closeclient g fd
  ({ g with handshake := Function.update g.handshake fd none }, .reply fd text :: out)

/-- `auth` up to its first yield. -/
def auth (crypt : Crypt) (g : State) (fd : Fd) (message addr : Str) (day : ℕ) :
    State × List Out :=
  match doAuth crypt g fd message addr day with
  | (g, .raised) => refuse g fd "400 Bad Request"
  | (g, .refused text) => refuse g fd text
  | (g, .waiting a) =>
    ({ g with pending := Function.update g.pending fd (.auth a.username) }, [.accepted a])

/-- `do_request` and `request`: the packet goes to `request_handler`
without its last four bytes; a packet with fewer is an error. -/
def request (g : State) (fd : Fd) (message : Str) : State × List Out :=
  match g.connection fd with
  | none => (g, [.raised])
  | some u =>
    if message.length < 4 then
      let (g, out) := closeclient g fd
      (g, .raised :: out)
    else (g, [.forward fd (g.obj u).username (message.take (message.length - 4))])

/-- `dispatch_msg` and `handler.message`: the first packet of an fd that
still owes a handshake is the handshake. -/
def message (crypt : Crypt) (g : State) (fd : Fd) (msg : Str) (day : ℕ) : State × List Out :=
  if g.client fd = some true then
    match g.handshake fd, g.authed fd with
    | some addr, false =>
      auth crypt { g with authed := Function.update g.authed fd true } fd msg addr day
    | _, _ => request g fd msg
  else (g, [])

/-- The return of `auth_handler`, and the rest of `auth` up to
`online_handler`. -/
def authReturn (g : State) (fd : Fd) (ok : Bool) : State × List Out :=
  match g.pending fd with
  | .auth _ =>
    if ok then
      ({ g with pending := Function.update g.pending fd .online },
        [.authed fd, .reply fd "200 OK"])
    else refuse { g with pending := Function.update g.pending fd .none } fd "400 Bad Request"
  | _ => (g, [])

/-- The return of `online_handler`; an error there skips the last line of
`handler.message`. -/
def onlineReturn (g : State) (fd : Fd) (ok : Bool) : State × List Out :=
  match g.pending fd with
  | .online =>
    let g := { g with pending := Function.update g.pending fd .none }
    if ok then ({ g with handshake := Function.update g.handshake fd none }, [])
    else (g, [.raised])
  | _ => (g, [])

/-- The return of `disconnect_handler`, and `close_fd` after it. -/
def disconnectReturn (g : State) (fd : Fd) (ok : Bool) : State × List Out :=
  if g.closing fd then
    let g := { g with closing := Function.update g.closing fd false }
    if ok then (closeFd g fd, []) else (g, [.raised])
  else (g, [])

/-- **One event of the gate.** -/
def step (crypt : Crypt) (maxclient : ℕ) (g : State) : Event → State × List Out
  | .connect fd addr => connect maxclient g fd addr
  | .message fd msg day => message crypt g fd msg day
  | .authReturn fd ok => authReturn g fd ok
  | .onlineReturn fd ok => onlineReturn g fd ok
  | .disconnect fd => disconnect g fd
  | .disconnectReturn fd ok => disconnectReturn g fd ok
  | .login username secret => login g username secret
  | .logout username => logout g username

/-- The gate at its start, on day `day`. -/
def initial (day : ℕ) : State where
  userOnline _ := none
  obj _ := ⟨[], .int 0, [], none, none⟩
  fresh := 0
  handshake _ := none
  authed _ := false
  connection _ := none
  ipsum _ := none
  daynum := day
  client _ := none
  clientNumber := 0
  pending _ := .none
  closing _ := false

/-- **The gate**, under every order of events. A label is an event
together with what it did. -/
def system (crypt : Crypt) (maxclient : ℕ) : System State (Event × List Out) where
  init g := ∃ day, g = initial day
  step g l g' := step crypt maxclient g l.1 = (g', l.2)

/-! ## Executing events -/

/-- The state after a list of events. -/
def exec (crypt : Crypt) (maxclient : ℕ) : State → List Event → State :=
  List.foldl fun g e => (step crypt maxclient g e).1

/-- The labels of a list of events. -/
def labelsOf (crypt : Crypt) (maxclient : ℕ) : State → List Event → List (Event × List Out)
  | _, [] => []
  | g, e :: es =>
    let r := step crypt maxclient g e
    (e, r.2) :: labelsOf crypt maxclient r.1 es

theorem path_labelsOf (crypt : Crypt) (maxclient : ℕ) (g : State) (es : List Event) :
    (system crypt maxclient).Path g (labelsOf crypt maxclient g es) (exec crypt maxclient g es) := by
  induction es generalizing g with
  | nil => exact .nil g
  | cons e es ih => exact .cons rfl (ih _)

end Gate

end Athena
