import Athena.Common.System
import Mathlib.Data.Int.Notation
import Mathlib.Data.Nat.Notation
import Mathlib.Logic.Function.Basic
/-!
# Matchmaking — model

`battleproxy.lua`: the rooms that wait for a rival, the room type of each player
that is placed, and the battles with their fighters. A call stops where it asks
another service, and other calls run in between; what is left of a stopped call is
a `Flight`. One step is what a call does up to its next stop.

A room is read as its players. The key of the waiting rooms is a stage and a number
of players. A battle lives from the time its fighters are gathered: the service
then gets them, and `_handle_uid` after that.
-/

namespace Athena

namespace Match

abbrev Uid := ℤ

abbrev Handle := ℤ

abbrev Room := List Uid

/-- `target_room_key`. -/
structure Key where
  stageid : ℤ
  roomnum : ℤ
  deriving DecidableEq

/-- What is left of a call that has stopped. -/
inductive Flight
  /-- `gobattle`, at `check_user_online(1)`. -/
  | asks (key : Key) (room : Room) (rival : Option Room)
  /-- At `snax.newservice`. -/
  | opens (key : Key) (room : Room) (rival : Option Room)
  /-- At `setroomtype` (one more stop to come) or `setstagetype`. -/
  | sets (key : Key) (room : Room) (rival : Option Room) (handle : Handle) (left : ℕ)
  /-- At `playerinfoinit`. -/
  | inits (fighters : List Uid) (rival : Option Room) (handle : Handle)
  /-- At `get_user_fd(1)`, the first time (one more stop to come) or the second. -/
  | sends (rival : Option Room) (left : ℕ)
  /-- In the loop over a room that waits now, at `get_user_fd` of the first player. -/
  | waits (key : Key) (room : Room)
  /-- `offline`, before `closebattlesvr`. -/
  | queued (uid : Uid)
  /-- At `battlesvr.req.offline`. -/
  | closes (uid : Uid)

/-- The fighters a stopped call has gathered for a battle that is not registered. -/
def Flight.fighters : Flight → List Uid
  | .inits fighters _ _ => fighters
  | _ => []

/-- The memory of the service, and its stopped calls. -/
structure State where
  waitingroom : Key → Option (List Room)
  playerroomtype : Uid → Option Key
  /-- `_handle_uid`, and `battlehandle` with the same keys. -/
  handle_uid : List (Handle × List Uid)
  flights : List Flight

namespace State

/-- A call stops for the first time. -/
def launch (s : State) (f : Flight) : State := { s with flights := s.flights ++ [f] }

/-- The call at an index goes on to its next stop, or returns. -/
def resumed (s : State) (i : ℕ) (next : List Flight) : State :=
  { s with flights := s.flights.take i ++ next ++ s.flights.drop (i + 1) }

end State

/-! ## The waiting rooms -/

/-- A room of a list goes, the first with the player. -/
def leave (s : State) (key : Key) (rooms : List Room) (uid : Uid) : State :=
  { s with
    waitingroom := Function.update s.waitingroom key
      (some (rooms.eraseP fun room => uid ∈ room)) }

/-- **`findsuitrival`**, with the number that is drawn. -/
def findsuitrival (s : State) (key : Key) (pick : ℕ) : Option Room :=
  match s.waitingroom key with
  | none => none
  | some rooms => rooms[pick % rooms.length]?

/-- **`removefromwaiting`.** -/
def removefromwaiting (s : State) (uid : Uid) : State :=
  match s.playerroomtype uid with
  | none => s
  | some key =>
    match s.waitingroom key with
    | none => s
    | some rooms => leave s key rooms uid

/-- The players of a room are placed no more. -/
def clear (s : State) (room : Room) : State :=
  { s with playerroomtype := fun uid => if uid ∈ room then none else s.playerroomtype uid }

/-- The room of a player in a list goes, with the types of its players. -/
def cancel (s : State) (key : Key) (rooms : List Room) (uid : Uid) : State :=
  match rooms.find? fun room => uid ∈ room with
  | none => s
  | some room => leave (clear s room) key rooms uid

/-- **`response.remwaiting`.** -/
def remwaiting (s : State) (uid : Uid) : State :=
  match s.playerroomtype uid with
  | none => s
  | some key =>
    match s.waitingroom key with
    | none => s
    | some rooms => cancel s key rooms uid

/-- **`response.cancelbattle`**, of a room key with a stage and a player. What comes
after it is sent only. -/
def cancelbattle (s : State) (key : Key) (uid : Uid) : State :=
  match s.waitingroom key with
  | none => s
  | some rooms => cancel s key rooms uid

/-! ## The calls -/

/-- `stage.Task_Type ~= pvp or roomnum >= 100`. -/
def isPve (task_type roomnum : ℤ) : Bool := decide (task_type ≠ 1 ∨ 100 ≤ roomnum)

/-- **`response.gobattle`**, from its check on; the stage's row is asked for before. -/
def gobattle (Task_Type : ℤ → Option ℤ) (s : State) (key : Key) (room : Room) (pick : ℕ) : State :=
  match Task_Type key.stageid with
  | none => s
  | some task_type =>
    if ∃ uid ∈ room, s.playerroomtype uid ≠ none then s
    else if isPve task_type key.roomnum then s.launch (.asks key room none)
    else match findsuitrival s key pick with
      | none =>
        let s := { s with
          waitingroom := Function.update s.waitingroom key
            (some ((s.waitingroom key).getD [] ++ [room])) }
        if room = [] then s else s.launch (.waits key room)
      | some rival => s.launch (.asks key room (some rival))

/-- **`response.offline`**, up to its place in the queue. -/
def offline (s : State) (uid : Uid) : State :=
  (clear (removefromwaiting s uid) [uid]).launch (.queued uid)

/-- `getbattlehandle`. -/
def getbattlehandle (s : State) (uid : Uid) : Option Handle :=
  (s.handle_uid.find? fun v => uid ∈ v.2).map Prod.fst

/-- `remove_item`: from each battle the player's first place. -/
def remove_item (s : State) (uid : Uid) : State :=
  { s with handle_uid := s.handle_uid.map fun v => (v.1, v.2.erase uid) }

/-- **`response.battlefinish`.** -/
def battlefinish (s : State) (handle : Handle) : State :=
  { s with handle_uid := s.handle_uid.filter fun v => v.1 ≠ handle }

/-- What a stopped call does on its answer: `ok` from `check_user_online` and from a
battle's `offline`, a handle from `newservice`. -/
def resume (s : State) (i : ℕ) (ok : Bool) (handle : Handle) : Flight → State
  | .asks key room rival => s.resumed i (if ok then [.opens key room rival] else [])
  | .opens key room rival => s.resumed i [.sets key room rival handle 1]
  | .sets key room rival handle (left + 1) => s.resumed i [.sets key room rival handle left]
  | .sets key room rival handle 0 =>
    { s with playerroomtype := fun uid => if uid ∈ room then some key else s.playerroomtype uid }.resumed
      i [.inits (room ++ rival.getD []) rival handle]
  | .inits fighters rival handle =>
    { s with handle_uid := (handle, fighters) :: s.handle_uid.filter fun v => v.1 ≠ handle }.resumed
      i [.sends rival 1]
  | .sends rival (left + 1) => s.resumed i [.sends rival left]
  | .sends rival 0 =>
    match rival with
    | some (uid :: _) => (removefromwaiting s uid).resumed i []
    | _ => s.resumed i []
  | .waits key (uid :: room) =>
    { s with playerroomtype := Function.update s.playerroomtype uid (some key) }.resumed
      i (if room = [] then [] else [.waits key room])
  | .waits _ [] => s.resumed i []
  | .queued uid =>
    match getbattlehandle s uid with
    | none => s.resumed i []
    | some _ => s.resumed i [.closes uid]
  | .closes uid => if ok then s.resumed i [] else (remove_item s uid).resumed i []

/-- What happens in the service. -/
inductive Event
  | gobattle (key : Key) (room : Room) (pick : ℕ)
  | cancelbattle (key : Key) (uid : Uid)
  | remwaiting (uid : Uid)
  | offline (uid : Uid)
  | resume (i : ℕ) (ok : Bool) (handle : Handle)
  | battlefinish (handle : Handle)

def step (Task_Type : ℤ → Option ℤ) (s : State) : Event → State
  | .gobattle key room pick => gobattle Task_Type s key room pick
  | .cancelbattle key uid => cancelbattle s key uid
  | .remwaiting uid => remwaiting s uid
  | .offline uid => offline s uid
  | .resume i ok handle =>
    match s.flights[i]? with
    | none => s
    | some f => resume s i ok handle f
  | .battlefinish handle => battlefinish s handle

/-- **Any interleaving**: a call that has stopped may go on at any time, but the
queue lets in one `closebattlesvr` at a time, and the handle of a service is no
other's. -/
def Allowed (s : State) : Event → Prop
  | .resume i _ _ => ∃ f, s.flights[i]? = some f ∧
      match f with
      | .queued _ => ∀ f' ∈ s.flights, ∀ uid, f' ≠ .closes uid
      | .inits _ _ handle => ∀ v ∈ s.handle_uid, v.1 ≠ handle
      | _ => True
  | _ => True

def initial : State := ⟨fun _ => none, fun _ => none, [], []⟩

def system (Task_Type : ℤ → Option ℤ) : System State Event where
  init s := s = initial
  step s e t := Allowed s e ∧ t = step Task_Type s e

end Match

end Athena
