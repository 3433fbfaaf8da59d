import Athena.Common.System
import Mathlib.Data.Int.Notation
import Mathlib.Data.List.Perm.Basic
/-!
# Team rooms — model

The room tables of `game/teammatch/teammatch.lua` and the calls that
change them: `maketeam`, `teamexit` and `gobattlefinish`. A call runs
until it waits for another service, and other calls run meanwhile. The
queue `cs` lets one call at a time into `createorjoinroom` (`Make`), which
waits for the machine and the name of the player before it touches the
tables, and for `infodc` after it made a room. `destroyroom` waits at each
member it tells (`Exit`); one `teamexit` or `gobattlefinish` runs at a time
here. `exitroom` does not wait in the rooms for a hundred, the only ones
`maketeam` asks for.

A key is the text of a stage and its owner, read back at its underscore; it
is carried as the pair. `joinroom` holds on to the room it was given and
adds to that one, wherever it is by then, so a room has an identity
(`ref`). The order of `pairs` is the order of the list, which a `rehash`
may change at any time. What a room shows of its members, the notices and
the sum of the rooms are left out.
-/

namespace Athena

namespace Team

/-- `teammatchdefine.eroomtype`, as far as there are tables for it. -/
inductive Roomnum
  | one
  | two
  | three
  | ten
  | hundred
  deriving DecidableEq

def Roomnum.target : Roomnum → ℕ
  | .one => 1
  | .two => 2
  | .three => 3
  | .ten => 10
  | .hundred => 100

/-- The nine room tables. -/
inductive Table
  | onerooms
  | tworooms
  | threerooms
  | tenrooms
  | onerooms_pve
  | tworooms_pve
  | threerooms_pve
  | tenrooms_pve
  | fiftyomrooms_1
  deriving DecidableEq

/-- `teammatchdefine.missiontype.pvp`. -/
def pvp : ℤ := 1

/-- `getroom`. -/
def getroom (roomnum : Roomnum) (type : ℤ) : Table :=
  match roomnum with
  | .one => if type ≠ pvp then .onerooms_pve else .onerooms
  | .two => if type ≠ pvp then .tworooms_pve else .tworooms
  | .three => if type ≠ pvp then .threerooms_pve else .threerooms
  | .ten => if type ≠ pvp then .tenrooms_pve else .tenrooms
  | .hundred => .fiftyomrooms_1

/-- The number of members a room of the table may have. -/
def Table.target : Table → ℕ
  | .onerooms | .onerooms_pve => Roomnum.one.target
  | .tworooms | .tworooms_pve => Roomnum.two.target
  | .threerooms | .threerooms_pve => Roomnum.three.target
  | .tenrooms | .tenrooms_pve => Roomnum.ten.target
  | .fiftyomrooms_1 => Roomnum.hundred.target

/-- An entry of `userroomtype`. -/
structure Mark where
  roomnum : Roomnum
  roomtype : ℤ
  deriving DecidableEq

/-- The table a mark names. -/
def Mark.table (m : Mark) : Table := getroom m.roomnum m.roomtype

/-- A room key. -/
structure Key where
  stageid : ℤ
  uid : ℤ
  deriving DecidableEq

/-- **A room.** -/
structure Room where
  key : Key
  ref : ℕ
  members : List ℤ
  deriving DecidableEq

/-! ## One table -/

/-- `findfitroom`: the room found and the table, out of which the player is
taken on the way. -/
def findfitroom (targetnum : ℕ) (stageid uid : ℤ) : List Room → Option Room × List Room
  | [] => (none, [])
  | r :: rooms =>
    if r.key.stageid = stageid then
      let r' := { r with members := r.members.erase uid }
      if r'.members.length < targetnum then (some r', r' :: rooms)
      else ((findfitroom targetnum stageid uid rooms).1,
        r' :: (findfitroom targetnum stageid uid rooms).2)
    else ((findfitroom targetnum stageid uid rooms).1, r :: (findfitroom targetnum stageid uid rooms).2)

/-- `roomowner`. -/
def roomowner (rooms : List Room) (uid : ℤ) : Option ℤ :=
  (rooms.find? fun r => r.key.uid = uid ∨ uid ∈ r.members).map fun r => r.key.uid

/-- `roomkey_by_uid`, and the room of that key. -/
def roomkey_by_uid (rooms : List Room) (uid : ℤ) : Option Room :=
  rooms.find? fun r => r.key.uid = uid

/-- `rooms[roomkey] = {…}`. -/
def put (rooms : List Room) (room : Room) : List Room :=
  if room.key ∈ rooms.map Room.key then rooms.map fun r => if r.key = room.key then room else r
  else rooms ++ [room]

/-- A change of the members of one room. -/
def modify (rooms : List Room) (p : Room → Bool) (f : List ℤ → List ℤ) : List Room :=
  rooms.map fun r => if p r then { r with members := f r.members } else r

/-- The insertion at the end of `joinroom`, into the room it holds. -/
def insert (rooms : List Room) (ref : ℕ) (uid : ℤ) : List Room :=
  modify rooms (fun r => r.ref = ref) fun l => l ++ [uid]

/-- `table.remove(room, i)`, where the player is at `i`. -/
def remove (rooms : List Room) (key : Key) (uid : ℤ) : List Room :=
  modify rooms (fun r => r.key = key) fun l => l.erase uid

/-- `rooms[roomid] = nil`. -/
def delete (rooms : List Room) (key : Key) : List Room := rooms.filter fun r => r.key ≠ key

/-! ## The calls -/

/-- **Where the call inside `createorjoinroom` waits.** -/
inductive Make
  /-- In `createroom`, before the room is there. -/
  | creating (uid : ℤ) (key : Key) (mark : Mark)
  /-- In `createroom`, after that. -/
  | created (uid : ℤ) (mark : Mark)
  /-- In `joinroom`, with the room it was given. -/
  | joining (uid : ℤ) (ref : ℕ) (mark : Mark)
  deriving DecidableEq

/-- **Where `destroyroom` waits**: with the `i`-th of the `n` members, which is
`mate`. -/
structure Exit where
  uid : ℤ
  table : Table
  key : Key
  n : ℕ
  i : ℕ
  mate : ℤ
  /-- The caller is `gobattlefinish`. -/
  battle : Bool
  deriving DecidableEq

/-- **The service.** -/
structure State where
  rooms : Table → List Room
  userroomtype : ℤ → Option Mark
  userreadystatus : ℤ → Option Bool
  make : Option Make
  exit : Option Exit
  /-- The identity the next room gets. -/
  next : ℕ

def State.setRooms (s : State) (k : Table) (rooms : List Room) : State :=
  { s with rooms := Function.update s.rooms k rooms }

/-- `createorjoinroom` up to its first wait. -/
def createorjoinroom (s : State) (stageid uid : ℤ) (mark : Mark) : State :=
  let found := findfitroom mark.roomnum.target stageid uid (s.rooms mark.table)
  { s.setRooms mark.table found.2 with
    make :=
      match found.1 with
      | none => some (.creating uid ⟨stageid, uid⟩ mark)
      | some r => some (.joining uid r.ref mark) }

/-- What comes after a wait inside `createorjoinroom`. -/
def Make.resume (s : State) : Make → State
  | .creating uid key mark =>
    { s.setRooms mark.table (put (s.rooms mark.table) ⟨key, s.next, [uid]⟩) with
      userreadystatus := Function.update s.userreadystatus uid (some true)
      next := s.next + 1
      make := some (.created uid mark) }
  | .created uid mark =>
    { s with userroomtype := Function.update s.userroomtype uid (some mark), make := none }
  | .joining uid ref mark =>
    { s.setRooms mark.table (insert (s.rooms mark.table) ref uid) with
      userreadystatus := Function.update s.userreadystatus uid (some false)
      userroomtype := Function.update s.userroomtype uid (some mark)
      make := none }

/-- Where the loop of `destroyroom` comes to a stop. -/
inductive Stop
  | notify (i : ℕ) (mate : ℤ)
  | done
  /-- There is no `i`-th member any more. -/
  | raised

/-- The loop of `destroyroom` from the `i`-th member on, over `fuel` of them: the
players whose marks go, and the member it waits with. -/
def sweep (uid : ℤ) (members : List ℤ) : ℕ → ℕ → List ℤ × Stop
  | 0, _ => ([], .done)
  | fuel + 1, i =>
    match members[i]? with
    | none => ([], .raised)
    | some mate =>
      if uid ≠ mate then ([], .notify i mate)
      else (mate :: (sweep uid members fuel (i + 1)).1, (sweep uid members fuel (i + 1)).2)

/-- `userroomtype[uid] = nil` for the players of a list. -/
def unmark (l : List ℤ) (mark : ℤ → Option Mark) : ℤ → Option Mark :=
  fun v => if v ∈ l then none else mark v

/-- The marks of some players go, and they are not ready. -/
def State.clear (s : State) (l : List ℤ) : State :=
  { s with
    userroomtype := unmark l s.userroomtype
    userreadystatus := fun v => if v ∈ l then some false else s.userreadystatus v }

/-- The end of `gobattlefinish`. -/
def State.unready (s : State) (uid : ℤ) (battle : Bool) : State :=
  if battle then { s with userreadystatus := Function.update s.userreadystatus uid none } else s

/-- `destroyroom` from the `i`-th member on. -/
def proceed (s : State) (uid : ℤ) (k : Table) (key : Key) (n i : ℕ) (battle : Bool) : State :=
  let members := (((s.rooms k).find? fun r => r.key = key).map Room.members).getD []
  let swept := sweep uid members (n - i) i
  let s := s.clear swept.1
  match swept.2 with
  | .notify i mate => { s with exit := some ⟨uid, k, key, n, i, mate, battle⟩ }
  | .done => { (s.setRooms k (delete (s.rooms k) key)).unready uid battle with exit := none }
  | .raised => { s with exit := none }

/-- `destroyroom`. -/
def destroyroom (s : State) (uid : ℤ) (k : Table) (battle : Bool) : State :=
  match roomkey_by_uid (s.rooms k) uid with
  | none => s.unready uid battle
  | some room => proceed s uid k room.key room.members.length 0 battle

/-- `exitroom`, in a room of `owner`. -/
def exitroom (s : State) (uid owner : ℤ) (k : Table) (battle : Bool) : State :=
  match roomkey_by_uid (s.rooms k) owner with
  | none => s
  | some room =>
    if uid ∈ room.members then
      State.unready
        { s.setRooms k (remove (s.rooms k) room.key uid) with
          userroomtype := Function.update s.userroomtype uid none
          userreadystatus := Function.update s.userreadystatus uid none } uid battle
    else s.unready uid battle

/-- `teamexit` and `gobattlefinish`, up to a wait in `destroyroom`. -/
def leave (s : State) (uid : ℤ) (battle : Bool) : State :=
  match s.userroomtype uid with
  | none => s
  | some mark =>
    match roomowner (s.rooms mark.table) uid with
    | none => s
    | some owner =>
      if owner = uid then destroyroom s uid mark.table battle
      else exitroom s uid owner mark.table battle

def teamexit (s : State) (uid : ℤ) : State := leave s uid false

def gobattlefinish (s : State) (uid : ℤ) : State := leave s uid true

/-! ## The steps -/

/-- A call comes, or one that waits goes on. -/
inductive Event
  | maketeam (uid stageid : ℤ)
  /-- The call inside `createorjoinroom` has its answer. -/
  | resume
  | teamexit (uid : ℤ)
  | gobattlefinish (uid : ℤ)
  /-- The member is told, `destroyroom` goes on. -/
  | notified
  /-- The order of a table changes. -/
  | rehash (k : Table) (rooms : List Room)
  deriving DecidableEq

variable (stage : ℤ → Option ℤ)

/-- **One step.** `stage` is the `Task_Type` of a stage. `maketeam` sets the
number of teammates to a hundred, whatever the client asks for. -/
def step (s : State) : Event → Option State
  | .maketeam uid stageid =>
    match s.make, stage stageid with
    | none, some type => some (createorjoinroom s stageid uid ⟨.hundred, type⟩)
    | none, none => some s
    | some _, _ => none
  | .resume => s.make.map fun m => m.resume s
  | .teamexit uid => if s.exit = none then some (teamexit s uid) else none
  | .gobattlefinish uid => if s.exit = none then some (gobattlefinish s uid) else none
  | .notified =>
    s.exit.map fun e =>
      proceed (s.clear [e.mate]) e.uid e.table e.key e.n (e.i + 1) e.battle
  | .rehash k rooms => if rooms.Perm (s.rooms k) then some (s.setRooms k rooms) else none

/-- No room yet. -/
def initial : State where
  rooms _ := []
  userroomtype _ := none
  userreadystatus _ := none
  make := none
  exit := none
  next := 0

/-- **The calls under every order of their steps.** -/
def system : System State Event where
  init s := s = initial
  step s e t := step stage s e = some t

end Team

end Athena
