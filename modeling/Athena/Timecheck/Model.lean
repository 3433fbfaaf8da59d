import Mathlib.Data.List.AList
import Mathlib.Data.Int.Notation
import Mathlib.Data.Nat.Notation
import Mathlib.Logic.Function.Basic
/-!
# The expiry manager — model

`timecheckmgr.lua`: items with an end time, kept in levels that are checked
at longer and longer intervals. `run` looks at the levels from the last to the
first. Where the timer of one has expired it restarts the timer and calls
`table.indices`, which no file defines: so it raises there, and the loop that
would move items down and complete them is not reached.

A clock value is in hundredths of a second (`current_militime`); end times and
intervals are in seconds. Levels are numbered from zero.
-/

namespace Athena

namespace Timecheck

/-- `timext.current_time`, of a clock value. -/
def current_time (now : ℤ) : ℤ := now / 100

/-- What `ctor` is called with. -/
structure Config where
  checkCfg : List ℤ
  isAddCover : Bool

/-- The number of levels. -/
def Config.levels (cfg : Config) : ℕ := cfg.checkCfg.length

/-- The check interval of a level. -/
def Config.interval (cfg : Config) (index : ℕ) : ℤ := cfg.checkCfg.getD index 0

/-- A stored item. -/
structure Item (δ η : Type*) where
  data : δ
  endTime : ℤ
  completeHandler : Option η

/-- A call of a completion handler; without one of its own, of the manager's. -/
structure Call (κ δ η : Type*) where
  key : κ
  item : Item δ η

section Manager

variable {κ δ η : Type*} [DecidableEq κ]

/-- **The manager.** A timer is the clock value it expires at. -/
structure State (κ δ η : Type*) where
  checkList : ℕ → AList (fun _ : κ => Item δ η)
  checkTimer : ℕ → Option ℤ
  bInitTimer : Bool

/-- `ctor`. -/
def create : State κ δ η where
  checkList _ := ∅
  checkTimer _ := none
  bInitTimer := false

/-- The item of a key on a level. -/
def State.look (s : State κ δ η) (index : ℕ) (key : κ) : Option (Item δ η) :=
  (s.checkList index).lookup key

/-- `arr[key] = nil`. -/
def State.drop (s : State κ δ η) (index : ℕ) (key : κ) : State κ δ η :=
  { s with checkList := Function.update s.checkList index ((s.checkList index).erase key) }

/-- `arr[key] = item`. -/
def State.put (s : State κ δ η) (index : ℕ) (key : κ) (item : Item δ η) : State κ δ η :=
  { s with checkList := Function.update s.checkList index ((s.checkList index).insert key item) }

/-- `timer:update`, in seconds. -/
def State.restart (s : State κ δ η) (index : ℕ) (now sec : ℤ) : State κ δ η :=
  { s with checkTimer := Function.update s.checkTimer index (some (now + 100 * sec)) }

/-- The first level that has the key. -/
def State.levelof (cfg : Config) (s : State κ δ η) (key : κ) : Option ℕ :=
  (List.range cfg.levels).find? fun index => (s.look index key).isSome

/-- `removeCheckItem`. -/
def removeCheckItem (cfg : Config) (s : State κ δ η) (key : κ) : State κ δ η × Bool :=
  match s.levelof cfg key with
  | some index => (s.drop index key, true)
  | none => (s, false)

/-- The timers of all levels, created at the first item. -/
def initTimer (cfg : Config) (s : State κ δ η) (now : ℤ) : State κ δ η :=
  if s.bInitTimer then s
  else
    { (List.range cfg.levels).foldl (fun s index => s.restart index now (cfg.interval index)) s with
      bInitTimer := true }

/-- The last level whose interval fits into the remaining time, or the first one. -/
def levelfor (cfg : Config) (remaintime : ℤ) : ℕ :=
  ((List.range cfg.levels).reverse.find? fun index => cfg.interval index ≤ remaintime).getD 0

/-- **`addCheckItem`**, with the level it returns, or `none` for `false`. -/
def addCheckItem (cfg : Config) (s : State κ δ η) (now : ℤ) (key : κ) (data : δ) (endTime : ℤ)
    (completeHandler : Option η) : State κ δ η × Option ℕ :=
  if !cfg.isAddCover && (s.levelof cfg key).isSome then (s, none)
  else
    let s := if cfg.isAddCover then (removeCheckItem cfg s key).1 else s
    let s := initTimer cfg s now
    let index := levelfor cfg (endTime - current_time now)
    (s.put index key ⟨data, endTime, completeHandler⟩, some index)

/-- One level of the loop of `updateCheckTime`: what it finds is dropped and kept. -/
def takeout (key : κ) (acc : State κ δ η × Option (Item δ η)) (index : ℕ) :
    State κ δ η × Option (Item δ η) :=
  match acc.1.look index key with
  | some item => (acc.1.drop index key, some item)
  | none => acc

/-- **`updateCheckTime`.** -/
def updateCheckTime (cfg : Config) (s : State κ δ η) (now : ℤ) (key : κ) (endtime : ℤ) :
    State κ δ η × Bool :=
  let r := (List.range cfg.levels).foldl (takeout key) (s, none)
  match r.2 with
  | some checkData =>
    ((addCheckItem cfg r.1 now key checkData.data endtime checkData.completeHandler).1, true)
  | none => (r.1, false)

/-- `clearAllCheckItem`. -/
def clearAllCheckItem (s : State κ δ η) : State κ δ η := { s with checkList := fun _ => ∅ }

/-- `timer:expire`. -/
def State.expire (s : State κ δ η) (index : ℕ) (now : ℤ) : Bool :=
  match s.checkTimer index with
  | some expired => decide (expired ≤ now)
  | none => false

/-- What a call returns, and the completions it made; or that it raises. -/
inductive Answer (κ δ η : Type*)
  | added (index : Option ℕ)
  | found (b : Bool)
  | none
  | completed (calls : List (Call κ δ η))
  | raises

/-- The loop of `run`, over the levels that are left. -/
def serve (cfg : Config) (now : ℤ) (s : State κ δ η) : List ℕ → State κ δ η × Answer κ δ η
  | [] => (s, .completed [])
  | index :: levels =>
    -- `table.indices` is nil
    if s.expire index now then (s.restart index now (cfg.interval index), .raises) else serve cfg now s levels

/-- **`run`.** -/
def run (cfg : Config) (s : State κ δ η) (now : ℤ) : State κ δ η × Answer κ δ η :=
  serve cfg now s (List.range cfg.levels).reverse

/-- A call of the manager. -/
inductive Op (κ δ η : Type*)
  | addCheckItem (key : κ) (data : δ) (endTime : ℤ) (completeHandler : Option η)
  | updateCheckTime (key : κ) (endtime : ℤ)
  | removeCheckItem (key : κ)
  | clearAllCheckItem
  | run

/-- A call at a time. -/
structure Event (κ δ η : Type*) where
  now : ℤ
  op : Op κ δ η

/-- **One call of the manager.** -/
def step (cfg : Config) (s : State κ δ η) (e : Event κ δ η) : State κ δ η × Answer κ δ η :=
  match e.op with
  | .addCheckItem key data endTime completeHandler =>
    let r := addCheckItem cfg s e.now key data endTime completeHandler
    (r.1, .added r.2)
  | .updateCheckTime key endtime =>
    let r := updateCheckTime cfg s e.now key endtime
    (r.1, .found r.2)
  | .removeCheckItem key =>
    let r := removeCheckItem cfg s key
    (r.1, .found r.2)
  | .clearAllCheckItem => (clearAllCheckItem s, .none)
  | .run => run cfg s e.now

end Manager

end Timecheck

end Athena
