import Athena.Common.System
import Athena.Lua.Arith
import Athena.Lua.Value
/-!
# The balances of a player — model

`addgold`, `remgold`, `addkhorium` and `remkhorium` of
`game/warehouse/warehouse.lua` on the balances of one player, any number
of them at once. Each runs in a coroutine of its own: it checks the number,
asks `golddc` or `khoriumdc` for the balance, computes the new one, has it
stored, tells the player and, for gold, the achievements. A state records
for each coroutine the request it waits for (`Phase`); a request of the
data services is one step.

The row of the player is there or not; `setvalue` stores nothing where it
is not. What comes after the store (`send_request`, `updatechallenge`) may
raise.
-/

namespace Athena

namespace Warehouse

open Lua

/-- The two balances: `goldnumber` of `golddc`, `khorium` of `khoriumdc`. -/
inductive Purse
  | gold
  | khorium
  deriving DecidableEq

/-- `warehousedefine.synctype`. -/
def Purse.synctype : Purse → ℕ
  | .gold => 1
  | .khorium => 2

/-- What tells the four requests apart: the balance, the direction and the
challenge of the achievements. -/
structure Request where
  purse : Purse
  removes : Bool
  challenge : Option ℕ
  deriving DecidableEq

def addgold : Request := ⟨.gold, false, some 2012⟩

def remgold : Request := ⟨.gold, true, some 2013⟩

def addkhorium : Request := ⟨.khorium, false, none⟩

def remkhorium : Request := ⟨.khorium, true, none⟩

/-- The check of the number: the answer where the request ends there. -/
def check : Option Value → Except Bool Number
  | some (.num n) =>
    if n.lt (.int 0) then .error false else if n.eq (.int 0) then .error true else .ok n
  | _ => .error false

/-- The new balance. -/
def Request.compute (r : Request) (b n : Number) : Number :=
  if r.removes then .max (.int 0) (b.sub n).floor else (b.add n).floor

/-- `matchgold` and `matchkhorium` check the same way. The second compares
the balance with itself, under the name of the number. -/
def matchgold (balance : Option Number) (number : Option Value) : Bool :=
  match check number with
  | .error answer => answer
  | .ok n =>
    match balance with
    | some b => n.le b
    | none => false

def matchkhorium (balance : Option Number) (number : Option Value) : Bool :=
  match check number with
  | .error answer => answer
  | .ok _ =>
    match balance with
    | some number => number.le number
    | none => false

/-- What a request ends with. -/
inductive Result
  | returned (b : Bool)
  | raised
  deriving DecidableEq

/-- **Where a request stands.** -/
inductive Phase
  | absent
  /-- Its `getvalue` is on the way. -/
  | reading (r : Request) (n : Number)
  /-- Its `setvalue` is on the way, after `getvalue` answered `b`. -/
  | writing (r : Request) (n b : Number)
  /-- Inside the notices. -/
  | notifying (r : Request) (n : Number)
  | finished
  deriving DecidableEq

variable (C : Type)

/-- **The balances and the requests.** -/
structure State where
  balance : Purse → Option Number
  phase : C → Phase

/-- A request comes, a data service serves its `getvalue` or `setvalue`, the
notices return or raise. -/
inductive Event
  | call (c : C) (r : Request) (number : Option Value)
  | read (c : C)
  | write (c : C)
  | notified (c : C) (ok : Bool)

/-- A balance is stored, the player and the achievements are told, a request
is answered. -/
inductive Out
  | wrote (c : C) (r : Request) (n : Number)
  | sync (index : ℕ) (curnum : Number)
  | challenge (id : ℕ) (number : Number)
  | answer (c : C) (r : Request) (number : Option Value) (result : Result)
  deriving DecidableEq

variable {C} [DecidableEq C]

def State.goto (s : State C) (c : C) (p : Phase) : State C :=
  { s with phase := Function.update s.phase c p }

/-- `setvalue`, where the row is there. -/
def State.setvalue (s : State C) (p : Purse) (b : Number) : State C :=
  { s with balance := Function.update s.balance p ((s.balance p).map fun _ => b) }

/-- A request up to its `getvalue`. -/
def begin (s : State C) (c : C) (r : Request) (number : Option Value) : State C × List (Out C) :=
  match check number with
  | .error b => (s.goto c .finished, [.answer c r number (.returned b)])
  | .ok n => (s.goto c (.reading r n), [])

/-- From the answer of `getvalue` to `setvalue`. -/
def afterRead (s : State C) (c : C) (r : Request) (n : Number) : State C × List (Out C) :=
  match s.balance r.purse with
  | some b => (s.goto c (.writing r n b), [])
  | none => (s.goto c .finished, [.answer c r (some (.num n)) (.returned false)])

/-- `setvalue`, and the notices that follow its answer. -/
def afterWrite (s : State C) (c : C) (r : Request) (n b : Number) : State C × List (Out C) :=
  ((s.setvalue r.purse (r.compute b n)).goto c (.notifying r n),
    .wrote c r n :: .sync r.purse.synctype (r.compute b n) ::
      (r.challenge.map fun id => .challenge id n).toList)

/-- **One event.** -/
def step (s : State C) : Event C → Option (State C × List (Out C))
  | .call c r number => if s.phase c = .absent then some (begin s c r number) else none
  | .read c =>
    match s.phase c with
    | .reading r n => some (afterRead s c r n)
    | _ => none
  | .write c =>
    match s.phase c with
    | .writing r n b => some (afterWrite s c r n b)
    | _ => none
  | .notified c ok =>
    match s.phase c with
    | .notifying r n =>
      some (s.goto c .finished,
        [.answer c r (some (.num n)) (if ok then .returned true else .raised)])
    | _ => none

/-- No request yet, and the balances of a player, which are integers. -/
def initial (balance : Purse → Option Int64) : State C where
  balance p := (balance p).map .int
  phase _ := .absent

/-- **The requests on the balances**, under every order of their steps. -/
def system : System (State C) (Event C × List (Out C)) where
  init s := ∃ balance, s = initial balance
  step s l t := step s l.1 = some (t, l.2)

end Warehouse

end Athena
