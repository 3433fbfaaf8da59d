import Athena.Common.System
import Athena.Entity.Model
import Athena.Store.Rows
/-!
# A row for a user — model

`UserSingleEntity` over the data services: a user's row is in the memory
of the entity, in the redis connection of its uid and in MySQL. The
operations come one after the other and each runs to its end, also where
it raises an error.

What was written last is recorded beside the data (`Written`); nothing
reads it. It says what the three levels are for: a `get` answers it
(`Right`).
-/

namespace Athena

namespace Entity

namespace Single

open Lua
open Store (Env Keyed uidValue)

/-- **A user table by its `id`**, which is the uid. -/
structure UserTable where
  env : Env
  tb : Str
  config_eq : env.configs .user tb = some ⟨tb, idField, none⟩
  pk_eq : (env.schema tb).pk = idField
  id_number : (env.schema tb).fields idField = some .number
  word : Sql.IsWord tb
  words : ∀ k kind, (env.schema tb).fields k = some kind → Sql.IsWord k

/-! ## What was written -/

/-- The fields of a row. -/
def fieldsOf (row : Row) : Str → Option Value := fun k => row.lookup k

/-- **What was written last**, for every uid that has a row. -/
abbrev Written := Int64 → Option (Str → Option Value)

/-- The uid a row is stored under. -/
def rowId (row : Row) : Option Int64 :=
  match (row.lookup idField).map Value.asKey with
  | some (.num (.int n)) => some n
  | _ => none

/-- What an operation has written: a row, or some fields of one. -/
inductive Wrote
  | nothing
  | added (row : Row)
  | assigned (row : Row)

/-- The fields of a row over others. -/
def override (row : Row) (f : Str → Option Value) : Str → Option Value := fun k => (row.lookup k).or (f k)

def Written.after (w : Written) : Wrote → Written
  | .nothing => w
  | .added row =>
    match rowId row with
    | some n => Function.update w n (some (fieldsOf row))
    | none => w
  | .assigned row =>
    match rowId row with
    | some n => Function.update w n ((w n).map (override row))
    | none => w

/-! ## Runs -/

/-- An operation on the entity. -/
inductive Event
  | load (uid : Int64)
  | unload (uid : Int64)
  | add (row : Row)
  | update (row : Row)
  | setValue (uid : Int64) (a : Assignment)
  | get (uid : Int64) (field : Field)
  | getValue (uid : Int64) (field : Field)

variable (T : UserTable)

/-- An operation, with what it has written when it returns. -/
def Event.run : Event → Op Wrote
  | .load uid => do
    Entity.load T.env T.tb uid
    pure .nothing
  | .unload uid => do
    Entity.unload uid
    pure .nothing
  | .add row => do
    let ret ← Entity.add T.env T.tb row false
    match ret with
    | some (true, row) => pure (.added row)
    | _ => pure .nothing
  | .update row => do
    let ret ← Entity.update T.env T.tb row false
    if ret = some true then pure (.assigned row) else pure .nothing
  | .setValue uid a => do
    let ret ← Entity.setValue T.env T.tb uid a
    let row ← Act.lift (a.record uid)
    if ret = some true then pure (.assigned row) else pure .nothing
  | .get uid field => do
    let _ ← Entity.get T.env T.tb uid field
    pure .nothing
  | .getValue uid field => do
    let _ ← Entity.getValue T.env T.tb uid field
    pure .nothing

/-- **The entity, the services behind it, and what was written.** -/
structure State where
  data : Data
  written : Written

/-- **One operation.** What it did stays done where it raises an error. -/
def step (s : State) (e : Event) : State where
  data := (e.run T s.data).2
  written :=
    match (e.run T s.data).1 with
    | .ok w => s.written.after w
    | .error _ => s.written

/-- The name of a user's hash. -/
def hashName (uid : Int64) : Str := T.tb ++ ':' :: tostring (.int uid)

/-- What the redis connection of a uid has under its name. -/
def cached (s : Store.State) (uid : Int64) : Option Store.Entry :=
  (T.env.getconn (some (uidValue uid))).bind fun i => (s.pool i).lookup (hashName T uid)

/-- **A row that every level keeps as it is**: of the types of the columns,
its values safe in the cache and between the quotes of a statement. -/
def Fit (row : Row) : Prop :=
  Store.Typed (T.env.schema T.tb) row ∧ ∀ e ∈ row.entries, Store.CacheSafe e.2 ∧ Store.Survives e.2

/-- **MySQL has what was written**: a row for every uid, and that alone. -/
structure Kept (rows : List Row) (w : Written) : Prop where
  nodup : (rows.map (AList.lookup idField)).Nodup
  row : ∀ r ∈ rows, Fit T r ∧ ∃ n, r.lookup idField = some (uidValue n) ∧ w n = some (fieldsOf r)
  written : ∀ n, (w n).isSome → ∃ r ∈ rows, r.lookup idField = some (uidValue n)

/-- **The entity on top of a database**: nothing is in memory, and redis has
a row whole or not at all. -/
def system : System State Event where
  init s := s.data.recordset = ∅ ∧ Kept T (s.data.services.mysql T.tb) s.written ∧
    ∀ uid, cached T s.data.services uid = none ∨ ∃ h f, cached T s.data.services uid = some (.hash h) ∧
      s.written uid = some f ∧ Store.Whole h f
  step s e t := t = step T s e

/-- **Every `get` answers what was written last**, all of it. -/
def Right (s : State) : Prop :=
  ∀ uid r d, Entity.get T.env T.tb uid .whole s.data = (.ok (.row r), d) →
    fieldsOf r = (s.written uid).getD fun _ => none

/-! ## Where it does -/

/-- The next number of the table's counter; none, where redis has no number
there or the last one. -/
def nextId (s : Store.State) : Option Int64 :=
  match (s.pool 1).lookup (T.tb ++ ':' :: idField) with
  | none => some 1
  | some (.str x) =>
    match str2int x with
    | some (.int i) => if i = Int64.maxValue then none else some (i + 1)
    | _ => none
  | some _ => none

/-- A row to be added, with its id. -/
def named (s : Store.State) (row : Row) : Option Row :=
  if lacksId (row.lookup idField) then (nextId T s).map fun n => row.insert idField (uidValue n)
  else some row

/-- A row with a uid that every level keeps. -/
def Proper (row : Row) : Prop := (∃ n, row.lookup idField = some (uidValue n)) ∧ Fit T row

/-- **A sound operation.** What is written is a proper row, what is added has
a new id, and a user is unloaded while its connection has its row whole or
not at all. -/
def Sound (s : State) : Event → Prop
  | .add row => member s.data.recordset (row.lookup idField) = none →
    ∀ r, named T s.data.services row = some r →
      Proper T r ∧ ∀ r' ∈ s.data.services.mysql T.tb, r'.lookup idField ≠ r.lookup idField
  | .update row => member s.data.recordset (row.lookup idField) ≠ none → Proper T row
  | .setValue uid a => ∀ row, a.record uid = .ok row →
    member s.data.recordset (row.lookup idField) ≠ none → Proper T row
  | .unload uid => ∀ row h, s.data.recordset.lookup (uidValue uid) = some row →
    cached T s.data.services uid = some (.hash h) → ∀ k ∈ row, k ∈ h
  | .load _ | .get _ _ | .getValue _ _ => True

end Single

end Entity

end Athena
