import Athena.Store.Model
/-!
# Entities — model

An entity is the copy of a table that a game service has in memory: its
`recordset`, which it fills from `dbmgr` and writes through to it. This is
`Entity.lua` and `UserSingleEntity.lua`, where a user has one row, under
its uid.

A row is what `dbmgr` made of it when the call was made: callers do not
change a row they have handed over or were given.
-/

namespace Athena

namespace Entity

open Lua
open Store (Env Keyed Reply State uidValue)

/-- **An entity and the services behind it.** -/
structure Data where
  services : State
  recordset : Keyed

abbrev Op (α : Type) := Act Data Fault α

variable {α : Type}

/-- `skynet.call`: what it did to the services stays done where it raises
an error. -/
def call (x : Store.Call α) : Op α := fun d =>
  ((x d.services).1, { d with services := (x d.services).2 })

/-- The field every entity knows its rows by. -/
def idField : Str := "id".toList

/-- `id and self.recordset[id]`. -/
def member (recordset : Keyed) : Option Value → Option Row
  | none | some (.bool false) => none
  | some id => recordset.lookup id.asKey

/-- `not id or id == 0`. -/
def lacksId : Option Value → Bool
  | none | some (.bool false) => true
  | some (.num (.int i)) => i = 0
  | some (.num (.flt q)) => q = 0
  | some _ => false

/-- An answer that is a number. -/
def numberOf : Reply → Option Value
  | .int n => some (uidValue n)
  | _ => none

/-- `Entity:getNextId`, for `self.tbname` and `self.pk`. -/
def getNextId (tb pk : Str) (E : Env) : Store.Call (Option Value) := do
  let r ← Store.doRedis E (.incr (tb ++ ':' :: pk)) none
  pure (numberOf r)

/-! ## A row for a user -/

/-- The `field` of a `get`: none, a name or an array of names. -/
inductive Field
  | whole
  | one (name : Str)
  | many (names : List Str)

/-- What a `get` returns. -/
inductive Got
  | row (r : Row)
  | value (v : Option Value)

/-- The `field` and `value` of a `setValue`. -/
inductive Assignment
  | one (field : Str) (value : Option Value)
  | many (fields : Row)

variable (E : Env) (tb : Str)

/-- `UserSingleEntity:load`. -/
def load (uid : Int64) : Op Unit := do
  let d ← Act.get
  if (d.recordset.lookup (uidValue uid)).isSome then pure ()
  else do
    let record ← call (Store.getUserSingle E tb uid)
    if record.entries = [] then pure ()
    else Act.modify fun d => { d with recordset := d.recordset.insert (uidValue uid) record }

/-- `UserSingleEntity:unload`. -/
def unload (uid : Int64) : Op Unit :=
  Act.modify fun d => { d with recordset := d.recordset.erase (uidValue uid) }

/-- The first half of `UserSingleEntity:add`: a row without an id gets the
next one. -/
def takeId (record : Row) : Op Row :=
  let pk := (E.schema tb).pk
  if lacksId (record.lookup pk) then do
    let id ← call (getNextId tb pk E)
    pure (record.set pk id)
  else pure record

/-- **`UserSingleEntity:add`.** It returns the row it has stored. -/
def add (record : Row) (nosync : Bool) : Op (Option (Bool × Row)) := do
  let d ← Act.get
  if (member d.recordset (record.lookup idField)).isSome then pure none
  else do
    let record ← takeId E tb record
    let ret ← call (Store.add E tb record .user nosync)
    if ret then do
      let d ← Act.get
      let recordset ← Act.lift (d.recordset.put (record.lookup idField) record)
      Act.modify fun d => { d with recordset := recordset }
      pure (some (ret, record))
    else pure (some (ret, record))

/-- **`UserSingleEntity:update`.** -/
def update (record : Row) (nosync : Bool) : Op (Option Bool) := do
  let d ← Act.get
  match record.lookup idField, member d.recordset (record.lookup idField) with
  | some id, some row => do
    let ret ← call (Store.update E tb record .user nosync)
    if ret then do
      Act.modify fun d => { d with recordset := d.recordset.insert id.asKey (record ∪ row) }
      pure (some ret)
    else pure (some ret)
  | _, _ => pure none

/-- What a `get` takes out of a row in memory. -/
def Field.of (row : Row) : Field → Got
  | .whole => .row row
  | .one name => .value (row.lookup name)
  | .many names => .row (names.foldl (fun record name => record.set name (row.lookup name)) ∅)

/-- What it takes out of a row that was not: an array of names is not
looked at. -/
def Field.ofLoaded (row : Row) : Field → Got
  | .one name => .value (row.lookup name)
  | _ => .row row

/-- **`UserSingleEntity:get`.** -/
def get (uid : Int64) (field : Field) : Op Got := do
  let d ← Act.get
  match d.recordset.lookup (uidValue uid) with
  | some row => pure (field.of row)
  | none => do
    let record ← call (Store.getUserSingle E tb uid)
    if record.entries = [] then pure (field.ofLoaded record)
    else do
      Act.modify fun d => { d with recordset := d.recordset.insert (uidValue uid) record }
      pure (field.ofLoaded record)

/-- What `getValue` makes of a `get`: a false becomes a nil. -/
def Got.orNil : Got → Got
  | .value (some (.bool false)) => .value none
  | g => g

/-- `UserSingleEntity:getValue`. -/
def getValue (uid : Int64) : Field → Op Got
  | .whole => pure (.value none)
  | field => do
    let record ← get E tb uid field
    pure record.orNil

/-- The row of a `setValue`: the id, and over it the fields. One field
without a value is iterated over, which raises an error. -/
def Assignment.record (uid : Int64) : Assignment → Except Fault Row
  | .one _ none | .one _ (some (.bool false)) => .error .iterate
  | .one field (some value) => .ok ((((∅ : Row).insert idField (uidValue uid)).insert field value))
  | .many fields => .ok (fields ∪ (∅ : Row).insert idField (uidValue uid))

/-- `UserSingleEntity:setValue`. -/
def setValue (uid : Int64) (a : Assignment) : Op (Option Bool) := do
  let record ← Act.lift (a.record uid)
  update E tb record false

end Entity

/-!
## Common tables — model

`CommonEntity.lua`: the copy of a whole table, its rows by their key. Each
operation finds its row in its own way: the ones that write look the id up as it
is and store under `getKey`, the ones that read try the id and then the number
it reads as.
-/

namespace Entity

namespace Common

open Lua
open Store (Env Keyed)

/-- `self.recordset[id]`. -/
def row (recordset : Keyed) : Option Value → Option Row
  | none => none
  | some id => recordset.lookup id.asKey

/-- The fields of a table's key. `init` asks `dbmgr` for them. -/
def keyFields (E : Env) (tb : Str) : List Str :=
  match E.configs .common tb with
  | some c => splitComma c.key
  | none => []

/-- `tonumber(key) or key`. -/
def numberOr (key : Value) : Value :=
  match key.tonumber with
  | some n => .num n
  | none => key

/-- `CommonEntity:getKey`. -/
def getKey (E : Env) (tb : Str) (row : Row) : Except Fault (Option Value) :=
  match keyFields E tb with
  | [] => .ok none
  | f :: fs => do
    let key ← fs.foldlM (Store.appendKey row) (row.lookup f)
    pure (key.map numberOr)

/-- `self.recordset[key] = nil`. -/
def clear (recordset : Keyed) : Option Value → Except Fault Keyed
  | none | some (.num .nan) => .error .index
  | some key => .ok (recordset.erase key.asKey)

/-- `for k, v in pairs(row) do self.recordset[key][k] = v end`. -/
def assign (recordset : Keyed) (key : Option Value) (fields : Row) : Except Fault Keyed :=
  match key, row recordset key with
  | some key, some old => .ok (recordset.insert key.asKey (fields ∪ old))
  | _, _ => .error .index

variable (E : Env) (tb : Str)

/-- **`CommonEntity:load`.** -/
def load : Op Unit := do
  let d ← Act.get
  if d.recordset.entries = [] then do
    let rs ← call (Store.getCommon E tb)
    Act.modify fun d => { d with recordset := rs }
  else pure ()

/-- `CommonEntity:add` up to the answer of `dbmgr`, with the row that it
sent; nothing where memory has a row at its id. -/
def addRow (record : Row) (nosync : Bool) : Op (Option (Bool × Row)) := do
  let d ← Act.get
  if (member d.recordset (record.lookup idField)).isSome then pure none
  else do
    let record ← takeId E tb record
    let ret ← call (Store.add E tb record .common nosync)
    pure (some (ret, record))

/-- The rest of `CommonEntity:add`. -/
def keepRow (ret : Bool) (record : Row) : Op Unit :=
  if ret then do
    let key ← Act.lift (getKey E tb record)
    let d ← Act.get
    let recordset ← Act.lift (d.recordset.put key record)
    Act.modify fun d => { d with recordset := recordset }
  else pure ()

/-- **`CommonEntity:delete`.** -/
def delete (record : Row) (nosync : Bool) : Op (Option Bool) := do
  let d ← Act.get
  match row d.recordset (record.lookup (E.schema tb).pk) with
  | none => pure none
  | some _ => do
    let ret ← call (Store.delete E tb record .common nosync)
    if ret then do
      let key ← Act.lift (getKey E tb record)
      let d ← Act.get
      let recordset ← Act.lift (clear d.recordset key)
      Act.modify fun d => { d with recordset := recordset }
      pure (some true)
    else pure (some true)

/-- **`CommonEntity:remove`.** -/
def remove (record : Row) : Op (Option Bool) := do
  let d ← Act.get
  match row d.recordset (record.lookup (E.schema tb).pk) with
  | none => pure none
  | some _ => do
    let key ← Act.lift (getKey E tb record)
    let recordset ← Act.lift (clear d.recordset key)
    Act.modify fun d => { d with recordset := recordset }
    pure (some true)

/-- **`CommonEntity:update`.** -/
def update (record : Row) (nosync : Bool) : Op (Option Bool) := do
  let d ← Act.get
  match row d.recordset (record.lookup (E.schema tb).pk) with
  | none => pure none
  | some _ => do
    let ret ← call (Store.update E tb record .common nosync)
    if ret then do
      let key ← Act.lift (getKey E tb record)
      let d ← Act.get
      let recordset ← Act.lift (assign d.recordset key record)
      Act.modify fun d => { d with recordset := recordset }
      pure (some true)
    else pure (some true)

/-- The key of a `get`: its one argument, or the texts of all of them. -/
def keyOf : List Value → Except Fault Value
  | [] => .error .assertion
  | [id] => .ok id
  | ids => .ok (.str (List.intercalate [':'] (ids.map Value.wire)))

/-- What is at a key, or else at the number it reads as. -/
def find (recordset : Keyed) (key : Value) : Row :=
  match row recordset (some key) with
  | some record => record
  | none => (row recordset (key.tonumber.map Value.num)).getD ∅

/-- **`CommonEntity:get`.** -/
def get (recordset : Keyed) (ids : List Value) : Except Fault Row := do
  let key ← keyOf ids
  pure (find recordset key)

/-- **`CommonEntity:getValue`.** -/
def getValue (recordset : Keyed) (id : Value) (field : Str) : Except Fault (Option Value) := do
  let record ← get recordset [id]
  match record.lookup field with
  | some v => pure (some v)
  | none => do
    let record ← get recordset [.str id.wire]
    pure (record.lookup field)

/-- The row of a `setValue`. -/
def record (pk : Str) (id : Value) (field : Str) (data : Option Value) : Row :=
  ((∅ : Row).set pk (some id)).set field data

/-- **`CommonEntity:setValue`**, which returns nothing; here it is what its
`update` returned. -/
def setValue (id : Value) (field : Str) (data : Option Value) : Op (Option Bool) :=
  update E tb (record (E.schema tb).pk id field data) false

end Common

end Entity

end Athena
