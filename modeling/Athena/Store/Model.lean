import Athena.Common.Act
import Athena.Lua.Value
import Athena.Sql.Statement
import Mathlib.Data.Char
import Mathlib.Data.List.Sort
import Mathlib.Data.List.Lex
import Mathlib.Logic.Function.Basic
/-!
# The data services — model

`common/dbmgr.lua` keeps every row twice: in MySQL, which it writes
through `dbsync`, and in the redis connections of `redispool`, as a hash
under a key made of the row's own fields, with a sorted set for a table
that has an index. It reads redis first and MySQL when redis has nothing.

Services are called one at a time and every call runs to its end. MySQL
executes the text of each write; its reads, whose texts carry no data,
are modelled by what they return. `columns`, `fields` and the ladder of
`d_score` are left out: no table sets `columns` and no caller passes
`fields`.
-/

namespace Athena

namespace Store

open Lua

/-! ## Tables -/

/-- What `load_schema_to_redis` records of a column. -/
inductive Kind
  | string
  | number
  deriving DecidableEq

/-- `schema[tbname]`. -/
structure Schema where
  pk : Str
  fields : Str → Option Kind

/-- An entry of the table lists `CMD.start` is given. -/
structure Config where
  name : Str
  key : Str
  indexkey : Option Str

/-- The `typ` of a call: the list its table is in. -/
inductive Typ
  | config
  | user
  | common
  | update
  deriving DecidableEq

/-- **What the services are started with.** A table is listed under its
own name, and the pool has a connection. -/
structure Env where
  maxconn : ℕ
  schema : Str → Schema
  configs : Typ → Str → Option Config
  maxconn_pos : 0 < maxconn
  name_eq : ∀ {typ tb c}, configs typ tb = some c → c.name = tb

/-! ## Redis -/

/-- What a redis key holds. -/
inductive Entry
  | str (s : Str)
  | hash (h : Table Str)
  /-- A sorted set whose scores are all `0`, so its order is that of the
  members. -/
  | zset (members : List Str)
  deriving DecidableEq

abbrev Db := Table Entry

/-- A command to `redispool`, with what the callers pass along. -/
inductive Command
  | set (key : Str) (value : Value)
  | get (key : Str)
  | hmset (key : Str) (t : Row)
  | hgetall (key : Str)
  | zadd (key : Str) (member : Value)
  | zrem (key : Str)
  | zrange (key : Str)
  | keys (pattern : Str)
  | incr (key : Str)
  | del (key : Str)

inductive Reply
  | done
  | missing
  | int (n : Int64)
  | bulk (s : Str)
  | list (l : List Str)

/-- The elements of a reply that is a list. -/
def Reply.elems : Reply → List Str
  | .list l => l
  | _ => []

/-- A hash on the wire: fields and values in turn. -/
def flatten (h : Table Str) : List Str := h.entries.flatMap fun e => [e.1, e.2]

/-- A row as redis stores it. -/
def wireRow (t : Row) : Table Str := t.mapValues fun _ v => some v.wire

/-- The patterns in use are a key, or a prefix before one `*`. -/
def matchesPattern (pattern key : Str) : Bool :=
  if pattern.getLast? = some '*' then pattern.dropLast.isPrefixOf key else pattern = key

/-- **The commands `redispool` has**, each on the connection it picks.
There is no `CMD.zrem`. -/
def handler : Command → Option (Db → Except Fault (Reply × Db))
  | .set key v => some fun db => .ok (.done, db.insert key (.str v.wire))
  | .get key => some fun db =>
    match db.lookup key with
    | none => .ok (.missing, db)
    | some (.str s) => .ok (.bulk s, db)
    | some _ => .error .reply
  | .hmset key t => some fun db =>
    if t.entries = [] then .error .reply
    else
      match db.lookup key with
      | none => .ok (.done, db.insert key (.hash (wireRow t)))
      | some (.hash h) => .ok (.done, db.insert key (.hash (wireRow t ∪ h)))
      | some _ => .error .reply
  | .hgetall key => some fun db =>
    match db.lookup key with
    | none => .ok (.list [], db)
    | some (.hash h) => .ok (.list (flatten h), db)
    | some _ => .error .reply
  | .zadd key member => some fun db =>
    match db.lookup key with
    | none => .ok (.int 1, db.insert key (.zset [member.wire]))
    | some (.zset ms) =>
      if member.wire ∈ ms then .ok (.int 0, db)
      else .ok (.int 1, db.insert key (.zset (ms.orderedInsert (· ≤ ·) member.wire)))
    | some _ => .error .reply
  | .zrem _ => none
  | .zrange key => some fun db =>
    match db.lookup key with
    | none => .ok (.list [], db)
    | some (.zset ms) => .ok (.list ms, db)
    | some _ => .error .reply
  | .keys pattern => some fun db => .ok (.list (db.keys.filter (matchesPattern pattern)), db)
  | .incr key => some fun db =>
    match db.lookup key with
    | none => .ok (.int 1, db.insert key (.str (tostring (.int 1))))
    | some (.str s) =>
      match str2int s with
      | some (.int i) =>
        if i = Int64.maxValue then .error .reply
        else .ok (.int (i + 1), db.insert key (.str (tostring (.int (i + 1)))))
      | _ => .error .reply
    | some _ => .error .reply
  | .del key => some fun db =>
    .ok (.int (if (db.lookup key).isSome then 1 else 0), db.erase key)

/-- `getconn`: which connection of the pool serves a `uid`. -/
def Env.getconn (E : Env) : Option Value → Option ℕ
  | none | some (.bool false) => some 1
  | some uid => if E.maxconn = 1 then some 1 else (uid.floorMod (E.maxconn - 1)).map (· + 2)

/-! ## The state -/

/-- **The state of the services**: the redis connections by their place in
the pool, and the rows of every MySQL table. -/
structure State where
  pool : ℕ → Db
  mysql : Str → List Row

abbrev Call (α : Type) := Act State Fault α

/-- `do_redis`: `redispool` looks the command up, which it asserts, and
runs it on the connection of `uid`. -/
def doRedis (E : Env) (c : Command) (uid : Option Value) : Call Reply := fun s =>
  match handler c with
  | none => (.error .assertion, s)
  | some f =>
    match E.getconn uid with
    | none => (.error .arith, s)
    | some i =>
      match f (s.pool i) with
      | .error e => (.error e, s)
      | .ok (r, db) => (.ok r, { s with pool := Function.update s.pool i db })

/-! ## MySQL -/

def Literal.contents : Sql.Literal → Str
  | .text s => s
  | .bare a => a

/-- What a column keeps of a literal: a number column keeps a number. -/
def columnValue (kind : Kind) (l : Sql.Literal) : Option Value :=
  match kind with
  | .string => some (.str (Literal.contents l))
  | .number => (Lua.tonumber (Literal.contents l)).map Value.num

/-- The columns and literals of a statement as fields of a row. Every
column must be one of the table's. -/
def columnValues (sch : Schema) : List (Str × Sql.Literal) → Option Row
  | [] => some ∅
  | (c, l) :: rest => do
    let kind ← sch.fields c
    let v ← columnValue kind l
    let row ← columnValues sch rest
    if c ∈ row then none else some (row.insert c v)

/-- A primary key is neither missing nor there twice. -/
def keyed (sch : Schema) (rows : List Row) : Bool :=
  (rows.map (AList.lookup sch.pk)).Nodup && none ∉ rows.map (AList.lookup sch.pk)

/-- The rows of a table after a statement; none, where it fails. -/
def runStatement (sch : Schema) (rows : List Row) : Sql.Statement → Option (List Row)
  | .insert _ columns values =>
    if columns.length = values.length then
      (columnValues sch (columns.zip values)).map fun row => rows ++ [row]
    else none
  | .update _ assigns c l => do
    let set ← columnValues sch assigns
    let kind ← sch.fields c
    let v ← columnValue kind l
    some (rows.map fun row => if row.lookup c = some v then set ∪ row else row)
  | .delete _ c l => do
    let kind ← sch.fields c
    let v ← columnValue kind l
    some (rows.filter fun row => row.lookup c ≠ some v)

/-- The table a statement is about. -/
def tableOf : Sql.Statement → Str
  | .insert t _ _ | .update t _ _ _ | .delete t _ _ => t

/-- **`mysqlpool` executes a text.** A text that is no statement and a
statement that fails change nothing. -/
def execute (E : Env) (tables : Str → List Row) (sql : Str) : Str → List Row :=
  match Sql.read sql with
  | none => tables
  | some st =>
    let tb := tableOf st
    match runStatement (E.schema tb) (tables tb) st with
    | some rows => if keyed (E.schema tb) rows then Function.update tables tb rows else tables
    | none => tables

/-- `skynet.call("dbsync", "lua", "sync", sql, true)`, whose answer nobody
looks at. -/
def sync (E : Env) (sql : Str) : Call Unit :=
  Act.modify fun s => { s with mysql := execute E s.mysql sql }

/-- The order of `order by pk asc`. -/
def pkLe (pk : Str) (r r' : Row) : Bool :=
  match r.lookup pk, r'.lookup pk with
  | some (.num a), some (.num b) => a.le b
  | some (.str a), some (.str b) => a ≤ b
  | _, _ => true

/-- A uid as the value it is. -/
def uidValue (uid : Int64) : Value := .num (.int uid)

/-- `select * from t [where key = uid] order by pk asc`. -/
def select (E : Env) (c : Config) (uid : Option Int64) (s : State) : List Row :=
  let rows := s.mysql c.name
  let rows := match uid with
    | none => rows
    | some uid => rows.filter fun row => row.lookup c.key = some (uidValue uid)
  rows.insertionSort fun r r' => pkLe (E.schema c.name).pk r r' = true

/-! ## Encoding a row -/

/-- `isnumber`. -/
def isnumber (str : Str) : Option Value :=
  if str = [] ∨ 12 < str.length then some (.str str)
  else if str.any fun c => (c < '0' || '9' < c) && (c ≠ '.' && c ≠ '-') then some (.str str)
  else (Lua.tonumber str).map Value.num

/-- `make_pairs_table` without `fields`. -/
def makePairsTable (data : Row) : List Str → Row
  | k :: v :: t => makePairsTable (data.set k (isnumber v)) t
  | [k] => data.set k none
  | [] => data

/-- `convert_record`. -/
def convertRecord (sch : Schema) (record : Row) : Row :=
  record.mapValues fun k v =>
    if sch.fields k = some .number then v.tonumber.map Value.num else some v

/-- `rediskey .. ":" .. row[field]`. -/
def appendKey (row : Row) (rediskey : Option Value) (field : Str) : Except Fault (Option Value) := do
  let a ← textOf rediskey
  let b ← textOf (row.lookup field)
  pure (some (.str (a ++ ':' :: b)))

/-- `make_rediskey`, which may be a nil or, for a key of one field, the
value of the field. -/
def makeRediskey (row : Row) (key : Str) : Except Fault (Option Value) :=
  match splitComma key with
  | [] => .ok (some (.str []))
  | f :: fs => fs.foldlM (appendKey row) (row.lookup f)

/-- `tbname .. ":" .. x`. -/
def hashKey (tb : Str) (x : Option Value) : Except Fault Str := do
  let a ← textOf x
  pure (tb ++ ':' :: a)

def indexWord : Str := ":index:".toList

/-- `tbname .. ":index:" .. x`. -/
def indexName (tb : Str) (x : Option Value) : Except Fault Str := do
  let a ← textOf x
  pure (tb ++ indexWord ++ a)

/-! ## Statement texts -/

/-- `v and 1 or 0`. -/
def bit (b : Bool) : Str := if b then ['1'] else ['0']

/-- What the builders write for a value. -/
def valueText : Value → Except Fault Str
  | .bool b => .ok (bit b)
  | v => do
    let a ← v.text
    pure (Sql.quote :: (a ++ [Sql.quote]))

/-- A nil to begin with, then the texts between commas. -/
def commaAppend (acc : Option Str) (a : Str) : Option Str :=
  match acc with
  | none => some a
  | some b => some (b ++ ',' :: a)

/-- The two lists of `CMD.add`. -/
def addLists (acc : Option Str × Option Str) :
    List (Sigma fun _ : Str => Value) → Except Fault (Option Str × Option Str)
  | [] => .ok acc
  | ⟨k, v⟩ :: rest => do
    let a ← valueText v
    addLists (commaAppend acc.1 k, commaAppend acc.2 a) rest

/-- **The text `CMD.add` hands over.** -/
def insertSql (tb : Str) (row : Row) : Except Fault Str := do
  let (columns, values) ← addLists (none, none) row.entries
  match columns, values with
  | some columns, some values =>
    pure ("insert into ".toList ++ tb ++ '(' :: columns ++ ") values(".toList ++ values ++ [')'])
  | _, _ => .error .concat

/-- The assignments of `CMD.update`, each with its comma. -/
def setValues (acc : Str) : List (Sigma fun _ : Str => Value) → Except Fault Str
  | [] => .ok acc
  | ⟨k, v⟩ :: rest => do
    let a ← valueText v
    setValues (acc ++ k ++ '=' :: a ++ [',']) rest

/-- `where pk='v'`. -/
def whereSql (pk : Str) (row : Row) : Except Fault Str := do
  let a ← textOf (row.lookup pk)
  pure (" where ".toList ++ pk ++ '=' :: Sql.quote :: a ++ [Sql.quote])

/-- **The text `CMD.update` hands over.** -/
def updateSql (tb pk : Str) (row : Row) : Except Fault Str := do
  let setvalues ← setValues [] row.entries
  let cond ← whereSql pk row
  pure ("update ".toList ++ tb ++ " set ".toList ++ trimComma setvalues ++ cond)

/-- The text `CMD.delete` hands over. -/
def deleteSql (tb pk : Str) (row : Row) : Except Fault Str := do
  let cond ← whereSql pk row
  pure ("delete from ".toList ++ tb ++ cond)

/-! ## Loading from MySQL -/

variable (E : Env)

def configOf (typ : Typ) (tb : Str) : Call Config :=
  match E.configs typ tb with
  | some c => pure c
  | none => Act.raise .index

/-- `zadd` of a row's key, in a table that has an index. A nil key has
raised an error before. -/
def addIndex (c : Config) (row : Row) (rediskey uid : Option Value) : Call Unit :=
  match c.indexkey, rediskey with
  | some indexkey, some member => do
    let linkey ← Act.lift (makeRediskey row indexkey)
    let index ← Act.lift (indexName c.name linkey)
    let _ ← doRedis E (.zadd index member) uid
    pure ()
  | _, _ => pure ()

/-- The body of the loop of `load_data_impl`. -/
def loadRow (c : Config) (uid : Option Int64) (row : Row) : Call Unit := do
  let rediskey ← Act.lift (makeRediskey row c.key)
  let key ← Act.lift (hashKey c.name rediskey)
  let _ ← doRedis E (.hmset key row) (uid.map uidValue)
  addIndex E c row rediskey (uid.map uidValue)

def loadRows (c : Config) (uid : Option Int64) : List Row → Call Unit
  | [] => pure ()
  | row :: rs => do
    loadRow E c uid row
    loadRows c uid rs

/-- The loop of `load_data_impl` over pages of a thousand rows, for a
number of pages. -/
def loadPages (c : Config) (uid : Option Int64) : ℕ → ℕ → List Row → Call (List Row)
  | 0, _, data => pure data
  | n + 1, offset, data => do
    let s ← Act.get
    let rs := ((select E c uid s).drop offset).take 1000
    if rs.length ≤ 0 then pure data
    else loadRows E c uid rs >>= fun _ =>
      if rs.length < 1000 then pure (data ++ rs)
      else loadPages c uid n (offset + 1000) (data ++ rs)

/-- **`load_data_impl`.** There are no more pages than rows. -/
def loadDataImpl (c : Config) (uid : Option Int64) : Call (List Row) := do
  let s ← Act.get
  loadPages E c uid ((s.mysql c.name).length + 1) 0 []

/-! ## Readers -/

/-- Rows by a key of theirs. -/
abbrev Keyed := AList (fun _ : Value => Row)

/-- `data[key] = row`. -/
def Keyed.put (data : Keyed) (key : Option Value) (row : Row) : Except Fault Keyed :=
  match key with
  | none | some (.num .nan) => .error .index
  | some v => .ok (data.insert v.asKey row)

/-- `hgetall`, `make_pairs_table` and, where the reader has it,
`convert_record`. -/
def readHash (key : Str) (uid : Option Value) : Call Row := do
  let r ← doRedis E (.hgetall key) uid
  pure (makePairsTable ∅ r.elems)

/-- The keys of the members of some indexes. -/
def memberKeys (tb : Str) : List Str → Call (List Str)
  | [] => pure []
  | index :: rest => do
    let r ← doRedis E (.zrange index) none
    let keys ← memberKeys tb rest
    pure (r.elems.map (fun id => tb ++ ':' :: id) ++ keys)

/-- The rows under some keys, by the keys made of them again. -/
def readKeys (c : Config) (data : Keyed) : List Str → Call Keyed
  | [] => pure data
  | v :: rest =>
    if v ≠ c.name ++ ':' :: (E.schema c.name).pk then do
      let row ← readHash E v none
      let row := convertRecord (E.schema c.name) row
      let key ← Act.lift (makeRediskey row c.key)
      let data ← Act.lift (data.put key row)
      readKeys c data rest
    else readKeys c data rest

/-- `CMD.get_common` and `CMD.get_update`, for their patterns: the members
of the indexes or, where there are none, the keys themselves. -/
def readTable (c : Config) (indexPattern keyPattern : Str) : Call Keyed := do
  let r ← doRedis E (.keys indexPattern) none
  let keys ← memberKeys E c.name r.elems
  if keys = [] then
    let r ← doRedis E (.keys keyPattern) none
    readKeys E c ∅ r.elems
  else readKeys E c ∅ keys

/-- **`CMD.get_common`.** -/
def getCommon (tb : Str) : Call Keyed := do
  let c ← configOf E .common tb
  readTable E c (tb ++ indexWord ++ ['*']) (tb ++ [':', '*'])

/-- **`CMD.get_update`.** -/
def getUpdate (tb : Str) (cfgid : Option Value) : Call Keyed := do
  let c ← configOf E .update tb
  match cfgid with
  | some cfgid =>
    let index ← Act.lift (indexName tb (some cfgid))
    let key ← Act.lift (hashKey tb (some cfgid))
    readTable E c index key
  | none => readTable E c (tb ++ indexWord ++ ['*']) (tb ++ [':', '*'])

/-- `CMD.load_user_single`. -/
def loadUserSingle (tb : Str) (uid : Int64) : Call Row := do
  let c ← configOf E .user tb
  let data ← loadDataImpl E c (some uid)
  match data with
  | [] => pure ∅
  | [row] => pure row
  | _ => Act.raise .assertion

/-- **`CMD.get_user_single`** without `fields`. -/
def getUserSingle (tb : Str) (uid : Int64) : Call Row := do
  let result ← readHash E (tb ++ ':' :: tostring (.int uid)) (some (uidValue uid))
  let result ← (if result.entries = [] then loadUserSingle E tb uid else pure result : Call Row)
  pure (convertRecord (E.schema tb) result)

/-- The rows of `CMD.load_user_multi` by their primary key. -/
def keyRows (pk : Str) (data : Keyed) : List Row → Except Fault Keyed
  | [] => .ok data
  | row :: rs => do
    let data ← data.put (row.lookup pk) row
    keyRows pk data rs

/-- `CMD.load_user_multi`. -/
def loadUserMulti (tb : Str) (uid : Int64) : Call Keyed := do
  let c ← configOf E .user tb
  let t ← loadDataImpl E c (some uid)
  Act.lift (keyRows (E.schema tb).pk ∅ t)

/-- What `CMD.get_user_multi` returns: all rows of a user, or one. -/
inductive Multi
  | all (rows : Keyed)
  | one (row : Option Row)

/-- The rows of the members of an index, by the numbers they are. -/
def readMembers (tb : Str) (uid : Int64) (data : Keyed) : List Str → Call Keyed
  | [] => pure data
  | id :: rest => do
    let row ← readHash E (tb ++ ':' :: id) (some (uidValue uid))
    let row := convertRecord (E.schema tb) row
    let data ← Act.lift (data.put ((Lua.tonumber id).map Value.num) row)
    readMembers tb uid data rest

/-- **`CMD.get_user_multi`** without `fields`. Only the branch for one row
out of redis has no `convert_record`. -/
def getUserMulti (tb : Str) (uid : Int64) (id : Option Value) : Call Multi := do
  let r ← doRedis E (.zrange (tb ++ indexWord ++ tostring (.int uid))) (some (uidValue uid))
  if r.elems = [] then do
    let t ← loadUserMulti E tb uid
    match id with
    | some id => pure (.one (t.lookup id.asKey))
    | none => pure (.all t)
  else
    match id with
    | some id => do
      let key ← Act.lift (hashKey tb (some id))
      let row ← readHash E key (some (uidValue uid))
      pure (.one (some row))
    | none => do
      let rows ← readMembers E tb uid ∅ r.elems
      pure (.all rows)

/-! ## Writers -/

/-- `if row.field and typ == 2 then uid = row.field end`. -/
def ownerOf (row : Row) (field : Str) (typ : Typ) : Option Value :=
  if typ = .user ∧ row.lookup field ≠ some (.bool false) then row.lookup field else none

/-- **`CMD.add`.** -/
def add (tb : Str) (row : Row) (typ : Typ) (nosync : Bool) : Call Bool := do
  let c ← configOf E typ tb
  let uid := ownerOf row "uid".toList typ
  let rediskey ← Act.lift (makeRediskey row c.key)
  let key ← Act.lift (hashKey tb rediskey)
  let _ ← doRedis E (.hmset key row) uid
  addIndex E c row rediskey uid
  if nosync then pure true
  else do
    let sql ← Act.lift (insertSql tb row)
    sync E sql
    pure true

/-- **`CMD.delete`.** -/
def delete (tb : Str) (row : Row) (typ : Typ) (nosync : Bool) : Call Bool := do
  let c ← configOf E typ tb
  let uid := ownerOf row "uid".toList typ
  let rediskey ← Act.lift (makeRediskey row c.key)
  let key ← Act.lift (hashKey tb rediskey)
  let _ ← doRedis E (.del key) uid
  match c.indexkey with
  | some indexkey =>
    let linkey ← Act.lift (makeRediskey row indexkey)
    let index ← Act.lift (indexName tb linkey)
    let _ ← doRedis E (.zrem index) uid
  | none => pure ()
  if nosync then pure true
  else do
    let sql ← Act.lift (deleteSql tb (E.schema tb).pk row)
    sync E sql
    pure true

/-- **`CMD.update`.** -/
def update (tb : Str) (row : Row) (typ : Typ) (nosync : Bool) : Call Bool := do
  let c ← configOf E typ tb
  let uid := ownerOf row "id".toList typ
  let rediskey ← Act.lift (makeRediskey row c.key)
  let key ← Act.lift (hashKey tb rediskey)
  let _ ← doRedis E (.hmset key row) uid
  if nosync then pure true
  else do
    let sql ← Act.lift (updateSql tb (E.schema tb).pk row)
    sync E sql
    pure true

end Store

end Athena
