import Athena.Lua.Number
import Mathlib.Data.Int.Notation
import Mathlib.Logic.Function.Basic
/-!
# Business queues — model

`bqmgr` and `removebq` of `game/businessqueue`. An entry of
`d_businessqueue` waits for its end time, in a lane of transport planes or
in the list of scans or castings under way. A coroutine ends it: it gives
out the rewards (`onbq_completed`, inside the queue `cs`) or it returns the
goods (`removebq`), and then takes the entry out (`delbusinessqueue`).

A coroutine waits at each request to another service, and the others run
meanwhile. What it is about to do is the constructor it stands at, with
what it has read so far. A comma-separated list of ids is a list here, and
the texts of the reward lists are the lists. A coroutine that raises an
error is over. The notice that a queue has finished, with its own tables,
is left out.
-/

namespace Athena

namespace Queue

open Lua

/-- `businessdefine.businessType`. -/
inductive BusinessType
  | airfreighter
  | scan
  | cast
  deriving DecidableEq

/-- `warehousedefine.warehousetype`, as far as it is asked for here. -/
def blueprint : ℤ := 6

def material : ℤ := 7

def chip : ℤ := 5

/-- A blueprint reward. Goods of the shop carry `iskh` and a price. -/
structure BpReward where
  cfgid : Str
  number : ℤ
  name : Option Str
  iskh : Option ℤ
  price : Option ℤ
  deriving DecidableEq

/-- A material or chip reward. -/
structure PropReward where
  type : ℤ
  cfgid : Str
  lv : Option ℤ
  number : ℤ
  iskh : Option ℤ
  deriving DecidableEq

/-- A part of a machine. -/
structure EquipReward where
  type : ℤ
  cfgid : Str
  lv : ℤ
  number : ℤ
  deriving DecidableEq

/-- **A row of `d_businessqueue`**, known by its id. -/
structure Row where
  playerid : ℤ
  type : BusinessType
  /-- The lane, of a transport. -/
  subtype : ℕ
  bprewardlist : List BpReward
  proprewardlist : List PropReward
  equiplist : List EquipReward
  sponsorid : Str
  starttime : ℤ
  endtime : ℤ
  initendtime : ℤ
  deriving DecidableEq

/-- The lists of ids in a row of `d_queueinfo`. -/
inductive Column
  | airfreighter (i : ℕ)
  | ingscan
  | ingcasting
  | endscan
  | endcasting
  deriving DecidableEq

/-- Where an entry is listed while it runs. -/
def Row.column (row : Row) : Column :=
  match row.type with
  | .airfreighter => .airfreighter row.subtype
  | .scan => .ingscan
  | .cast => .ingcasting

/-- Where its award is listed afterwards. -/
def Row.finished (row : Row) : Column :=
  match row.type with
  | .airfreighter => .airfreighter row.subtype
  | .scan => .endscan
  | .cast => .endcasting

/-- **A row of `d_awardinfo`.** -/
structure Award where
  id : ℕ
  bprewardlist : List BpReward
  proprewardlist : List PropReward
  equiplist : List EquipReward
  sponsorid : Str
  deriving DecidableEq

/-- The award of an entry. -/
def Row.award (row : Row) (id : ℕ) : Award :=
  ⟨id, row.bprewardlist, row.proprewardlist, row.equiplist, row.sponsorid⟩

/-- A request that gives something to a player. -/
inductive Grant
  | addblueprint (uid : ℤ) (cfgid : Str) (number : ℤ)
  | addmaterials (uid : ℤ) (cfgid : Str) (number : ℤ)
  | addchip (uid : ℤ) (cfgid : Str) (lv : Option ℤ) (number : ℤ)
  deriving DecidableEq

/-- What `trancancel` puts back on a player's shelf. -/
structure Return where
  uid : ℤ
  type : ℤ
  cfgid : Str
  iskh : ℤ
  number : ℤ
  deriving DecidableEq

/-- **The data centres**, and what the other services did for each entry. -/
structure Data where
  rows : ℕ → Option Row
  queueinfo : ℤ → Column → List ℕ
  /-- The last id `awardinfo_dc` gave. -/
  awardid : ℕ
  granted : ℕ → List Grant
  awarded : ℕ → List Award
  returned : ℕ → List Return

/-- `queue_dc.req.setvalue`. -/
def Data.setvalue (d : Data) (uid : ℤ) (c : Column) (ids : List ℕ) : Data :=
  { d with queueinfo := fun u k => if u = uid ∧ k = c then ids else d.queueinfo u k }

/-- `bq_dc.req.setvalue(bqid, "endtime", endtime)`. -/
def Data.setendtime (d : Data) (bqid : ℕ) (endtime : ℤ) : Data :=
  { d with
    rows := Function.update d.rows bqid ((d.rows bqid).map fun row => { row with endtime := endtime }) }

/-- `bq_dc.req.delete`. -/
def Data.delete (d : Data) (bqid : ℕ) : Data :=
  { d with rows := Function.update d.rows bqid none }

/-- `awardinfo_dc.req.add`, for an entry. -/
def Data.award (d : Data) (bqid : ℕ) (a : Award) : Data :=
  { d with
    awarded := Function.update d.awarded bqid (d.awarded bqid ++ [a])
    awardid := max d.awardid a.id }

/-- A request that gives, for an entry. -/
def Data.grant (d : Data) (bqid : ℕ) (g : Grant) : Data :=
  { d with granted := Function.update d.granted bqid (d.granted bqid ++ [g]) }

/-- A `trancancel`, for an entry. -/
def Data.shelve (d : Data) (bqid : ℕ) (g : Return) : Data :=
  { d with returned := Function.update d.returned bqid (d.returned bqid ++ [g]) }

/-- `string.join(remove_array(string.split(text), bqid))`: `remove_array`
returns nothing where the id is not there, and nothing joins to "". -/
def remove_array (ids : List ℕ) (bqid : ℕ) : List ℕ :=
  if bqid ∈ ids then ids.erase bqid else []

/-! ## delbusinessqueue -/

/-- **Where `delbusinessqueue` stands.** -/
inductive Del
  | get
  | queueinfo (row : Row)
  | award (row : Row) (info : Column → List ℕ)
  | ing (row : Row) (info : Column → List ℕ)
  | fin (row : Row) (info : Column → List ℕ)
  | lane (row : Row) (info : Column → List ℕ)
  | delete

/-- The next request of `delbusinessqueue(bqid, nextid)`. -/
def Del.step (bqid : ℕ) (nextid : Option ℕ) (d : Data) : Del → Option Del × Data
  | .get =>
    match d.rows bqid with
    -- `businessqueue` is {}, and `queue_dc.req.get(nil)` raises
    | none => (none, d)
    | some row => (some (.queueinfo row), d)
  | .queueinfo row =>
    match row.type with
    | .airfreighter => (some (.lane row (d.queueinfo row.playerid)), d)
    | .scan | .cast => (some (.award row (d.queueinfo row.playerid)), d)
  | .award row info =>
    (some (.ing row info), d.award bqid (row.award (nextid.getD (d.awardid + 1))))
  | .ing row info =>
    match row.type with
    | .cast =>
      (some (.fin row info),
        d.setvalue row.playerid .ingcasting (remove_array (info .ingcasting) bqid))
    -- `queueinfo.scan` is nil
    | .airfreighter | .scan =>
      (some (.fin row info), d.setvalue row.playerid .ingscan (remove_array [] bqid))
  | .fin row info =>
    match nextid with
    -- nil is concatenated
    | none => (none, d)
    | some id => (some .delete, d.setvalue row.playerid row.finished (info row.finished ++ [id]))
  | .lane row info =>
    (some .delete, d.setvalue row.playerid (.airfreighter row.subtype)
      (remove_array (info (.airfreighter row.subtype)) bqid))
  | .delete => (none, d.delete bqid)

/-! ## onbq_completed -/

/-- **Where `onbq_completed` stands.** -/
inductive Completion
  | check
  | get_nextid (row : Row)
  /-- `scan.req.removeto_end`, of a casting. -/
  | removeto_end (row : Row) (id : ℕ)
  /-- The blueprints still to give. -/
  | blueprints (row : Row) (bps : List BpReward)
  /-- The materials and chips still to give. -/
  | props (row : Row) (ps : List PropReward)
  | del (nextid : Option ℕ) (x : Del)

def BpReward.grant (uid : ℤ) (b : BpReward) : Grant := .addblueprint uid b.cfgid b.number

/-- Materials and chips are given, nothing else is. -/
def PropReward.grant (uid : ℤ) (p : PropReward) : Option Grant :=
  if p.type = material then some (.addmaterials uid p.cfgid p.number)
  else if p.type = chip then some (.addchip uid p.cfgid p.lv p.number)
  else none

/-- The next request of `onbq_completed(bqid)`. -/
def Completion.step (bqid : ℕ) (d : Data) : Completion → Option Completion × Data
  | .check =>
    match d.rows bqid with
    | none => (none, d)
    | some row =>
      match row.type with
      | .airfreighter => (some (.blueprints row row.bprewardlist), d)
      | .scan | .cast => (some (.get_nextid row), d)
  | .get_nextid row =>
    (some (.removeto_end row (d.awardid + 1)), { d with awardid := d.awardid + 1 })
  | .removeto_end _ id => (some (.del (some id) .get), d)
  | .blueprints row [] => (some (.props row row.proprewardlist), d)
  | .blueprints row (b :: bps) => (some (.blueprints row bps), d.grant bqid (b.grant row.playerid))
  | .props _ [] => (some (.del none .get), d)
  | .props row (p :: ps) =>
    match p.grant row.playerid with
    | some g => (some (.props row ps), d.grant bqid g)
    | none => (some (.props row ps), d)
  | .del nextid x => ((x.step bqid nextid d).1.map (.del nextid), (x.step bqid nextid d).2)

/-! ## removebq -/

/-- **Where `removebq` stands.** -/
inductive Removal
  /-- The goods still to return. -/
  | blueprints (uid : ℤ) (bps : List BpReward) (ps : List PropReward)
  | props (uid : ℤ) (ps : List PropReward)
  | del (x : Del)

/-- What a `trancancel` comes to. -/
inductive Answer
  | returned (r : Return)
  | err_param
  | raised
  deriving DecidableEq

/-- `shophandler:trancancel`. Without a price it looks for one in the list
of prices of the market, where there may be none. -/
def trancancel (market : Str → Bool) (uid type : ℤ) (cfgid : Str) (iskh : Option ℤ) (number : ℤ)
    (price : Option ℤ) : Answer :=
  match iskh with
  | none => .err_param
  | some iskh =>
    if iskh = 1 ∧ price = none then .err_param
    else if price = none ∧ market cfgid = false then .raised
    else .returned ⟨uid, type, cfgid, iskh, number⟩

def BpReward.trancancel (market : Str → Bool) (uid : ℤ) (b : BpReward) : Answer :=
  Queue.trancancel market uid blueprint b.cfgid b.iskh b.number b.price

def PropReward.trancancel (market : Str → Bool) (uid : ℤ) (p : PropReward) : Answer :=
  Queue.trancancel market uid p.type p.cfgid p.iskh p.number none

/-- A `trancancel` of `removebq`, which does not look at the answer. -/
def Answer.take (bqid : ℕ) (d : Data) (next : Removal) : Answer → Option Removal × Data
  | .returned r => (some next, d.shelve bqid r)
  | .err_param => (some next, d)
  | .raised => (none, d)

/-- The next request of `removebq`, after it has read the row. -/
def Removal.step (market : Str → Bool) (bqid : ℕ) (d : Data) : Removal → Option Removal × Data
  | .blueprints uid [] ps => (some (.props uid ps), d)
  | .blueprints uid (b :: bps) ps =>
    (b.trancancel market uid).take bqid d (.blueprints uid bps ps)
  | .props _ [] => (some (.del .get), d)
  | .props uid (p :: ps) => (p.trancancel market uid).take bqid d (.props uid ps)
  | .del x => ((x.step bqid none d).1.map .del, (x.step bqid none d).2)

/-! ## What the requests leave alone -/

section Frame

variable {d : Data} {bqid i : ℕ} {uid u : ℤ} {c k : Column} {ids : List ℕ} {e : ℤ} {a : Award}
  {g : Grant} {r : Return}

@[simp] theorem setvalue_rows : (d.setvalue uid c ids).rows = d.rows := rfl

theorem setvalue_queueinfo : (d.setvalue uid c ids).queueinfo u k =
    if u = uid ∧ k = c then ids else d.queueinfo u k := rfl

@[simp] theorem setvalue_granted : (d.setvalue uid c ids).granted = d.granted := rfl

@[simp] theorem setvalue_awarded : (d.setvalue uid c ids).awarded = d.awarded := rfl

@[simp] theorem setvalue_returned : (d.setvalue uid c ids).returned = d.returned := rfl

@[simp] theorem setendtime_rows :
    (d.setendtime bqid e).rows bqid = (d.rows bqid).map fun row => { row with endtime := e } :=
  Function.update_self ..

@[simp] theorem delete_rows : (d.delete bqid).rows bqid = none := Function.update_self ..

@[simp] theorem delete_queueinfo : (d.delete bqid).queueinfo = d.queueinfo := rfl

@[simp] theorem award_rows : (d.award bqid a).rows = d.rows := rfl

@[simp] theorem award_queueinfo : (d.award bqid a).queueinfo = d.queueinfo := rfl

@[simp] theorem award_awarded : (d.award bqid a).awarded bqid = d.awarded bqid ++ [a] :=
  Function.update_self ..

@[simp] theorem grant_rows : (d.grant bqid g).rows = d.rows := rfl

@[simp] theorem grant_queueinfo : (d.grant bqid g).queueinfo = d.queueinfo := rfl

@[simp] theorem grant_granted : (d.grant bqid g).granted bqid = d.granted bqid ++ [g] :=
  Function.update_self ..

@[simp] theorem shelve_rows : (d.shelve bqid r).rows = d.rows := rfl

@[simp] theorem shelve_queueinfo : (d.shelve bqid r).queueinfo = d.queueinfo := rfl

@[simp] theorem shelve_returned : (d.shelve bqid r).returned bqid = d.returned bqid ++ [r] :=
  Function.update_self ..

end Frame

end Queue

end Athena
