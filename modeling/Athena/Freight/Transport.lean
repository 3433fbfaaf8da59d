import Athena.Queue.Alone
import Athena.Queue.Columns
import Athena.Scan.Model
import Athena.Shop.Model
import Athena.Shop.Step
/-!
# Freight — purchases on their way

`transport` of `game/shop/shophandler.lua`, run by itself: the purchases a
player names go into a transport (`sendshopmarke`, with the rewards of
`getshopmarket_info`), and then out of `shopiteminfo` and `shopitem`, one by
one. The names are looked up before, against one reading of the list, and a
name may come twice.

A row that is not there reads as {}, which no error points out. The messages
to the player's client are left out.
-/

namespace Athena

namespace Freight

open Lua Queue.Lanes

/-- **The market and the queues.** Ids come from the counters of the tables. -/
structure State where
  shop : Shop.State
  queue : Queue.Lanes.State
  shelved : ∀ id, shop.stayputawayId < id → shop.stayputaway id = none
  queued : queue.Numbered

/-- The tables of the game, and what a player's row in `d_queueinfo` allows. -/
structure Config where
  /-- `Transport_Time`. -/
  blueprint : Str → Option ℤ
  material_list : Number → Option ℤ
  maxairfreighter : Int64 → ℕ
  maxperairfreighter : Int64 → ℕ

def Config.limits (cfg : Config) (uid : Int64) : Limits :=
  ⟨uid.toInt, cfg.maxairfreighter uid, cfg.maxperairfreighter uid⟩

/-! ## What is sent -/

/-- The reward a row becomes, alone in a cargo; nothing where a table has no
row for it. -/
def packed (cfg : Config) (value : Shop.Shopitem) : Option Cargo :=
  let number := value.number.toInt
  if value.type = Shop.blueprint then
    let cfgidarr := Scan.reward_strtoarr value.cfgid
    if cfgidarr.all fun b => (cfg.blueprint b).isSome then
      some ⟨[⟨value.cfgid, number, none, some 1, some value.price.toInt⟩], [], [],
        (cfgidarr.map fun b => (cfg.blueprint b).getD 0 * number).sum⟩
    else none
  else if value.type = Shop.material then
    (tonumber value.cfgid).bind fun cfgid =>
      (cfg.material_list cfgid).map fun time =>
        ⟨[], [⟨value.type.toInt, tostring cfgid, none, number, some 0⟩], [], time * number⟩
  else some ⟨[], [], [], 0⟩

/-- One cargo with another. -/
def both (c d : Cargo) : Cargo :=
  ⟨c.bprewardlist ++ d.bprewardlist, c.proprewardlist ++ d.proprewardlist, c.equiplist ++ d.equiplist,
    c.time + d.time⟩

/-- **`getshopmarket_info`**; nothing where it raises an error. -/
def getshopmarket_info (cfg : Config) : List (Option Shop.Shopitem) → Option Cargo
  | [] => some ⟨[], [], [], 0⟩
  | none :: data => getshopmarket_info cfg data
  | some value :: data =>
    (packed cfg value).bind fun c => (getshopmarket_info cfg data).map (both c)

/-- **`sendshopmarke`**, as `send` answers. -/
def sendshopmarke (cfg : Config) (s : State) (uid : Int64) (data : List (Option Shop.Shopitem))
    (pick : ℕ) : State × Option Bool :=
  match getshopmarket_info cfg data with
  | none => (s, none)
  | some cargo =>
    ({ s with
        queue := (send (cfg.limits uid) s.queue cargo pick).1
        queued := s.queued.send cargo pick },
      (send (cfg.limits uid) s.queue cargo pick).2)

/-! ## transport -/

inductive Reply
  | success
  | err_param
  | transport_full
  | raised
  deriving DecidableEq

/-- The loop that looks the names up: the rows it finds. -/
def lookup (shop : Shop.State) (uid : Int64) :
    List (Option ℤ) → Except Reply (List (Option Shop.Shopitem))
  | [] => .ok []
  -- `shopitem_dc.req.get(nil)` raises
  | none :: _ => .error .raised
  | some shopid :: rest =>
    if shopid ∈ shop.shopiteminfo uid then
      (lookup shop uid rest).map (shop.shopitem shopid :: ·)
    else .error .err_param

/-- The loop that takes the names out. -/
def State.takeout (s : State) (uid : Int64) (ids : List ℤ) : State :=
  { s with
    shop := { s.shop with
      shopitem := ids.foldl (fun t id => Function.update t id none) s.shop.shopitem
      shopiteminfo := Function.update s.shop.shopiteminfo uid
        (ids.foldl removeFound (s.shop.shopiteminfo uid)) } }

/-- The ids of a request. -/
def named (datainfos : Option (List (Option ℤ))) : List ℤ := (datainfos.getD []).filterMap id

/-- **`transport`.** -/
def transport (cfg : Config) (s : State) (uid : Int64) (datainfos : Option (List (Option ℤ)))
    (pick : ℕ) : State × Reply :=
  match datainfos with
  -- `next(nil)`
  | none => (s, .raised)
  | some [] => (s, .err_param)
  | some infos =>
    match lookup s.shop uid infos with
    | .error r => (s, r)
    | .ok curdata =>
      match sendshopmarke cfg s uid curdata pick with
      | (t, none) => (t, .raised)
      | (t, some false) => (t, .transport_full)
      | (t, some true) => (t.takeout uid (named datainfos), .success)

/-! ## Goods that are carried -/

/-- What something is and how much of it. -/
structure Goods where
  type : ℤ
  cfgid : Str
  number : ℤ
  deriving DecidableEq

/-- What a purchase is. A material goes by the number its id is. -/
def goods (item : Shop.Shopitem) : Goods :=
  ⟨item.type.toInt,
    if item.type = Shop.material then ((tonumber item.cfgid).map tostring).getD [] else item.cfgid,
    item.number.toInt⟩

def bpgoods (b : Queue.BpReward) : Goods := ⟨Queue.blueprint, b.cfgid, b.number⟩

def propgoods (p : Queue.PropReward) : Goods := ⟨p.type, p.cfgid, p.number⟩

/-- What the rewards of a transport are. -/
def rewards (bps : List Queue.BpReward) (props : List Queue.PropReward) : List Goods :=
  bps.map bpgoods ++ props.map propgoods

/-- **The purchases are under way**: a new transport has each of them once and
nothing else, and they are no longer on the list and in the table, where
everything else stays. -/
structure Carried (s t : State) (uid : Int64) (ids : List ℤ) : Prop where
  entry : ∃ id row, s.queue.db.rows id = none ∧
    t.queue.db.rows = Function.update s.queue.db.rows id (some row) ∧
    row.playerid = uid.toInt ∧ row.type = .airfreighter ∧
    t.queue.db.queueinfo uid.toInt row.column = s.queue.db.queueinfo uid.toInt row.column ++ [id] ∧
    ∃ items : List Shop.Shopitem, ids.dedup.map s.shop.shopitem = items.map some ∧
      (rewards row.bprewardlist row.proprewardlist).Perm (items.map goods)
  list : t.shop.shopiteminfo =
    Function.update s.shop.shopiteminfo uid ((s.shop.shopiteminfo uid).filter (· ∉ ids))
  table : ∀ id, t.shop.shopitem id = if id ∈ ids then none else s.shop.shopitem id

/-- **Nothing has changed**, but for an id that was drawn. -/
structure Kept (s t : State) : Prop where
  shop : t.shop = s.shop
  db : t.queue.db = s.queue.db
  timers : t.queue.timers = s.queue.timers

/-- **A transport carries the goods or changes nothing.** -/
def Transports (cfg : Config) (s : State) (uid : Int64) (datainfos : Option (List (Option ℤ)))
    (pick : ℕ) : Prop :=
  ((transport cfg s uid datainfos pick).2 = .success →
    Carried s (transport cfg s uid datainfos pick).1 uid (named datainfos)) ∧
  ((transport cfg s uid datainfos pick).2 ≠ .success →
    Kept s (transport cfg s uid datainfos pick).1)

/-- **A request that is granted**: the names are on the list, the tables know the
goods, and there is a lane that an entry can go to. -/
structure Granted (cfg : Config) (s : State) (uid : Int64) (datainfos : Option (List (Option ℤ)))
    (pick : ℕ) : Prop where
  given : datainfos = some ((named datainfos).map some)
  some_id : named datainfos ≠ []
  owned : ∀ id ∈ named datainfos, id ∈ s.shop.shopiteminfo uid
  known : ∀ id ∈ named datainfos, ∀ item, s.shop.shopitem id = some item → (packed cfg item).isSome
  lane : ∃ i, get_shortest_airfreighter (cfg.limits uid) s.queue pick = some (some i) ∧
    ∀ tail, (s.queue.lane (cfg.limits uid) i).getLast? = some tail → (s.queue.db.rows tail).isSome

/-- **Each purchase is named once and listed once**, and is there and of a kind
that is sent. -/
structure Apart (s : State) (uid : Int64) (ids : List ℤ) : Prop where
  once : ids.Nodup
  listed : ∀ id ∈ ids, (s.shop.shopiteminfo uid).count id = 1
  there : ∀ id ∈ ids, ∃ item, s.shop.shopitem id = some item ∧
    (item.type = Shop.blueprint ∨ item.type = Shop.material)

end Freight

/-!
## Freight — a transport that is cancelled

`removebq` of `game/businessqueue/bqproxy.lua`, run by itself: for each reward
of an entry it asks the shop to put it on sale (`trancancel`), and then it
deletes the entry. Of what the shop answers it sees nothing but an error that
is raised. An integer in the text of a reward list is a 64-bit one.
-/

namespace Freight

open Lua Queue.Lanes

/-- The arguments of a `trancancel`, but for the player. -/
structure Call where
  index : Int64
  cfgid : Str
  iskh : Option Int64
  number : Int64
  price : Option Int64
  deriving DecidableEq

def bpcall (b : Queue.BpReward) : Call :=
  ⟨Shop.blueprint, b.cfgid, b.iskh.map Int64.ofInt, Int64.ofInt b.number, b.price.map Int64.ofInt⟩

def propcall (p : Queue.PropReward) : Call :=
  ⟨Int64.ofInt p.type, p.cfgid, p.iskh.map Int64.ofInt, Int64.ofInt p.number, none⟩

/-- The calls of `removebq`: those of the blueprints, then those of the materials. -/
def calls (row : Queue.Row) : List Call :=
  row.bprewardlist.map bpcall ++ row.proprewardlist.map propcall

/-- What the shop finds about the price of something. -/
abbrev Quotes := Str → Shop.Quote

variable (quote : Quotes) (now : ℤ)

/-- One call. -/
def Call.trancancel (uid : Int64) (shop : Shop.State) (c : Call) : Shop.State × Shop.Reply :=
  ((Shop.trancancel shop uid c.index c.cfgid c.iskh c.number c.price (quote c.cfgid) now).1,
    (Shop.trancancel shop uid c.index c.cfgid c.iskh c.number c.price (quote c.cfgid) now).2.1)

/-- **The two loops**, false where a call raises an error. -/
def trancancels (uid : Int64) (shop : Shop.State) : List Call → Shop.State × Bool
  | [] => (shop, true)
  | c :: cs =>
    match c.trancancel quote now uid shop with
    | (shop, .raised) => (shop, false)
    | (shop, .code _) => trancancels uid shop cs

/-- The ids of `stayputaway` come from its counter. -/
def Shelved (shop : Shop.State) : Prop :=
  ∀ id, shop.stayputawayId < id → shop.stayputaway id = none

variable {quote now} {uid : Int64} {shop : Shop.State} {c : Call} {cs : List Call}

theorem shelved_enter (h : Shelved shop) (row : Shop.Stayputaway) : Shelved (shop.enter row) := by
  have hnew : shop.stayputaway (shop.stayputawayId + 1) = none := h _ (by omega)
  intro id hid
  show Shop.insertRow shop.stayputaway (shop.stayputawayId + 1) row id = none
  rw [Shop.insertRow_of_none hnew]
  exact Shop.fresh_update h id hid

theorem shelved_trancancel (h : Shelved shop) (c : Call) :
    Shelved (c.trancancel quote now uid shop).1 := by
  unfold Call.trancancel Shop.trancancel
  split
  · exact h
  · split
    · exact h
    · exact shelved_enter h _

theorem shelved_trancancels (h : Shelved shop) (cs : List Call) :
    Shelved (trancancels quote now uid shop cs).1 := by
  induction cs generalizing shop with
  | nil => exact h
  | cons c cs ih =>
    have hc : Shelved (c.trancancel quote now uid shop).1 := shelved_trancancel h c
    unfold trancancels
    split
    · rename_i heq
      rwa [heq] at hc
    · rename_i heq
      rw [heq] at hc
      exact ih hc

/-- `delbusinessqueue(bqid)`, without an award id. -/
def delbusinessqueue (bqid : ℕ) (d : Queue.Data) : Queue.Data := Queue.Del.run bqid none 6 .get d

theorem delbusinessqueue_airfreighter {bqid : ℕ} {d : Queue.Data} {row : Queue.Row}
    (hrow : d.rows bqid = some row) (htype : row.type = .airfreighter) :
    delbusinessqueue bqid d =
      (d.setvalue row.playerid row.column
        (Queue.remove_array (d.queueinfo row.playerid row.column) bqid)).delete bqid := by
  simp [delbusinessqueue, Queue.Del.run, Queue.Del.step, hrow, htype, Queue.Row.column]

/-- **Of a scan or a casting it makes an award and stops**, since it has no id to list. -/
theorem delbusinessqueue_finishes {bqid : ℕ} {d : Queue.Data} {row : Queue.Row}
    (hrow : d.rows bqid = some row) (htype : row.type ≠ .airfreighter) :
    (delbusinessqueue bqid d).rows = d.rows ∧
      (delbusinessqueue bqid d).awarded bqid = d.awarded bqid ++ [row.award (d.awardid + 1)] := by
  cases htype' : row.type with
  | airfreighter => exact absurd htype' htype
  | _ => simp [delbusinessqueue, Queue.Del.run, Queue.Del.step, hrow, htype']

theorem delbusinessqueue_rows (bqid : ℕ) (d : Queue.Data) (id : ℕ) (h : d.rows id = none) :
    (delbusinessqueue bqid d).rows id = none := by
  cases hrow : d.rows bqid with
  | none => simpa [delbusinessqueue, Queue.Del.run, Queue.Del.step, hrow] using h
  | some row =>
    by_cases htype : row.type = .airfreighter
    · rw [delbusinessqueue_airfreighter hrow htype]
      by_cases hid : id = bqid
      · rw [hid]
        exact Queue.delete_rows
      · show Function.update d.rows bqid none id = none
        rw [Function.update_of_ne hid]
        exact h
    · rw [(delbusinessqueue_finishes hrow htype).1]
      exact h

variable (quote now)

/-- **`removebq`.** -/
def removebq (s : State) (uid : Int64) (bqid : ℕ) : State × Reply :=
  match s.queue.db.rows bqid with
  -- `queuedata` is {}
  | none => (s, .err_param)
  | some row =>
    if row.playerid = uid.toInt then
      let r := trancancels quote now uid s.shop (calls row)
      let t : State := { s with shop := r.1, shelved := shelved_trancancels s.shelved (calls row) }
      if r.2 then
        ({ t with
            queue := { s.queue with db := delbusinessqueue bqid s.queue.db }
            queued := fun id hid => delbusinessqueue_rows bqid s.queue.db id (s.queued id hid) },
          -- nil is concatenated
          if row.type = .airfreighter then .success else .raised)
      else (t, .raised)
    else (s, .err_param)

/-! ## Goods that are returned -/

/-- A row of the shelf is what the call was for, and its id is listed with its owner. -/
def OnShelf (shop : Shop.State) (uid : Int64) (id : ℤ) (c : Call) : Prop :=
  ∃ stay, shop.stayputaway id = some stay ∧ stay.uid = uid ∧ stay.type = c.index ∧
    stay.cfgid = c.cfgid ∧ stay.number = c.number ∧
    (id ∈ (shop.putawayinfo uid).staygoldarr ∨ id ∈ (shop.putawayinfo uid).staykhoriumarr)

/-- **Everything is returned**: each reward is a new row on the shelf and nothing else
is, and the entry is in no list and in no table. -/
structure Returned (s t : State) (uid : Int64) (bqid : ℕ) (row : Queue.Row) : Prop where
  shelf : ∃ ids : List ℤ, ids.Nodup ∧ (∀ id ∈ ids, s.shop.stayputaway id = none) ∧
    List.Forall₂ (OnShelf t.shop uid) ids (calls row) ∧
    ∀ id, id ∉ ids → t.shop.stayputaway id = s.shop.stayputaway id
  list : ∀ u c, t.queue.db.queueinfo u c =
    if u = row.playerid ∧ c = row.column then (s.queue.db.queueinfo u c).filter (· ≠ bqid)
    else s.queue.db.queueinfo u c
  table : t.queue.db.rows = Function.update s.queue.db.rows bqid none

/-- **A cancellation changes nothing or returns everything.** -/
def Cancels (s : State) (uid : Int64) (bqid : ℕ) (row : Queue.Row) : Prop :=
  Kept s (removebq quote now s uid bqid).1 ∨ Returned s (removebq quote now s uid bqid).1 uid bqid row

/-- The arguments pass the check of `trancancel`. -/
def Call.passes (c : Call) : Bool := !decide (c.iskh = none ∨ c.iskh = some 1 ∧ c.price = none)

/-- There is a price, or the shop finds one. -/
def Call.priced (c : Call) : Bool := c.price.isSome || (quote c.cfgid).isSome

/-- **Every reward is taken back.** -/
def Taken (row : Queue.Row) : Prop := ∀ c ∈ calls row, c.passes = true ∧ c.priced quote = true

/-- **The first reward that passes the check has no price**: nothing was taken back
before the error. -/
def Stopped (row : Queue.Row) : Prop :=
  ∃ c, (calls row).find? Call.passes = some c ∧ c.priced quote = false

/-- The entry is listed once in its own list, or the list is empty. -/
def Listed (s : State) (bqid : ℕ) (row : Queue.Row) : Prop :=
  (s.queue.db.queueinfo row.playerid row.column).count bqid = 1 ∨
    s.queue.db.queueinfo row.playerid row.column = []

end Freight

end Athena
