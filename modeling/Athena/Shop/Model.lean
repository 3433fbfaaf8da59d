import Athena.Common.Mirror
import Athena.Common.System
import Athena.Warehouse.Serve
/-!
# The market — model

The trading part of `game/shop/shophandler.lua`: `putaway`, `sell`,
`trancancel`, `khoriumbuy` and the half-hourly `putawayupdate`, each run by
itself. What a player puts on sale waits in `stayputaway`; the next update
moves it to `putaway`, where players buy it for khorium, or to
`putawaygold`, where the system buys it for gold some updates later
(`ismarket`), or sells it at once. A row that is on sale past its
`downtime` goes back to its owner.

A table is a map from ids, and its ids come from a counter. The row of a
player in `putawayinfo` holds the ids of his rows in four lists, which are
stored as strings with commas, and `shopiteminfo` those of his purchases.
A client's id is any integer and may be that of no row.

What is asked outside the shop comes with the event: the half-hour price,
the time, whether the blueprint service agrees, and the draws of
`marketnum`. The balances and the materials are those of the warehouse.
What `khoriumbuy` records about prices in `s_blueprints` after the trade is
left out.
-/

namespace Athena

namespace Shop

open Lua Warehouse

/-! ## Rows -/

/-- A row of `putaway`. -/
structure Putaway where
  cfgid : Str
  number : Int64
  price : Int64
  type : Int64
  puttime : ℤ
  downtime : ℤ
  uid : Int64

/-- A row of `putawaygold`. -/
structure Putawaygold where
  cfgid : Option Number
  number : Int64
  price : Int64
  type : Int64
  puttime : ℤ
  downtime : ℤ
  uid : Int64
  ismarket : ℕ

/-- A row of `stayputaway`. -/
structure Stayputaway where
  cfgid : Str
  number : Int64
  iskh : Option Int64
  price : Int64
  type : Int64
  puttime : ℤ
  downtime : ℤ
  uid : Int64

/-- A row of `shopitem`. -/
structure Shopitem where
  cfgid : Str
  number : Int64
  price : Int64
  type : Int64
  shoptime : ℤ
  iskh : Int64
  uid : Int64

/-- The lists of a player in `putawayinfo`. -/
structure Putawayinfo where
  goldarr : List ℤ
  khoriumarr : List ℤ
  staygoldarr : List ℤ
  staykhoriumarr : List ℤ

/-- What the player has on the market. -/
def Putawayinfo.size (i : Putawayinfo) : ℕ :=
  i.staygoldarr.length + i.staykhoriumarr.length + i.goldarr.length + i.khoriumarr.length

/-- `warehousetype`, as far as the market tells them apart. -/
def blueprint : Int64 := 6

def material : Int64 := 7

/-- **The market**, and what of the players it touches. -/
structure State where
  putaway : ℤ → Option Putaway
  putawaygold : ℤ → Option Putawaygold
  stayputaway : ℤ → Option Stayputaway
  putawayinfo : Int64 → Putawayinfo
  shopitem : ℤ → Option Shopitem
  shopiteminfo : Int64 → List ℤ
  /-- The last ids of the four tables. -/
  putawayId : ℤ
  putawaygoldId : ℤ
  stayputawayId : ℤ
  shopitemId : ℤ
  balance : Purse → Int64 → Option Int64
  materials : Int64 → Materials

/-- The codes of `errcodedef` the market answers with. -/
inductive Code
  | success
  | errParam
  | cfgidNofind
  | goldNotEnough
  | shopFull
  deriving DecidableEq

inductive Reply
  | code (c : Code)
  | raised
  deriving DecidableEq

/-- Where goods were when the system bought them. -/
inductive Place
  | stay (id : ℤ)
  | gold (id : ℤ)
  deriving DecidableEq

/-- What is done, as seen from outside: goods are put on sale with the
half-hour price of the moment, are listed for gold, are bought by the
system or by a player, with what the owner has gained, and go back. -/
inductive Out
  | put (id : ℤ) (row : Stayputaway) (price : Int64)
  | listed (stay gold : ℤ)
  | sold (place : Place) (uid : Int64) (gain : ℤ)
  | back (gold : ℤ) (uid : Int64) (cfgid : Option Number) (gain : ℤ)
  | paid (uid : Int64) (gain : ℤ)

/-! ## The services it calls -/

def State.worth (s : State) (p : Purse) (uid : Int64) : ℤ :=
  ((s.balance p uid).map Int64.toInt).getD 0

/-- A request on a balance. -/
def State.serve (s : State) (r : Request) (uid : Int64) (n : Int64) : Bool × State :=
  ((r.serve (s.balance r.purse uid) n).1,
    { s with
      balance := Function.update s.balance r.purse
        (Function.update (s.balance r.purse) uid (r.serve (s.balance r.purse uid) n).2) })

def State.setMaterials (s : State) (uid : Int64) (m : Materials) : State :=
  { s with materials := Function.update s.materials uid m }

def State.setInfo (s : State) (uid : Int64) (i : Putawayinfo) : State :=
  { s with putawayinfo := Function.update s.putawayinfo uid i }

/-- `add` of a table, which keeps the row that is there. -/
def insertRow {α : Type} (t : ℤ → Option α) (id : ℤ) (row : α) : ℤ → Option α :=
  if (t id).isSome then t else Function.update t id (some row)

/-- The answer of `smaterials` and `json.decode` for a half-hour price:
none where it raises, and `some none` where there is no price. -/
abbrev Quote := Option (Option Int64)

/-! ## Putting on sale -/

/-- Seconds a row stays on the market. -/
def stay (iskh : Option Int64) : ℤ := if iskh = some 0 then 1800 else 3600 * 24

/-- A row for `stayputaway` under its next id, and the id in the list of
its kind. -/
def State.enter (s : State) (row : Stayputaway) : State :=
  let info := s.putawayinfo row.uid
  { s with
    stayputawayId := s.stayputawayId + 1
    stayputaway := insertRow s.stayputaway (s.stayputawayId + 1) row }.setInfo row.uid
      (if row.iskh = some 1 then
        { info with staykhoriumarr := info.staykhoriumarr ++ [s.stayputawayId + 1] }
      else { info with staygoldarr := info.staygoldarr ++ [s.stayputawayId + 1] })

/-- The request of `putaway`. -/
structure PutawayMsg where
  index : Option Int64
  cfgid : Option Str
  number : Option Int64
  price : Option Int64
  isnew : Option Bool

/-- `cfgid:match("(%d*)")`. -/
def digits (cfgid : Str) : Str := cfgid.takeWhile Char.isDigit

/-- `iskh` of what is put on sale. -/
def kindOf (index : Int64) : Option Int64 :=
  if index = material then some 0 else if index = blueprint then some 1 else none

variable (known : Number → Bool)

/-- The removal of the goods from the player: the answer of `remmaterials`
or of `remblueprint`. -/
def takeGoods (s : State) (uid index : Int64) (cfgid : Str) (number : Int64) (scanned : Bool) :
    Bool × State :=
  if index = material then
    ((remmaterials known (s.materials uid) (tonumber cfgid) number).1,
      s.setMaterials uid (remmaterials known (s.materials uid) (tonumber cfgid) number).2)
  else if index = blueprint then (scanned, s)
  else (true, s)

/-- **`putaway`.** -/
def putaway (s : State) (uid : Int64) (msg : PutawayMsg) (quote : Quote) (now : ℤ)
    (scanned : Bool) : State × Reply × List Out :=
  match msg.index, msg.cfgid, msg.isnew with
  | some index, some cfgid, some _ =>
    let number := msg.number.getD 1
    let iskh := kindOf index
    let cfgid := digits cfgid
    if iskh = some 1 ∧ msg.price = none then (s, .code .errParam, [])
    else
      match msg.price, quote with
      | none, none => (s, .raised, [])
      | given, _ =>
        let price := given.getD ((quote.getD none).getD 0)
        if 10 ≤ (s.putawayinfo uid).size then (s, .code .shopFull, [])
        else
          let row : Stayputaway := ⟨cfgid, number, iskh, price, index, now, now + stay iskh, uid⟩
          let (taken, t) := takeGoods known s uid index cfgid number scanned
          if taken then
            (t.enter row, .code .success,
              [.put (s.stayputawayId + 1) row ((quote.getD none).getD 0)])
          else ({ t with stayputawayId := t.stayputawayId + 1 }, .code .cfgidNofind, [])
  | _, _, _ => (s, .code .errParam, [])

/-- **`sell`**, of a purchase. -/
def sell (s : State) (uid : Int64) (shopid : Option ℤ) (quote : Quote) (now : ℤ) :
    State × Reply × List Out :=
  match shopid with
  | none => (s, .code .errParam, [])
  | some shopid =>
    if shopid ∈ s.shopiteminfo uid then
      match s.shopitem shopid with
      | none => (s, .code .cfgidNofind, [])
      | some item =>
        if item.iskh = 0 ∧ quote = none then (s, .raised, [])
        else
          let price := if item.iskh = 0 then (quote.getD none).getD 0 else item.price
          if 10 ≤ (s.putawayinfo uid).size then (s, .code .shopFull, [])
          else
            let row : Stayputaway := ⟨item.cfgid, item.number, some item.iskh,
              price * item.number, item.type, now, now + stay (some item.iskh), uid⟩
            let t := s.enter row
            ({ t with
                shopitem := Function.update s.shopitem shopid none
                shopiteminfo := Function.update s.shopiteminfo uid
                  (removeFound (s.shopiteminfo uid) shopid) },
              .code .success, [.put (s.stayputawayId + 1) row ((quote.getD none).getD 0)])
    else (s, .code .cfgidNofind, [])

/-- **`trancancel`**: what an airfreighter carried goes on sale. -/
def trancancel (s : State) (uid : Int64) (index : Int64) (cfgid : Str) (iskh : Option Int64)
    (number : Int64) (given : Option Int64) (quote : Quote) (now : ℤ) :
    State × Reply × List Out :=
  if iskh = none ∨ iskh = some 1 ∧ given = none then (s, .code .errParam, [])
  else
    match given, quote with
    | none, none => (s, .raised, [])
    | given, _ =>
      let price := given.getD ((quote.getD none).getD 0)
      let row : Stayputaway := ⟨cfgid, number, iskh, price, index, now, now + stay iskh, uid⟩
      (s.enter row, .code .success,
        [.put (s.stayputawayId + 1) row ((quote.getD none).getD 0)])

/-! ## Buying for khorium -/

/-- The first pass of `khoriumbuy`: the number of all, and the price of the
first. -/
def validate (s : State) : List (Option ℤ × Option Int64) → Int64 × Option Int64 →
    Except Code (Int64 × Option Int64)
  | [], acc => .ok acc
  | (some id, some number) :: rest, (sumnumber, oneprice) =>
    match s.putaway id with
    | none => .error .errParam
    | some row =>
      if row.number.toInt < number.toInt then .error .errParam
      else validate s rest (sumnumber + number, oneprice.orElse fun _ => some row.price)
  | _ :: _, _ => .error .errParam

/-- One turn of the loop of `khoriumbuy_queue`; it raises on a row that is
gone. -/
def buyOne (oneprice : Int64) (s : State) (id : ℤ) (number : Int64) : Option (State × List Out) :=
  match s.putaway id with
  | none => none
  | some row =>
    let (_, t) := s.serve addkhorium row.uid (oneprice * number)
    let info := t.putawayinfo row.uid
    let out := [.paid row.uid (t.worth .khorium row.uid - s.worth .khorium row.uid)]
    if row.number = number then
      some ({ t with putaway := Function.update t.putaway id none }.setInfo row.uid
        { info with khoriumarr := removeFound info.khoriumarr id }, out)
    else
      some ({ t with
        putaway := Function.update t.putaway id
          (some { row with number := row.number - number }) }, out)

/-- The loop: the state it ends in, and whether it came to its end. -/
def buyAll (oneprice : Int64) (s : State) : List (ℤ × Int64) → State × Bool × List Out
  | [] => (s, true, [])
  | (id, number) :: rest =>
    match buyOne oneprice s id number with
    | none => (s, false, [])
    | some (t, out) =>
      let (u, done, outs) := buyAll oneprice t rest
      (u, done, out ++ outs)

/-- **`khoriumbuy_queue`**; `first` is the row of the first listing. -/
def khoriumbuyQueue (s : State) (uid : Int64) (items : List (ℤ × Int64)) (first : Putaway)
    (sumnumber : Int64) (now : ℤ) : State × Reply × List Out :=
  let (t, done, out) := buyAll first.price s items
  if done then
    let id := t.shopitemId + 1
    let row : Shopitem := ⟨first.cfgid, sumnumber, first.price, first.type, now, 1, uid⟩
    let t := { t with
      shopitemId := id
      shopitem := insertRow t.shopitem id row
      shopiteminfo := Function.update t.shopiteminfo uid (s.shopiteminfo uid ++ [id]) }
    ((t.serve remkhorium uid (first.price * sumnumber)).2, .code .success, out)
  else (t, .raised, out)

/-- The checks of `khoriumbuy`: the answer where it ends there, else the
number of all. -/
def checks (s : State) (uid : Int64) (idandnum : Option (List (Option ℤ × Option Int64))) :
    Except Code Int64 :=
  match idandnum with
  | none => .error .errParam
  | some [] => .error .errParam
  | some items =>
    match validate s items (0, none) with
    | .error c => .error c
    | .ok (sumnumber, oneprice) =>
      if matchkhorium ((s.balance .khorium uid).map .int)
          (some (.num (.int (sumnumber * oneprice.getD 0)))) then
        if 10 ≤ (s.shopiteminfo uid).length then .error .shopFull else .ok sumnumber
      else .error .goldNotEnough

/-- The entries of a list that passed the checks. -/
def entries (idandnum : Option (List (Option ℤ × Option Int64))) : List (ℤ × Int64) :=
  (idandnum.getD []).filterMap fun x =>
    match x with
    | (some id, some number) => some (id, number)
    | _ => none

/-- **`khoriumbuy`.** -/
def khoriumbuy (s : State) (uid : Int64) (idandnum : Option (List (Option ℤ × Option Int64)))
    (now : ℤ) : State × Reply × List Out :=
  match checks s uid idandnum with
  | .error c => (s, .code c, [])
  | .ok sumnumber =>
    match (entries idandnum).head?.bind fun x => s.putaway x.1 with
    | some first => khoriumbuyQueue s uid (entries idandnum) first sumnumber now
    | none => (s, .raised, [])

/-! ## The update -/

/-- One row of the four loops of `putawayupdate`, with what is asked there. -/
inductive Visit
  | trade (key : ℤ)
  | downKhorium (key now : ℤ) (scanned : Bool)
  | downGold (key now : ℤ) (scanned : Bool)
  | up (id : ℤ) (draw : ℕ)

/-- A gold row leaves the market. -/
def State.dropGold (s : State) (uid : Int64) (key : ℤ) : State :=
  let info := s.putawayinfo uid
  { s with putawaygold := Function.update s.putawaygold key none }.setInfo uid
    { info with goldarr := removeFound info.goldarr key }

/-- The trade of a row whose turn has come, or one update less to wait. -/
def trade (s : State) (key : ℤ) : State × List Out :=
  match s.putawaygold key with
  | none => (s, [])
  | some row =>
    if row.ismarket = 0 then
      let (result, t) := s.serve addgold row.uid (row.price * row.number)
      if result then
        (t.dropGold row.uid key,
          [.sold (.gold key) row.uid (t.worth .gold row.uid - s.worth .gold row.uid)])
      else (t, [])
    else
      ({ s with
        putawaygold := Function.update s.putawaygold key
          (some { row with ismarket := row.ismarket - 1 }) }, [])

/-- The goods of a row go back to its owner: the answer of `addblueprint`
or of `addmaterials`. -/
def giveBack (s : State) (uid type : Int64) (cfgid : Option Value) (number : Int64)
    (scanned : Bool) : Bool × State :=
  if type = blueprint then (scanned, s)
  else if type = material then
    ((addmaterials known (s.materials uid) cfgid number).1,
      s.setMaterials uid (addmaterials known (s.materials uid) cfgid number).2)
  else (true, s)

/-- A khorium row past its time. -/
def downKhorium (s : State) (key now : ℤ) (scanned : Bool) : State × List Out :=
  match s.putaway key with
  | none => (s, [])
  | some row =>
    if row.downtime ≤ now then
      let (result, t) := giveBack known s row.uid row.type (some (.str row.cfgid)) row.number scanned
      if result then
        let info := t.putawayinfo row.uid
        ({ t with putaway := Function.update t.putaway key none }.setInfo row.uid
          { info with khoriumarr := removeFound info.khoriumarr key }, [])
      else (t, [])
    else (s, [])

/-- How many of a material a player has. -/
def State.stock (s : State) (uid : Int64) (cfgid : Option Number) : ℤ :=
  (cfgid.map (s.materials uid).held).getD 0

/-- A gold row past its time. -/
def downGold (s : State) (key now : ℤ) (scanned : Bool) : State × List Out :=
  match s.putawaygold key with
  | none => (s, [])
  | some row =>
    if row.downtime ≤ now then
      let (result, t) :=
        giveBack known s row.uid row.type (row.cfgid.map .num) row.number scanned
      if result then
        (t.dropGold row.uid key,
          [.back key row.uid row.cfgid (t.stock row.uid row.cfgid - s.stock row.uid row.cfgid)])
      else (t, [])
    else (s, [])

/-- A row that waits goes on sale, or is bought at once. -/
def up (s : State) (id : ℤ) (draw : ℕ) : State × List Out :=
  match s.stayputaway id with
  | none => (s, [])
  | some row =>
    let info := s.putawayinfo row.uid
    if row.iskh = some 1 then
      let key := s.putawayId + 1
      ({ s with
          putawayId := key
          putaway := insertRow s.putaway key ⟨row.cfgid, row.number, row.price, row.type,
            row.puttime, row.downtime, row.uid⟩
          stayputaway := Function.update s.stayputaway id none }.setInfo row.uid
        { info with
          khoriumarr := info.khoriumarr ++ [key]
          staykhoriumarr := removeFound info.staykhoriumarr id }, [])
    else if draw = 0 then
      let (_, t) := s.serve addgold row.uid (row.price * row.number)
      ({ t with stayputaway := Function.update t.stayputaway id none },
        [.sold (.stay id) row.uid (t.worth .gold row.uid - s.worth .gold row.uid)])
    else
      let key := s.putawaygoldId + 1
      ({ s with
          putawaygoldId := key
          putawaygold := insertRow s.putawaygold key ⟨tonumber row.cfgid, row.number, row.price,
            row.type, row.puttime, row.downtime, row.uid, draw - 1⟩
          stayputaway := Function.update s.stayputaway id none }.setInfo row.uid
        { info with
          goldarr := info.goldarr ++ [key]
          staygoldarr := removeFound info.staygoldarr id },
        [.listed id key])

def visit (s : State) : Visit → State × List Out
  | .trade key => trade s key
  | .downKhorium key now scanned => downKhorium known s key now scanned
  | .downGold key now scanned => downGold known s key now scanned
  | .up id draw => up s id draw

/-- The rows of a pass, one after the other. -/
def visits (s : State) : List Visit → State × List Out
  | [] => (s, [])
  | v :: vs => ((visits (visit known s v).1 vs).1, (visit known s v).2 ++ (visits (visit known s v).1 vs).2)

/-- The order `pairs` takes the rows in, in each of the four passes. -/
structure Round where
  trades : List ℤ
  downKhorium : List (ℤ × ℤ × Bool)
  downGold : List (ℤ × ℤ × Bool)
  ups : List (ℤ × ℕ)

/-- All the rows of an update. -/
def Round.visits (r : Round) : List Visit :=
  r.trades.map .trade ++ r.downKhorium.map (fun x => .downKhorium x.1 x.2.1 x.2.2) ++
    r.downGold.map (fun x => .downGold x.1 x.2.1 x.2.2) ++ r.ups.map fun x => .up x.1 x.2

/-- The ids are those of the rows of a table. -/
def Enumerates {α : Type} (ids : List ℤ) (t : ℤ → Option α) : Prop :=
  Mirrors ids fun id => (t id).isSome

/-- **The four passes go over their tables**, as these are when a pass
begins. -/
def Round.Full (s : State) (r : Round) : Prop :=
  let s₁ := (Shop.visits known s (r.trades.map .trade)).1
  let s₂ := (Shop.visits known s₁ (r.downKhorium.map fun x => .downKhorium x.1 x.2.1 x.2.2)).1
  let s₃ := (Shop.visits known s₂ (r.downGold.map fun x => .downGold x.1 x.2.1 x.2.2)).1
  Enumerates r.trades s.putawaygold ∧ Enumerates (r.downKhorium.map Prod.fst) s₁.putaway ∧
    Enumerates (r.downGold.map Prod.fst) s₂.putawaygold ∧
    Enumerates (r.ups.map Prod.fst) s₃.stayputaway

/-- **`putawayupdate`.** -/
def putawayupdate (s : State) (r : Round) : State × List Out := visits known s r.visits

/-! ## Runs -/

/-- What happens at the market. -/
inductive Event
  | putaway (uid : Int64) (msg : PutawayMsg) (quote : Quote) (now : ℤ) (scanned : Bool)
  | sell (uid : Int64) (shopid : Option ℤ) (quote : Quote) (now : ℤ)
  | trancancel (uid index : Int64) (cfgid : Str) (iskh : Option Int64) (number : Int64)
      (given : Option Int64) (quote : Quote) (now : ℤ)
  | khoriumbuy (uid : Int64) (idandnum : Option (List (Option ℤ × Option Int64))) (now : ℤ)
  | update (r : Round)

/-- **One event**, run by itself. -/
def act (s : State) : Event → State × List Out
  | .putaway uid msg quote now scanned =>
    ((putaway known s uid msg quote now scanned).1, (putaway known s uid msg quote now scanned).2.2)
  | .sell uid shopid quote now =>
    ((sell s uid shopid quote now).1, (sell s uid shopid quote now).2.2)
  | .trancancel uid index cfgid iskh number given quote now =>
    ((trancancel s uid index cfgid iskh number given quote now).1,
      (trancancel s uid index cfgid iskh number given quote now).2.2)
  | .khoriumbuy uid idandnum now =>
    ((khoriumbuy s uid idandnum now).1, (khoriumbuy s uid idandnum now).2.2)
  | .update r => putawayupdate known s r

/-- A market with nothing on it. -/
def initial (shopitem : ℤ → Option Shopitem) (shopiteminfo : Int64 → List ℤ) (shopitemId : ℤ)
    (balance : Purse → Int64 → Option Int64) (materials : Int64 → Materials) : State where
  putaway _ := none
  putawaygold _ := none
  stayputaway _ := none
  putawayinfo _ := ⟨[], [], [], []⟩
  shopitem := shopitem
  shopiteminfo := shopiteminfo
  putawayId := 0
  putawaygoldId := 0
  stayputawayId := 0
  shopitemId := shopitemId
  balance := balance
  materials := materials

/-- **The market**, under every order of events. A label is an event with
what it did. -/
def system : System State (Event × List Out) where
  init s := ∃ shopitem shopiteminfo shopitemId balance materials,
    s = initial shopitem shopiteminfo shopitemId balance materials
  step s l t := act known s l.1 = (t, l.2) ∧ ∀ r, l.1 = .update r → r.Full known s

end Shop

end Athena
