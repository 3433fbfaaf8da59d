import Athena.Common.System
import Athena.Lua.Arith
import Athena.Queue.Model
/-!
# Blueprints and awards — model

`game/scan/scan.lua` for one player, with the parts of `bqmgr` and the
warehouse its requests run through. A request runs to its end before the
next one comes; a queue that has come to its end is a request of its own
(`onbq_completed`), which `addspeed` may also call in its middle.

The four lists of `d_blueprint` are JSON texts of entries, each with the
fields it was made with. Quotients and what is made of them are doubles; integers
are exact here, and so are the totals of the materials, as they are up to `2 ^ 53`.
The sums in the rows of the parts, the achievements and the notices are left out, and so is the order in
which materials are found.
-/

namespace Athena

namespace Scan

open Lua (Str double)
open Queue (Row Award BpReward PropReward EquipReward)

/-- **An entry of a blueprint list.** -/
structure Entry where
  id : Str
  number : ℤ
  name : Option Str
  bqid : Option ℕ
  begintime : Option ℤ
  endtime : Option ℤ
  awardid : Option ℕ
  deriving DecidableEq

/-- **The row of `d_blueprint`.** -/
structure Lists where
  newblueprint : List Entry
  blueprintinfo : List Entry
  blueprinting : List Entry
  blueprintend : List Entry

/-- A row of the table `blueprint`: the amounts and ids of its materials. -/
structure Blueprint where
  Material : List (ℤ × Str)
  Cast_Time : ℚ

/-- **What the shared tables hold**, and the player. -/
structure Config where
  uid : ℤ
  blueprint : Str → Option Blueprint
  /-- There is such a part, by its type and id. -/
  part : ℤ → Str → Bool
  material : Str → Bool
  /-- There is such a machine. -/
  machinecfg : Str → Bool

/-- What an award gives. -/
inductive Given
  | equip (type : ℤ) (cfgid : Str) (lv : ℤ) (lock : Bool)
  | blueprint (id : Str) (number : ℤ) (name : Option Str)
  | material (cfgid : Str) (number : ℤ)
  | machine (bpid : Str)
  deriving DecidableEq

/-- **The player's data.** -/
structure State where
  now : ℤ
  blueprint : Option Lists
  materials : Str → ℤ
  rows : ℕ → Option Row
  /-- The last id `bq_dc` gave. -/
  bqid : ℕ
  ingcasting : List ℕ
  endcasting : List ℕ
  ingscan : List ℕ
  endscan : List ℕ
  maxcasting : ℕ
  awards : ℕ → Option Award
  /-- The last id `awardinfo_dc` gave. -/
  awardid : ℕ
  /-- How many machines the player has. -/
  machines : ℕ
  /-- What was given, and for which award. -/
  given : List (Option ℕ × Given)

/-- `errcodedef`. -/
inductive Code
  | success
  | err_param
  | cfgid_nofind
  | res_notEnough
  | casting_full
  | blueprint_nofind
  | machine_full
  | unknow
  deriving DecidableEq

/-- A request answers with a code, or raises an error. -/
abbrev Reply := Option Code

/-! ## The lists -/

/-- `get_blueprint`: by the id of a queue or an award where one is given. -/
def get_blueprint (id : Option Str) (arry : List Entry) (name : Option Str) (tab : Option ℕ) :
    Option ℕ :=
  arry.findIdx? fun e =>
    match tab with
    | some k => e.bqid = some k ∨ e.awardid = some k
    | none => some e.id = id ∧ e.name = name

/-- Where `change_blueprint` puts an entry: among the normal ones, the finished
ones or those under way. -/
inductive Into
  | normal
  | ending (awardid : ℕ)
  | casting (bqid : ℕ) (begintime endtime : ℤ)

def Into.tab : Into → Option ℕ
  | .normal => none
  | .ending awardid => some awardid
  | .casting bqid _ _ => some bqid

def Into.entry (id : Str) (number : ℤ) (name : Option Str) : Into → Entry
  | .normal => ⟨id, number, name, none, none, none, none⟩
  | .ending awardid => ⟨id, number, name, none, none, none, some awardid⟩
  | .casting bqid begintime endtime => ⟨id, number, name, some bqid, some begintime, some endtime, none⟩

/-- `arry[key].number = arry[key].number + number`. -/
def addnumber (arry : List Entry) (key : ℕ) (number : ℤ) : List Entry :=
  arry.modify key fun e => { e with number := e.number + number }

/-- `change_blueprint`. -/
def change_blueprint (id : Str) (name : Option Str) (arry : List Entry) (number : ℤ) (into : Into) :
    List Entry :=
  match get_blueprint (some id) arry name into.tab with
  | none => arry ++ [into.entry id number name]
  | some key => addnumber arry key number

/-- `remove_number`: nothing is taken where there are fewer. -/
def remove_number (arr : List Entry) (key : ℕ) (number : ℤ) : List Entry :=
  match arr[key]? with
  | none => arr
  | some e =>
    if number < e.number then addnumber arr key (-number)
    else if e.number = number then arr.eraseIdx key
    else arr

/-- `removeto_blueprint`: the list it takes from and the list it adds to. -/
def removeto_blueprint (key : ℕ) (number : ℤ) (arry toarry : List Entry) (into : Into) :
    List Entry × List Entry :=
  match arry[key]? with
  | none => (arry, toarry)
  | some e => (remove_number arry key number, change_blueprint e.id e.name toarry number into)

/-- `scan.req.removeto_end`; nothing where the queue has no entry. -/
def removeto_end (l : Lists) (id : Str) (bqid awardid : ℕ) : Lists :=
  match get_blueprint (some id) l.blueprinting none (some bqid) with
  | none => l
  | some key =>
    match l.blueprinting[key]? with
    | none => l
    | some e =>
      { l with
        blueprintend := l.blueprintend ++ [Into.entry id e.number e.name (.ending awardid)]
        blueprinting := l.blueprinting.eraseIdx key }

/-- `add_blueprint`. -/
def add_blueprint (l : Option Lists) (id : Str) (number : ℤ) (name : Option Str) : Lists :=
  match l with
  | none => ⟨[Into.entry id number name .normal], [], [], []⟩
  | some l =>
    match get_blueprint (some id) l.blueprintinfo name none with
    | some key => { l with blueprintinfo := addnumber l.blueprintinfo key number }
    | none => { l with newblueprint := change_blueprint id name l.newblueprint number .normal }

/-- The local `remove_array`: what comes to the place of an element it has
removed is not looked at. -/
def remove_array : List ℕ → ℕ → List ℕ
  | [], _ => []
  | a :: l, id =>
    if a = id then
      match l with
      | [] => []
      | b :: l => b :: remove_array l id
    else a :: remove_array l id

/-- The chunks of six characters of a text. -/
def chunks : ℕ → Str → List Str
  | 0, _ => []
  | n + 1, s => ('B' :: s.take 6) :: chunks n (s.drop 6)

/-- `strtoarr`: the blueprints a blueprint is made of. -/
def strtoarr (str : Str) : List Str :=
  if str.length < 6 then []
  else if str.length % 6 = 0 then chunks (str.length / 6) str
  else [str.take 7]

/-! ## Awards -/

/-- A loop that stops, and returns false, where a call does. -/
def each {α : Type} (call : α → State → Bool × State) : List α → State → Bool × State
  | [], s => (true, s)
  | a :: l, s => if (call a s).1 then each call l (call a s).2 else (false, (call a s).2)

def State.give (s : State) (source : Option ℕ) (g : Given) : State :=
  { s with given := s.given ++ [(source, g)] }

/-- `warehouse.req.addequip`. -/
def addequip (cfg : Config) (source : Option ℕ) (weld : Bool) (e : EquipReward) (s : State) :
    Bool × State :=
  if cfg.part e.type e.cfgid then (true, s.give source (.equip e.type e.cfgid e.lv weld))
  else (false, s)

/-- `response.addblueprint`. -/
def addblueprint (cfg : Config) (bpid : Str) (number : ℤ) (name : Option Str) (s : State) :
    Bool × State :=
  if (strtoarr bpid).all fun b => (cfg.blueprint b).isSome then
    (true, { s with blueprint := some (add_blueprint s.blueprint bpid number name) })
  else (false, s)

/-- `warehouse.req.addmaterials`. -/
def addmaterials (cfg : Config) (cfgid : Str) (number : ℤ) (s : State) : Bool × State :=
  if number < 0 then (false, s)
  else if number = 0 then (true, s)
  else if cfg.material cfgid then
    (true, { s with materials := Function.update s.materials cfgid (s.materials cfgid + number) })
  else (false, s)

/-- `warehouse.req.add_machine`. -/
def add_machine (bpid : Str) (s : State) : Bool × State :=
  if bpid.length ≠ 18 then (false, s) else (true, { s with machines := s.machines + 1 })

/-- `math.floor(count * number)`. The number is a float, or 1 where none is given. -/
def part (count : ℤ) : Option ℚ → ℤ
  | none => count
  | some number => ⌊double (double count * number)⌋

/-- What a call gave goes into the record where it succeeded. -/
def recorded (source : Option ℕ) (g : Given) (r : Bool × State) : Bool × State :=
  if r.1 then (true, r.2.give source g) else r

/-- A call of `addblueprint` in `get_award`. -/
def awardblueprint (cfg : Config) (source : Option ℕ) (number : Option ℚ) (b : BpReward) (s : State) :
    Bool × State :=
  recorded source (.blueprint b.cfgid (part b.number number) b.name)
    (addblueprint cfg b.cfgid (part b.number number) b.name s)

/-- A call of `addmaterials` in it. -/
def awardmaterials (cfg : Config) (source : Option ℕ) (number : Option ℚ) (p : PropReward) (s : State) :
    Bool × State :=
  recorded source (.material p.cfgid (part p.number number))
    (addmaterials cfg p.cfgid (part p.number number) s)

/-- A blueprint that was scanned from a machine: what is cast from it is welded. -/
def weld (sponsorid : Str) : Bool := 18 ≤ sponsorid.length

/-- **`get_award`**, of the data of an award or a queue. -/
def get_award (cfg : Config) (source : Option ℕ) (data : Award) (number : Option ℚ) (s : State) :
    Bool × State :=
  let equips := each (addequip cfg source (weld data.sponsorid)) data.equiplist s
  if !equips.1 then (false, equips.2)
  else
    let bps := each (awardblueprint cfg source number) data.bprewardlist equips.2
    if !bps.1 then (false, bps.2)
    else
      let props := each (awardmaterials cfg source number) data.proprewardlist bps.2
      if !props.1 then (false, props.2)
      else if weld data.sponsorid then
        recorded source (.machine data.sponsorid) (add_machine data.sponsorid props.2)
      else (true, props.2)

/-! ## Castings -/

/-- The materials a casting takes. -/
def mateinfo (number : ℤ) : List (ℤ × Str) → List (Str × ℤ) → List (Str × ℤ)
  | [], acc => acc
  | (amount, id) :: l, acc =>
    if acc.any fun x => x.1 = id then
      mateinfo number l (acc.map fun x => if x.1 = id then (id, number * (x.2 + amount)) else x)
    else mateinfo number l (acc ++ [(id, number * amount)])

/-- `warehouse.req.matchmaterial`. -/
def matchmaterial (s : State) (cfgid : Str) (number : ℤ) : Bool :=
  if number < 0 then false else if number = 0 then true else number ≤ s.materials cfgid

/-- `warehouse.req.remmaterials`, whose answer is not looked at. -/
def remmaterials (cfg : Config) (s : State) (x : Str × ℤ) : State :=
  if 0 < x.2 ∧ cfg.material x.1 ∧ x.2 ≤ s.materials x.1 then
    { s with materials := Function.update s.materials x.1 (s.materials x.1 - x.2) }
  else s

/-- The `strtoarr` of `rewardhandler`. -/
def reward_strtoarr (str : Str) : List Str :=
  if str.length % 6 = 0 then chunks (str.length / 6) str else [str.take 7]

/-- The parts and materials of one blueprint. `blueprinttype.material` is nil, which is what
`tonumber` makes of a type that is no digit. -/
def castpart (number : ℤ) (b : Str) : List PropReward × List EquipReward :=
  let cfgid := (b.drop 2).take 5
  match (b.drop 1).head? with
  | some '1' => ([], [⟨1, cfgid, 1, number⟩])
  | some '2' => ([], [⟨2, cfgid, 1, number⟩])
  | some '3' => ([], [⟨3, cfgid, 1, number⟩])
  | some '4' => ([], [⟨4, cfgid, 1, number⟩])
  | type =>
    if type.any Char.isDigit then ([], []) else ([⟨Queue.material, cfgid, none, number, none⟩], [])

/-- `rewardhandler:getcastring_info`: the rewards and the time. It raises an
error at a blueprint that is not there. -/
def getcastring_info (cfg : Config) (bpid : Str) (number : ℤ) :
    Option (List PropReward × List EquipReward × ℤ) :=
  let arr := reward_strtoarr bpid
  if arr.all fun b => (cfg.blueprint b).isSome then
    some (arr.flatMap fun b => (castpart number b).1, arr.flatMap fun b => (castpart number b).2,
      ⌊(arr.map fun b => (((cfg.blueprint b).map Blueprint.Cast_Time).getD 0) * (number : ℚ)).sum⌋)
  else none

/-- The row `sendcasting` makes. -/
def castrow (cfg : Config) (now : ℤ) (bpid : Str)
    (info : List PropReward × List EquipReward × ℤ) : Row where
  playerid := cfg.uid
  type := .cast
  subtype := 0
  bprewardlist := []
  proprewardlist := info.1
  equiplist := info.2.1
  sponsorid := bpid
  starttime := now
  endtime := now + info.2.2
  initendtime := now + info.2.2

/-- `response.casting`. -/
def casting (cfg : Config) (s : State) (cfgid : Option Str) (number : Option ℤ) (name : Option Str) :
    State × Reply :=
  let number := number.getD 1
  match cfgid, s.blueprint with
  | none, _ => (s, some .err_param)
  | some _, none => (s, none)
  | some cfgid, some l =>
    let name := if cfgid.length = 18 then name else none
    match get_blueprint (some cfgid) l.blueprintinfo name none with
    | none => (s, some .cfgid_nofind)
    | some key =>
      match l.blueprintinfo[key]? with
      | none => (s, none)
      | some e =>
        if e.number < number then (s, some .res_notEnough)
        else if s.maxcasting ≤ s.ingcasting.length then (s, some .casting_full)
        -- `next(nil)` raises
        else if !(strtoarr cfgid).all fun b => (cfg.blueprint b).isSome then (s, none)
        else
          let mate := mateinfo number
            ((strtoarr cfgid).flatMap fun b => ((cfg.blueprint b).map Blueprint.Material).getD []) []
          if !mate.all fun x => matchmaterial s x.1 x.2 then (s, some .res_notEnough)
          else
            let s := mate.foldl (remmaterials cfg) s
            match getcastring_info cfg cfgid number with
            | none => (s, none)
            | some info =>
              let row := castrow cfg s.now cfgid info
              let bqid := s.bqid + 1
              let moved := removeto_blueprint key number l.blueprintinfo l.blueprinting
                (.casting bqid row.starttime row.endtime)
              ({ s with
                  bqid := bqid
                  rows := Function.update s.rows bqid (some row)
                  ingcasting := s.ingcasting ++ [bqid]
                  blueprint := some { l with blueprintinfo := moved.1, blueprinting := moved.2 } },
                some .success)

/-- `onbq_completed`, for a queue that is cast or scanned. Where the player has
no row of blueprints `removeto_end` raises an error. -/
def onbq_completed (s : State) (bqid : ℕ) : State :=
  match s.rows bqid with
  | none => s
  | some row =>
    let id := s.awardid + 1
    match row.type with
    | .airfreighter => s
    | .scan =>
      { s with
        awardid := id
        awards := Function.update s.awards id (some (row.award id))
        ingscan := []
        endscan := s.endscan ++ [id]
        rows := Function.update s.rows bqid none }
    | .cast =>
      match s.blueprint with
      | none => { s with awardid := id }
      | some l =>
        { s with
          awardid := id
          blueprint := some (removeto_end l row.sponsorid bqid id)
          awards := Function.update s.awards id (some (row.award id))
          ingcasting := Queue.remove_array s.ingcasting bqid
          endcasting := s.endcasting ++ [id]
          rows := Function.update s.rows bqid none }

/-- `bqmgr:addspeed`, with the new end time. -/
def sendspeed (s : State) (bqid : ℕ) (row : Row) (difftime : ℤ) : State × ℤ :=
  let endtime := row.endtime - difftime
  let s := { s with rows := Function.update s.rows bqid (some { row with endtime := endtime }) }
  (if endtime ≤ s.now then onbq_completed s bqid else s, endtime)

/-- `response.addspeed`, for a number of minutes. It writes back the list it
read before. -/
def addspeed (s : State) (bqid : Option ℕ) (time propid : Option ℤ) : State × Reply :=
  match bqid, time, propid with
  | some id, some time, some _ =>
    match s.rows id, s.blueprint with
    | none, _ => (s, some .cfgid_nofind)
    | some _, none => (s, none)
    | some row, some l =>
      match get_blueprint none l.blueprinting none (some id) with
      | none => (s, some .err_param)
      | some key =>
        let sped := sendspeed s id row (time * 60)
        ({ sped.1 with
            blueprint := sped.1.blueprint.map fun l' =>
              { l' with
                blueprinting := l.blueprinting.modify key fun e => { e with endtime := some sped.2 } } },
          some .success)
  | _, _, _ => (s, some .err_param)

/-- The copies of a casting that are not finished, by a quotient of doubles. Where it took
no time this is not a number. -/
def notfinishnum (now begintime endtime number : ℤ) : Option ℤ :=
  if endtime = begintime then none
  else
    let left := double (double (max 0 (endtime - now) : ℤ) / double (endtime - begintime : ℤ))
    some ⌈double (left * double number)⌉

/-- The share of the copies that are finished. -/
def finishedshare (number notfinishnum : ℤ) : ℚ :=
  double (double (number - notfinishnum : ℤ) / double number)

/-- The materials of the copies that are not finished come back. -/
def returnmaterials (cfg : Config) (number : ℤ) (bpid : Str) (s : State) : State :=
  ((strtoarr bpid).flatMap fun b => ((cfg.blueprint b).map Blueprint.Material).getD []).foldl
    (fun s x => (addmaterials cfg x.2 (x.1 * number) s).2) s

/-- The end of `cancelcasting`: the lists it has changed are written. It raises
an error before at a blueprint that is not there. -/
def cancelled (cfg : Config) (s : State) (bpid : Str) (number : ℤ) (info ing : List Entry) :
    State × Reply :=
  if !(strtoarr bpid).all fun b => (cfg.blueprint b).isSome then (s, none)
  else
    let s := returnmaterials cfg number bpid s
    ({ s with
        blueprint := s.blueprint.map fun l => { l with blueprintinfo := info, blueprinting := ing } },
      some .success)

/-- The part of `cancelcasting` in which the queue and its entry are found. -/
def cancelentry (cfg : Config) (s : State) (id : ℕ) (row : Row) (l : Lists) (key : ℕ) (e : Entry) :
    State × Reply :=
  match e.begintime, e.endtime with
  | some begintime, some endtime =>
    let gone (s : State) : State :=
      { s with ingcasting := s.ingcasting.erase id, rows := Function.update s.rows id none }
    match notfinishnum s.now begintime endtime e.number with
    -- the numbers cannot be written as JSON
    | none => (gone s, none)
    | some notfinish =>
      let award :=
        if notfinish < e.number then
          get_award cfg none (row.award 0) (some (finishedshare e.number notfinish)) s
        else (true, s)
      if !award.1 then (award.2, some .cfgid_nofind)
      else
        let moved := removeto_blueprint key notfinish l.blueprinting l.blueprintinfo .normal
        cancelled cfg (gone award.2) row.sponsorid notfinish moved.2
          (remove_number moved.1 key (e.number - notfinish))
  | _, _ => (s, none)

/-- `response.cancelcasting`. -/
def cancelcasting (cfg : Config) (s : State) (bqid : Option ℕ) : State × Reply :=
  match bqid with
  | none => (s, some .err_param)
  | some id =>
    match s.rows id with
    | none => (s, some .err_param)
    | some row =>
      if row.playerid ≠ cfg.uid then (s, some .err_param)
      else
        match s.blueprint with
        | none => (s, none)
        | some l =>
          if id ∈ s.ingcasting then
            match get_blueprint none l.blueprinting none (some id) with
            | none => (s, some .blueprint_nofind)
            | some key =>
              match l.blueprinting[key]? with
              | none => (s, some .blueprint_nofind)
              | some e => cancelentry cfg s id row l key e
          else cancelled cfg s row.sponsorid 0 l.blueprintinfo l.blueprinting

/-! ## Receiving -/

/-- `response.receivescan`. -/
def receivescan (cfg : Config) (s : State) (awardid : Option ℕ) : State × Reply :=
  match awardid with
  | none => (s, some .err_param)
  | some id =>
    match s.awards id with
    | none => (s, some .err_param)
    | some award =>
      if id ∉ s.endscan then (s, some .err_param)
      else if !cfg.machinecfg award.sponsorid then (s, some .err_param)
      else
        let got := get_award cfg (some id) award none s
        if !got.1 then (got.2, some .cfgid_nofind)
        else
          ({ got.2 with
              endscan := remove_array s.endscan id
              awards := Function.update got.2.awards id none },
            some .success)

/-- `remblueprint(uid, bpid, 1, nil, 0, awardid)`: whether it took the entry. -/
def remblueprint (l : Lists) (bpid : Str) (awardid : ℕ) : Bool × Lists :=
  match get_blueprint (some bpid) l.blueprintend none (some awardid) with
  | none => (false, l)
  | some key =>
    match l.blueprintend[key]? with
    | none => (false, l)
    | some e =>
      if e.number < 1 then (false, l)
      else (true, { l with blueprintend := remove_number l.blueprintend key 1 })

/-- A machine is given only to a player with fewer than six. -/
def machinefull (s : State) (award : Award) : Bool := weld award.sponsorid && 6 ≤ s.machines

/-- `response.receivecasting`. -/
def receivecasting (cfg : Config) (s : State) (awardid : Option ℕ) : State × Reply :=
  match awardid with
  | none => (s, some .err_param)
  | some id =>
    match s.awards id with
    | none => (s, some .err_param)
    | some award =>
      if id ∉ s.endcasting then (s, some .err_param)
      else if machinefull s award then (s, some .machine_full)
      else
        let got := get_award cfg (some id) award none s
        if !got.1 then (got.2, some .cfgid_nofind)
        else
          match got.2.blueprint with
          | none => (got.2, none)
          | some l =>
            ({ got.2 with
                blueprint := some (remblueprint l award.sponsorid id).2
                endcasting := remove_array s.endcasting id
                awards := Function.update got.2.awards id none },
              some .success)

/-- **One round of `receiveallcast`**: the ids still in `queueinfo`, and whether
it counts as failed. -/
def receiveone (cfg : Config) (s : State) (queueinfo : List ℕ) (id : ℕ) : State × List ℕ × Bool :=
  match s.awards id with
  | none => (s, queueinfo, true)
  | some award =>
    if id ∉ queueinfo then (s, queueinfo, true)
    else if machinefull s award then (s, queueinfo, true)
    else
      let got := get_award cfg (some id) award none s
      if !got.1 then (got.2, queueinfo, true)
      else
        match got.2.blueprint with
        | none => (got.2, queueinfo, true)
        | some l =>
          let rem := remblueprint l award.sponsorid id
          let s := { got.2 with blueprint := some rem.2 }
          -- this is where the entry was taken
          if rem.1 then (s, queueinfo, true)
          else ({ s with awards := Function.update s.awards id none }, remove_array queueinfo id, false)

/-- The loop of `receiveallcast`, with the number of rounds that failed. -/
def receiveloop (cfg : Config) : List ℕ → State → List ℕ → ℕ → State × List ℕ × ℕ
  | [], s, queueinfo, number => (s, queueinfo, number)
  | id :: ids, s, queueinfo, number =>
    let r := receiveone cfg s queueinfo id
    receiveloop cfg ids r.1 r.2.1 (if r.2.2 then number + 1 else number)

/-- `response.receiveallcast`. -/
def receiveallcast (cfg : Config) (s : State) : State × Reply :=
  match s.blueprint with
  | none => (s, none)
  | some l =>
    let r := receiveloop cfg (l.blueprintend.filterMap Entry.awardid) s s.endcasting 0
    ({ r.1 with endcasting := r.2.1 }, some (if r.2.2 = 0 then .success else .unknow))

/-! ## The requests -/

inductive Event
  | tick
  | addblueprint (bpid : Str) (number : ℤ) (name : Option Str)
  | casting (cfgid : Option Str) (number : Option ℤ) (name : Option Str)
  | addspeed (bqid : Option ℕ) (time propid : Option ℤ)
  /-- A timer of the queue goes off. -/
  | completed (bqid : ℕ)
  | cancelcasting (bqid : Option ℕ)
  | receivescan (awardid : Option ℕ)
  | receivecasting (awardid : Option ℕ)
  | receiveallcast
  deriving DecidableEq

/-- **One request.** -/
def step (cfg : Config) (s : State) : Event → State × Reply
  | .tick => ({ s with now := s.now + 1 }, some .success)
  | .addblueprint bpid number name =>
    ((addblueprint cfg bpid number name s).2,
      some (if (addblueprint cfg bpid number name s).1 then .success else .err_param))
  | .casting cfgid number name => casting cfg s cfgid number name
  | .addspeed bqid time propid => addspeed s bqid time propid
  | .completed bqid => (onbq_completed s bqid, some .success)
  | .cancelcasting bqid => cancelcasting cfg s bqid
  | .receivescan awardid => receivescan cfg s awardid
  | .receivecasting awardid => receivecasting cfg s awardid
  | .receiveallcast => receiveallcast cfg s

end Scan

end Athena
