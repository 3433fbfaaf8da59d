import Athena.Lua.Json
import Athena.Queue.Columns
import Mathlib.Data.Finset.Basic
import Mathlib.Logic.Function.Basic
/-!
# The warehouse — new equipments

`addequip` of `game/warehouse/warehouse.lua` for one player, with `incollection` and
`updatecollection`. Each round of its loop stores the list of new equipments as it
was before the first one, with one id more. `updatecollection` reads a column of
`d_collection` as JSON, and `incollection` splits the same text at its commas, finds
nothing in it, and stores the pieces as texts.

A column of `d_collection` is written by `json.encode` alone, so its entries stand for
its text here. The achievements and the messages to the client are left out.
-/

namespace Athena

namespace Warehouse

open Lua (Str Value splitComma join jsonString jsonArray)

/-- **A row of an equipment**; its five slots are empty. -/
structure EquipRow where
  cfgid : Int64
  playerid : ℤ
  lv : ℤ
  exp : ℤ
  isdouble : ℤ
  volume : ℤ
  currentvolume : ℤ
  count : ℤ
  islock : Option ℤ
  deriving DecidableEq

/-- **An entry of a column of `d_collection`**: of an equipment, or a text. -/
inductive Collected
  | equip (cfgid : Value) (maxlv : ℤ)
  | text (s : Str)
  deriving DecidableEq

/-- The parts of a machine. -/
inductive Part
  | chassis
  | body
  | firecontroller
  | weapon
  deriving DecidableEq

/-- `partname`. -/
def Part.partname : Part → Str
  | .chassis => "newchassis".toList
  | .body => "newbody".toList
  | .firecontroller => "newfirecontroller".toList
  | .weapon => "newweapons".toList

/-- The player's row of `d_user`. -/
structure User where
  exp : ℤ
  level : ℤ

/-- **What the shared tables hold**, and the player. -/
structure EquipConfig where
  uid : ℤ
  /-- There is such an equipment in the table of its part. -/
  equip : Part → Int64 → Bool
  /-- `Mod_Volume` and `EXP_Total` of `machine_exp`. -/
  machine_exp : ℤ → Option (ℤ × ℤ)
  /-- `EXP_Total` of `player_exp`, by level. -/
  player_exp : List ℤ
  /-- The text of an entry, whose two fields come in the order of `pairs`. -/
  entry : Value → ℤ → Str

/-- **The player's data.** -/
structure EquipState where
  /-- The last id each equipment table gave. -/
  lastid : Part → ℕ
  equipment : Part → ℕ → Option EquipRow
  /-- The row of `d_hangar`. -/
  hangar : Option (Str → Option Str)
  /-- The row of `d_collection`. -/
  collection : Option (Part → List Collected)
  user : Option User

/-- `json.encode`, of an entry. -/
def Collected.json (cfg : EquipConfig) : Collected → Str
  | .equip cfgid maxlv => cfg.entry cfgid maxlv
  | .text s => jsonString s

/-- The text of a column. -/
def columntext (cfg : EquipConfig) (entries : List Collected) : Str :=
  jsonArray (entries.map (Collected.json cfg))

/-! ## The collection -/

/-- `table.finds(data, "cfgid", cfgid)`, of texts: it reads the field `str` of each,
which no text has. -/
def finds (data : List Str) (field : Str → Option Value) (value : Value) : Option ℕ :=
  data.findIdx? fun s => field s = some value

/-- **`incollection`.** -/
def incollection (cfg : EquipConfig) (s : EquipState) (cfgid : Int64) (part : Part) (lv : ℤ) : EquipState :=
  match s.collection with
  | none => s
  | some collection =>
    let data := splitComma (columntext cfg (collection part))
    match finds data (fun _ => none) (.num (.int cfgid)) with
    | some _ => s
    | none =>
      { s with
        collection :=
          some (Function.update collection part
            (data.map .text ++ [.equip (.num (.int cfgid)) lv])) }

/-- The level after some experience, from a level on: the last one that is reached,
as the loop of `updateexp` has it. -/
def newlevel (player_exp : List ℤ) (total level exp : ℤ) : ℤ × ℤ :=
  match (List.range player_exp.length).find? fun (i : ℕ) =>
      level + 1 ≤ (i : ℤ) + 1 ∧ total < player_exp.getD i 0 with
  | some i => ((i : ℤ), total - player_exp.getD (i - 1) 0)
  | none => (level, exp)

/-- `user.req.updateexp`: false without a row; it raises an error at a level that is
not in the table. -/
def updateexp (cfg : EquipConfig) (s : EquipState) (exp : ℤ) : Option (EquipState × Bool) :=
  match s.user with
  | none => some (s, false)
  | some user =>
    match cfg.player_exp[(user.level - 1).toNat]? with
    | none => none
    | some total =>
      let new := newlevel cfg.player_exp (total + (user.exp + exp)) user.level (user.exp + exp)
      some ({ s with user := some ⟨new.2, new.1⟩ }, true)

/-- The entry that `updatecollection` is about: the first of the equipment that has a
lower level. -/
def lower (cfgid : Int64) (newlv : ℤ) : Collected → Bool
  | .equip c maxlv => c = .num (.int cfgid) && maxlv < newlv
  | .text _ => false

def Collected.raise (newlv : ℤ) : Collected → Collected
  | .equip cfgid _ => .equip cfgid newlv
  | .text s => .text s

def Collected.maxlv : Collected → ℤ
  | .equip _ maxlv => maxlv
  | .text _ => 0

/-- **`updatecollection`**; it raises an error without a row, and at a level that is not
in the table. -/
def updatecollection (cfg : EquipConfig) (s : EquipState) (oldlv newlv : ℤ) (cfgid : Int64) (part : Part) :
    Option EquipState :=
  match s.collection with
  | none => none
  | some collection =>
    let partindexs := collection part
    match partindexs.findIdx? (lower cfgid newlv) with
    | none => some s
    | some i =>
      match cfg.machine_exp newlv,
        (partindexs[i]?).bind fun x => cfg.machine_exp (max x.maxlv oldlv) with
      | some (_, new), some (_, old) =>
        match updateexp cfg s (new - old) with
        | none => none
        | some (s, false) => some s
        | some (s, true) =>
          some { s with
            collection :=
              some (Function.update collection part (partindexs.modify i (Collected.raise newlv))) }
      | _, _ => none

/-! ## addequip -/

/-- The row of a new equipment. -/
def newrow (cfg : EquipConfig) (part : Part) (cfgid : Int64) (lv volume : ℤ) (lock : Bool) : EquipRow where
  cfgid := cfgid
  playerid := cfg.uid
  lv := lv
  exp := 0
  isdouble := 0
  volume := volume
  currentvolume := 0
  count := 0
  islock := if part = .weapon then none else some (if lock then 1 else 0)

/-- `hangar_dc.req.setvalue`, of a row that is there. -/
def EquipState.sethangar (s : EquipState) (field value : Str) : EquipState :=
  { s with hangar := s.hangar.map fun row => Function.update row field (some value) }

/-- `equipment_dc.req.add`: nothing where the id is taken. -/
def EquipState.add (s : EquipState) (part : Part) (id : ℕ) (row : EquipRow) : EquipState :=
  if (s.equipment part id).isSome then s
  else
    { s with
      equipment := Function.update s.equipment part (Function.update (s.equipment part) id (some row)) }

/-- `equipment_dc.req.get_nextid`. -/
def EquipState.nextid (s : EquipState) (part : Part) : EquipState :=
  { s with lastid := Function.update s.lastid part (s.lastid part + 1) }

/-- **A round of the loop**, with the row of the hangar that was read before it. It is
false where the level has no volume. -/
def grant (cfg : EquipConfig) (part : Part) (cfgid : Int64) (lv : ℤ) (lock : Bool)
    (hangardc : Str → Option Str) (s : EquipState) : EquipState × Bool :=
  let nextid := s.lastid part + 1
  let s := s.nextid part
  match cfg.machine_exp lv with
  | none => (s, false)
  | some (volume, _) =>
    ((s.add part nextid (newrow cfg part cfgid lv volume lock)).sethangar part.partname
        (join (Queue.split (hangardc part.partname) ++ [Queue.text nextid])),
      true)

/-- The loop, which an error leaves. -/
def grants (cfg : EquipConfig) (part : Part) (cfgid : Int64) (lv : ℤ) (lock : Bool)
    (hangardc : Str → Option Str) : ℕ → EquipState → EquipState × Bool
  | 0, s => (s, true)
  | n + 1, s =>
    match grant cfg part cfgid lv lock hangardc s with
    | (s, false) => (s, false)
    | (s, true) => grants cfg part cfgid lv lock hangardc n s

/-- **`addequip`.** It answers nothing where it raises an error. -/
def addequip (cfg : EquipConfig) (s : EquipState) (part : Option Part) (cfgid : Option Int64)
    (lv number : Option ℤ) (lock : Bool) : EquipState × Option Bool :=
  match part, number, cfgid, lv with
  | some part, some number, some cfgid, some lv =>
    if !cfg.equip part cfgid then (s, some false)
    else
      match grants cfg part cfgid lv lock (s.hangar.getD fun _ => none) number.toNat s with
      | (s, false) => (s, none)
      | (s, true) =>
        match updatecollection cfg s 1 lv cfgid part with
        | none => (s, none)
        | some s => (incollection cfg s cfgid part lv, some true)
  | _, _, _, _ => (s, some false)

end Warehouse

end Athena
