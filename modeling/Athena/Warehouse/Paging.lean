import Athena.Common.Page
import Athena.Lua.Arith
/-!
# The pages of the warehouse — model

`clicklist`, `clickblueprint` and `getblueprint` of `game/warehouse/warehouse.lua` give
the client a window of what a player has of a kind: new entries first, then the others.
The functions here are those that gather it. Ids are integers, as the texts of the rows
have them. Nothing is given (`none`) where an entry is read that is not there.
-/

namespace Athena

namespace Warehouse

namespace Paging

open Lua (Str wrap)
open Page (visit onward)
open Pairs (entry oddPlaces)

/-- `warehousedefine.statetype`, with 0. -/
inductive Statetype
  | zero
  | equiping
  | locking
  | scaning
  | casting
  | ending
  | welding
  deriving DecidableEq

/-! ## Equipment -/

/-- The fields of a row of `hangar_dc` with equipment. -/
inductive Hangarstr
  | body
  | firecontroller
  | chassis
  | weapons
  deriving DecidableEq

/-- A machine of the player: `isweld`, and its parts by their field. -/
structure Machine where
  isweld : ℤ
  parts : Hangarstr → List ℤ

/-- A row of `equipment_dc`. -/
structure Equipment where
  cfgid : ℤ
  lv : ℤ
  exp : ℤ
  islock : Option ℤ

/-- An entry of a page of equipment. -/
structure EquipInfo where
  id : ℤ
  cfgid : Option ℤ
  number : ℤ
  lv : Option ℤ
  state : Statetype
  isnew : Bool
  islock : Bool
  exp : Option ℤ
  deriving DecidableEq

/-- What the player has in his hangar. -/
structure Hangar where
  machines : List Machine
  equipment : Hangarstr → ℤ → Option Equipment
  /-- The field `new` and then the name. -/
  newequip : Hangarstr → List ℤ
  equip : Hangarstr → List ℤ

/-- The parts of the machines that are welded, or of those that are not. -/
def Hangar.partsOf (s : Hangar) (hangarstr : Hangarstr) (weld : Bool) : List ℤ :=
  (s.machines.filter fun m => decide (m.isweld = 1) == weld).flatMap fun m => m.parts hangarstr

/-- 焊死>装备. The field `islock` is a number, so it is never `true` and nothing is
`locking`. -/
def Hangar.info (s : Hangar) (hangarstr : Hangarstr) (isnew : Bool) (id : ℤ) : EquipInfo :=
  let eq := s.equipment hangarstr id
  let state :=
    if (s.partsOf hangarstr true).any (· = id) then .welding
    else if (s.partsOf hangarstr false).any (· = id) then .equiping
    else .zero
  { id := id, cfgid := eq.map Equipment.cfgid, number := 1, lv := eq.map Equipment.lv, state := state
    isnew := isnew, islock := (eq.bind Equipment.islock).any (· = 1), exp := eq.map Equipment.exp }

/-- **`get_equip_info`.** -/
def get_equip_info (hangarstr : Hangarstr) (s : Hangar) (beginindex endindex : ℤ) : Option (List EquipInfo) := do
  let newequip := s.newequip hangarstr
  let equip := s.equip hangarstr
  let ret ← visit newequip beginindex endindex
  let (be, en) := onward newequip.length ret.length beginindex endindex
  let ret' ← visit equip be en
  pure (ret.map (s.info hangarstr true) ++ ret'.map (s.info hangarstr false))

/-! ## Chips -/

/-- An entry of `chipinfoarr`, `newchipinfo` or `inchipinfoarr`. -/
structure Chip where
  id : ℤ
  number : Option ℤ
  level : ℤ
  islock : ℤ
  record : Option ℤ

/-- A row of `chip_dc`. -/
structure ChipRow where
  chipinfoarr : List Chip
  newchipinfo : List Chip
  inchipinfoarr : List Chip

/-- An entry of a page of chips. -/
structure ChipInfo where
  id : ℤ
  cfgid : ℤ
  number : Option ℤ
  lv : ℤ
  state : Statetype
  isnew : Bool
  islock : Bool
  record : Option ℤ
  deriving DecidableEq

def Chip.ofNew (c : Chip) : ChipInfo := ⟨0, c.id, c.number, c.level, .zero, true, c.islock = 1, none⟩

def Chip.ofIn (c : Chip) : ChipInfo := ⟨0, c.id, some 1, c.level, .equiping, false, c.islock = 1, c.record⟩

def Chip.ofSeen (c : Chip) : ChipInfo := ⟨0, c.id, c.number, c.level, .zero, false, c.islock = 1, none⟩

/-- **`get_chip_info`**, for a player with a row. -/
def get_chip_info (chip : ChipRow) (beginindex endindex : ℤ) : Option (List ChipInfo) := do
  let ret ← visit chip.newchipinfo beginindex endindex
  let (be, en) := onward chip.newchipinfo.length ret.length beginindex endindex
  let ret' ← visit chip.inchipinfoarr be en
  let (l, r) := onward chip.inchipinfoarr.length ret'.length be en
  let ret'' ← visit chip.chipinfoarr l r
  pure (ret.map Chip.ofNew ++ ret'.map Chip.ofIn ++ ret''.map Chip.ofSeen)

/-! ## Blueprints -/

/-- An entry of `newblueprint` or `blueprintinfo`; of `blueprintend` with `awardid`; of
`blueprinting` with `bqid`, `begintime` and `endtime`. -/
structure Blueprint where
  id : Str
  number : ℤ
  name : Option Str
  awardid : Option ℤ
  bqid : Option ℤ
  begintime : ℤ
  endtime : ℤ

/-- A row of `blueprint_dc`. -/
structure BlueprintRow where
  newblueprint : List Blueprint
  blueprintinfo : List Blueprint
  blueprinting : List Blueprint
  blueprintend : List Blueprint

/-- An entry of a page of blueprints. -/
structure BlueprintInfo where
  id : Str
  number : ℤ
  state : Statetype
  bqid : Option ℤ
  countdown : Option ℤ
  totaltime : Option ℤ
  name : Option Str
  isnew : Bool
  deriving DecidableEq

def Blueprint.ofNew (b : Blueprint) : BlueprintInfo := ⟨b.id, b.number, .zero, none, none, none, b.name, true⟩

def Blueprint.ofEnd (b : Blueprint) : BlueprintInfo := ⟨b.id, b.number, .ending, b.awardid, none, none, b.name, false⟩

def Blueprint.ofIng (current_time : ℤ) (b : Blueprint) : BlueprintInfo :=
  ⟨b.id, b.number, .casting, b.bqid, some (max 0 (b.endtime - current_time)), some (max 0 (b.endtime - b.begintime)),
    b.name, false⟩

def Blueprint.ofSeen (b : Blueprint) : BlueprintInfo := ⟨b.id, b.number, .zero, none, none, none, b.name, false⟩

/-- **`get_blueprint_info`**, for a player with a row. -/
def get_blueprint_info (current_time : ℤ) (row : BlueprintRow) (beginindex endindex : ℤ) :
    Option (List BlueprintInfo) := do
  let ret ← visit row.newblueprint beginindex endindex
  let (be, en) := onward row.newblueprint.length ret.length beginindex endindex
  let ret' ← visit row.blueprintend be en
  let (l, r) := onward row.blueprintend.length ret'.length be en
  let ret'' ← visit row.blueprinting l r
  let (u, d) := onward row.blueprinting.length ret''.length l r
  let ret''' ← visit row.blueprintinfo u d
  pure (ret.map Blueprint.ofNew ++ ret'.map Blueprint.ofEnd ++ ret''.map (Blueprint.ofIng current_time) ++
    ret'''.map Blueprint.ofSeen)

/-- **`get_blueprint_noing_info`**: 不包含铸造中蓝图. -/
def get_blueprint_noing_info (row : BlueprintRow) (beginindex endindex : ℤ) : Option (List BlueprintInfo) := do
  let ret ← visit row.newblueprint beginindex endindex
  let (be, en) := onward row.newblueprint.length ret.length beginindex endindex
  let ret' ← visit row.blueprintend be en
  let (l, r) := onward row.blueprintend.length ret'.length be en
  let ret'' ← visit row.blueprintinfo l r
  pure (ret.map Blueprint.ofNew ++ ret'.map Blueprint.ofEnd ++ ret''.map Blueprint.ofSeen)

/-! ## Materials and props -/

/-- An entry of a page of materials or props. A nil is `none`. -/
structure ItemInfo where
  cfgid : Option Str
  number : Option Str
  isnew : Bool
  deriving DecidableEq

/-- `for i = 2 * be - 1, math.min(#data, en * 2), 2 do`: the cells `i` and `i + 1`. -/
def cells (data : List Str) (isnew : Bool) (be en : ℤ) : List ItemInfo :=
  (oddPlaces (wrap (2 * be - 1)) (min (data.length : ℤ) (wrap (en * 2)))).map fun i =>
    ⟨entry data i, entry data (i + 1), isnew⟩

/-- **`get_material_info`, `get_prop_info`**: the same over other fields. The two lists
have a cfgid and a number in turn; what is moved on by is the number of cells. -/
def get_material_info (newdata data : List Str) (beginindex endindex : ℤ) : List ItemInfo :=
  let ret := cells newdata true beginindex endindex
  let (be, en) := onward newdata.length ret.length beginindex endindex
  ret ++ cells data false be en

end Paging

end Warehouse

/-!
## The pages of the warehouse — equipment, chips and blueprints

Each page is the window of the lists of its kind, one behind the other.
-/

namespace Warehouse

namespace Paging

open Page (visit onward Forward Shows visit_eq onward_window shows_of_slice)
open Pairs (window window_map)

/-- One list, and what is behind it. -/
theorem visit_next {α β : Type*} (f : α → β) (l : List α) (m : List β) {be en : ℤ} (h : Forward (be, en)) :
    visit l be en = some (window l be en) ∧
      Forward ((onward l.length (window l be en).length be en).1, (onward l.length (window l be en).length be en).2) ∧
      window (l.map f ++ m) be en = (window l be en).map f ++
        window m (onward l.length (window l be en).length be en).1
          (onward l.length (window l be en).length be en).2 := by
  have hnext := onward_window (l := l.map f) h
  rw [window_map, List.length_map, List.length_map] at hnext
  exact ⟨visit_eq h, hnext.1, hnext.2 m⟩

/-! ## The lists, one behind the other -/

/-- New equipment, and then the other. -/
def Hangar.all (s : Hangar) (hangarstr : Hangarstr) : List EquipInfo :=
  (s.newequip hangarstr).map (s.info hangarstr true) ++ (s.equip hangarstr).map (s.info hangarstr false)

/-- New chips, the chips in machines, and the others. -/
def ChipRow.all (c : ChipRow) : List ChipInfo :=
  c.newchipinfo.map Chip.ofNew ++ (c.inchipinfoarr.map Chip.ofIn ++ c.chipinfoarr.map Chip.ofSeen)

/-- New blueprints, those that are cast, those that are casting, and the others. -/
def BlueprintRow.all (current_time : ℤ) (row : BlueprintRow) : List BlueprintInfo :=
  row.newblueprint.map Blueprint.ofNew ++ (row.blueprintend.map Blueprint.ofEnd ++
    (row.blueprinting.map (Blueprint.ofIng current_time) ++ row.blueprintinfo.map Blueprint.ofSeen))

/-- Without those that are casting. -/
def BlueprintRow.noing (row : BlueprintRow) : List BlueprintInfo :=
  row.newblueprint.map Blueprint.ofNew ++ (row.blueprintend.map Blueprint.ofEnd ++ row.blueprintinfo.map Blueprint.ofSeen)

/-! ## The pages -/

variable {b e : ℤ}

theorem get_equip_info_eq (hangarstr : Hangarstr) (s : Hangar) (hb : 1 ≤ b) :
    get_equip_info hangarstr s b e = some (window (s.all hangarstr) b e) := by
  obtain ⟨h, hw, hfirst⟩ := visit_next (s.info hangarstr true) (s.newequip hangarstr)
    ((s.equip hangarstr).map (s.info hangarstr false)) (show Forward (b, e) from .inl hb)
  simp only [get_equip_info, h, visit_eq hw, Option.bind_eq_bind, Option.bind_some, Option.pure_def, Hangar.all,
    hfirst, window_map]

theorem get_chip_info_eq (chip : ChipRow) (hb : 1 ≤ b) :
    get_chip_info chip b e = some (window chip.all b e) := by
  obtain ⟨h, hw, hfirst⟩ := visit_next Chip.ofNew chip.newchipinfo
    (chip.inchipinfoarr.map Chip.ofIn ++ chip.chipinfoarr.map Chip.ofSeen) (show Forward (b, e) from .inl hb)
  obtain ⟨h', hw', hsecond⟩ := visit_next Chip.ofIn chip.inchipinfoarr (chip.chipinfoarr.map Chip.ofSeen) hw
  simp only [get_chip_info, h, h', visit_eq hw', Option.bind_eq_bind, Option.bind_some, Option.pure_def,
    ChipRow.all, hfirst, hsecond, window_map, List.append_assoc]

theorem get_blueprint_info_eq (current_time : ℤ) (row : BlueprintRow) (hb : 1 ≤ b) :
    get_blueprint_info current_time row b e = some (window (row.all current_time) b e) := by
  obtain ⟨h, hw, hfirst⟩ := visit_next Blueprint.ofNew row.newblueprint
    (row.blueprintend.map Blueprint.ofEnd ++
      (row.blueprinting.map (Blueprint.ofIng current_time) ++ row.blueprintinfo.map Blueprint.ofSeen))
    (show Forward (b, e) from .inl hb)
  obtain ⟨h', hw', hsecond⟩ := visit_next Blueprint.ofEnd row.blueprintend
    (row.blueprinting.map (Blueprint.ofIng current_time) ++ row.blueprintinfo.map Blueprint.ofSeen) hw
  obtain ⟨h'', hw'', hthird⟩ := visit_next (Blueprint.ofIng current_time) row.blueprinting
    (row.blueprintinfo.map Blueprint.ofSeen) hw'
  simp only [get_blueprint_info, h, h', h'', visit_eq hw'', Option.bind_eq_bind, Option.bind_some, Option.pure_def,
    BlueprintRow.all, hfirst, hsecond, hthird, window_map, List.append_assoc]

theorem get_blueprint_noing_info_eq (row : BlueprintRow) (hb : 1 ≤ b) :
    get_blueprint_noing_info row b e = some (window row.noing b e) := by
  obtain ⟨h, hw, hfirst⟩ := visit_next Blueprint.ofNew row.newblueprint
    (row.blueprintend.map Blueprint.ofEnd ++ row.blueprintinfo.map Blueprint.ofSeen)
    (show Forward (b, e) from .inl hb)
  obtain ⟨h', hw', hsecond⟩ := visit_next Blueprint.ofEnd row.blueprintend
    (row.blueprintinfo.map Blueprint.ofSeen) hw
  simp only [get_blueprint_noing_info, h, h', visit_eq hw', Option.bind_eq_bind, Option.bind_some,
    Option.pure_def, BlueprintRow.noing, hfirst, hsecond, window_map, List.append_assoc]

end Paging

end Warehouse

end Athena
