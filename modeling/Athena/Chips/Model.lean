import Athena.Common.System
import Mathlib.Data.Rat.Floor
import Mathlib.Data.Finset.Basic
import Mathlib.Logic.Function.Basic
/-!
# Chips — model

`game/chip/chiphandler.lua` for one player. A chip is in one of three lists of
`d_chipinfo`, and one that is fitted is also in a slot of an equipment. A request
runs to its end before the next one comes.

Numbers are exact here: counts, levels and a capacity times a level are in the
64-bit range. What the player owns in the hangar does not change. An
equipment has five slots, in which `chipid` and `level` are set and cleared
together; each machine has its row of `d_chipattribute`; the skills of a machine
and the messages to the client are left out.
-/

namespace Athena

namespace Chips

/-- **An entry of a chip list.** A fitted chip has a record and no number. -/
structure Chip where
  id : ℤ
  level : ℤ
  islock : ℤ
  number : Option ℤ
  record : Option ℤ
  deriving DecidableEq

/-- **A slot**: its chip, with the level, and its polarity. -/
structure Slot where
  chip : Option (ℤ × ℤ)
  islock : Option ℤ
  ispola : Bool
  typepola : Option ℤ
  deriving DecidableEq

/-- **A row of an equipment.** -/
structure Equip where
  slots : Fin 5 → Slot
  volume : ℚ
  currentvolume : ℚ
  isdouble : ℤ
  count : ℤ

/-- The parts of a machine. -/
structure Machine where
  machinechassis : List ℤ
  machinebody : List ℤ
  firecontroller : List ℤ
  weapons : List ℤ

/-- A row of the table `mod`, with its row of `mod_levelup`. -/
structure Mod where
  Mod_Type : ℤ
  Mod_Capacity : ℚ
  Pole_Type : ℤ
  Load_Pisiton : List (ℤ × ℤ)
  Buff_ID : List (ℤ × ℚ × ℚ)
  Mod_Level_Up : ℤ → Option ℤ

/-- **What the shared tables hold**, and what the player owns by its part. -/
structure Config where
  mod : ℤ → Option Mod
  /-- `Mod_Volume` of the first level. -/
  Mod_Volume : ℚ
  bufftypekey : ℤ → Option ℤ
  hangar : ℤ → List ℤ

/-- **The player's data.** Materials and props are those the requests take. -/
structure State where
  newchipinfo : List Chip
  chipinfoarr : List Chip
  inchipinfoarr : List Chip
  equip : ℤ → ℤ → Option Equip
  machines : List (ℤ × Machine)
  chipattribute : ℤ → ℤ → ℚ
  materials : ℤ
  props : ℤ → ℤ

/-- `errcodedef`. -/
inductive Code
  | success
  | err_param
  | chip_nofind
  | chip_type
  | chip_skill
  | chip_repeat
  | chip_fulllv
  | slot_volume
  | slot_isdouble
  | slot_upchipandremove
  | cfgid_nofind
  | res_notEnough
  deriving DecidableEq

/-- A request answers with a code, or raises an error. -/
abbrev Reply := Option Code

/-- `warehousedefine.warehousetype`. -/
def warehousetype.chassis : ℤ := 1
def warehousetype.body : ℤ := 2
def warehousetype.firecontroller : ℤ := 3
def warehousetype.weapon : ℤ := 4

/-- `chipdefine.chiptype`. -/
def chiptype.additional : ℤ := 1
def chiptype.skill : ℤ := 5
def chiptype.passkill : ℤ := 6

/-- The type of a slot that was polarised back. -/
def nopola : ℤ := 10000

/-- An equipment and its part in one number. -/
def recordof (part uniqueid : ℤ) : ℤ := uniqueid * 10 + part

/-! ## Attributes -/

/-- `is_skill`, by the row of the chip. -/
def is_skill (m : Mod) : Bool := m.Mod_Type = chiptype.skill || m.Mod_Type = chiptype.passkill

/-- Away from zero to three decimals. -/
def round (num : ℚ) : ℚ := if 0 ≤ num then ⌈num * 1000⌉ / 1000 else ⌊num * 1000⌋ / 1000

/-- `update_attr`. -/
def update_attr (cfg : Config) (player : ℤ → ℚ) (id : ℤ) (num : ℚ) : ℤ → ℚ :=
  match cfg.bufftypekey id with
  | none => player
  | some res => Function.update player res (player res + round num)

/-- What the buffs of a chip do to a row. -/
def addbuffs (cfg : Config) (level : ℤ) (ty : Bool) : List (ℤ × ℚ × ℚ) → (ℤ → ℚ) → ℤ → ℚ
  | [], player => player
  | (buffid, base, increment) :: l, player =>
    let num := base + increment * level
    addbuffs cfg level ty l (update_attr cfg player buffid (if ty then num else -num))

/-- **`update_player_attr`**, by the row of the chip. -/
def update_player_attr (cfg : Config) (m : Mod) (level part : ℤ) (machinecfgid : Option ℤ)
    (index : Fin 5) (ty : Bool) (s : State) : State :=
  match machinecfgid with
  | none => s
  | some id =>
    if part = warehousetype.weapon ∨ index = 4 then s
    else if is_skill m then s
    else
      { s with
        chipattribute :=
          Function.update s.chipattribute id (addbuffs cfg level ty m.Buff_ID (s.chipattribute id)) }

/-! ## The lists -/

/-- `get_chip`; for a fitted chip by its equipment and part. -/
def get_chip (id : ℤ) (arry : List Chip) (level : Option ℤ) (islock : ℤ) (inarr : Option (ℤ × ℤ)) :
    Option ℕ :=
  arry.findIdx? fun c =>
    match inarr with
    | some (uniqueid, part) => c.record = some (recordof part uniqueid) ∧ islock = c.islock ∧ id = c.id
    | none => c.id = id ∧ some c.level = level ∧ islock = c.islock

/-- `get_chip_inchip`. -/
def get_chip_inchip (id : ℤ) (arry : List Chip) (record : ℤ) (islock : Option ℤ) : Option ℕ :=
  arry.findIdx? fun c => c.id = id ∧ c.record = some record ∧ islock = some c.islock

/-- `add_chip`. -/
def add_chip (id : ℤ) (arry : List Chip) (level number islock : ℤ) (inarr : Option (ℤ × ℤ)) :
    List Chip :=
  match get_chip id arry (some level) islock inarr with
  | some key => arry.modify key fun c => { c with number := some (c.number.getD 0 + number) }
  | none =>
    match inarr with
    | some (uniqueid, part) => arry ++ [⟨id, level, islock, none, some (recordof part uniqueid)⟩]
    | none => arry ++ [⟨id, level, islock, some number, none⟩]

/-- `removeto_chip`: the list it takes from and the list it adds to. -/
def removeto_chip (key : ℕ) (arry toarry : List Chip) (inarr : Option (ℤ × ℤ)) :
    List Chip × List Chip :=
  match arry[key]? with
  | none => (arry, toarry)
  | some c =>
    (if 2 ≤ c.number.getD 0 then
        arry.modify key fun c => { c with number := some (c.number.getD 0 - 1) }
      else arry.eraseIdx key,
      add_chip c.id toarry c.level 1 c.islock inarr)

/-- `remove_number`. -/
def remove_number (arr : List Chip) (key : ℕ) (number : ℤ) : List Chip :=
  match arr[key]? with
  | none => arr
  | some c =>
    match c.number with
    | none => arr.eraseIdx key
    | some n =>
      if number < n then arr.modify key fun c => { c with number := some (n - number) }
      else if n = number then arr.eraseIdx key
      else arr

/-! ## Equipment -/

/-- The parts of a kind. -/
def Machine.part (m : Machine) (part : ℤ) : List ℤ :=
  if part = warehousetype.chassis then m.machinechassis
  else if part = warehousetype.body then m.machinebody
  else if part = warehousetype.firecontroller then m.firecontroller
  else if part = warehousetype.weapon then m.weapons
  else []

/-- `find_equip_index`: the first machine with the equipment. -/
def find_equip_index (s : State) (part uniqueid : ℤ) : Option ℤ :=
  (s.machines.find? fun x => uniqueid ∈ x.2.part part).map Prod.fst

/-- `is_match`. -/
def is_match (cfg : Config) (part uniqueid : ℤ) : Bool :=
  1 ≤ part && part ≤ 4 && uniqueid ∈ cfg.hangar part

/-- `find_part` and the check after it: chips whose part has a limit are never
let in. -/
def loadable (m : Mod) (part : ℤ) : Bool :=
  match m.Load_Pisiton.find? fun x => x.1 = part with
  | some x => x.2 = 0
  | none => false

def Slot.chipid (slot : Slot) : Option ℤ := slot.chip.map Prod.fst

/-- The slot that has a chip. -/
def Equip.find (e : Equip) (id : ℤ) : Option (Fin 5) :=
  (List.finRange 5).find? fun i => (e.slots i).chipid = some id

/-- `chip_isrepeat`. -/
def chip_isrepeat (e : Equip) (id : ℤ) : Bool := (e.find id).isSome

/-- The first skill among some chips, where all of them are in the table. -/
def firstskill (cfg : Config) : List (Option (ℤ × ℤ)) → Option (Option ℤ)
  | [] => some none
  | none :: l => firstskill cfg l
  | some (id, _) :: l =>
    match cfg.mod id with
    | none => none
    | some m => if is_skill m then some (some id) else firstskill cfg l

/-- `is_part_skill`. -/
def is_part_skill (cfg : Config) (e : Equip) : Option (Option ℤ) :=
  firstskill cfg ((List.finRange 5).map fun i => (e.slots i).chip)

/-- What a chip takes: `math.floor(Mod_Capacity * level + 0.5)`. -/
def cost (m : Mod) (level : ℤ) : ℚ := (⌊m.Mod_Capacity * level + 1 / 2⌋ : ℤ)

/-- A slot whose polarity counts. -/
def Slot.polar (slot : Slot) : Bool := slot.ispola && slot.typepola ≠ some nopola

/-- Half for the right type and one and a half for any other. -/
def Slot.times (slot : Slot) (m : Mod) : ℚ := if slot.typepola = some m.Pole_Type then 1 / 2 else 3 / 2

/-- The factor of a slot. -/
def Slot.num (slot : Slot) (m : Mod) : ℚ := if slot.polar then slot.times m else 1

/-- The factor of the slot a chip is moved from, which counts every polarity. -/
def Slot.movenum (slot : Slot) (m : Mod) : ℚ := if slot.ispola then slot.times m else 1

/-- The factor with which a chip in the fifth slot adds to the volume. -/
def addtimes (num : ℚ) : ℚ := if num = 1 / 2 then 2 else if num = 3 / 2 then 1 / 2 else 1

/-- What a chip in the fifth slot has added, as `double` and `slotpola` see it. -/
def addnum (m : Mod) (slot : Slot) (pola : Bool) : ℚ :=
  if pola then (⌊m.Mod_Capacity * if slot.typepola = some m.Pole_Type then 3 / 2 else 1 / 2⌋ : ℤ)
  else m.Mod_Capacity

def Slot.clear (slot : Slot) : Slot := { slot with chip := none, islock := none }

def Slot.fit (slot : Slot) (id level islock : ℤ) : Slot :=
  { slot with chip := some (id, level), islock := some islock }

def Equip.set (e : Equip) (i : Fin 5) (slot : Slot) : Equip :=
  { e with slots := Function.update e.slots i slot }

/-- `math.floor` of both volumes, as they are stored. -/
def Equip.floor (e : Equip) : Equip :=
  { e with volume := (⌊e.volume⌋ : ℤ), currentvolume := (⌊e.currentvolume⌋ : ℤ) }

def State.setequip (s : State) (part uniqueid : ℤ) (e : Equip) : State :=
  { s with equip := Function.update s.equip part (Function.update (s.equip part) uniqueid (some e)) }

/-- A fitted chip goes to the list of those that are not. -/
def State.out (s : State) (key : ℕ) : State :=
  { s with
    inchipinfoarr := (removeto_chip key s.inchipinfoarr s.chipinfoarr none).1
    chipinfoarr := (removeto_chip key s.inchipinfoarr s.chipinfoarr none).2 }

/-- A request that fails has changed attributes at most. -/
def State.fail (s t : State) (reply : Reply) : State × Reply :=
  ({ s with chipattribute := t.chipattribute }, reply)

/-! ## add -/

structure AddMsg where
  id : Option ℤ
  uniqueidpart : Option ℤ
  index : Option ℤ
  level : Option ℤ
  state : Option Bool
  record : Option ℤ
  isnew : Option Bool
  deriving DecidableEq

/-- The index of a slot for chips, from one. -/
def slotindex (index : ℤ) : Option (Fin 5) :=
  if index = 1 then some 0
  else if index = 2 then some 1
  else if index = 3 then some 2
  else if index = 4 then some 3
  else none

/-- **What `add` has found** before it changes anything. -/
structure Add where
  id : ℤ
  level : ℤ
  part : ℤ
  uniqueid : ℤ
  index : Fin 5
  isnew : Bool
  /-- The record of a chip that is moved. -/
  record : Option ℤ
  key : ℕ
  mod : Mod
  equip : Equip

/-- The chip an `add` is for. -/
def addkey (s : State) (id level : ℤ) (isnew : Bool) (record : Option ℤ) : Option ℕ :=
  if isnew then get_chip id s.newchipinfo (some level) 0 none
  else
    match record with
    | none => get_chip id s.chipinfoarr (some level) 0 none
    | some record => get_chip_inchip id s.inchipinfoarr record (some 0)

/-- **The checks of `add`.** -/
def addcheck (cfg : Config) (s : State) (m : AddMsg) : Except Reply Add :=
  match m.uniqueidpart with
  | none => .error none
  | some uniqueidpart =>
    let part := uniqueidpart % 10
    let uniqueid := uniqueidpart / 10
    match m.isnew, m.id, m.index.bind slotindex, m.level, m.state with
    | some isnew, some id, some index, some level, some state =>
      if !is_match cfg part uniqueid then .error (some .err_param)
      else if !state && m.record.isNone then .error (some .err_param)
      else
        let record := if state then none else m.record
        match addkey s id level isnew record with
        | none => .error (some .chip_nofind)
        | some key =>
          match cfg.mod id with
          | none => .error none
          | some mod =>
            if mod.Mod_Type = chiptype.additional then .error (some .chip_type)
            else if !loadable mod part then .error (some .chip_type)
            else
              match s.equip part uniqueid with
              | none => .error none
              | some equip => .ok ⟨id, level, part, uniqueid, index, isnew, record, key, mod, equip⟩
    | _, _, _, _, _ => .error (some .err_param)

/-- **The chip that is in the slot is taken out first.** -/
def uninstall (cfg : Config) (s : State) (a : Add) : Option (State × Equip) :=
  let slot := a.equip.slots a.index
  match slot.chip with
  | none => some (s, a.equip)
  | some (chipid, level) =>
    match cfg.mod chipid,
      get_chip_inchip chipid s.inchipinfoarr (recordof a.part a.uniqueid) slot.islock with
    | some m, some key =>
      some (update_player_attr cfg m level a.part (find_equip_index s a.part a.uniqueid) a.index false
          (s.out key),
        { a.equip.set a.index slot.clear with
          currentvolume := a.equip.currentvolume - cost m level * slot.num m })
    | _, _ => none

/-- **The chip is in its slot**, and all is stored. -/
def fitted (s : State) (a : Add) (e : Equip) : State × Reply :=
  let slot := e.slots a.index
  (s.setequip a.part a.uniqueid
      { e.set a.index (slot.fit a.id a.level 0) with
        currentvolume := e.currentvolume + cost a.mod a.level * slot.num a.mod }.floor,
    some .success)

/-- The lists when a chip that was not fitted is. -/
def installed (s : State) (a : Add) : State :=
  if a.isnew then
    let moved := removeto_chip a.key s.newchipinfo s.inchipinfoarr (some (a.uniqueid, a.part))
    { s with newchipinfo := moved.1, inchipinfoarr := moved.2 }
  else
    let moved := removeto_chip a.key s.chipinfoarr s.inchipinfoarr (some (a.uniqueid, a.part))
    { s with chipinfoarr := moved.1, inchipinfoarr := moved.2 }

/-- **A chip that is not fitted.** The checks see the slots as they are stored. -/
def install (cfg : Config) (s : State) (a : Add) (t : State) (e : Equip) : State × Reply :=
  if e.volume - e.currentvolume < cost a.mod a.level * (e.slots a.index).num a.mod then
    s.fail t (some .slot_volume)
  else
    match is_part_skill cfg e with
    | none => s.fail t none
    | some ind =>
      if ind.isSome && is_skill a.mod then s.fail t (some .chip_skill)
      else if chip_isrepeat a.equip a.id then s.fail t (some .chip_repeat)
      else
        fitted (update_player_attr cfg a.mod a.level a.part (find_equip_index s a.part a.uniqueid)
          a.index true (installed t a)) a e

/-- The equipment a chip is moved from: the same data where it is the same. -/
def source (s : State) (a : Add) (e : Equip) (record : ℤ) : Option Equip :=
  if record % 10 = a.part ∧ record / 10 = a.uniqueid then some e
  else s.equip (record % 10) (record / 10)

/-- **The checks of a move** from a slot. -/
def movecheck (cfg : Config) (a : Add) (e src : Equip) (record : ℤ) (i : Fin 5) : Except Reply Unit :=
  let slot := e.slots a.index
  match is_part_skill cfg e with
  | none => .error none
  | some ind =>
    if ind.isSome && is_skill a.mod && ind ≠ some a.id then .error (some .chip_skill)
    else if record % 10 = a.part ∧ record / 10 = a.uniqueid then
      if src.volume - src.currentvolume <
          cost a.mod a.level * (slot.num a.mod - (src.slots i).movenum a.mod) then
        .error (some .slot_volume)
      else .ok ()
    else if chip_isrepeat a.equip a.id then .error (some .chip_repeat)
    else if e.volume - e.currentvolume < cost a.mod a.level * slot.num a.mod then
      .error (some .slot_volume)
    else .ok ()

/-- The equipment without the chip. -/
def leave (a : Add) (src : Equip) (i : Fin 5) : Equip :=
  { src.set i (src.slots i).clear with
    currentvolume := src.currentvolume - cost a.mod a.level * (src.slots i).movenum a.mod }

/-- The lists when a chip is moved: it goes out of its record, -/
def relistout (s : State) (id record : ℤ) : State :=
  match get_chip_inchip id s.inchipinfoarr record (some 0) with
  | some key => s.out key
  | none => s

/-- and one of the client's level comes into the new one. -/
def relistback (s : State) (a : Add) : State :=
  match get_chip a.id s.chipinfoarr (some a.level) 0 none with
  | some key =>
    { s with
      chipinfoarr := (removeto_chip key s.chipinfoarr s.inchipinfoarr (some (a.uniqueid, a.part))).1
      inchipinfoarr := (removeto_chip key s.chipinfoarr s.inchipinfoarr (some (a.uniqueid, a.part))).2 }
  | none => s

/-- **The chip is moved**: the equipment it comes from is stored, and then the one
it goes to. -/
def moved (cfg : Config) (s : State) (a : Add) (t : State) (e src : Equip) (record : ℤ) :
    State × Reply :=
  let t := relistback (relistout t a.id record) a
  let t := update_player_attr cfg a.mod a.level (record % 10)
    (find_equip_index s (record % 10) (record / 10)) a.index false t
  let t := update_player_attr cfg a.mod a.level a.part (find_equip_index s a.part a.uniqueid) a.index true t
  let e := if record % 10 = a.part ∧ record / 10 = a.uniqueid then src else e
  fitted (t.setequip (record % 10) (record / 10) src.floor) a e

/-- **A chip that is fitted elsewhere.** -/
def move (cfg : Config) (s : State) (a : Add) (t : State) (e : Equip) (record : ℤ) : State × Reply :=
  match source s a e record with
  | none => s.fail t none
  | some src =>
    match src.find a.id with
    | none => moved cfg s a t e src record
    | some i =>
      match movecheck cfg a e src record i with
      | .error reply => s.fail t reply
      | .ok () => moved cfg s a t e (leave a src i) record

/-- **`chiphandler:add`.** -/
def add (cfg : Config) (s : State) (m : AddMsg) : State × Reply :=
  match addcheck cfg s m with
  | .error reply => (s, reply)
  | .ok a =>
    match uninstall cfg s a with
    | none => (s, none)
    | some (t, e) =>
      match a.record with
      | none => install cfg s a t e
      | some record => move cfg s a t e record

/-! ## remove -/

/-- What a chip that is taken out of a slot leaves of the volumes. -/
def Equip.without (e : Equip) (m : Mod) (level : ℤ) (i : Fin 5) : Equip :=
  let num := (e.slots i).num m
  if i = 4 then { e with volume := e.volume - cost m level * addtimes num }
  else { e with currentvolume := e.currentvolume - cost m level * num }

/-- **`chiphandler:remove`.** -/
def remove (cfg : Config) (s : State) (uniqueidpart id : Option ℤ) : State × Reply :=
  match uniqueidpart, id with
  | none, _ => (s, none)
  | some _, none => (s, some .err_param)
  | some uniqueidpart, some id =>
    let part := uniqueidpart % 10
    let uniqueid := uniqueidpart / 10
    if uniqueid ≤ 0 || !is_match cfg part uniqueid then (s, some .err_param)
    else
      match get_chip_inchip id s.inchipinfoarr uniqueidpart (some 0) with
      | none => (s, some .chip_nofind)
      | some key =>
        match s.equip part uniqueid with
        | none => (s, some .cfgid_nofind)
        | some e =>
          match e.find id with
          | none => (s, some .success)
          | some i =>
            match cfg.mod id, (e.slots i).chip with
            | some m, some (_, level) =>
              let t := update_player_attr cfg m level part (find_equip_index s part uniqueid) i false
                (s.out key)
              (t.setequip part uniqueid ((e.without m level i).set i (e.slots i).clear), some .success)
            | _, _ => (s, none)

/-! ## double and slotpola -/

/-- What the fifth slot adds; it raises an error at a chip that is not in the table. -/
def addnum5 (cfg : Config) (e : Equip) (pola : Bool) : Option ℚ :=
  match (e.slots 4).chip with
  | none => some 0
  | some (id, _) => (cfg.mod id).map fun m => addnum m (e.slots 4) pola

def reactor : ℤ := 10002

def polariser : ℤ := 10001

def State.remprop (s : State) (id : ℤ) : State :=
  { s with props := Function.update s.props id (s.props id - 1) }

/-- **`chiphandler:double`.** -/
def double (cfg : Config) (s : State) (part uniqueid : Option ℤ) : State × Reply :=
  match part, uniqueid with
  | some part, some uniqueid =>
    if part < 1 || 4 < part then (s, some .err_param)
    else if s.props reactor < 1 then (s, some .err_param)
    else if !is_match cfg part uniqueid then (s, some .err_param)
    else
      match s.equip part uniqueid with
      | none => (s, some .err_param)
      | some e =>
        if e.isdouble ≠ 0 then (s, some .slot_isdouble)
        else
          match addnum5 cfg e (e.slots 4).polar with
          | none => (s, none)
          | some addnum =>
            ((s.remprop reactor).setequip part uniqueid
                { e with isdouble := 1, volume := (e.volume - addnum) * 2 + addnum },
              some .success)
  | _, _ => (s, some .err_param)

/-- The loop of `slotpola` over the slots: their chips go back to the list. It
raises an error at a chip that is not found, with the attributes it has changed. -/
def unload (cfg : Config) (machine : Option ℤ) (part record : ℤ) :
    List (Fin 5) → State → Equip → State × Option Equip
  | [], s, e => (s, some e)
  | i :: is, s, e =>
    match (e.slots i).chip with
    | none => unload cfg machine part record is s e
    | some (id, level) =>
      match cfg.mod id, get_chip_inchip id s.inchipinfoarr record (e.slots i).islock with
      | some m, some key =>
        unload cfg machine part record is
          (update_player_attr cfg m level part machine i false (s.out key))
          (e.set i { e.slots i with chip := none })
      | _, _ => (s, none)

/-- The slot gets its type, and a polariser is used up. -/
def polarised (s : State) (part uniqueid : ℤ) (e : Equip) (i : Fin 5) (typepola : Option ℤ) :
    State × Reply :=
  ((s.remprop polariser).setequip part uniqueid
      { e.set i { e.slots i with ispola := true, typepola := typepola } with count := e.count + 1 },
    some .success)

/-- **`chiphandler:slotpola`.** -/
def slotpola (cfg : Config) (s : State) (part uniqueid typepola index : Option ℤ) : State × Reply :=
  match index.bind slotindex with
  | none => (s, some .err_param)
  | some i =>
    match part, uniqueid with
    | some part, some uniqueid =>
      if !is_match cfg part uniqueid then (s, some .err_param)
      else if s.props polariser < 1 then (s, some .res_notEnough)
      else
        match s.equip part uniqueid with
        | none => (s, none)
        | some e =>
          if 99 < e.count then polarised s part uniqueid e i typepola
          else
            match addnum5 cfg e (e.slots 4).ispola with
            | none => (s, none)
            | some addnum =>
              match unload cfg (find_equip_index s part uniqueid) part (recordof part uniqueid)
                [0, 1, 2, 3] s e with
              | (t, none) => s.fail t none
              | (t, some e) =>
                polarised t part uniqueid
                  { e with volume := cfg.Mod_Volume + addnum, currentvolume := 0 } i typepola
    | _, _ => (s, some .err_param)

/-! ## upgrade -/

structure UpgradeMsg where
  id : Option ℤ
  level : Option ℤ
  isequip : Option Bool
  record : Option ℤ
  isnew : Option Bool
  number : Option ℤ
  deriving DecidableEq

/-- The material some levels take; it raises an error where there is no such level. -/
def neednum (m : Mod) (level : ℤ) : ℕ → Option ℤ
  | 0 => some 0
  | n + 1 => do
    let sum ← neednum m level n
    let need ← m.Mod_Level_Up (level + 1 + n)
    return sum + need

/-- `warehouse.req.matchmaterial`, for the material of upgrades. -/
def matchmaterial (s : State) (number : ℤ) : Bool :=
  if number < 0 then false else if number = 0 then true else number ≤ s.materials

/-- `warehouse.req.remmaterials`. -/
def State.remmaterials (s : State) (number : ℤ) : State :=
  if 0 < number ∧ number ≤ s.materials then { s with materials := s.materials - number } else s

/-- **What `upgrade` has found.** -/
structure Upgrade where
  id : ℤ
  level : ℤ
  number : ℤ
  isequip : Bool
  isnew : Bool
  record : ℤ
  key : ℕ
  mod : Mod
  neednum : ℤ

def upgradekey (s : State) (id level : ℤ) (isequip isnew : Bool) (record : ℤ) : Option ℕ :=
  if isnew then get_chip id s.newchipinfo (some level) 0 none
  else if !isequip then get_chip id s.chipinfoarr (some level) 0 none
  else get_chip_inchip id s.inchipinfoarr record (some 0)

/-- **The checks of `upgrade`.** -/
def upgradecheck (cfg : Config) (s : State) (m : UpgradeMsg) : Except Reply Upgrade :=
  let number := m.number.getD 1
  match m.id, m.level, m.isequip, m.isnew with
  | some id, some level, some isequip, some isnew =>
    if isequip && m.record.isNone then .error (some .err_param)
    else if 15 ≤ level then .error (some .chip_fulllv)
    else
      match cfg.mod id with
      | none => .error none
      | some mod =>
        match neednum mod level number.toNat with
        | none => .error none
        | some need =>
          if !matchmaterial s need then .error (some .res_notEnough)
          else
            match upgradekey s id level isequip isnew (m.record.getD 0) with
            | none => .error (some .chip_nofind)
            | some key => .ok ⟨id, level, number, isequip, isnew, m.record.getD 0, key, mod, need⟩
  | _, _, _, _ => .error (some .err_param)

/-- The new level of a chip, as the client's level has it. -/
def Upgrade.to (u : Upgrade) : ℤ := min 15 (u.level + u.number)

/-- A fitted chip that is upgraded has no room for its new level. -/
def Noroom (s : State) (u : Upgrade) : Prop :=
  ∃ (e : Equip) (i : Fin 5), s.equip (u.record % 10) (u.record / 10) = some e ∧
    e.find u.id = some i ∧ i ≠ 4 ∧
    e.volume < e.currentvolume + cost u.mod u.number * (e.slots i).num u.mod

/-- A fitted chip that no longer has room is taken out. -/
def takenout (cfg : Config) (s : State) (u : Upgrade) (e : Equip) (i : Fin 5) : State × Reply :=
  let part := u.record % 10
  let uniqueid := u.record / 10
  let inchip := s.inchipinfoarr.modify u.key fun c => { c with level := u.to }
  let t := update_player_attr cfg u.mod u.level part (find_equip_index s part uniqueid) i false
    (({ s with inchipinfoarr := inchip } : State).out u.key)
  (t.setequip part uniqueid
      { e.set i (e.slots i).clear with
        currentvolume := e.currentvolume - cost u.mod u.level * (e.slots i).num u.mod },
    some .slot_upchipandremove)

/-- What more levels of a chip add to the volumes. -/
def Equip.more (e : Equip) (m : Mod) (number : ℤ) (i : Fin 5) : Equip :=
  let num := (e.slots i).num m
  if i = 4 then { e with volume := e.volume + cost m number * addtimes num }
  else { e with currentvolume := e.currentvolume + cost m number * num }

/-- A fitted chip gets its new level, in the slot and in the list. -/
def raised (cfg : Config) (s : State) (u : Upgrade) (e : Equip) (i : Fin 5) (level : ℤ) :
    State × Reply :=
  let part := u.record % 10
  let uniqueid := u.record / 10
  let inchip := s.inchipinfoarr.modify u.key fun c => { c with level := u.to }
  let t := update_player_attr cfg u.mod u.number part (find_equip_index s part uniqueid) i true
    { s with inchipinfoarr := inchip }
  let slot := { e.slots i with chip := some (u.id, min 15 (level + u.number)) }
  ((t.setequip part uniqueid ((e.more u.mod u.number i).set i slot).floor).remmaterials u.neednum,
    some .success)

/-- **A fitted chip is upgraded.** -/
def upgradefitted (cfg : Config) (s : State) (u : Upgrade) : State × Reply :=
  let part := u.record % 10
  let uniqueid := u.record / 10
  if !is_match cfg part uniqueid then (s, some .err_param)
  else
    match s.equip part uniqueid with
    | none => (s, none)
    | some e =>
      match e.find u.id with
      | none => (s, some .err_param)
      | some i =>
        -- the key is one of `newchipinfo` where the chip is said to be new
        if s.inchipinfoarr.length ≤ u.key then (s, none)
        else if i ≠ 4 ∧
            e.volume < e.currentvolume + cost u.mod u.number * (e.slots i).num u.mod then
          takenout cfg s u e i
        else
          match (e.slots i).chip with
          | none => (s, none)
          | some (_, level) => raised cfg s u e i level

/-- A chip that is not fitted is upgraded. -/
def upgradelisted (s : State) (u : Upgrade) : State × Reply :=
  if u.isnew then
    (({ s with
        newchipinfo := remove_number s.newchipinfo u.key 1
        chipinfoarr := add_chip u.id s.chipinfoarr u.to 1 0 none } : State).remmaterials u.neednum,
      some .success)
  else
    (({ s with
        chipinfoarr := add_chip u.id (remove_number s.chipinfoarr u.key 1) u.to 1 0 none } :
          State).remmaterials u.neednum,
      some .success)

/-- **`chiphandler:upgrade`.** -/
def upgrade (cfg : Config) (s : State) (m : UpgradeMsg) : State × Reply :=
  match upgradecheck cfg s m with
  | .error reply => (s, reply)
  | .ok u => if u.isequip then upgradefitted cfg s u else upgradelisted s u

/-! ## setlockchip, addchip and removechip -/

/-- **`chiphandler:setlockchip`.** It looks for a locked chip, and without a record
for one without a level; the list it reads for a new one is not there. -/
def setlockchip (s : State) (cfgid record : Option ℤ) (isnew islock : Option Bool) : State × Reply :=
  match cfgid, islock, isnew with
  | some cfgid, some true, some isnew =>
    match record with
    | some record =>
      match get_chip cfgid s.inchipinfoarr none 1 (some (record / 10, record % 10)) with
      | none => (s, some .chip_nofind)
      | some key =>
        ({ s with inchipinfoarr := s.inchipinfoarr.modify key fun c => { c with islock := 0 } },
          some .success)
    | none =>
      if isnew then (s, none)
      else
        match get_chip cfgid s.chipinfoarr none 1 none with
        | none => (s, some .chip_nofind)
        | some key =>
          match s.chipinfoarr[key]? with
          | none => (s, none)
          | some c =>
            ({ s with
                chipinfoarr := remove_number (add_chip c.id s.chipinfoarr c.level 1 0 none) key 1 },
              some .success)
  | _, _, _ => (s, some .err_param)

/-- **`chiphandler:addchip`**, which is false for an error. -/
def addchip (cfg : Config) (s : State) (id level number : Option ℤ) : State × Reply :=
  match id, level, number with
  | some id, some level, some number =>
    match cfg.mod id with
    | none => (s, some .err_param)
    | some _ =>
      match get_chip id s.chipinfoarr (some level) 0 none with
      | some key =>
        ({ s with
            chipinfoarr := s.chipinfoarr.modify key fun c => { c with number := c.number.map (· + 1) } },
          some .success)
      | none =>
        ({ s with newchipinfo := add_chip id s.newchipinfo level number 0 none }, some .success)
  | _, _, _ => (s, some .err_param)

/-- **`chiphandler:removechip`.** -/
def removechip (s : State) (id level number : Option ℤ) : State × Reply :=
  match id, level, number with
  | some id, some level, some number =>
    match get_chip id s.chipinfoarr (some level) 0 none with
    | none => (s, some .err_param)
    | some key =>
      if ((s.chipinfoarr[key]?.bind Chip.number).getD 0) < number then (s, some .err_param)
      else ({ s with chipinfoarr := remove_number s.chipinfoarr key number }, some .success)
  | _, _, _ => (s, some .err_param)

/-! ## The requests -/

inductive Event
  | add (m : AddMsg)
  | remove (uniqueidpart id : Option ℤ)
  | double (part uniqueid : Option ℤ)
  | slotpola (part uniqueid typepola index : Option ℤ)
  | upgrade (m : UpgradeMsg)
  | setlockchip (cfgid record : Option ℤ) (isnew islock : Option Bool)
  | addchip (id level number : Option ℤ)
  | removechip (id level number : Option ℤ)
  deriving DecidableEq

/-- **One request.** -/
def step (cfg : Config) (s : State) : Event → State × Reply
  | .add m => add cfg s m
  | .remove uniqueidpart id => remove cfg s uniqueidpart id
  | .double part uniqueid => double cfg s part uniqueid
  | .slotpola part uniqueid typepola index => slotpola cfg s part uniqueid typepola index
  | .upgrade m => upgrade cfg s m
  | .setlockchip cfgid record isnew islock => setlockchip s cfgid record isnew islock
  | .addchip id level number => addchip cfg s id level number
  | .removechip id level number => removechip s id level number

end Chips

end Athena
