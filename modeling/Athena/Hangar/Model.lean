import Athena.Chips.Model
import Athena.Common.Act
/-!
# The hangar — model

`changeequip` of `game/hangar/hangar.lua` for one player, with the
`changeequip` of the chip service that it calls. A request runs to its end
before the next one comes. What an error leaves behind stays.

The lists of `d_machinecfg` are lists of ids here. An id comes as a number or
as its text, and the equipment service keeps the rows it was asked for under
texts apart from those under numbers: a row that is read under a text is read
once and stays as it was then. What `update_attribute` stores for the player is
left out, and whether it raises an error is not.
-/

namespace Athena

namespace Hangar

open Chips (Equip Slot Machine warehousetype.chassis warehousetype.body
  warehousetype.firecontroller warehousetype.weapon update_player_attr)

/-- **A row of `d_machinecfg`.** -/
structure Machinecfg where
  parts : Machine
  isweld : ℤ

/-- **What the shared tables hold**, and what the player owns by its part. -/
structure Config where
  chips : Chips.Config
  /-- `newchassis`, `newbody`, `newfirecontroller` and `newweapons`. -/
  newhangar : ℤ → List ℤ
  /-- The `cfgid` in the row of an equipment. -/
  cfgid : ℤ → ℤ → ℤ
  /-- `Weapon_Type` of the rows of `weapontable`. -/
  weapontable : ℤ → Option ℤ
  /-- `Weapon_Type` of the rows of `firecontroltype`. -/
  firecontroltype : ℤ → Option (List ℤ)
  /-- The rows of `machinebody`, `machinechassis` and `firecontrol`. -/
  machinebody : ℤ → Bool
  machinechassis : ℤ → Bool
  firecontrol : ℤ → Bool

/-- **The player's data.** The machines of `chips` are those of `machinecfgid`
with their rows. -/
structure State where
  chips : Chips.State
  machinecfgid : List ℤ
  defaultindex : ℤ
  machinecfg : ℤ → Option Machinecfg
  /-- The rows the equipment service has under texts. -/
  textrows : ℤ → ℤ → Option Equip

/-- `errcodedef`. -/
inductive Code
  | success
  | err_param
  | equip_repeat
  | equip_welding
  | weapon_type
  deriving DecidableEq

/-- An error is raised. -/
abbrev Op (α : Type) := Act State Unit α

/-- An id as a number or as its text. -/
inductive Id
  | number (n : ℤ)
  | text (n : ℤ)

/-- `id ~= 0`, which every text is. -/
def Id.nonzero : Id → Bool
  | .number n => n ≠ 0
  | .text _ => true

/-! ## Rows -/

/-- The row of a machine, `{}` where there is none. -/
def State.row (s : State) (machine : ℤ) : Machinecfg :=
  (s.machinecfg machine).getD ⟨⟨[], [], [], []⟩, 0⟩

/-- The parts of a kind in the row of a machine. -/
def State.part (s : State) (machine part : ℤ) : List ℤ := (s.row machine).parts.part part

/-- A list of a row. -/
def setpart (m : Machine) (part : ℤ) (l : List ℤ) : Machine :=
  if part = warehousetype.chassis then { m with machinechassis := l }
  else if part = warehousetype.body then { m with machinebody := l }
  else if part = warehousetype.firecontroller then { m with firecontroller := l }
  else if part = warehousetype.weapon then { m with weapons := l }
  else m

/-- `machinecfg_dc.req.setvalue`: a machine without a row gets none. -/
def State.setvalue (s : State) (machine part : ℤ) (l : List ℤ) : State :=
  { s with
    machinecfg := Function.update s.machinecfg machine
      ((s.machinecfg machine).map fun m => { m with parts := setpart m.parts part l }) }

/-- A row of an equipment as it is read now. -/
def State.rowof (s : State) (part : ℤ) : Id → Option Equip
  | .number n => s.chips.equip part n
  | .text n => (s.textrows part n).or (s.chips.equip part n)

/-- **`equipment_dc.req.get`**: a row that is read under a text is kept. -/
def read (part : ℤ) (id : Id) : Op (Option Equip) := do
  let s ← Act.get
  match id with
  | .number _ => pure ()
  | .text n =>
    Act.modify fun s =>
      { s with
        textrows := Function.update s.textrows part
          (Function.update (s.textrows part) n (s.rowof part id)) }
  pure (s.rowof part id)

/-- An id without its form. -/
def Id.int : Id → ℤ
  | .number n => n
  | .text n => n

/-- `equipment_dc.req.getcfgid`. -/
def getcfgid (cfg : Config) (part : ℤ) (id : Id) : Op (Option ℤ) := do
  let e ← read part id
  pure (e.map fun _ => cfg.cfgid part id.int)

/-! ## The chips of an equipment that is changed -/

/-- A chip of a slot counts, or counts no more. Weapons and the fifth slot count
for nothing. -/
def attr (cfg : Config) (part machine : ℤ) (ty : Bool) (i : Fin 5) (slot : Slot) : Op Unit :=
  match slot.chip with
  | none => pure ()
  | some (id, level) =>
    if part = warehousetype.weapon ∨ (i : ℕ) = 4 then pure ()
    else
      match cfg.chips.mod id with
      | none => Act.raise ()
      | some m =>
        Act.modify fun s =>
          { s with chips := update_player_attr cfg.chips m level part (some machine) i ty s.chips }

/-- The slots of an equipment; an equipment without a row raises an error. -/
def slotarray (part : ℤ) : Option Id → Op (List (Fin 5 × Slot))
  | none => pure []
  | some id => do
    let e ← read part id
    match e with
    | none => Act.raise ()
    | some e => pure ((List.finRange 5).map fun i => (i, e.slots i))

/-- **`chiphandler:changeequip`.** -/
def chipchange (cfg : Config) (part machine : ℤ) (oldid uniqueid : Option Id) : Op Unit := do
  let olddata ← slotarray part oldid
  let newdata ← slotarray part uniqueid
  Act.each olddata fun x => attr cfg part machine false x.1 x.2
  Act.each newdata fun x => attr cfg part machine true x.1 x.2

/-! ## The checks -/

/-- `find_equip_index`: the first machine with the part. -/
def find_equip_index (s : State) (part uniqueid : ℤ) : Option ℤ :=
  s.machinecfgid.find? fun machine => uniqueid ∈ s.part machine part

/-- `cfgids[defaultindex]`. -/
def State.current (s : State) : Option ℤ :=
  if 1 ≤ s.defaultindex then s.machinecfgid[(s.defaultindex - 1).toNat]? else none

/-- The weapons in close combat. -/
def melee : ℤ := 10006

/-- `Weapon_Type` of a deep copy, which is of the whole table without an id. -/
def deepcopy {α : Type} (table : ℤ → Option α) : Option ℤ → Except Unit (Option α)
  | none => .ok none
  | some id =>
    match table id with
    | none => .error ()
    | some x => .ok (some x)

/-- `table.find(tab, value)`, which finds what is nil. -/
def tablefind (tab : Except Unit (Option (List ℤ))) : Option ℤ → Except Unit Bool
  | none => tab.map fun _ => true
  | some value =>
    match tab with
    | .ok (some l) => .ok (value ∈ l)
    | _ => .error ()

/-- The check of a weapon against the fire controller and the slot. -/
def weapontype (cfg : Config) (fire equip : Option ℤ) (index : Option ℤ) : Except Unit Code :=
  match deepcopy cfg.weapontable equip with
  | .error () => .error ()
  | .ok type =>
    let found := (tablefind (deepcopy cfg.firecontroltype fire) type).map fun found =>
      if found then Code.success else .weapon_type
    if type = some melee then
      match index with
      | none => .error ()
      | some index => if index < 4 ∨ 6 < index then .ok .weapon_type else found
    else found

/-- **`weldandtype`.** -/
def weldandtype (cfg : Config) (part : ℤ) (uniqueid : Id) (m : Machinecfg) (index : Option ℤ) :
    Op Code :=
  if part ≠ warehousetype.weapon then
    pure (if m.isweld = 1 then .equip_welding else .success)
  else if uniqueid.nonzero then
    match m.parts.firecontroller with
    | [] => Act.raise ()
    | firecid :: _ => do
      let fire ← getcfgid cfg warehousetype.firecontroller (.text firecid)
      let equip ← getcfgid cfg warehousetype.weapon uniqueid
      Act.lift (weapontype cfg fire equip index)
  else pure .success

/-! ## changeequip -/

/-- The body with more weapons. -/
def special : ℤ := 10001

/-- The weapons of a machine under its new body. -/
def resize (body : Option ℤ) (weapons : List ℤ) : List ℤ :=
  if body = some special ∧ weapons.length < 8 then weapons ++ [0, 0]
  else if body ≠ some special ∧ weapons.length = 8 then (weapons.eraseIdx 7).eraseIdx 6
  else weapons

/-- The weapons of a machine are those of its new body. -/
def resized (cfg : Config) (machine part : ℤ) (id : Id) (weapons : State → List ℤ) : Op Unit :=
  if part = warehousetype.body then do
    let body ← getcfgid cfg warehousetype.body id
    Act.modify fun s => s.setvalue machine warehousetype.weapon (resize body (weapons s))
  else pure ()

/-- **What `changeequip` has found** before it changes anything. -/
structure Change where
  part : ℤ
  uniqueid : ℤ
  /-- `realcfgindex`. -/
  machine : ℤ
  index : ℕ
  partdata : List ℤ
  olduniqueid : ℤ

/-- What the other machine gets. -/
def Change.back (c : Change) : ℤ := if c.part = warehousetype.weapon then 0 else c.olduniqueid

/-- **The machine the part comes from** gets the one that is displaced. -/
def swapout (cfg : Config) (c : Change) (other : ℤ) : Op Code := do
  let s ← Act.get
  let old_machine := s.row other
  let old_partdata := old_machine.parts.part c.part
  match old_partdata.findIdx? (· = c.uniqueid) with
  | none => Act.raise ()
  | some old_index =>
    let code ← weldandtype cfg c.part (.text c.olduniqueid) old_machine (some (old_index + 1))
    if code ≠ .success then pure code
    else
      resized cfg other c.part (.text c.olduniqueid) fun _ => old_machine.parts.weapons
      Act.modify fun s => s.setvalue other c.part (old_partdata.set old_index c.back)
      chipchange cfg c.part other (some (.number c.uniqueid)) none
      chipchange cfg c.part other none
        (if c.part = warehousetype.weapon then none else some (.text c.olduniqueid))
      pure .success

/-- **The current machine** gets the part. -/
def swapin (cfg : Config) (c : Change) : Op Unit := do
  resized cfg c.machine c.part (.number c.uniqueid) fun s => s.part c.machine warehousetype.weapon
  Act.modify fun s => s.setvalue c.machine c.part (c.partdata.set c.index c.uniqueid)
  chipchange cfg c.part c.machine
    (if c.olduniqueid ≠ 0 then some (.text c.olduniqueid) else none)
    (if c.uniqueid ≠ 0 then some (.number c.uniqueid) else none)

/-- The configuration of the first part of a kind in the current machine. -/
def firstcfg (cfg : Config) (m : Machinecfg) (part : ℤ) : Op (Option ℤ) :=
  match m.parts.part part with
  | [] => Act.raise ()
  | id :: _ => getcfgid cfg part (.number id)

/-- `update_attribute`, as far as it raises errors. -/
def update_attribute (cfg : Config) : Op Unit := do
  let s ← Act.get
  match s.current with
  | none => Act.raise ()
  | some machine =>
    let body ← firstcfg cfg (s.row machine) warehousetype.body
    let chassis ← firstcfg cfg (s.row machine) warehousetype.chassis
    let firecontroller ← firstcfg cfg (s.row machine) warehousetype.firecontroller
    -- of the whole table the life of a body is nil, and the others are multiplied
    if body.all cfg.machinebody && chassis.any cfg.machinechassis &&
        firecontroller.any cfg.firecontrol then pure ()
    else Act.raise ()

/-- **Both machines are changed**, and the player's attributes are those of the current one. -/
def swap (cfg : Config) (c : Change) (machinecfg : Option ℤ) : Op Code := do
  let code ← match machinecfg with
    | none => pure Code.success
    | some other => swapout cfg c other
  if code ≠ .success then pure code
  else
    swapin cfg c
    update_attribute cfg
    pure .success

structure Msg where
  part : Option ℤ
  uniqueid : Option ℤ
  index : Option ℤ
  isnew : Option Bool
  deriving DecidableEq

/-- `partindexs`. -/
def owned (cfg : Config) (part : ℤ) (isnew : Bool) : List ℤ :=
  if isnew then cfg.newhangar part else cfg.chips.hangar part

/-- **The checks of the parameters**: the part and its id. -/
def paramcheck (cfg : Config) (m : Msg) : Except (Option Code) (ℤ × ℤ) :=
  match m.part with
  | none => .error none
  | some part =>
    match m.uniqueid, m.isnew with
    | some uniqueid, some isnew =>
      if part < 1 ∨ 4 < part ∨ (part ≠ warehousetype.weapon ∧ uniqueid = 0) then
        .error (some .err_param)
      else if uniqueid ≠ 0 ∧ uniqueid ∉ owned cfg part isnew then .error (some .err_param)
      else .ok (part, uniqueid)
    | _, _ => .error (some .err_param)

/-- **The change** of a part that is owned, in the current machine. -/
def change (cfg : Config) (part uniqueid : ℤ) (index : Option ℤ) : Op Code := do
  let s ← Act.get
  let machinecfg := find_equip_index s part uniqueid
  match s.current with
  | none => Act.raise ()
  | some realcfgindex =>
    if machinecfg = some realcfgindex then pure .equip_repeat
    else
      let code ← weldandtype cfg part (.number uniqueid) (s.row realcfgindex) index
      if code ≠ .success then pure code
      else
        let partdata := s.part realcfgindex part
        match index with
        | none => Act.raise ()
        | some index =>
          match if 1 ≤ index then partdata[(index - 1).toNat]? else none with
          | none => pure .err_param
          | some olduniqueid =>
            swap cfg ⟨part, uniqueid, realcfgindex, (index - 1).toNat, partdata, olduniqueid⟩ machinecfg

/-- **`response.changeequip`.** -/
def changeequip (cfg : Config) (m : Msg) : Op Code :=
  match paramcheck cfg m with
  | .error none => Act.raise ()
  | .error (some code) => pure code
  | .ok (part, uniqueid) => change cfg part uniqueid m.index

end Hangar

end Athena
