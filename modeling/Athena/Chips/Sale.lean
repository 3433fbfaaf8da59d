import Athena.Chips.Model
import Athena.Common.Tally
import Athena.Warehouse.Serve
/-!
# Chips — selling, decomposing and composing

`param_match`, `sellchip`, `decompose` and `composition`. The loop over the chips of
the request takes them from the lists it has read, and stores an equipment whose
chip is taken at once; the lists are stored after the loop, and are lost where it
raises an error. What the chips come to is paid before. The numbers are the client's,
so the sums over them may go round.
-/

namespace Athena

namespace Chips

open Lua (Number wrap)

/-- **A chip of a request**, `decompose` of the protocol. -/
structure SaleItem where
  id : Option ℤ
  level : Option ℤ
  isequip : Option Bool
  record : Option ℤ
  number : Option ℤ
  isnew : Option Bool
  islock : Option Bool
  deriving DecidableEq

/-- `errcodedef`, of these requests. -/
inductive SaleCode
  | success
  | err_param
  | err_islock
  | chip_nofind
  deriving DecidableEq

/-- What the loop reads of a chip. -/
structure Item where
  id : ℤ
  level : ℤ
  number : ℤ
  isequip : Bool
  isnew : Bool
  record : ℤ
  deriving DecidableEq

/-- A chip of a request that has what it needs; nil is false, and one is the number
where there is none. -/
def SaleItem.item (x : SaleItem) : Item :=
  ⟨x.id.getD 0, x.level.getD 0, x.number.getD 1, x.isequip.getD false, x.isnew.getD false,
    x.record.getD 0⟩

/-! ## param_match -/

/-- The checks of one chip. It raises an error where there is no number to add. -/
def matchitem (cfg : Config) (s : State) (x : SaleItem) : Except (Option SaleCode) Item :=
  if x.number.isNone then .error none
  else if x.id.isNone || x.level.isNone || x.isequip.isNone ||
      (x.item.isequip && x.record.isNone) then .error (some .err_param)
  else if x.islock.getD false then .error (some .err_islock)
  else if (upgradekey s x.item.id x.item.level x.item.isequip x.item.isnew x.item.record).isNone then
    .error (some .chip_nofind)
  else if x.item.isequip then
    let part := x.item.record % 10
    let uniqueid := x.item.record / 10
    if !is_match cfg part uniqueid then .error (some .err_param)
    else
      match s.equip part uniqueid with
      | none => .error none
      | some e => if (e.find x.item.id).isNone then .error (some .err_param) else .ok x.item
  else .ok x.item

def matchitems (cfg : Config) (s : State) : List SaleItem → Except (Option SaleCode) (List Item)
  | [] => .ok []
  | x :: chipinfo => do
    let item ← matchitem cfg s x
    let items ← matchitems cfg s chipinfo
    return item :: items

/-- `numberm`. -/
def numberm (items : List Item) : ℤ := items.foldl (fun numberm x => wrap (numberm + x.number)) 0

/-- **`param_match`.** -/
def param_match (cfg : Config) (s : State) (chipinfo : Option (List SaleItem)) (num : Option ℤ) :
    Except (Option SaleCode) (List Item) :=
  match chipinfo with
  | none => .error (some .err_param)
  | some chipinfo =>
    match matchitems cfg s chipinfo with
    | .error code => .error code
    | .ok items =>
      if num.any fun num => numberm items ≠ num then .error (some .err_param) else .ok items

/-! ## The loop -/

/-- `remove_number` at a key that may be nil. -/
def remove_key (arr : List Chip) (key : Option ℕ) (number : ℤ) : List Chip :=
  match key with
  | some key => remove_number arr key number
  | none => arr

/-- The index 0 that stands for no slot, of which only matters that it is not the
fifth. -/
def noslot : Fin 5 := (Fin.last 4).rev

/-- **A fitted chip is taken.** Where its slot is not found the volume is lowered all
the same. -/
def takefitted (cfg : Config) (s : State) (x : Item) (m : Mod) (e : Equip) : State :=
  let part := x.record % 10
  let uniqueid := x.record / 10
  let key := upgradekey s x.id x.level x.isequip x.isnew x.record
  let i := e.find x.id
  let left :=
    match i with
    | some i => (e.without m x.level i).set i (e.slots i).clear
    | none => { e with currentvolume := e.currentvolume - cost m x.level }
  let t := update_player_attr cfg m x.level part (find_equip_index s part uniqueid) (i.getD noslot) false
    { s with inchipinfoarr := remove_key s.inchipinfoarr key x.number }
  t.setequip part uniqueid left.floor

/-- One round of the loop; an error raised in it has stored nothing of it. -/
def takeitem (cfg : Config) (x : Item) (s : State) : Option State :=
  if x.isequip then
    match cfg.mod x.id, s.equip (x.record % 10) (x.record / 10) with
    | some m, some e => some (takefitted cfg s x m e)
    | _, _ => none
  else
    let key := upgradekey s x.id x.level x.isequip x.isnew x.record
    if x.isnew then some { s with newchipinfo := remove_key s.newchipinfo key x.number }
    else some { s with chipinfoarr := remove_key s.chipinfoarr key x.number }

/-- **The loop over the chips**, with what they come to. A price that is missing
raises an error before the chip is taken (`none`) or after it (`some none`). -/
def takeitems (cfg : Config) (price : Item → Option (Option ℤ)) : List Item → State → ℤ → State × Option ℤ
  | [], s, number => (s, some number)
  | x :: items, s, number =>
    match price x, takeitem cfg x s with
    | some (some neednum), some t =>
      takeitems cfg price items t (wrap (number + wrap (neednum * x.number)))
    | some none, some t => (t, none)
    | _, _ => (s, none)

/-- What an error in the loop leaves: the lists are as they were read. -/
def State.unstored (s t : State) : State :=
  { t with
    newchipinfo := s.newchipinfo
    chipinfoarr := s.chipinfoarr
    inchipinfoarr := s.inchipinfoarr }

/-! ## The requests -/

/-- The rows of `mod_sale` and `mod_resolve`, by `Material_Sale` of the chip's row. -/
structure Prices where
  Material_Sale : ℤ → ℤ
  mod_sale : ℤ → Option (ℤ → Option ℤ)
  mod_resolve : ℤ → Option (ℤ → Option ℤ)

/-- The price of a chip that is sold: nil is multiplied at the end of the round. -/
def saleprice (cfg : Config) (prices : Prices) (x : Item) : Option (Option ℤ) :=
  match cfg.mod x.id with
  | none => none
  | some _ => (prices.mod_sale (prices.Material_Sale x.id)).map fun modeup => modeup x.level

/-- What a chip is decomposed to: nil is multiplied at once, a skill is nothing. -/
def resolveprice (cfg : Config) (prices : Prices) (x : Item) : Option (Option ℤ) :=
  match cfg.mod x.id with
  | none => none
  | some m =>
    match prices.mod_resolve (prices.Material_Sale x.id) with
    | none => none
    | some modeup => (modeup x.level).map fun neednum => some (neednum * if is_skill m then 0 else 1)

/-- `warehouse.req.addgold`, of what the player has. -/
def addgold (gold number : ℤ) : ℤ := if number ≤ 0 then gold else wrap (gold + number)

/-- What is read of a total, a text, when a number has been added to it. -/
def newtotal (total number : ℤ) : ℤ :=
  match Warehouse.reread ((Lua.toDouble total).addFloat (Lua.toDouble number)).ceil with
  | .int i => i.toInt
  | .flt q => ⌊q⌋
  | _ => total

/-- `warehouse.req.addmaterials`, for the material of upgrades. Where there is none of it
the number is a new entry. -/
def State.addmaterials (s : State) (number : ℤ) : State :=
  if number ≤ 0 then s
  else if s.materials = 0 then { s with materials := number }
  else { s with materials := newtotal s.materials number }

/-- **`chiphandler:sellchip`**: the state, the gold and the answer. -/
def sellchip (cfg : Config) (prices : Prices) (s : State) (gold : ℤ) (chipinfo : Option (List SaleItem)) :
    State × ℤ × Option (SaleCode × ℤ) :=
  match param_match cfg s chipinfo none with
  | .error code => (s, gold, code.map fun code => (code, 0))
  | .ok items =>
    match takeitems cfg (saleprice cfg prices) items s 0 with
    | (t, none) => (s.unstored t, gold, none)
    | (t, some number) => (t, addgold gold number, some (.success, number))

/-- **`chiphandler:decompose`.** -/
def decompose (cfg : Config) (prices : Prices) (s : State) (chipinfo : Option (List SaleItem)) :
    State × Option (SaleCode × ℤ) :=
  match param_match cfg s chipinfo none with
  | .error code => (s, code.map fun code => (code, 0))
  | .ok items =>
    match takeitems cfg (resolveprice cfg prices) items s 0 with
    | (t, none) => (s.unstored t, none)
    | (t, some number) => (t.addmaterials number, some (.success, number))

/-- The first half of `composition`, up to where the lists are stored. -/
def composed (cfg : Config) (s : State) (chipinfo : Option (List SaleItem)) :
    Except (State × Option SaleCode) State :=
  match param_match cfg s chipinfo (some 3) with
  | .error code => .error (s, code)
  | .ok items =>
    match takeitems cfg (fun _ => some (some 0)) items s 0 with
    | (t, none) => .error (s.unstored t, none)
    | (t, some _) => .ok t

/-- **`chiphandler:composition`**, where `chipid` is drawn from the table. -/
def composition (cfg : Config) (s : State) (chipinfo : Option (List SaleItem))
    (chipid : { id : ℤ // (cfg.mod id).isSome }) : State × Option (SaleCode × Option ℤ) :=
  match composed cfg s chipinfo with
  | .error (t, code) => (t, code.map fun code => (code, none))
  | .ok t => ((addchip cfg t (some chipid) (some 1) (some 1)).1, some (.success, some chipid))

end Chips

end Athena
