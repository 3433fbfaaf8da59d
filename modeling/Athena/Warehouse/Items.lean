import Athena.Common.Pairs
import Athena.Common.System
import Athena.Lua.Arith
import Athena.Lua.Split
/-!
# Materials and props — model

`addmaterials`, `remmaterials`, `addprop`, `remprop`, `matchmaterial`,
`matchprop` and `updatenew` of `game/warehouse/warehouse.lua` on the lists
of one player, one request at a time. A player has two texts for the
materials and two for the props: one of the entries looked at and one of
those that are new, each a cfgid and its number in turn between commas.
The requests for props are the ones for materials on other fields.

Cfgids and numbers are the integers the callers pass. A request ends in
an error where arithmetic meets no number (`none`). The notices to the
client are left out.
-/

namespace Athena

namespace Warehouse

namespace Items

open Lua Pairs

/-- The rows of `materialsdc` and `propdc`. -/
inductive Kind
  | material
  | prop
  deriving DecidableEq

/-- `warehousedefine.warehousetype`. -/
def Kind.warehousetype : Kind → Int64
  | .material => 7
  | .prop => 8

/-- **The two lists of a kind.** -/
structure Bag where
  /-- `materials`, `props`. -/
  seen : Str
  /-- `newmaterials`, `newprops`. -/
  fresh : Str
  deriving DecidableEq

/-- **A player.** -/
abbrev State := Kind → Bag

/-! ## The entries of a list -/

/-- `find_materials`. -/
def find_materials (cfgid : Int64) (arr : List Str) : Option ℕ :=
  firstKey (fun s => s = tostring (.int cfgid)) arr

/-- `tonumber(arr[i + 1])`. -/
def amount (arr : List Str) (i : ℕ) : Option Number := arr[i + 1]?.bind tonumber

/-- Removes the entry at `i`. -/
def remove (arr : List Str) (i : ℕ) : List Str := (arr.eraseIdx (i + 1)).eraseIdx i

/-- The number left of the entry at `i`, which goes with the last one. -/
def leave (arr : List Str) (i : ℕ) (x : Number) : List Str :=
  if x.eq (.int 0) then remove arr i else arr.set (i + 1) (tostring x)

/-- `arr[i + 1] = math.ceil(arr[i + 1] + number)`. The entry is a text. -/
def raise (arr : List Str) (i : ℕ) (number : Int64) : Option (List Str) :=
  (amount arr i).map fun x => arr.set (i + 1) (tostring (x.ceilSum (.int number)))

/-! ## Adding and removing -/

/-- `addmaterials` and `addprop`. -/
def add (known : Int64 → Bool) (b : Bag) (cfgid number : Int64) : Option (Bool × Bag) :=
  if number.toInt < 0 then some (false, b)
  else if number = 0 then some (true, b)
  else if known cfgid then
    match find_materials cfgid (splitComma b.seen) with
    | some i => (raise (splitComma b.seen) i number).map fun l => (true, { b with seen := join l })
    | none =>
      match find_materials cfgid (splitComma b.fresh) with
      | some i =>
        (raise (splitComma b.fresh) i number).map fun l => (true, { b with fresh := join l })
      | none =>
        let l := splitComma b.fresh ++ [tostring (.int cfgid), tostring (.int number)]
        some (true, { b with fresh := join l })
  else some (false, b)

/-- `remmaterials` and `remprop`. Where an entry is new as well, the numbers
of the one looked at may go below zero. -/
def rem (known : Int64 → Bool) (b : Bag) (cfgid number : Int64) : Option (Bool × Bag) :=
  if number.toInt < 0 then some (false, b)
  else if number = 0 then some (true, b)
  else if known cfgid then
    let info := splitComma b.seen
    let newinfo := splitComma b.fresh
    match find_materials cfgid info, find_materials cfgid newinfo with
    | none, none => some (false, b)
    | some i, none =>
      (amount info i).map fun x =>
        let left := x.sub (.int number)
        if left.lt (.int 0) then (false, b) else (true, ⟨join (leave info i left), join newinfo⟩)
    | none, some j =>
      (amount newinfo j).map fun y =>
        let left := y.sub (.int number)
        if left.lt (.int 0) then (false, b) else (true, ⟨join info, join (leave newinfo j left)⟩)
    | some i, some j =>
      match amount info i, amount newinfo j with
      | some x, some y =>
        let changenumber := Number.max (.int 0) ((Number.int number).sub x)
        let left := y.sub changenumber
        if left.lt (.int 0) then some (false, b)
        else some (true, ⟨join (info.set (i + 1) (tostring (x.sub (.int number)))),
          join (leave newinfo j left)⟩)
      | _, _ => none
  else some (false, b)

/-! ## Matching -/

/-- The number of the first entry for a cfgid, which is compared as a
number here. -/
def sumnumber (cfgid : Int64) (arr : List Str) : Option Number :=
  match firstKey (fun s => (tonumber s).any fun x => x.eq (.int cfgid)) arr with
  | some i => amount arr i
  | none => some (.int 0)

/-- `matchmaterial` and `matchprop`. -/
def matchnumber (b : Bag) (cfgid number : Int64) : Option Bool :=
  if number.toInt < 0 then some false
  else if number = 0 then some true
  else
    match sumnumber cfgid (splitComma b.seen), sumnumber cfgid (splitComma b.fresh) with
    | some x, some y => some ((Number.int number).le (x.add y))
    | _, _ => none

/-! ## Looking at new entries -/

/-- The inner loop: the first entry of the new list with the key goes to
the end of the other list. -/
def moveFirst (lists : List Str × List Str) (key : Str) : List Str × List Str :=
  match firstKey (fun s => s = key) lists.2 with
  | some j => (lists.1 ++ lists.2[j]?.toList ++ lists.2[j + 1]?.toList, remove lists.2 j)
  | none => lists

/-- `update_material_info` and `update_prop_info`. The loop goes over the
new list as it was, entries before its start are nil. -/
def update_info (b : Bag) (beginindex endindex : Int64) : Bag :=
  let new := splitComma b.fresh
  if new = [] then b
  else
    let places := oddPlaces (beginindex * 2 - 1).toInt (min (endindex * 2).toInt new.length)
    let lists := (places.filterMap (entry new)).foldl moveFirst (splitComma b.seen, new)
    ⟨join lists.1, join lists.2⟩

/-- `math.maxinteger // 2` is the end of a window that ends before it
begins. -/
def lastindex (beginindex endindex : Int64) : Int64 :=
  if endindex.toInt < beginindex.toInt then 4611686018427387903 else endindex

/-- `updatenew`: whether the code is the one of success, and the lists. The
other kinds are not in `State`. -/
def updatenew (s : State) (index beginindex endindex : Option Int64) : Bool × State :=
  match index, beginindex, endindex with
  | some i, some b, some e =>
    if i.toInt ≤ 0 ∨ 9 ≤ i.toInt then (false, s)
    else (true, fun k => if i = k.warehousetype then update_info (s k) b (lastindex b e) else s k)
  | _, _, _ => (false, s)

/-! ## The requests -/

/-- A request on one kind. -/
def on (s : State) (k : Kind) (r : Option (Bool × Bag)) : Option (Bool × State) :=
  r.map fun r => (r.1, Function.update s k r.2)

variable (known : Kind → Int64 → Bool)

def addmaterials (s : State) (cfgid number : Int64) : Option (Bool × State) :=
  on s .material (add (known .material) (s .material) cfgid number)

def remmaterials (s : State) (cfgid number : Int64) : Option (Bool × State) :=
  on s .material (rem (known .material) (s .material) cfgid number)

def addprop (s : State) (cfgid number : Int64) : Option (Bool × State) :=
  on s .prop (add (known .prop) (s .prop) cfgid number)

def remprop (s : State) (cfgid number : Int64) : Option (Bool × State) :=
  on s .prop (rem (known .prop) (s .prop) cfgid number)

def matchmaterial (s : State) (cfgid number : Int64) : Option Bool :=
  matchnumber (s .material) cfgid number

def matchprop (s : State) (cfgid number : Int64) : Option Bool :=
  matchnumber (s .prop) cfgid number

/-- A request of another service or of the client. -/
inductive Request
  | addmaterials (cfgid number : Int64)
  | remmaterials (cfgid number : Int64)
  | addprop (cfgid number : Int64)
  | remprop (cfgid number : Int64)
  | updatenew (index beginindex endindex : Option Int64)
  deriving DecidableEq

/-- **The answer to a request and the lists after it.** `known` is whether
`material_list`, or `store` for a prop, has the cfgid. -/
def serve (s : State) : Request → Option (Bool × State)
  | .addmaterials cfgid number => addmaterials known s cfgid number
  | .remmaterials cfgid number => remmaterials known s cfgid number
  | .addprop cfgid number => addprop known s cfgid number
  | .remprop cfgid number => remprop known s cfgid number
  | .updatenew index beginindex endindex => some (updatenew s index beginindex endindex)

/-- **The requests one after the other.** -/
def system : System State (Request × Bool) where
  init _ := True
  step s l t := serve known s l.1 = some (l.2, t)

end Items

end Warehouse

end Athena
