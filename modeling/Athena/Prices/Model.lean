import Athena.Common.Calendar
import Athena.Lua.Number
import Mathlib.Data.List.AList
import Mathlib.Algebra.Order.Ring.Rat
/-!
# The price history of blueprints — model

`initdata.lua` and the trades of `shophandler.lua`. A blueprint has `arr`, the
first price of each half hour of today, and `arrday`, three prices for each of
the last thirty days, the newest day first. Each entry is a table with one key,
which is the letter `M` and a time; the key is read as the time. The arrays are
kept as texts of JSON, which is left out.

Positions are counted from one, as in Lua, where the source has them so; a
`none` is an error that the source raises.
-/

namespace Athena

namespace Prices

open Calendar Lua

/-- An entry: a table from times to prices. -/
abbrev Slot := AList (fun _ : ℤ => ℚ)

/-- `{["M" .. time] = price}`. -/
def slot (time : ℤ) (price : ℚ) : Slot := AList.singleton time price

/-- The arrays of a row. -/
structure Blueprint where
  arr : List Slot
  arrday : List Slot

/-- `t[i]`, with the first position one. -/
def at1 (t : List Slot) (i : ℕ) : Option Slot := if i = 0 then none else t[i - 1]?

/-! ## Times -/

/-- The midnight before a time. -/
def zerotime (zone t : ℤ) : ℤ := midnight zone (dayOf zone t)

/-- `gaptime`: days of the year, from that of `oldtime` to that of the start. -/
def gaptime (zone begintime oldtime : ℤ) : ℤ := begintime - yday (dayOf zone oldtime)

/-- `math.ceil(a / b)`. -/
def ceilDiv (a b : ℤ) : ℤ := -(-a / b)

/-- The half hour of `timeindex`, from one. -/
def indextime (zone t : ℤ) : ℕ := (max 0 (ceilDiv (secondOf zone t / 60 - 29) 30) + 1).toNat

/-- The time the half hour began, as `timeindex` has it. -/
def neartime (zone t : ℤ) : ℤ :=
  let past := secondOf zone t % 3600
  if 1800 ≤ past then t - past + 1800 else t - past

/-- `math.ceil(indextime / 16)`. -/
def third (zone t : ℤ) : ℕ := (ceilDiv (indextime zone t) 16).toNat

/-! ## Rows that start -/

/-- `time24` without prices. -/
def day24 (zerotime : ℤ) : List Slot :=
  (List.range 48).map fun i : ℕ => slot (zerotime + i * 1800) 0

/-- `timeday30` without prices. -/
def days30 (zerotime : ℤ) : List Slot :=
  (List.range 30).flatMap fun i : ℕ => (List.range 3).map fun j : ℕ =>
    slot (zerotime - i * (24 * 3600) + j * (8 * 3600)) 0

/-! ## A day that ends -/

/-- `table.insert(t, 1, x)` and `table.remove(t, 91)`, whose position must not be
more than one after the last. -/
def push (t : List Slot) (x : Slot) : Option (List Slot) :=
  if 90 ≤ (x :: t).length then some ((x :: t).eraseIdx 90) else none

/-- The price at midnight: the first one of the day before that is not zero, from
16:00 on. A key that is missing is not zero either, and an entry with a nil has
no key. -/
def zeroSlot (oldtime24 : List Slot) (curzerotime : ℤ) : List ℕ → Option Slot
  | [] => some (slot curzerotime 0)
  | k :: ks => do
    let oldtime := curzerotime - 8 * 3600
    let old := oldtime + 1800 * (k - 1)
    let x ← at1 oldtime24 (32 + k)
    if x.lookup old = some 0 then zeroSlot oldtime24 curzerotime ks
    else
      match x.lookup old with
      | some price => some (slot curzerotime price)
      | none => some ∅

/-- `for k = 1, 16`. -/
def sixteen : List ℕ := (List.range 16).map (· + 1)

/-- The three entries of the first day after `arr`. -/
def pushDay (oldtime24 : List Slot) (curzerotime : ℤ) (timeday30 : List Slot) :
    Option (List Slot) := do
  let t ← push timeday30 (slot (curzerotime + 2 * (8 * 3600)) 0)
  let t ← push t (slot (curzerotime + 8 * 3600) 0)
  let x ← zeroSlot oldtime24 curzerotime sixteen
  push t x

/-- The three entries of a day without any trade. -/
def pushEmpty (netime : ℤ) (timeday30 : List Slot) : Option (List Slot) := do
  let t ← push timeday30 (slot (netime + 2 * (8 * 3600)) 0)
  let t ← push t (slot (netime + 8 * 3600) 0)
  push t (slot netime 0)

/-- `for i = gapnum, 1, -1`, from `i` on. -/
def pushDays (oldtime24 : List Slot) (zerotime gapnum : ℤ) :
    ℕ → List Slot → Option (List Slot)
  | 0, timeday30 => some timeday30
  | i + 1, timeday30 => do
    let netime := zerotime - i * (24 * 3600)
    let t ← if (i + 1 : ℤ) = gapnum then pushDay oldtime24 netime timeday30
      else pushEmpty netime timeday30
    pushDays oldtime24 zerotime gapnum i t

/-- A row at the start of the server, `gapnum` days after its own. -/
def catchup (zerotime gapnum : ℤ) (row : Blueprint) : Option Blueprint := do
  let timeday30 ← pushDays row.arr zerotime gapnum gapnum.toNat row.arrday
  some { arr := day24 zerotime, arrday := timeday30 }

/-- A row at midnight. -/
def nextday (zerotime : ℤ) (row : Blueprint) : Option Blueprint := do
  let timeday30 ← pushDay row.arr zerotime row.arrday
  some { arr := day24 zerotime, arrday := timeday30 }

/-! ## The services -/

/-- The rows of `sblueprintsdc`, in the order of `pairs`, and the entries of
`marketdc`. -/
structure Data where
  rows : List (ℤ × Blueprint)
  marketinfo : List Slot

/-- `marketinfo`: three entries for each of eight days, from the table of the
index. -/
def marketdays (index : ℤ → ℚ) (zerotime : ℤ) : List Slot :=
  (List.range 8).flatMap fun i : ℕ => (List.range 3).map fun j : ℕ =>
    let time8 := zerotime - i * (24 * 3600) + j * (8 * 3600)
    slot time8 (index time8)

/-- Rows for the blueprints of the configuration that have none. -/
def addrows (keys : List ℤ) (zerotime : ℤ) (rows : List (ℤ × Blueprint)) : List (ℤ × Blueprint) :=
  keys.foldl (fun rows key =>
    if (rows.lookup key).isSome then rows
    else rows ++ [(key, ⟨day24 zerotime, days30 zerotime⟩)]) rows

/-- The gap of the first row: `none` is an error, `some none` a nil. -/
def gapnum (zone begintime : ℤ) : List (ℤ × Blueprint) → Option (Option ℤ)
  | [] => some none
  | (_, row) :: _ => do
    let first ← row.arr.head?
    some (first.keys.head?.map (gaptime zone begintime))

/-- The loop over the rows, where the gap is not zero. A gap that is a nil does
not count down. -/
def catchups (zerotime : ℤ) (gap : Option ℤ) (rows : List (ℤ × Blueprint)) :
    Option (List (ℤ × Blueprint)) :=
  match gap with
  | some gap =>
    if gap = 0 then some rows else rows.mapM fun r => (catchup zerotime gap r.2).map (r.1, ·)
  | none => if rows.isEmpty then some [] else none

/-- **`initprice`**, for the blueprints, at the start of the server. -/
def initprice (zone : ℤ) (blueprint : List ℤ) (index : ℤ → ℚ) (t : ℤ) (d : Data) : Option Data := do
  let begintime := yday (dayOf zone t)
  let zerotime := zerotime zone t
  let rows := addrows blueprint zerotime d.rows
  let gap ← gapnum zone begintime rows
  let rows ← catchups zerotime gap rows
  some { rows := rows, marketinfo := marketdays index zerotime }

/-- **`updatesys`**, for the blueprints. -/
def updatesys (zone : ℤ) (index : ℤ → ℚ) (t : ℤ) (d : Data) : Option Data := do
  let zerotime := zerotime zone t
  let rows ← d.rows.mapM fun r => (nextday zerotime r.2).map (r.1, ·)
  some { rows := rows, marketinfo := marketdays index zerotime }

/-- What `get_machine_name` reads of the tables of parts: the `Display` of an id. -/
structure Machines where
  machinebody : ℤ → Option Str
  machinechassis : ℤ → Option Str
  firecontrol : ℤ → Option Str

/-- `sharedata.deepcopy(name, tonumber(key)).Display`; a nil has no `Display`. -/
def display (parts : ℤ → Option Str) (key : Str) : Option Str :=
  match tonumber key with
  | some (.int id) => parts id.toInt
  | _ => none

/-- `get_machine_name`. -/
def get_machine_name (m : Machines) (chassis body firecontrol : Str) : Option Str := do
  let body ← display m.machinebody body
  let chassis ← display m.machinechassis chassis
  let firecontrol ← display m.firecontrol firecontrol
  some (body ++ chassis ++ firecontrol)

/-- `string.sub(s, i, j)`. -/
def sub (s : Str) (i j : ℕ) : Str := (s.take j).drop (i - 1)

/-- The name of what is traded first: the parts are taken one place too early. -/
def tradename (m : Machines) (cfgid : ℤ) : Option Str :=
  get_machine_name m (sub (intText cfgid) 1 5) (sub (intText cfgid) 6 10) (sub (intText cfgid) 11 15)

/-- The row `khoriumbuy` makes for a first trade. -/
def firsttrade (zone t : ℤ) (oneprice : ℚ) : Blueprint where
  arr := (List.range 48).map fun i : ℕ =>
    slot (zerotime zone t + i * 1800) (if i + 1 = indextime zone t then oneprice else 0)
  arrday := (List.range 30).flatMap fun i : ℕ =>
    let netime := zerotime zone t - i * (24 * 3600)
    if i = 0 then
      [2, 3].map fun j : ℕ => slot (netime + (j - 1) * (8 * 3600))
        (if third zone t = j then oneprice else 0)
    else (List.range 3).map fun _ => slot netime 0

/-- `t[i][key] = price`. -/
def assign (t : List Slot) (i : ℕ) (key : ℤ) (price : ℚ) : Option (List Slot) := do
  let x ← at1 t i
  some (t.set (i - 1) (x.insert key price))

/-- A trade in a row that is there: the first price of each half hour is kept. -/
def trade (zone t : ℤ) (oneprice : ℚ) (row : Blueprint) : Option Blueprint := do
  let x ← at1 row.arr (indextime zone t)
  if x.lookup (neartime zone t) = some 0 then do
    let arr ← assign row.arr (indextime zone t) (neartime zone t) oneprice
    let arrday ← if third zone t + 1 ≤ 3 then
        assign row.arrday (third zone t + 1) (zerotime zone t + third zone t * 8 * 3600) oneprice
      else some row.arrday
    some ⟨arr, arrday⟩
  else some row

/-- **`khoriumbuy`**, the record of the price. The name of a new row comes first. -/
def khoriumbuy (m : Machines) (zone t cfgid : ℤ) (oneprice : ℚ) (d : Data) : Option Data :=
  match d.rows.lookup cfgid with
  | none => do
    let _ ← tradename m cfgid
    some { d with rows := d.rows ++ [(cfgid, firsttrade zone t oneprice)] }
  | some row => do
    let row ← trade zone t oneprice row
    some { d with rows := d.rows.map fun r => if r.1 = cfgid then (cfgid, row) else r }

/-! ## The readers -/

/-- A point of a chart: its time and the price, which may be a nil. -/
abbrev Point := ℤ × Option ℚ

/-- `{time = time, price = t[i]["M" .. time]}`. -/
def point (t : List Slot) (i : ℕ) (time : ℤ) : Option Point := do
  let x ← at1 t i
  some (time, x.lookup time)

/-- `bluedetails` of a day: the half hours so far. -/
def oneday (zone t : ℤ) (row : Blueprint) : Option (List Point) :=
  (List.range (indextime zone t)).mapM fun i : ℕ =>
    point row.arr (i + 1) (zerotime zone t + i * 1800)

/-- `for i = n, 1, -1`, the days from the oldest to today, and of today the
thirds so far. -/
def daysFrom (zone t : ℤ) (t30 : List Slot) (first : ℕ → ℕ → List ℕ) (n : ℕ) :
    Option (List Point) :=
  ((List.range n).reverse.flatMap fun i => (first (third zone t) i).map fun j => (i, j)).mapM
    fun p => point t30 (p.1 * 3 + p.2 + 1)
      (zerotime zone t - p.1 * (24 * 3600) + p.2 * (8 * 3600))

/-- `bluedetails` of seven or thirty days. -/
def bluedetails (zone t : ℤ) (row : Blueprint) (n : ℕ) : Option (List Point) :=
  daysFrom zone t row.arrday (fun third i => List.range (if i = 0 then third else 3)) n

/-- `marketpic`: eight days, and of the oldest only the last two thirds. -/
def marketpic (zone t : ℤ) (d : Data) : Option (List Point) :=
  daysFrom zone t d.marketinfo (fun third i =>
    if i = 0 then List.range third else if i = 7 then [1, 2] else List.range 3) 8

/-- `initmarket`: the price of now and that of midnight. -/
def initmarket (zone t : ℤ) (row : Blueprint) : Option (Option ℚ × Option ℚ) := do
  let cur ← point row.arr (indextime zone t) (neartime zone t)
  let zero ← point row.arrday 1 (zerotime zone t)
  some (cur.2, zero.2)

end Prices

end Athena
