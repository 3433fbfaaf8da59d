import Athena.Common.Act
import Athena.Warehouse.Serve
/-!
# The mall — model

`shophandler:purchase` and `getbaginfo` of `game/shop/shophandler.lua`, with what
they ask of the warehouse and of the chips, for one player and one purchase at a
time. An entry of one of the three tables is an item or a bag; a bag is a list of
kinds and ids, where a bag in a bag is an entry of the same table.

What a player has of a kind and id is one number: of a prop and a material the entry in
the one list or the other, which is a text; of a chip the entry of level 1, unlocked,
that `addchip` raises. The balances are those of the
warehouse, one request at a time (`Request.serve`); every removal that is stored is
recorded, as the notice that goes to the player. The database has one transaction
open, or none; each `START TRANSACTION` begins another one.
-/

namespace Athena

namespace Mall

open Lua (Number)
open Warehouse (Purse remgold remkhorium reread)

/-! ## Tables -/

def warehousetype.chip : ℤ := 5

def warehousetype.material : ℤ := 7

def warehousetype.prop : ℤ := 8

def warehousetype.bag : ℤ := 13

def storeindex.sale : ℤ := 1

def storeindex.special : ℤ := 2

def storeindex.bag : ℤ := 3

/-- A row of `s_sale`, `s_special` or `s_bag`. -/
structure Row where
  type : ℤ
  cfgid : ℤ
  price : Option Int64
  saleprice : Option Int64
  iskh : Bool

/-- The balance that pays for a row. -/
def Row.purse (row : Row) : Purse := if row.iskh then .khorium else .gold

/-- `datainfo.saleprice or datainfo.price`. -/
def Row.paid (row : Row) : Option Int64 := row.saleprice.or row.price

/-- **The tables.** A bag of `store_bag` without any field is a none. -/
structure Tables where
  sale : ℤ → Option Row
  special : ℤ → Option Row
  bag : ℤ → Option Row
  /-- `s_bag` has no such column. -/
  nosale : ∀ id row, bag id = some row → row.saleprice = none
  /-- `Goods_ID`, kinds and ids in turn. -/
  store_bag : ℤ → Option (Option (List (ℤ × ℤ)))
  /-- Whether `store`, `material_list` or `mod` has an id. -/
  known : ℤ → ℤ → Bool

/-- The row of an id, in the table that a purchase names. -/
def Tables.get (t : Tables) (type id : ℤ) : Option Row :=
  if type = storeindex.sale then t.sale id
  else if type = storeindex.special then t.special id
  else t.bag id

/-! ## The player and the database -/

/-- The balances, and what was removed from them. -/
structure Money where
  balance : Purse → Option Int64
  removed : List (Purse × Int64)

/-- `remkhorium` or `remgold`. -/
def removal : Purse → Warehouse.Request
  | .gold => remgold
  | .khorium => remkhorium

/-- A removal that is stored. -/
def Money.stores (m : Money) (p : Purse) (number : Int64) : Bool :=
  0 < number.toInt && (m.balance p).isSome

def Money.rem (m : Money) (p : Purse) (number : Int64) : Money where
  balance := Function.update m.balance p ((removal p).serve (m.balance p) number).2
  removed := if m.stores p number then m.removed ++ [(p, number)] else m.removed

/-- The transactions of the database. -/
structure Connection where
  started : ℕ
  current : Option ℕ
  lt : ∀ n ∈ current, n < started

def Connection.transaction (c : Connection) : Connection :=
  ⟨c.started + 1, some c.started, fun n hn => by simp at hn; omega⟩

def Connection.commit (c : Connection) : Connection := ⟨c.started, none, by simp⟩

/-- **The state.** `looked` are the chips of level 1 that the player has looked at. -/
structure State where
  money : Money
  stock : ℤ → ℤ → Option Number
  looked : ℤ → Bool
  connection : Connection

abbrev Op := Act State Unit

/-- The answers. -/
inductive Code
  | success
  | err_param
  | cfgid_nofind
  | gold_notEnough
  deriving DecidableEq

/-! ## What is added -/

/-- What a request to add leaves of an entry. `addprop` and `addmaterials` add the number
to a text, in doubles; `addchip` adds the number too, but one where the chip is among those
looked at. -/
def added (t : Tables) (looked : ℤ → Bool) (number : Int64) (type cfgid : ℤ) (x : Option Number) :
    Option Number :=
  if t.known type cfgid then
    if type = warehousetype.prop ∨ type = warehousetype.material then
      if number.toInt ≤ 0 then x
      else some ((x.map fun y => reread (y.ceilSum (.int number))).getD (.int number))
    else if type = warehousetype.chip then
      let k := if looked cfgid then 1 else number
      some ((x.map fun y => y.add (.int k)).getD (.int k))
    else x
  else x

/-- `addprop`, `addmaterials` or `addchip`, by the kind. Other kinds are not asked for. -/
def grant (t : Tables) (number : Int64) (g : ℤ × ℤ) (s : State) : State :=
  { s with stock := Function.update s.stock g.1 (Function.update (s.stock g.1) g.2
      (added t s.looked number g.1 g.2 (s.stock g.1 g.2))) }

/-! ## The purchase -/

/-- The end of `getbaginfo`: the payment and the commit. -/
def pay (number : Int64) (row : Row) : Op Code :=
  match row.paid with
  | none => Act.raise ()
  | some price => do
    Act.modify fun s => { s with money := s.money.rem row.purse (price * number) }
    Act.modify fun s => { s with connection := s.connection.commit }
    pure .success

/-- **`getbaginfo`.** `depth` is how many calls the stack of the interpreter has room for. -/
def getbaginfo (t : Tables) (number : Int64) (type : ℤ) : ℕ → ℤ → Op Code
  | 0, _ => Act.raise ()
  | depth + 1, cfgid => do
    Act.modify fun s => { s with connection := s.connection.transaction }
    match t.get type cfgid with
    | none => Act.raise ()
    | some datainfo =>
      if datainfo.type = warehousetype.bag then
        match t.store_bag datainfo.cfgid with
        | none => Act.raise ()
        | some none => pure .cfgid_nofind
        | some (some goodsids) => do
          Act.each goodsids fun g =>
            if g.1 = warehousetype.bag then do
              let _ ← getbaginfo t number type depth g.2
              pure ()
            else Act.modify (grant t number g)
          pay number datainfo
      else do
        Act.modify (grant t number (datainfo.type, datainfo.cfgid))
        pay number datainfo

/-- The price that is tested. -/
def tested (type : ℤ) (row : Row) : Option Int64 :=
  if type = storeindex.bag then row.price else row.saleprice

/-- `matchgold` and `matchkhorium`, of integers. -/
def enough (m : Money) (p : Purse) (number : Int64) : Bool :=
  let balance := (m.balance p).map Number.int
  match p with
  | .gold => Warehouse.matchgold balance (some (.num (.int number)))
  | .khorium => Warehouse.matchkhorium balance (some (.num (.int number)))

structure Msg where
  id : Option ℤ
  type : Option ℤ
  number : Option Int64

/-- `data.msg.number or 1`. -/
def Msg.count (m : Msg) : Int64 := m.number.getD 1

/-- **`shophandler:purchase`.** The stack has room for one call and `depth` more. -/
def purchase (t : Tables) (depth : ℕ) (m : Msg) : Op Code :=
  match m.id, m.type with
  | some id, some type =>
    if 3 < type ∨ type < 1 then pure .err_param
    else
      match t.get type id with
      | none => pure .cfgid_nofind
      | some datainfo =>
        match tested type datainfo with
        | none => Act.raise ()
        | some price => do
          let s ← Act.get
          if enough s.money datainfo.purse (m.count * price) then getbaginfo t m.count type (depth + 1) id
          else pure .gold_notEnough
  | _, _ => pure .err_param

end Mall

end Athena
