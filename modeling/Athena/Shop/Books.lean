import Athena.Shop.Step
/-!
# The books of the market

What a player puts on sale for gold is a lot. The books hold the lots, with
the half-hour price of the moment, the row of `putawaygold` that came of
each, and what came of it in the end; they are read off what was done. A lot
is in one of three states: its row waits in `stayputaway`, or it is listed in
`putawaygold`, or it is over, and then it was settled once (`Books`).
-/

namespace Athena

namespace Shop

open Lua Warehouse

/-! ## The books -/

/-- **A lot**: a quantity of a material on sale for gold. -/
structure Lot where
  uid : Int64
  cfgid : Option Number
  number : Int64
  price : Int64
  deriving DecidableEq

/-- What came of a lot: its owner has gold, or the goods. -/
inductive Settlement
  | gold (uid : Int64) (gain : ℤ)
  | goods (uid : Int64) (cfgid : Option Number) (gain : ℤ)
  deriving DecidableEq

/-- **Settled once**, by the price or by the goods. -/
def Lot.Settled (lot : Lot) (l : List Settlement) : Prop :=
  l = [.gold lot.uid (lot.price.toInt * lot.number.toInt)] ∨
    l = [.goods lot.uid lot.cfgid lot.number.toInt]

def Stayputaway.lot (row : Stayputaway) : Option Lot :=
  if row.iskh ≠ some 1 ∧ row.type = material then
    some ⟨row.uid, tonumber row.cfgid, row.number, row.price⟩
  else none

def Putawaygold.lot (row : Putawaygold) : Option Lot :=
  if row.type = material then some ⟨row.uid, row.cfgid, row.number, row.price⟩ else none

structure Ledger where
  /-- The lots by the id of their row in `stayputaway`. -/
  lot : ℤ → Option Lot
  /-- Where a row of `putawaygold` came from. -/
  origin : ℤ → Option ℤ
  done : ℤ → List Settlement

def Ledger.settle (L : Ledger) (id : Option ℤ) (x : Settlement) : Ledger :=
  match id with
  | none => L
  | some id => { L with done := Function.update L.done id (L.done id ++ [x]) }

def Ledger.note (L : Ledger) : Out → Ledger
  | .put id row price =>
    { L with lot := Function.update L.lot id (row.lot.map fun l => { l with price := price }) }
  | .listed stay gold => { L with origin := Function.update L.origin gold (some stay) }
  | .sold (.stay id) uid gain => L.settle (some id) (.gold uid gain)
  | .sold (.gold key) uid gain => L.settle (L.origin key) (.gold uid gain)
  | .back key uid cfgid gain => L.settle (L.origin key) (.goods uid cfgid gain)
  | .paid _ _ => L

def Ledger.notes (L : Ledger) (out : List Out) : Ledger := out.foldl Ledger.note L

def blank : Ledger := ⟨fun _ => none, fun _ => none, fun _ => []⟩

/-- **The books after a run.** -/
def ledger (es : List (Event × List Out)) : Ledger := blank.notes (es.flatMap Prod.snd)

theorem notes_append (L : Ledger) (xs ys : List Out) :
    L.notes (xs ++ ys) = (L.notes xs).notes ys := by
  simp [Ledger.notes]

theorem ledger_concat (es : List (Event × List Out)) (l : Event × List Out) :
    ledger (es ++ [l]) = (ledger es).notes l.2 := by
  simp [ledger, notes_append]

/-- Only a new row makes a lot. -/
@[simp] theorem settle_lot (L : Ledger) (id : Option ℤ) (x : Settlement) :
    (L.settle id x).lot = L.lot := by
  cases id <;> rfl

@[simp] theorem settle_origin (L : Ledger) (id : Option ℤ) (x : Settlement) :
    (L.settle id x).origin = L.origin := by
  cases id <;> rfl

theorem settle_done_self (L : Ledger) {id : ℤ} (x : Settlement) (h : L.done id = []) :
    (L.settle (some id) x).done id = [x] := by
  simp [Ledger.settle, h]

theorem settle_done_of_ne (L : Ledger) {id : ℤ} {o : Option ℤ} (x : Settlement)
    (h : o ≠ some id) : (L.settle o x).done id = L.done id := by
  cases o with
  | none => rfl
  | some i =>
    have hne : id ≠ i := fun hid => h (by rw [hid])
    exact Function.update_of_ne hne _ _

/-- The price is that of the moment, where it is what the row has. -/
theorem lot_priced {row : Stayputaway} {price : Int64}
    (h : ∀ lot, row.lot = some lot → lot.price = price) :
    (row.lot.map fun l => { l with price := price }) = row.lot := by
  cases hl : row.lot with
  | none => rfl
  | some lot =>
    have := h lot hl
    subst this
    rfl

/-! ## The state of a lot -/

variable {known : Number → Bool} {s t : State} {L M : Ledger} {id key : ℤ} {lot : Lot}

structure Waits (s : State) (L : Ledger) (id : ℤ) (lot : Lot) : Prop where
  row : (s.stayputaway id).map Stayputaway.lot = some (some lot)
  unlisted : ∀ key, L.origin key ≠ some id
  unsettled : L.done id = []

structure Listed (s : State) (L : Ledger) (id : ℤ) (lot : Lot) (key : ℤ) : Prop where
  row : (s.putawaygold key).map Putawaygold.lot = some (some lot)
  origin : ∀ key', L.origin key' = some id ↔ key' = key
  gone : s.stayputaway id = none
  unsettled : L.done id = []

structure Over (s : State) (L : Ledger) (id : ℤ) (lot : Lot) : Prop where
  unlisted : ∀ key, L.origin key = some id → s.putawaygold key = none
  gone : s.stayputaway id = none
  settled : lot.Settled (L.done id)

/-- **A lot is in one of three states.** -/
def Account (s : State) (L : Ledger) (id : ℤ) (lot : Lot) : Prop :=
  Waits s L id lot ∨ (∃ key, Listed s L id lot key) ∨ Over s L id lot

/-- A step that leaves a lot alone. -/
structure Same (s : State) (L : Ledger) (t : State) (M : Ledger) (id : ℤ) : Prop where
  stay : t.stayputaway id = s.stayputaway id
  done : M.done id = L.done id
  origin : ∀ key, M.origin key = some id ↔ L.origin key = some id
  gold : ∀ key, L.origin key = some id →
    (t.putawaygold key).map Putawaygold.lot = (s.putawaygold key).map Putawaygold.lot

theorem Account.same (h : Account s L id lot) (hs : Same s L t M id) : Account t M id lot := by
  rcases h with ⟨hrow, hun, hopen⟩ | ⟨key, hrow, horigin, hgone, hopen⟩ | ⟨hun, hgone, hsettled⟩
  · refine Or.inl ⟨by rw [hs.stay]; exact hrow, fun key hkey => ?_, hs.done.trans hopen⟩
    exact hun key ((hs.origin key).mp hkey)
  · refine Or.inr (Or.inl ⟨key, ?_, fun key' => (hs.origin key').trans (horigin key'),
      hs.stay.trans hgone, hs.done.trans hopen⟩)
    rw [hs.gold key ((horigin key).mpr rfl)]
    exact hrow
  · refine Or.inr (Or.inr ⟨fun key hkey => ?_, hs.stay.trans hgone, by rw [hs.done]; exact hsettled⟩)
    have hkey' := (hs.origin key).mp hkey
    have hmap := hs.gold key hkey'
    rw [hun key hkey', Option.map_none, Option.map_eq_none_iff] at hmap
    exact hmap

/-- A lot whose row waits has not been listed, nor settled. -/
theorem Account.waits {row : Stayputaway} (h : Account s L id lot)
    (hrow : s.stayputaway id = some row) : Waits s L id lot := by
  rcases h with h | ⟨key, h⟩ | h
  · exact h
  · rw [h.gone] at hrow
    cases hrow
  · rw [h.gone] at hrow
    cases hrow

/-- A lot that a row of `putawaygold` came of is listed there. -/
theorem Account.listed {row : Putawaygold} (h : Account s L id lot)
    (hrow : s.putawaygold key = some row) (horigin : L.origin key = some id) :
    Listed s L id lot key := by
  rcases h with h | ⟨key', h⟩ | h
  · exact absurd horigin (h.unlisted key)
  · rw [(h.origin key).mp horigin]
    exact h
  · rw [h.unlisted key horigin] at hrow
    cases hrow

/-- **The books are right**: every lot is in one of its states, and an id
that comes is of nothing yet. -/
structure Books (s : State) (L : Ledger) : Prop where
  account : ∀ id lot, L.lot id = some lot → Account s L id lot
  stay : ∀ id, s.stayputawayId < id → s.stayputaway id = none ∧ L.lot id = none ∧
    L.done id = [] ∧ ∀ key, L.origin key ≠ some id
  gold : ∀ key, s.putawaygoldId < key → s.putawaygold key = none ∧ L.origin key = none

theorem Books.congr (h : Books s L) (h1 : t.putawaygold = s.putawaygold)
    (h2 : t.stayputaway = s.stayputaway) (h3 : s.putawaygoldId ≤ t.putawaygoldId)
    (h4 : s.stayputawayId ≤ t.stayputawayId) : Books t L := by
  refine ⟨fun id lot hlot => ?_, fun id hid => ?_, fun key hkey => ?_⟩
  · refine (h.account id lot hlot).same ⟨by rw [h2], rfl, fun _ => Iff.rfl, fun key _ => by rw [h1]⟩
  · rw [h2]
    exact h.stay id (by omega)
  · rw [h1]
    exact h.gold key (by omega)

/-- An id of a lot is no new id. -/
theorem Books.lot_le (h : Books s L) (hlot : L.lot id = some lot) : id ≤ s.stayputawayId := by
  by_contra hlt
  rw [(h.stay id (by omega)).2.1] at hlot
  cases hlot

/-! ## What a step does to the books -/

/-- **A new row waits**, at the price of the moment. -/
theorem Books.enter (h : Books s L) {row : Stayputaway} {price : Int64}
    (hprice : ∀ lot, row.lot = some lot → lot.price = price) :
    Books (s.enter row) (L.note (.put (s.stayputawayId + 1) row price)) := by
  obtain ⟨hnone, hlotless, hdone, horigin⟩ := h.stay (s.stayputawayId + 1) (by omega)
  have htable : (s.enter row).stayputaway =
      Function.update s.stayputaway (s.stayputawayId + 1) (some row) := insertRow_of_none hnone
  have hlots : (L.note (.put (s.stayputawayId + 1) row price)).lot =
      Function.update L.lot (s.stayputawayId + 1) row.lot := by
    simp only [Ledger.note, lot_priced hprice]
  refine ⟨fun id lot hlot => ?_, fun id hid => ?_, h.gold⟩
  · rw [hlots] at hlot
    by_cases hid : id = s.stayputawayId + 1
    · subst hid
      rw [Function.update_self] at hlot
      refine Or.inl ⟨?_, horigin, hdone⟩
      rw [htable, Function.update_self, Option.map_some, hlot]
    · rw [Function.update_of_ne hid] at hlot
      refine (h.account id lot hlot).same ⟨?_, rfl, fun _ => Iff.rfl, fun _ _ => rfl⟩
      rw [htable, Function.update_of_ne hid]
  · have hid' : s.stayputawayId + 1 < id := hid
    obtain ⟨h1, h2, h3, h4⟩ := h.stay id (by omega)
    rw [htable, hlots, Function.update_of_ne (by omega), Function.update_of_ne (by omega)]
    exact ⟨h1, h2, h3, h4⟩

/-- **A row of `putawaygold` goes**, and its lot is settled. -/
theorem Books.dropGold (h : Books s L) {row : Putawaygold} (hrow : s.putawaygold key = some row)
    {x : Settlement} (hx : ∀ lot, row.lot = some lot → lot.Settled [x])
    (h1 : t.putawaygold = Function.update s.putawaygold key none)
    (h2 : t.stayputaway = s.stayputaway) (h3 : t.putawaygoldId = s.putawaygoldId)
    (h4 : t.stayputawayId = s.stayputawayId) : Books t (L.settle (L.origin key) x) := by
  refine ⟨fun id lot hlot => ?_, fun id hid => ?_, fun key' hkey => ?_⟩
  · rw [settle_lot] at hlot
    have hacc := h.account id lot hlot
    by_cases horigin : L.origin key = some id
    · -- the lot was listed in this row
      have hlisted := hacc.listed hrow horigin
      have hlotrow : row.lot = some lot := by
        have := hlisted.row
        rw [hrow] at this
        exact Option.some.inj this
      refine Or.inr (Or.inr ⟨fun key' hkey => ?_, by rw [h2]; exact hlisted.gone, ?_⟩)
      · rw [settle_origin] at hkey
        rw [h1, (hlisted.origin key').mp hkey, Function.update_self]
      · rw [horigin, settle_done_self L x hlisted.unsettled]
        exact hx lot hlotrow
    · refine hacc.same ⟨by rw [h2], settle_done_of_ne L x horigin, fun _ => by rw [settle_origin],
        fun key' hkey => ?_⟩
      have hne : key' ≠ key := fun heq => horigin (heq ▸ hkey)
      rw [h1, Function.update_of_ne hne]
  · rw [h4] at hid
    obtain ⟨hs1, hs2, hs3, hs4⟩ := h.stay id hid
    rw [h2, settle_lot, settle_origin, settle_done_of_ne L x (hs4 key)]
    exact ⟨hs1, hs2, hs3, hs4⟩
  · rw [h3] at hkey
    rw [h1, settle_origin]
    exact ⟨fresh_delete (fun k hk => (h.gold k hk).1) key' hkey, (h.gold key' hkey).2⟩

/-- A row of another kind goes from those that wait. -/
theorem Books.leave (h : Books s L) {row : Stayputaway} (hrow : s.stayputaway id = some row)
    (hlot : row.lot = none) (h1 : t.putawaygold = s.putawaygold)
    (h2 : t.stayputaway = Function.update s.stayputaway id none)
    (h3 : t.putawaygoldId = s.putawaygoldId) (h4 : t.stayputawayId = s.stayputawayId) :
    Books t L := by
  refine ⟨fun id' lot hl => ?_, fun id' hid => ?_, fun key hkey => ?_⟩
  · have hne : id' ≠ id := by
      rintro rfl
      have hwaits := ((h.account id' lot hl).waits hrow).row
      rw [hrow, Option.map_some, hlot] at hwaits
      cases hwaits
    refine (h.account id' lot hl).same ⟨?_, rfl, fun _ => Iff.rfl, fun _ _ => by rw [h1]⟩
    rw [h2, Function.update_of_ne hne]
  · rw [h4] at hid
    rw [h2]
    exact ⟨fresh_delete (fun k hk => (h.stay k hk).1) id' hid, (h.stay id' hid).2⟩
  · rw [h3] at hkey
    rw [h1]
    exact h.gold key hkey

/-- **A row that waits is bought at once.** -/
theorem Books.direct (h : Books s L) {row : Stayputaway} (hrow : s.stayputaway id = some row)
    {x : Settlement} (hx : ∀ lot, row.lot = some lot → lot.Settled [x])
    (h1 : t.putawaygold = s.putawaygold)
    (h2 : t.stayputaway = Function.update s.stayputaway id none)
    (h3 : t.putawaygoldId = s.putawaygoldId) (h4 : t.stayputawayId = s.stayputawayId) :
    Books t (L.settle (some id) x) := by
  refine ⟨fun id' lot hlot => ?_, fun id' hid => ?_, fun key hkey => ?_⟩
  · rw [settle_lot] at hlot
    have hacc := h.account id' lot hlot
    by_cases hid : id' = id
    · subst hid
      have hwaits := hacc.waits hrow
      have hlotrow : row.lot = some lot := by
        have := hwaits.row
        rw [hrow] at this
        exact Option.some.inj this
      refine Or.inr (Or.inr ⟨fun key hkey => ?_, by rw [h2, Function.update_self], ?_⟩)
      · rw [settle_origin] at hkey
        exact absurd hkey (hwaits.unlisted key)
      · rw [settle_done_self L x hwaits.unsettled]
        exact hx lot hlotrow
    · have hne : (some id : Option ℤ) ≠ some id' := fun heq => hid (Option.some.inj heq).symm
      refine hacc.same ⟨?_, settle_done_of_ne L x hne, fun _ => by rw [settle_origin],
        fun _ _ => by rw [h1]⟩
      rw [h2, Function.update_of_ne hid]
  · rw [h4] at hid
    obtain ⟨hs1, hs2, hs3, hs4⟩ := h.stay id' hid
    have hne : (some id : Option ℤ) ≠ some id' := by
      intro heq
      rw [Option.some.inj heq, hs1] at hrow
      cases hrow
    rw [h2, settle_lot, settle_origin, settle_done_of_ne L x hne]
    exact ⟨fresh_delete (fun k hk => (h.stay k hk).1) id' hid, hs2, hs3, hs4⟩
  · rw [h3] at hkey
    rw [h1, settle_origin]
    exact h.gold key hkey

/-- **A row that waits is listed.** -/
theorem Books.list (h : Books s L) {row : Stayputaway} (hrow : s.stayputaway id = some row)
    {row' : Putawaygold} (hlotrow : ∀ lot, row.lot = some lot → row'.lot = some lot)
    (h1 : t.putawaygold = Function.update s.putawaygold (s.putawaygoldId + 1) (some row'))
    (h2 : t.stayputaway = Function.update s.stayputaway id none)
    (h3 : t.putawaygoldId = s.putawaygoldId + 1) (h4 : t.stayputawayId = s.stayputawayId) :
    Books t (L.note (.listed id (s.putawaygoldId + 1))) := by
  obtain ⟨hgnone, honone⟩ := h.gold (s.putawaygoldId + 1) (by omega)
  have hold : ∀ {key id' : ℤ}, L.origin key = some id' → key ≠ s.putawaygoldId + 1 := by
    rintro key id' hkey rfl
    rw [honone] at hkey
    cases hkey
  have horigin : (L.note (.listed id (s.putawaygoldId + 1))).origin =
      Function.update L.origin (s.putawaygoldId + 1) (some id) := rfl
  refine ⟨fun id' lot hlot => ?_, fun id' hid => ?_, fun key hkey => ?_⟩
  · have hacc := h.account id' lot hlot
    by_cases hid : id' = id
    · subst hid
      have hwaits := hacc.waits hrow
      have hl : row.lot = some lot := by
        have := hwaits.row
        rw [hrow] at this
        exact Option.some.inj this
      refine Or.inr (Or.inl ⟨s.putawaygoldId + 1, ?_, fun key => ?_, by rw [h2, Function.update_self],
        hwaits.unsettled⟩)
      · rw [h1, Function.update_self, Option.map_some, hlotrow lot hl]
      · rw [horigin]
        by_cases hk : key = s.putawaygoldId + 1
        · simp [hk]
        · rw [Function.update_of_ne hk]
          exact ⟨fun hkey => absurd hkey (hwaits.unlisted key), fun heq => absurd heq hk⟩
    · refine hacc.same ⟨by rw [h2, Function.update_of_ne hid], rfl, fun key => ?_, fun key hkey => ?_⟩
      · rw [horigin]
        by_cases hk : key = s.putawaygoldId + 1
        · rw [hk, Function.update_self, honone]
          exact ⟨fun heq => absurd (Option.some.inj heq).symm hid, fun heq => by cases heq⟩
        · rw [Function.update_of_ne hk]
      · rw [h1, Function.update_of_ne (hold hkey)]
  · rw [h4] at hid
    obtain ⟨hs1, hs2, hs3, hs4⟩ := h.stay id' hid
    refine ⟨?_, hs2, hs3, fun key => ?_⟩
    · rw [h2]
      exact fresh_delete (fun k hk => (h.stay k hk).1) id' hid
    · rw [horigin]
      by_cases hk : key = s.putawaygoldId + 1
      · rw [hk, Function.update_self]
        intro heq
        rw [← Option.some.inj heq, hrow] at hs1
        cases hs1
      · rw [Function.update_of_ne hk]
        exact hs4 key
  · rw [h3] at hkey
    rw [h1, horigin]
    exact ⟨fresh_update (fun k hk => (h.gold k hk).1) key hkey,
      fresh_update (fun k hk => (h.gold k hk).2) key hkey⟩

end Shop

end Athena
