import Athena.Shop.Step
/-!
# The lines of a purchase

A request for khorium names listings and numbers. Its lines are the entries
with the rows they name, and the sums over them say what a purchase is to
do: what is taken from a listing, what a player is owed. The loop of
`khoriumbuy_queue` goes over the lines (`Run`) where every number is
positive and every listing holds what is taken from it (`Ready`), and then
it takes that, listing by listing.
-/

namespace Athena

namespace Shop

open Lua Warehouse

/-! ## Lines -/

/-- An entry of a request, with the row it names. -/
structure Line where
  id : ℤ
  number : Int64
  row : Putaway

/-- The price of the listing times the number. -/
def Line.cost (l : Line) : ℤ := l.row.price.toInt * l.number.toInt

def lines (s : State) (items : List (ℤ × Int64)) : List Line :=
  items.filterMap fun x => (s.putaway x.1).map fun row => ⟨x.1, x.2, row⟩

/-- How many are taken of all. -/
def total (ls : List Line) : ℤ := (ls.map fun l => l.number.toInt).sum

/-- How many are taken from a listing. -/
def taken (ls : List Line) (id : ℤ) : ℤ :=
  (ls.map fun l => if l.id = id then l.number.toInt else 0).sum

/-- What a player is owed. -/
def owed (ls : List Line) (v : Int64) : ℤ :=
  (ls.map fun l => if l.row.uid = v then l.cost else 0).sum

/-- What is owed to all. -/
def due (ls : List Line) : ℤ := (ls.map Line.cost).sum

/-- What is left of a listing. -/
def left (ls : List Line) (id : ℤ) (row : Putaway) : Option Putaway :=
  if 0 < taken ls id ∧ taken ls id = row.number.toInt then none
  else some { row with number := row.number - Int64.ofInt (taken ls id) }

/-- **A listing is sold out**: a row of the player, all of which is taken. -/
def SoldOut (s : State) (ls : List Line) (v : Int64) (id : ℤ) : Prop :=
  ∃ row, s.putaway id = some row ∧ row.uid = v ∧ 0 < taken ls id ∧ taken ls id = row.number.toInt

variable {s t u : State} {l : Line} {ls : List Line} {price n : Int64} {out outs : List Out}

@[simp] theorem taken_nil (id : ℤ) : taken [] id = 0 := rfl

@[simp] theorem taken_cons (l : Line) (ls : List Line) (id : ℤ) :
    taken (l :: ls) id = (if l.id = id then l.number.toInt else 0) + taken ls id := by
  simp [taken]

@[simp] theorem owed_cons (l : Line) (ls : List Line) (v : Int64) :
    owed (l :: ls) v = (if l.row.uid = v then l.cost else 0) + owed ls v := by
  simp [owed]

@[simp] theorem due_cons (l : Line) (ls : List Line) : due (l :: ls) = l.cost + due ls := by
  simp [due]

@[simp] theorem total_cons (l : Line) (ls : List Line) :
    total (l :: ls) = l.number.toInt + total ls := by
  simp [total]

/-- Every entry that names a row is a line. -/
theorem lines_named {items : List (ℤ × Int64)} (h : ∀ x ∈ items, (s.putaway x.1).isSome) :
    (lines s items).map (fun l => (l.id, l.number)) = items := by
  induction items with
  | nil => rfl
  | cons x items ih =>
    obtain ⟨row, hrow⟩ := Option.isSome_iff_exists.mp (h x List.mem_cons_self)
    have hrest := ih fun y hy => h y (List.mem_cons_of_mem _ hy)
    simp only [lines, List.filterMap_cons, hrow, Option.map_some, List.map_cons]
    exact congrArg (x :: ·) hrest

theorem mem_lines {items : List (ℤ × Int64)} (h : l ∈ lines s items) :
    s.putaway l.id = some l.row := by
  obtain ⟨x, -, hx⟩ := List.mem_filterMap.mp h
  obtain ⟨row, hrow, rfl⟩ := Option.map_eq_some_iff.mp hx
  exact hrow

/-! ## Lines that can be bought -/

/-- **The numbers are positive, and the listings hold what is taken.** A row
may have been bought from, which changed its number. -/
structure Ready (s : State) (ls : List Line) : Prop where
  positive : ∀ l ∈ ls, 0 < l.number.toInt
  held : ∀ l ∈ ls, ∃ n, s.putaway l.id = some { l.row with number := n } ∧ taken ls l.id ≤ n.toInt

theorem taken_nonneg (h : ∀ l ∈ ls, 0 < l.number.toInt) (id : ℤ) : 0 ≤ taken ls id := by
  induction ls with
  | nil => exact le_rfl
  | cons l ls ih =>
    have hrest := ih fun m hm => h m (List.mem_cons_of_mem _ hm)
    have hl := h l List.mem_cons_self
    rw [taken_cons]
    split <;> omega

/-- A line takes something. -/
theorem taken_pos (h : ∀ l ∈ ls, 0 < l.number.toInt) (hl : l ∈ ls) : 0 < taken ls l.id := by
  induction ls with
  | nil => cases hl
  | cons m ls ih =>
    have hrest : ∀ l ∈ ls, 0 < l.number.toInt := fun k hk => h k (List.mem_cons_of_mem _ hk)
    have hm := h m List.mem_cons_self
    have hnonneg := taken_nonneg hrest l.id
    rw [taken_cons]
    rcases List.mem_cons.mp hl with rfl | hin
    · rw [if_pos rfl]
      omega
    · have := ih hrest hin
      split <;> omega

/-- And what is not named is left alone. -/
theorem taken_of_notMem {id : ℤ} (h : ∀ l ∈ ls, l.id ≠ id) : taken ls id = 0 := by
  induction ls with
  | nil => rfl
  | cons l ls ih =>
    rw [taken_cons, if_neg (h l List.mem_cons_self),
      ih fun m hm => h m (List.mem_cons_of_mem _ hm)]
    rfl

/-! ## One line -/

/-- **What one turn of the loop does**, where the row has `n`. -/
structure Taken (price : Int64) (s : State) (l : Line) (n : Int64) (t : State) (out : List Out) :
    Prop where
  putaway : t.putaway = Function.update s.putaway l.id
    (if n = l.number then none else some { l.row with number := n - l.number })
  khoriumarr : ∀ v, (t.putawayinfo v).khoriumarr =
    if n = l.number ∧ v = l.row.uid then removeFound (s.putawayinfo v).khoriumarr l.id
    else (s.putawayinfo v).khoriumarr
  balance : t.balance = (s.serve addkhorium l.row.uid (price * l.number)).2.balance
  shopitem : t.shopitem = s.shopitem
  shopiteminfo : t.shopiteminfo = s.shopiteminfo
  shopitemId : t.shopitemId = s.shopitemId
  out : out = [.paid l.row.uid ((s.serve addkhorium l.row.uid (price * l.number)).2.worth .khorium
    l.row.uid - s.worth .khorium l.row.uid)]

theorem buyOne_taken (price : Int64) (hrow : s.putaway l.id = some { l.row with number := n }) :
    ∃ t out, buyOne price s l.id l.number = some (t, out) ∧ Taken price s l n t out := by
  unfold buyOne
  rw [hrow]
  dsimp only
  by_cases hn : n = l.number
  · rw [if_pos hn]
    refine ⟨_, _, rfl, ?_, fun v => ?_, rfl, rfl, rfl, rfl, rfl⟩
    · rw [if_pos hn]
      rfl
    · by_cases hv : v = l.row.uid
      · rw [if_pos ⟨hn, hv⟩, hv]
        simp only [State.setInfo, Function.update_self]
        rfl
      · rw [if_neg fun h => hv h.2]
        simp only [State.setInfo, Function.update_of_ne hv]
        rfl
  · rw [if_neg hn]
    refine ⟨_, _, rfl, ?_, fun v => ?_, rfl, rfl, rfl, rfl, rfl⟩
    · rw [if_neg hn]
      rfl
    · rw [if_neg fun h => hn h.1]
      rfl

/-- **The lines that follow can be bought.** -/
theorem Taken.ready (h : Taken price s l n t out) (hr : Ready s (l :: ls))
    (hrow : s.putaway l.id = some { l.row with number := n }) : Ready t ls := by
  have hpos : ∀ m ∈ ls, 0 < m.number.toInt := fun m hm => hr.positive m (List.mem_cons_of_mem _ hm)
  refine ⟨hpos, fun m hm => ?_⟩
  obtain ⟨k, hk, hle⟩ := hr.held m (List.mem_cons_of_mem _ hm)
  have hl := hr.positive l List.mem_cons_self
  have htaken := taken_pos hpos hm
  by_cases hid : m.id = l.id
  · -- the same listing again: something was left for it
    rw [taken_cons, if_pos hid.symm] at hle
    rw [hid, hrow, Option.some.injEq] at hk
    have hkn : n = k := congrArg Putaway.number hk
    subst hkn
    have hne : n ≠ l.number := by
      rintro rfl
      omega
    refine ⟨n - l.number, ?_, ?_⟩
    · rw [h.putaway, hid, Function.update_self, if_neg hne]
      have hrest : ({ l.row with number := n - l.number } : Putaway) =
          { ({ l.row with number := n } : Putaway) with number := n - l.number } := rfl
      rw [hrest, hk]
    · have hn := Int64.toInt_lt n
      rw [Number.toInt_sub (by omega) (by omega)]
      omega
  · refine ⟨k, ?_, ?_⟩
    · rw [h.putaway, Function.update_of_ne hid]
      exact hk
    · rw [taken_cons, if_neg (Ne.symm hid)] at hle
      omega

/-! ## The loop -/

/-- **A run of the loop** over lines. -/
inductive Run (price : Int64) : State → List Line → State → List Out → Prop
  | nil (s : State) : Run price s [] s []
  | cons {s t u : State} {l : Line} {ls : List Line} {n : Int64} {out outs : List Out}
      (row : s.putaway l.id = some { l.row with number := n }) (turn : Taken price s l n t out)
      (rest : Run price t ls u outs) : Run price s (l :: ls) u (out ++ outs)

/-- **The loop comes to its end.** -/
theorem buyAll_run (price : Int64) (h : Ready s ls) :
    ∃ u outs, buyAll price s (ls.map fun l => (l.id, l.number)) = (u, true, outs) ∧
      Run price s ls u outs := by
  induction ls generalizing s with
  | nil => exact ⟨s, [], rfl, .nil s⟩
  | cons l ls ih =>
    obtain ⟨n, hrow, -⟩ := h.held l List.mem_cons_self
    obtain ⟨t, out, hbuy, hturn⟩ := buyOne_taken price hrow
    obtain ⟨u, outs, hall, hrun⟩ := ih (hturn.ready h hrow)
    refine ⟨u, out ++ outs, ?_, .cons hrow hturn hrun⟩
    simp only [List.map_cons, buyAll, hbuy, hall]

theorem Run.shop (h : Run price s ls u outs) :
    u.shopitem = s.shopitem ∧ u.shopiteminfo = s.shopiteminfo ∧ u.shopitemId = s.shopitemId := by
  induction h with
  | nil => exact ⟨rfl, rfl, rfl⟩
  | cons row turn rest ih =>
    exact ⟨ih.1.trans turn.shopitem, ih.2.1.trans turn.shopiteminfo, ih.2.2.trans turn.shopitemId⟩

theorem left_of_zero {id : ℤ} (row : Putaway) (h : taken ls id = 0) : left ls id row = some row := by
  simp [left, h]

/-- **Every listing has what was not taken**, and is gone where all was. -/
theorem Run.putaway (h : Run price s ls u outs) (hr : Ready s ls) (id : ℤ) :
    u.putaway id = (s.putaway id).bind (left ls id) := by
  induction h with
  | nil s =>
    cases hrow : s.putaway id with
    | none => rfl
    | some row => exact (left_of_zero row (taken_nil id)).symm
  | @cons s t u l ls n out outs row turn rest ih =>
    have hready := turn.ready hr row
    rw [ih hready, turn.putaway]
    by_cases hid : id = l.id
    · subst hid
      obtain ⟨k, hk, hle⟩ := hr.held l List.mem_cons_self
      have hkn : n = k := by
        rw [row, Option.some.injEq] at hk
        exact congrArg Putaway.number hk
      subst hkn
      rw [taken_cons, if_pos rfl] at hle
      have hl := hr.positive l List.mem_cons_self
      have hnonneg := taken_nonneg hready.positive l.id
      rw [Function.update_self, row, Option.bind_some, left, taken_cons, if_pos rfl]
      by_cases hn : n = l.number
      · rw [if_pos hn, Option.bind_none, if_pos]
        subst hn
        dsimp only
        omega
      · have hne : n.toInt ≠ l.number.toInt := fun heq => hn (Int64.toInt_inj.mp heq)
        have hlt := Int64.toInt_lt n
        have hsub : (n - l.number).toInt = n.toInt - l.number.toInt :=
          Number.toInt_sub (by omega) (by omega)
        rw [if_neg hn, Option.bind_some, left]
        dsimp only
        rw [hsub]
        by_cases hall : l.number.toInt + taken ls l.id = n.toInt
        · rw [if_pos (by omega), if_pos (by omega)]
        · rw [if_neg (by omega), if_neg (by omega), Int64.ofInt_add, Int64.ofInt_toInt,
            Int64.sub_sub]
    · rw [Function.update_of_ne hid]
      cases hrow : s.putaway id with
      | none => rfl
      | some row' => simp [left, Ne.symm hid]

/-! ## The list of a seller -/

/-- A listing is sold out by a line, or by those that follow. -/
theorem soldOut_cons (h : Taken price s l n t out) (hr : Ready s (l :: ls))
    (hrow : s.putaway l.id = some { l.row with number := n }) (v : Int64) (id : ℤ) :
    SoldOut s (l :: ls) v id ↔ (n = l.number ∧ id = l.id ∧ v = l.row.uid) ∨ SoldOut t ls v id := by
  have hready := h.ready hr hrow
  unfold SoldOut
  rw [h.putaway]
  by_cases hid : id = l.id
  · subst hid
    obtain ⟨k, hk, hle⟩ := hr.held l List.mem_cons_self
    have hkn : n = k := by
      rw [hrow, Option.some.injEq] at hk
      exact congrArg Putaway.number hk
    subst hkn
    rw [taken_cons, if_pos rfl] at hle
    have hl := hr.positive l List.mem_cons_self
    have hnonneg := taken_nonneg hready.positive l.id
    rw [Function.update_self, hrow, taken_cons, if_pos rfl]
    by_cases hn : n = l.number
    · subst hn
      simp only [if_true, Option.some.injEq, reduceCtorEq, false_and, exists_false, or_false,
        true_and, exists_eq_left']
      constructor
      · exact fun hsold => hsold.1.symm
      · exact fun hv => ⟨hv.symm, by omega, by omega⟩
    · have hne : n.toInt ≠ l.number.toInt := fun heq => hn (Int64.toInt_inj.mp heq)
      have hlt := Int64.toInt_lt n
      have hsub : (n - l.number).toInt = n.toInt - l.number.toInt :=
        Number.toInt_sub (by omega) (by omega)
      simp only [if_neg hn]
      simp only [hn, false_and, false_or, Option.some.injEq, exists_eq_left', hsub]
      constructor
      · rintro ⟨hv, -, hall⟩
        exact ⟨hv, by omega, by omega⟩
      · rintro ⟨hv, -, hall⟩
        exact ⟨hv, by omega, by omega⟩
  · rw [Function.update_of_ne hid, taken_cons, if_neg (Ne.symm hid), zero_add]
    simp [hid]

/-- **Of a sold out listing there is one less in the list of its seller**,
and the rest stays, where each such listing is there. -/
theorem Run.count (h : Run price s ls u outs) (hr : Ready s ls)
    (hin : ∀ v id, SoldOut s ls v id → id ∈ (s.putawayinfo v).khoriumarr) (v : Int64) (id : ℤ) :
    (SoldOut s ls v id → (u.putawayinfo v).khoriumarr.count id + 1 =
      (s.putawayinfo v).khoriumarr.count id) ∧
    (¬ SoldOut s ls v id → (u.putawayinfo v).khoriumarr.count id =
      (s.putawayinfo v).khoriumarr.count id) := by
  induction h with
  | nil s =>
    refine ⟨?_, fun _ => rfl⟩
    rintro ⟨row, -, -, hpos, -⟩
    exact absurd hpos (lt_irrefl 0)
  | @cons s t u l ls n out outs row turn rest ih =>
    have hready := turn.ready hr row
    have hsold := soldOut_cons turn hr row
    -- after its line a listing that is sold out has no row
    have hgone : n = l.number → ∀ v, ¬ SoldOut t ls v l.id := by
      rintro hn v ⟨r, hr', -⟩
      rw [turn.putaway, Function.update_self, if_pos hn] at hr'
      cases hr'
    have hmem : n = l.number → l.id ∈ (s.putawayinfo l.row.uid).khoriumarr :=
      fun hn => hin _ _ ((hsold _ _).mpr (Or.inl ⟨hn, rfl, rfl⟩))
    have hcount : (t.putawayinfo v).khoriumarr.count id =
        (s.putawayinfo v).khoriumarr.count id -
          if n = l.number ∧ id = l.id ∧ v = l.row.uid then 1 else 0 := by
      rw [turn.khoriumarr]
      by_cases hc : n = l.number ∧ v = l.row.uid
      · obtain ⟨hn, rfl⟩ := hc
        rw [if_pos ⟨hn, rfl⟩, removeFound_of_mem (hmem hn)]
        by_cases hid : id = l.id
        · rw [if_pos ⟨hn, hid, rfl⟩, hid, List.count_erase_self]
        · rw [if_neg fun h => hid h.2.1, List.count_erase_of_ne hid, Nat.sub_zero]
      · rw [if_neg hc, if_neg fun h => hc ⟨h.1, h.2.2⟩, Nat.sub_zero]
    have hnext := ih hready fun v' id' hs => by
      have hin' := hin v' id' ((hsold _ _).mpr (Or.inr hs))
      rw [turn.khoriumarr]
      split
      · rename_i hc
        obtain ⟨hn, rfl⟩ := hc
        have hne : id' ≠ l.id := fun heq => hgone hn _ (heq ▸ hs)
        rw [removeFound_of_mem (hmem hn)]
        exact (List.mem_erase_of_ne hne).mpr hin'
      · exact hin'
    rw [hsold]
    by_cases hc : n = l.number ∧ id = l.id ∧ v = l.row.uid
    · obtain ⟨hn, rfl, rfl⟩ := hc
      rw [if_pos ⟨hn, rfl, rfl⟩] at hcount
      have hpos : 0 < (s.putawayinfo l.row.uid).khoriumarr.count l.id :=
        List.count_pos_iff.mpr (hmem hn)
      have hrest := hnext.2 (hgone hn _)
      refine ⟨fun _ => by omega, fun hno => absurd (Or.inl ⟨hn, rfl, rfl⟩) hno⟩
    · rw [if_neg hc, Nat.sub_zero] at hcount
      refine ⟨fun hs => ?_, fun hno => ?_⟩
      · have := hnext.1 (hs.resolve_left hc)
        omega
      · have := hnext.2 fun hs => hno (Or.inr hs)
        omega

end Shop

end Athena
