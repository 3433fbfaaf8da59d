import Mathlib.Algebra.BigOperators.Group.Finset.Piecewise
import Mathlib.Algebra.Order.BigOperators.Group.List
import Athena.Shop.Payment
/-!
# A purchase for khorium

`khoriumbuy` pays every seller at the price of the first listing, and takes
the money from the buyer when all is paid. So a purchase that passes its
checks is the trade that was asked for (`Traded`) exactly where the numbers
are positive, the listings hold what is taken from them all together, what
the warehouse adds and takes is what each listing costs, and the list of the
seller has a listing that is sold out once (`Exact`).
-/

namespace Athena

namespace Shop

open Lua Warehouse

variable {s t u : State} {uid price : Int64} {ls : List Line} {outs : List Out}

/-! ## What is asked for -/

/-- The price that is paid for all. -/
def firstPrice (ls : List Line) : Int64 := (ls.head?.map fun l => l.row.price).getD 0

/-- **The trade**, from `s` to `t`. -/
structure Traded (s : State) (uid : Int64) (items : List (ℤ × Int64)) (t : State)
    (out : List Out) : Prop where
  /-- Each listing is there. -/
  named : (lines s items).map (fun l => (l.id, l.number)) = items
  positive : ∀ x ∈ items, 0 < x.2.toInt
  held : ∀ l ∈ lines s items, taken (lines s items) l.id ≤ l.row.number.toInt
  /-- Each seller receives the price of his listing times the number. -/
  paid : out = payments (lines s items)
  enough : due (lines s items) ≤ s.worth .khorium uid
  /-- The buyer has what is due less, and nobody else anything. -/
  worth : ∀ v, t.worth .khorium v = s.worth .khorium v + owed (lines s items) v -
    if v = uid then due (lines s items) else 0
  total : ∀ players : Finset Int64, uid ∈ players → (∀ l ∈ lines s items, l.row.uid ∈ players) →
    ∑ v ∈ players, t.worth .khorium v = ∑ v ∈ players, s.worth .khorium v
  gone : ∀ v id, SoldOut s (lines s items) v id → t.putaway id = none
  listing : ∀ id row, s.putaway id = some row → ¬ SoldOut s (lines s items) row.uid id →
    ∃ n, t.putaway id = some { row with number := n } ∧
      n.toInt = row.number.toInt - taken (lines s items) id
  absent : ∀ id, s.putaway id = none → t.putaway id = none
  /-- Those that are sold out leave the list of their seller, and no other. -/
  leaves : ∀ v id, (id ∈ (s.putawayinfo v).khoriumarr ∧ id ∉ (t.putawayinfo v).khoriumarr) ↔
    SoldOut s (lines s items) v id
  stays : ∀ v id, id ∈ (t.putawayinfo v).khoriumarr → id ∈ (s.putawayinfo v).khoriumarr
  unused : s.shopitem (s.shopitemId + 1) = none
  bought : ∃ row, t.shopitem = Function.update s.shopitem (s.shopitemId + 1) (some row) ∧
    row.uid = uid ∧ row.number.toInt = Shop.total (lines s items)
  entered : t.shopiteminfo = Function.update s.shopiteminfo uid
    (s.shopiteminfo uid ++ [s.shopitemId + 1])

/-- **An error leaves everything as it was.** -/
structure Untouched (s t : State) : Prop where
  putaway : t.putaway = s.putaway
  putawayinfo : t.putawayinfo = s.putawayinfo
  balance : t.balance = s.balance
  shopitem : t.shopitem = s.shopitem
  shopiteminfo : t.shopiteminfo = s.shopiteminfo

/-- **An error that changes nothing, or the trade.** -/
def Sound (s : State) (uid : Int64) (items : List (ℤ × Int64))
    (r : State × Reply × List Out) : Prop :=
  (r.2.1 ≠ .code .success ∧ Untouched s r.1) ∨
    (r.2.1 = .code .success ∧ Traded s uid items r.1 r.2.2)

/-- **What the trade takes**, of the lines and the market before. -/
structure Exact (s : State) (uid : Int64) (ls : List Line) : Prop where
  positive : ∀ l ∈ ls, 0 < l.number.toInt
  held : ∀ l ∈ ls, taken ls l.id ≤ l.row.number.toInt
  pays : Pays (firstPrice ls) s.khorium ls
  takes : Takes ((s.khorium uid).map (· + owed ls uid)) (firstPrice ls * Int64.ofInt (total ls))
    (due ls)
  enough : due ls ≤ s.worth .khorium uid
  once : ∀ l ∈ ls, taken ls l.id = l.row.number.toInt →
    (s.putawayinfo l.row.uid).khoriumarr.count l.id = 1
  fits : total ls < 2 ^ 63
  unused : s.shopitem (s.shopitemId + 1) = none

/-! ## The checks -/

theorem validate_ok {raw : List (Option ℤ × Option Int64)} {acc r : Int64 × Option Int64}
    (h : validate s raw acc = .ok r) :
    ∃ items : List (ℤ × Int64), raw = items.map (fun x => (some x.1, some x.2)) ∧
      (∀ x ∈ items, (s.putaway x.1).isSome) ∧
      r.1 = acc.1 + Int64.ofInt (total (lines s items)) := by
  induction raw generalizing acc with
  | nil =>
    cases h
    exact ⟨[], rfl, by simp, by simp [lines, total]⟩
  | cons x raw ih =>
    obtain ⟨sumnumber, oneprice⟩ := acc
    obtain ⟨_ | id, _ | number⟩ := x
    · cases h
    · cases h
    · cases h
    · simp only [validate] at h
      split at h
      · cases h
      · rename_i row hrow
        split at h
        · cases h
        · obtain ⟨items, hraw, hsome, hsum⟩ := ih h
          refine ⟨(id, number) :: items, by rw [hraw]; rfl, ?_, ?_⟩
          · intro y hy
            rcases List.mem_cons.mp hy with rfl | hin
            · rw [hrow]
              rfl
            · exact hsome y hin
          · have hlines : lines s ((id, number) :: items) = ⟨id, number, row⟩ :: lines s items := by
              simp [lines, hrow]
            rw [hsum, hlines, total_cons, Int64.ofInt_add, Int64.ofInt_toInt, Int64.add_assoc]

theorem entries_map (items : List (ℤ × Int64)) :
    entries (some (items.map fun x => (some x.1, some x.2))) = items := by
  induction items with
  | nil => rfl
  | cons x items ih =>
    simp only [entries, Option.getD_some, List.map_cons, List.filterMap_cons] at ih ⊢
    rw [ih]

/-- **What has passed the checks** names listings, and one at least. -/
theorem checks_ok {idandnum : Option (List (Option ℤ × Option Int64))} {sumnumber : Int64}
    (h : checks s uid idandnum = .ok sumnumber) :
    entries idandnum ≠ [] ∧ (∀ x ∈ entries idandnum, (s.putaway x.1).isSome) ∧
      sumnumber = Int64.ofInt (total (lines s (entries idandnum))) := by
  unfold checks at h
  split at h
  · cases h
  · cases h
  · rename_i raw hne
    split at h
    · cases h
    · rename_i sum oneprice hvalid
      obtain ⟨items, rfl, hsome, hsum⟩ := validate_ok hvalid
      split at h
      · split at h
        · cases h
        · cases h
          rw [entries_map]
          refine ⟨?_, hsome, ?_⟩
          · rintro rfl
            exact hne rfl
          · simpa using hsum
      · cases h

theorem validate_error {raw : List (Option ℤ × Option Int64)} {acc : Int64 × Option Int64} {c : Code}
    (h : validate s raw acc = .error c) : c = .errParam := by
  induction raw generalizing acc with
  | nil => cases h
  | cons x raw ih =>
    obtain ⟨sumnumber, oneprice⟩ := acc
    obtain ⟨_ | id, _ | number⟩ := x
    · cases h
      rfl
    · cases h
      rfl
    · cases h
      rfl
    · simp only [validate] at h
      split at h
      · cases h
        rfl
      · split at h
        · cases h
          rfl
        · exact ih h

/-- A refusal is no success. -/
theorem checks_error {idandnum : Option (List (Option ℤ × Option Int64))} {c : Code}
    (h : checks s uid idandnum = .error c) : c ≠ .success := by
  unfold checks at h
  split at h
  · cases h
    decide
  · cases h
    decide
  · split at h
    · rename_i c' hvalid
      cases h
      rw [validate_error hvalid]
      decide
    · split at h
      · split at h
        · cases h
          decide
        · cases h
      · cases h
        decide

theorem khoriumbuy_of_ok {idandnum : Option (List (Option ℤ × Option Int64))} {sumnumber : Int64}
    (now : ℤ) (h : checks s uid idandnum = .ok sumnumber) :
    ∃ first, first.price = firstPrice (lines s (entries idandnum)) ∧
      khoriumbuy s uid idandnum now =
        khoriumbuyQueue s uid (entries idandnum) first
          (Int64.ofInt (total (lines s (entries idandnum)))) now := by
  obtain ⟨hne, hsome, rfl⟩ := checks_ok h
  obtain ⟨x, rest, hx⟩ := List.exists_cons_of_ne_nil hne
  obtain ⟨row, hrow⟩ := Option.isSome_iff_exists.mp (hsome x (by rw [hx]; exact List.mem_cons_self))
  refine ⟨row, ?_, ?_⟩
  · rw [hx]
    simp [firstPrice, lines, hrow]
  · rw [khoriumbuy, h]
    simp only [hx, List.head?_cons, Option.bind_some, hrow]

/-! ## A purchase that ends in the middle -/

/-- The loop raises on a listing that is gone. -/
theorem buyAll_gone {items : List (ℤ × Int64)} (h : (buyAll price s items).2.1 = false) :
    ∃ x ∈ items, (buyAll price s items).1.putaway x.1 = none := by
  induction items generalizing s with
  | nil => cases h
  | cons x items ih =>
    obtain ⟨id, number⟩ := x
    simp only [buyAll] at h ⊢
    split at h
    · rename_i hbuy
      refine ⟨_, List.mem_cons_self, ?_⟩
      unfold buyOne at hbuy
      split at hbuy
      · assumption
      · dsimp only at hbuy
        split at hbuy <;> cases hbuy
    · obtain ⟨y, hy, hgone⟩ := ih h
      exact ⟨y, List.mem_cons_of_mem _ hy, hgone⟩

/-- So a purchase that raises has changed the listings. -/
theorem not_untouched {items : List (ℤ × Int64)} {first : Putaway} {sumnumber : Int64} {now : ℤ}
    (hsome : ∀ x ∈ items, (s.putaway x.1).isSome)
    (h : (khoriumbuyQueue s uid items first sumnumber now).2.1 ≠ .code .success) :
    ¬ Untouched s (khoriumbuyQueue s uid items first sumnumber now).1 := by
  unfold khoriumbuyQueue at h ⊢
  dsimp only at h ⊢
  split at h
  · exact absurd rfl h
  · rename_i hdone
    rw [if_neg hdone]
    intro hsame
    obtain ⟨x, hx, hgone⟩ := buyAll_gone (Bool.eq_false_iff.mpr hdone)
    have hrow := hsome x hx
    rw [← hsame.putaway, hgone] at hrow
    cases hrow

/-! ## A purchase that comes to its end -/

/-- What is done after the loop. -/
def finish (s u : State) (uid : Int64) (row : Shopitem) (m : Int64) : State :=
  ({ u with
      shopitemId := u.shopitemId + 1
      shopitem := insertRow u.shopitem (u.shopitemId + 1) row
      shopiteminfo := Function.update u.shopiteminfo uid
        (s.shopiteminfo uid ++ [u.shopitemId + 1]) }.serve remkhorium uid m).2

theorem lines_ready {items : List (ℤ × Int64)} (hpos : ∀ l ∈ lines s items, 0 < l.number.toInt)
    (hheld : ∀ l ∈ lines s items, taken (lines s items) l.id ≤ l.row.number.toInt) :
    Ready s (lines s items) :=
  ⟨hpos, fun l hl => ⟨l.row.number, mem_lines hl, hheld l hl⟩⟩

/-- A listing that is sold out is one of the lines. -/
theorem SoldOut.line {items : List (ℤ × Int64)} {v : Int64} {id : ℤ}
    (h : SoldOut s (lines s items) v id) :
    ∃ l ∈ lines s items, l.id = id ∧ l.row.uid = v ∧
      taken (lines s items) id = l.row.number.toInt := by
  obtain ⟨row, hrow, hv, hpos, hall⟩ := h
  by_contra hnone
  have hzero : taken (lines s items) id = 0 := by
    refine taken_of_notMem fun l hl hid => hnone ⟨l, hl, hid, ?_⟩
    have hl' := mem_lines hl
    rw [hid, hrow, Option.some.injEq] at hl'
    rw [← hl']
    exact ⟨hv, hall⟩
  omega

theorem Run.worth (h : Run price s ls u outs) (hp : Pays price s.khorium ls) (v : Int64) :
    u.worth .khorium v = s.worth .khorium v + owed ls v := by
  rw [worth_khorium, worth_khorium, h.khorium hp]
  cases hv : s.khorium v with
  | none => simp [hp.owed_of_none hv]
  | some b => rfl

theorem sum_owed (players : Finset Int64) (h : ∀ l ∈ ls, l.row.uid ∈ players) :
    ∑ v ∈ players, owed ls v = due ls := by
  induction ls with
  | nil => simp [owed, due]
  | cons l ls ih =>
    have hl := h l List.mem_cons_self
    simp only [owed_cons, Finset.sum_add_distrib, Finset.sum_ite_eq, hl, if_true, due_cons,
      ih fun m hm => h m (List.mem_cons_of_mem _ hm)]

/-- **The loop and what is done after it**, where the lines can be bought. -/
theorem khoriumbuyQueue_ready {items : List (ℤ × Int64)} (uid : Int64) (first : Putaway)
    (sumnumber : Int64) (now : ℤ)
    (hnamed : (lines s items).map (fun l => (l.id, l.number)) = items)
    (hr : Ready s (lines s items)) :
    ∃ u outs, Run first.price s (lines s items) u outs ∧
      khoriumbuyQueue s uid items first sumnumber now =
        (finish s u uid ⟨first.cfgid, sumnumber, first.price, first.type, now, 1, uid⟩
          (first.price * sumnumber), .code .success, outs) := by
  obtain ⟨u, outs, hall, hrun⟩ := buyAll_run first.price hr
  rw [hnamed] at hall
  refine ⟨u, outs, hrun, ?_⟩
  simp only [khoriumbuyQueue, hall, if_true]
  rfl

theorem finish_worth_of_ne (row : Shopitem) (m : Int64) {v : Int64} (hv : v ≠ uid) :
    (finish s u uid row m).worth .khorium v = u.worth .khorium v := by
  rw [worth_khorium, finish, serve_khorium_of_ne _ remkhorium hv]
  rfl

/-- **What the buyer pays** is what is taken from him. -/
theorem finish_worth_iff (row : Shopitem) (m : Int64) (d : ℤ) :
    u.worth .khorium uid - (finish s u uid row m).worth .khorium uid = d ↔
      Takes (u.khorium uid) m d := by
  rw [worth_khorium (finish s u uid row m), finish, serve_khorium_self _ rfl]
  exact takes_iff (u.balance .khorium uid) m d

/-- The number of the purchase is the number of all where that fits. -/
theorem toInt_total (h0 : 0 ≤ total ls) (h : total ls < 2 ^ 63) :
    (Int64.ofInt (total ls)).toInt = total ls :=
  toInt_ofInt_of_nonneg h0 h

theorem total_nonneg (h : ∀ l ∈ ls, 0 < l.number.toInt) : 0 ≤ total ls := by
  induction ls with
  | nil => exact le_rfl
  | cons l ls ih =>
    have hl := h l List.mem_cons_self
    have hrest := ih fun m hm => h m (List.mem_cons_of_mem _ hm)
    rw [total_cons]
    omega

/-- **What is exact is the trade.** -/
theorem traded_of_exact {items : List (ℤ × Int64)} {row : Shopitem}
    (hnamed : (lines s items).map (fun l => (l.id, l.number)) = items)
    (h : Exact s uid (lines s items))
    (hrun : Run (firstPrice (lines s items)) s (lines s items) u outs)
    (huid : row.uid = uid) (hnumber : row.number = Int64.ofInt (total (lines s items))) :
    Traded s uid items (finish s u uid row
      (firstPrice (lines s items) * Int64.ofInt (total (lines s items)))) outs := by
  have hr := lines_ready h.positive h.held
  obtain ⟨hitem, hinfo, hid⟩ := hrun.shop
  have hin : ∀ v id, SoldOut s (lines s items) v id →
      (s.putawayinfo v).khoriumarr.count id = 1 := by
    intro v id hsold
    obtain ⟨l, hl, rfl, rfl, hall⟩ := hsold.line
    exact h.once l hl hall
  have hcount := hrun.count hr fun v id hsold => List.count_pos_iff.mp (by rw [hin v id hsold]; omega)
  have hworth : ∀ v, (finish s u uid row (firstPrice (lines s items) *
      Int64.ofInt (total (lines s items)))).worth .khorium v = s.worth .khorium v +
        owed (lines s items) v - if v = uid then due (lines s items) else 0 := by
    intro v
    have hu := hrun.worth h.pays v
    by_cases hv : v = uid
    · -- the buyer may also be one of the sellers; it pays out of what it was paid
      subst hv
      have htakes := h.takes
      rw [← hrun.khorium h.pays] at htakes
      have hpaid := (finish_worth_iff (s := s) row _ _).mpr htakes
      rw [if_pos rfl]
      omega
    · rw [finish_worth_of_ne row _ hv, hu, if_neg hv, sub_zero]
  refine ⟨hnamed, ?_, h.held, hrun.paid.mpr h.pays, h.enough, hworth, ?_, ?_, ?_, ?_, ?_, ?_,
    h.unused, ⟨row, ?_, huid, ?_⟩, ?_⟩
  · intro x hx
    rw [← hnamed] at hx
    obtain ⟨l, hl, rfl⟩ := List.mem_map.mp hx
    exact h.positive l hl
  · intro players hbuyer hsellers
    simp only [hworth, Finset.sum_sub_distrib, Finset.sum_add_distrib, sum_owed players hsellers,
      Finset.sum_ite_eq', hbuyer, if_true]
    omega
  · rintro v id ⟨row', hrow, -, hpos, hall⟩
    refine (hrun.putaway hr id).trans ?_
    rw [hrow, Option.bind_some, left, if_pos ⟨hpos, hall⟩]
  · intro id row' hrow hnot
    have hle : taken (lines s items) id ≤ row'.number.toInt ∨ taken (lines s items) id = 0 := by
      by_cases hline : ∃ l ∈ lines s items, l.id = id
      · obtain ⟨l, hl, rfl⟩ := hline
        have hl' := mem_lines hl
        rw [hrow, Option.some.injEq] at hl'
        rw [hl']
        exact Or.inl (h.held l hl)
      · exact Or.inr (taken_of_notMem fun l hl hid => hline ⟨l, hl, hid⟩)
    have hnonneg := taken_nonneg h.positive id
    have hlt := Int64.toInt_lt row'.number
    have hge := Int64.le_toInt row'.number
    have htaken : (Int64.ofInt (taken (lines s items) id)).toInt = taken (lines s items) id :=
      toInt_ofInt_of_nonneg hnonneg (by omega)
    refine ⟨row'.number - Int64.ofInt (taken (lines s items) id), ?_, ?_⟩
    · refine (hrun.putaway hr id).trans ?_
      rw [hrow, Option.bind_some, left, if_neg]
      exact fun hsold => hnot ⟨row', hrow, rfl, hsold⟩
    · rw [Number.toInt_sub (by omega) (by omega), htaken]
  · intro id hnone
    refine (hrun.putaway hr id).trans ?_
    rw [hnone, Option.bind_none]
  · intro v id
    constructor
    · -- an offer that is not sold out keeps its place in the list
      rintro ⟨hs, hu⟩
      by_contra hnot
      have hsame := (hcount v id).2 hnot
      have hpos := List.count_pos_iff.mpr hs
      rw [← hsame] at hpos
      exact hu (List.count_pos_iff.mp hpos)
    · -- one that is had one place, and loses it
      intro hsold
      have hone := hin v id hsold
      have hless := (hcount v id).1 hsold
      refine ⟨List.count_pos_iff.mp (by omega), fun hu => ?_⟩
      have hpos : 0 < (u.putawayinfo v).khoriumarr.count id := List.count_pos_iff.mpr hu
      omega
  · intro v id hu
    have hpos : 0 < (u.putawayinfo v).khoriumarr.count id := List.count_pos_iff.mpr hu
    have h1 := (hcount v id).1
    have h2 := (hcount v id).2
    refine List.count_pos_iff.mp ?_
    by_cases hsold : SoldOut s (lines s items) v id
    · have := h1 hsold
      omega
    · have := h2 hsold
      omega
  · show insertRow u.shopitem (u.shopitemId + 1) row = _
    rw [hitem, hid, insertRow_of_none h.unused]
  · rw [hnumber]
    exact toInt_total (total_nonneg h.positive) h.fits
  · show Function.update u.shopiteminfo uid (s.shopiteminfo uid ++ [u.shopitemId + 1]) = _
    rw [hinfo, hid]

theorem Traded.ready {items : List (ℤ × Int64)} {out : List Out} (h : Traded s uid items t out) :
    Ready s (lines s items) := by
  refine lines_ready (fun l hl => h.positive (l.id, l.number) ?_) h.held
  rw [← h.named]
  exact List.mem_map.mpr ⟨l, hl, rfl⟩

/-- **And the trade is exact.** -/
theorem exact_of_traded {items : List (ℤ × Int64)} {row : Shopitem}
    (hrun : Run (firstPrice (lines s items)) s (lines s items) u outs)
    (h : Traded s uid items (finish s u uid row
      (firstPrice (lines s items) * Int64.ofInt (total (lines s items)))) outs) :
    Exact s uid (lines s items) := by
  have hr := h.ready
  have hpays := hrun.paid.mp h.paid
  obtain ⟨hitem, hinfo, hid⟩ := hrun.shop
  have hcount := hrun.count hr fun v id hsold => ((h.leaves v id).mpr hsold).1
  refine ⟨hr.positive, h.held, hpays, ?_, h.enough, ?_, ?_, h.unused⟩
  · rw [← hrun.khorium hpays]
    refine (finish_worth_iff (s := s) row _ _).mp ?_
    have hworth := h.worth uid
    have hu := hrun.worth hpays uid
    rw [if_pos rfl] at hworth
    omega
  · intro l hl hall
    have hsold : SoldOut s (lines s items) l.row.uid l.id :=
      ⟨l.row, mem_lines hl, rfl, taken_pos hr.positive hl, hall⟩
    have hless := (hcount _ _).1 hsold
    have hzero : (u.putawayinfo l.row.uid).khoriumarr.count l.id = 0 :=
      List.count_eq_zero.mpr ((h.leaves _ _).mpr hsold).2
    omega
  · obtain ⟨row', htable, -, htotal⟩ := h.bought
    have htable' : insertRow u.shopitem (u.shopitemId + 1) row =
        Function.update s.shopitem (s.shopitemId + 1) (some row') := htable
    rw [hitem, hid, insertRow_of_none h.unused] at htable'
    have hrow := congrFun htable' (s.shopitemId + 1)
    rw [Function.update_self, Function.update_self, Option.some.injEq] at hrow
    rw [← htotal]
    exact Int64.toInt_lt _

/-- **A purchase is an error that changes nothing or the trade** exactly
where the checks refuse it, or the lines are exact. -/
theorem khoriumbuy_exact (s : State) (uid : Int64)
    (idandnum : Option (List (Option ℤ × Option Int64))) (now : ℤ) :
    Sound s uid (entries idandnum) (khoriumbuy s uid idandnum now) ↔
      ∀ sumnumber, checks s uid idandnum = .ok sumnumber →
        Exact s uid (lines s (entries idandnum)) := by
  cases hchecks : checks s uid idandnum with
  | error c =>
    have herror : khoriumbuy s uid idandnum now = (s, .code c, []) := by
      simp only [khoriumbuy, hchecks]
    rw [herror]
    constructor
    · intro _ sumnumber hok
      cases hok
    · intro _
      refine Or.inl ⟨fun hcode => checks_error hchecks (Reply.code.inj hcode), ?_⟩
      exact ⟨rfl, rfl, rfl, rfl, rfl⟩
  | ok sumnumber =>
    obtain ⟨-, hsome, -⟩ := checks_ok hchecks
    obtain ⟨first, hprice, hbuy⟩ := khoriumbuy_of_ok now hchecks
    have hnamed := lines_named hsome
    have hfinish := fun hr : Ready s (lines s (entries idandnum)) =>
      khoriumbuyQueue_ready uid first (Int64.ofInt (total (lines s (entries idandnum)))) now hnamed hr
    rw [hprice] at hfinish
    rw [hbuy]
    constructor
    · rintro (⟨hreply, hsame⟩ | ⟨-, htraded⟩)
      · exact absurd hsame (not_untouched hsome hreply)
      · intro _ _
        obtain ⟨u, outs, hrun, hqueue⟩ := hfinish htraded.ready
        rw [hqueue] at htraded
        exact exact_of_traded hrun htraded
    · intro hexact
      have hx := hexact sumnumber rfl
      obtain ⟨u, outs, hrun, hqueue⟩ := hfinish (lines_ready hx.positive hx.held)
      rw [hqueue]
      exact Or.inr ⟨rfl, traded_of_exact hnamed hx hrun rfl rfl⟩

/-! ## At one price -/

/-- What is due at one price. -/
theorem due_of_price (h : ∀ l ∈ ls, l.row.price = price) : due ls = price.toInt * total ls := by
  induction ls with
  | nil => simp [due, total]
  | cons l ls ih =>
    rw [due_cons, total_cons, ih fun m hm => h m (List.mem_cons_of_mem _ hm), Line.cost,
      h l List.mem_cons_self]
    ring

/-- The sellers are paid where all listings have one price, and what is due
fits beside what they have. -/
theorem pays_of_price {b : Int64 → Option ℤ} (hprice : ∀ l ∈ ls, l.row.price = price)
    (h0 : 0 ≤ price.toInt) (hpos : ∀ l ∈ ls, 0 < l.number.toInt) (hdue : due ls < 2 ^ 63)
    (hb : ∀ l ∈ ls, ∃ x, b l.row.uid = some x ∧ x + due ls < 2 ^ 63) : Pays price b ls := by
  induction ls generalizing b with
  | nil => trivial
  | cons l ls ih =>
    have hprice' : ∀ m ∈ ls, m.row.price = price := fun m hm => hprice m (List.mem_cons_of_mem _ hm)
    have hpos' : ∀ m ∈ ls, 0 < m.number.toInt := fun m hm => hpos m (List.mem_cons_of_mem _ hm)
    have hrest : 0 ≤ due ls := by
      rw [due_of_price hprice']
      exact mul_nonneg h0 (total_nonneg hpos')
    have hcost : l.cost = price.toInt * l.number.toInt := by
      rw [Line.cost, hprice l List.mem_cons_self]
    have hcost0 : 0 ≤ l.cost := by
      rw [hcost]
      exact mul_nonneg h0 (hpos l List.mem_cons_self).le
    rw [due_cons] at hdue
    have hmul : (price * l.number).toInt = l.cost := by
      rw [Number.toInt_mul (by omega) (by omega), hcost]
    obtain ⟨x, hx, hlt⟩ := hb l List.mem_cons_self
    rw [due_cons] at hlt
    refine ⟨?_, ih hprice' hpos' (by omega) fun m hm => ?_⟩
    · rw [hx]
      simp only [Adds, hmul]
      by_cases hzero : l.cost ≤ 0
      · rw [if_pos hzero]
        omega
      · rw [if_neg hzero, if_pos (by omega)]
        trivial
    · obtain ⟨y, hy, hlt⟩ := hb m (List.mem_cons_of_mem _ hm)
      rw [due_cons] at hlt
      refine ⟨if l.row.uid = m.row.uid then y + l.cost else y, by simp [receive, hy], ?_⟩
      split <;> omega

/-- **A purchase at one price is exact** where everyone has a balance and
nothing overflows. -/
theorem exact_of_one_price (hprice : ∀ l ∈ ls, l.row.price = firstPrice ls)
    (h0 : 0 ≤ (firstPrice ls).toInt) (hpos : ∀ l ∈ ls, 0 < l.number.toInt)
    (hheld : ∀ l ∈ ls, taken ls l.id ≤ l.row.number.toInt)
    (hsellers : ∀ l ∈ ls, ∃ x, s.khorium l.row.uid = some x ∧ x + due ls < 2 ^ 63)
    (hbuyer : ∃ x, s.khorium uid = some x ∧ due ls ≤ x)
    (honce : ∀ l ∈ ls, taken ls l.id = l.row.number.toInt →
      (s.putawayinfo l.row.uid).khoriumarr.count l.id = 1)
    (hfits : total ls < 2 ^ 63) (hunused : s.shopitem (s.shopitemId + 1) = none) :
    Exact s uid ls := by
  obtain ⟨x, hx, hle⟩ := hbuyer
  have hlt : x < 2 ^ 63 := by
    obtain ⟨b, -, rfl⟩ := Option.map_eq_some_iff.mp hx
    exact Int64.toInt_lt b
  have htotal := total_nonneg hpos
  have hdue := due_of_price hprice
  have hmul : (firstPrice ls * Int64.ofInt (total ls)).toInt = due ls := by
    have hnonneg : 0 ≤ (firstPrice ls).toInt * total ls := mul_nonneg h0 htotal
    rw [Number.toInt_mul, toInt_total htotal hfits, hdue] <;> rw [toInt_total htotal hfits] <;> omega
  have howed : 0 ≤ owed ls uid := by
    refine List.sum_nonneg fun y hy => ?_
    obtain ⟨l, hl, rfl⟩ := List.mem_map.mp hy
    split
    · rw [Line.cost, hprice l hl]
      exact mul_nonneg h0 (hpos l hl).le
    · exact le_rfl
  refine ⟨hpos, hheld, pays_of_price hprice h0 hpos (by omega) hsellers, ?_, ?_, honce, hfits, hunused⟩
  · rw [hx]
    simp only [Option.map_some, Takes, hmul]
    by_cases hzero : due ls ≤ 0
    · have hnonneg : 0 ≤ (firstPrice ls).toInt * total ls := mul_nonneg h0 htotal
      rw [if_pos hzero]
      omega
    · rw [if_neg hzero, if_neg (by omega), min_eq_left (by omega)]
  · rw [worth_khorium, hx]
    exact hle

/-- A market with three pieces at 10 of player 2, and one at 4 of player 3.
Player 1 has some khorium. -/
def bazaar (khorium : Int64) : State :=
  { initial (fun _ => none) (fun _ => []) 0
      (fun p uid => match p with
        | .gold => none
        | .khorium => if uid = 1 then some khorium else if uid ≤ 3 then some 0 else none)
      fun _ => ⟨fun _ => none, fun _ => none⟩ with
    putaway := fun id =>
      if id = 1 then some ⟨"10001".toList, 3, 10, blueprint, 0, 86400, 2⟩
      else if id = 2 then some ⟨"10001".toList, 1, 4, blueprint, 0, 86400, 3⟩
      else none
    putawayinfo := fun uid =>
      if uid = 2 then ⟨[], [1], [], []⟩ else if uid = 3 then ⟨[], [2], [], []⟩ else ⟨[], [], [], []⟩
    putawayId := 2 }

/-- **Purchases that are neither.** The check of the khorium lets every
buyer pass; all listings are paid at the price of the first; a number may be
negative beside others; and a listing that is named twice is gone at its second line. -/
theorem khoriumbuy_wrong :
    ¬ Sound (bazaar 5) 1 [(1, 1)] (khoriumbuy (bazaar 5) 1 (some [(some 1, some 1)]) 0) ∧
    ¬ Sound (bazaar 100) 1 [(1, 1), (2, 1)]
      (khoriumbuy (bazaar 100) 1 (some [(some 1, some 1), (some 2, some 1)]) 0) ∧
    ¬ Sound (bazaar 100) 1 [(1, 3), (2, -1)]
      (khoriumbuy (bazaar 100) 1 (some [(some 1, some 3), (some 2, some (-1))]) 0) ∧
    ¬ Sound (bazaar 100) 1 [(1, 3), (1, 3)]
      (khoriumbuy (bazaar 100) 1 (some [(some 1, some 3), (some 1, some 3)]) 0) := by
  refine ⟨?_, ?_, ?_, ?_⟩
  · rintro (⟨hreply, -⟩ | ⟨-, htraded⟩)
    · exact hreply (by decide +kernel)
    · exact absurd htraded.enough (by decide +kernel)
  · rintro (⟨hreply, -⟩ | ⟨-, htraded⟩)
    · exact hreply (by decide +kernel)
    · exact absurd (htraded.worth 3) (by decide +kernel)
  · rintro (⟨hreply, -⟩ | ⟨-, htraded⟩)
    · exact hreply (by decide +kernel)
    · exact absurd (htraded.positive (2, -1) (by decide)) (by decide)
  · rintro (⟨-, hsame⟩ | ⟨hreply, -⟩)
    · have hrow := congrArg Option.isSome (congrFun hsame.putaway 1)
      exact absurd hrow (by decide +kernel)
    · exact absurd hreply (by decide +kernel)

end Shop

end Athena
