import Athena.Shop.Books
/-!
# Fair runs

The books stay right where the price that is stored is the half-hour price,
and what the warehouse is asked to add, it adds (`Fair`). A trade that is
refused leaves the row as it was; one at once does not.
-/

namespace Athena

namespace Shop

open Lua Warehouse

variable {known : Number → Bool} {s t : State} {L : Ledger}

/-! ## What the warehouse adds -/

/-- **The gold of a row fits**: the product, and the sum with what its owner
has. -/
def Fits (s : State) (uid price number : Int64) : Prop :=
  (price * number).toInt = price.toInt * number.toInt ∧
    ∀ b, s.balance .gold uid = some b → b.toInt + (price * number).toInt < 2 ^ 63

/-- `addgold` answers yes. -/
def Accepted (s : State) (uid n : Int64) : Prop :=
  0 ≤ n.toInt ∧ (n = 0 ∨ (s.balance .gold uid).isSome)

theorem accepted_iff (s : State) (uid n : Int64) :
    (s.serve addgold uid n).1 = true ↔ Accepted s uid n := by
  unfold State.serve Request.serve Accepted
  by_cases hneg : n.toInt < 0
  · simp only [if_pos hneg, Bool.false_eq_true, false_iff]
    omega
  · by_cases hzero : n = 0
    · rw [if_neg hneg, if_pos hzero]
      exact ⟨fun _ => ⟨by omega, Or.inl hzero⟩, fun _ => rfl⟩
    · rw [if_neg hneg, if_neg hzero]
      have hnonneg : 0 ≤ n.toInt := by omega
      cases hb : s.balance addgold.purse uid with
      | none =>
        have hb' : s.balance .gold uid = none := hb
        simp [hb', hzero]
      | some b =>
        have hb' : s.balance .gold uid = some b := hb
        simp [hb', hnonneg]

/-- **The owner receives the price times the number.** -/
theorem gain_of_fits {uid price number : Int64} (hfits : Fits s uid price number)
    (h : (s.serve addgold uid (price * number)).1 = true) :
    (s.serve addgold uid (price * number)).2.worth .gold uid - s.worth .gold uid =
      price.toInt * number.toInt := by
  have hadd : (((addgold.serve (s.balance .gold uid) (price * number)).2.map Int64.toInt).getD 0) =
      ((s.balance .gold uid).map Int64.toInt).getD 0 + (price * number).toInt :=
    (serve_adds (r := addgold) rfl h hfits.2).2
  have hworth : (s.serve addgold uid (price * number)).2.worth .gold uid =
      (((addgold.serve (s.balance .gold uid) (price * number)).2.map Int64.toInt).getD 0) := by
    simp [State.worth, State.serve, addgold]
  rw [hworth, hadd, ← hfits.1]
  simp only [State.worth]
  omega

/-- **The owner receives the goods.** -/
theorem gain_of_materials {uid : Int64} {cfgid : Option Number} {number : Int64} {scanned : Bool}
    (hfit : ∀ c x, cfgid = some c → (s.materials uid).materials c = some x ∨
      (s.materials uid).newmaterials c = some x → FitsTotal x number)
    (h : (giveBack known s uid material (cfgid.map .num) number scanned).1 = true) :
    (giveBack known s uid material (cfgid.map .num) number scanned).2.stock uid cfgid -
      s.stock uid cfgid = number.toInt := by
  cases cfgid with
  | none => cases h
  | some c =>
    have hadd := addmaterials_held known h (fun x hx => hfit c x rfl hx)
    have hstock : (giveBack known s uid material (some (.num c)) number scanned).2.stock uid (some c) =
        (addmaterials known (s.materials uid) (some (.num c)) number).2.held c := by
      simp [giveBack, State.stock, State.setMaterials, material, blueprint]
    rw [Option.map_some, hstock, hadd]
    simp only [State.stock, Option.map_some, Option.getD_some]
    omega

/-! ## The condition -/

/-- A condition on every row of an update, as it finds the market. -/
def Each (known : Number → Bool) (P : State → Visit → Prop) (s : State) : List Visit → Prop
  | [] => True
  | v :: vs => P s v ∧ Each known P (visit known s v).1 vs

/-- **What the warehouse is asked to add, it adds.** A trade that is refused
leaves the row as it is, and one at once does not. -/
def VisitFair (s : State) : Visit → Prop
  | .trade key => ∀ row, s.putawaygold key = some row → row.type = material → row.ismarket = 0 →
      Fits s row.uid row.price row.number
  | .downKhorium _ _ _ => True
  | .downGold key now _ => ∀ row, s.putawaygold key = some row → row.type = material →
      row.downtime ≤ now → ∀ c x, row.cfgid = some c →
        (s.materials row.uid).materials c = some x ∨ (s.materials row.uid).newmaterials c = some x →
        FitsTotal x row.number
  | .up id draw => ∀ row, s.stayputaway id = some row → row.type = material → row.iskh ≠ some 1 →
      draw = 0 → Fits s row.uid row.price row.number ∧ Accepted s row.uid (row.price * row.number)

/-- The half-hour price. -/
def Quote.price (quote : Quote) : Int64 := (quote.getD none).getD 0

/-- **The price that is stored is the half-hour price**, and an update is
fair. `sell` stores the price of all. -/
def Fair (known : Number → Bool) (s : State) : Event → Prop
  | .putaway _ msg quote _ _ => msg.index = some material →
      ∀ price, msg.price = some price → price = quote.price
  | .sell _ shopid quote _ => ∀ id item, shopid = some id → s.shopitem id = some item →
      item.type = material → item.iskh ≠ 1 →
      (if item.iskh = 0 then quote.price else item.price) * item.number = quote.price
  | .trancancel _ index _ iskh _ given quote _ => index = material → iskh ≠ some 1 →
      ∀ price, given = some price → price = quote.price
  | .khoriumbuy _ _ _ => True
  | .update r => Each known VisitFair s r.visits

/-! ## What keeps the books right -/

theorem Stayputaway.lot_eq_some {row : Stayputaway} {lot : Lot} (h : row.lot = some lot) :
    row.iskh ≠ some 1 ∧ row.type = material ∧
      lot = ⟨row.uid, tonumber row.cfgid, row.number, row.price⟩ := by
  unfold Stayputaway.lot at h
  split at h
  · rename_i hc
    exact ⟨hc.1, hc.2, (Option.some.inj h).symm⟩
  · cases h

theorem Putawaygold.lot_eq_some {row : Putawaygold} {lot : Lot} (h : row.lot = some lot) :
    row.type = material ∧ lot = ⟨row.uid, row.cfgid, row.number, row.price⟩ := by
  unfold Putawaygold.lot at h
  split at h
  · rename_i hc
    exact ⟨hc, (Option.some.inj h).symm⟩
  · cases h

theorem Books.trade (h : Books s L) {key : ℤ} (hv : VisitFair s (.trade key)) :
    Books (trade s key).1 (L.notes (trade s key).2) := by
  unfold Shop.trade
  split
  · exact h
  · rename_i row hrow
    split
    · rename_i hturn
      dsimp only
      split
      · rename_i hyes
        refine h.dropGold hrow (fun lot hlot => ?_) rfl rfl rfl rfl
        obtain ⟨htype, rfl⟩ := Putawaygold.lot_eq_some hlot
        refine Or.inl ?_
        rw [gain_of_fits (hv row hrow htype hturn) hyes]
      · exact h.congr rfl rfl le_rfl le_rfl
    · -- one update less to wait: the lot is as it was
      refine ⟨fun id lot hlot => ?_, h.stay, fun key' hkey => ?_⟩
      · refine (h.account id lot hlot).same ⟨rfl, rfl, fun _ => Iff.rfl, fun key' _ => ?_⟩
        by_cases hk : key' = key
        · rw [hk, hrow]
          simp only [Function.update_self, Option.map_some]
          rfl
        · simp only [Function.update_of_ne hk]
      · have hne : key' ≠ key := by
          rintro rfl
          rw [(h.gold key' hkey).1] at hrow
          cases hrow
        exact ⟨(Function.update_of_ne hne _ _).trans (h.gold key' hkey).1, (h.gold key' hkey).2⟩

theorem Books.giveBack (h : Books s L) (known : Number → Bool) (uid type : Int64)
    (cfgid : Option Value) (number : Int64) (scanned : Bool) :
    Books (giveBack known s uid type cfgid number scanned).2 L := by
  unfold Shop.giveBack
  split
  · exact h
  · split
    · exact h.congr rfl rfl le_rfl le_rfl
    · exact h

theorem Books.downKhorium (h : Books s L) (key now : ℤ) (scanned : Bool) :
    Books (downKhorium known s key now scanned).1
      (L.notes (downKhorium known s key now scanned).2) := by
  unfold Shop.downKhorium
  split
  · exact h
  · rename_i row hrow
    split
    · dsimp only
      have hback := h.giveBack known row.uid row.type (some (.str row.cfgid)) row.number scanned
      split
      · exact hback.congr rfl rfl le_rfl le_rfl
      · exact hback
    · exact h

theorem Books.downGold (h : Books s L) {key now : ℤ} {scanned : Bool}
    (hv : VisitFair s (.downGold key now scanned)) :
    Books (downGold known s key now scanned).1 (L.notes (downGold known s key now scanned).2) := by
  unfold Shop.downGold
  split
  · exact h
  · rename_i row hrow
    split
    · rename_i hdown
      dsimp only
      have hback := h.giveBack known row.uid row.type (row.cfgid.map .num) row.number scanned
      have hrow' : (Shop.giveBack known s row.uid row.type (row.cfgid.map .num) row.number
          scanned).2.putawaygold key = some row := by
        rw [(giveBack_tables _ _ _ _ _ _).2.1]
        exact hrow
      split
      · rename_i hyes
        refine hback.dropGold hrow' (fun lot hlot => ?_) rfl rfl rfl rfl
        obtain ⟨htype, rfl⟩ := Putawaygold.lot_eq_some hlot
        refine Or.inr ?_
        rw [htype] at hyes ⊢
        rw [gain_of_materials (fun c x hc hx => hv row hrow htype hdown c x hc hx) hyes]
      · exact hback
    · exact h

theorem Books.up (h : Books s L) {id : ℤ} {draw : ℕ} (hv : VisitFair s (.up id draw)) :
    Books (up s id draw).1 (L.notes (up s id draw).2) := by
  unfold Shop.up
  split
  · exact h
  · rename_i row hrow
    split
    · rename_i hk
      refine h.leave hrow ?_ rfl rfl rfl rfl
      simp [Stayputaway.lot, hk]
    · rename_i hk
      split
      · rename_i hdraw
        refine h.direct hrow (fun lot hlot => ?_) rfl rfl rfl rfl
        obtain ⟨hkind, htype, rfl⟩ := Stayputaway.lot_eq_some hlot
        obtain ⟨hfits, hyes⟩ := hv row hrow htype hkind hdraw
        exact Or.inl (congrArg (fun gain => [Settlement.gold row.uid gain])
          (gain_of_fits hfits ((accepted_iff s _ _).mpr hyes)))
      · have hnone := (h.gold (s.putawaygoldId + 1) (by omega)).1
        refine h.list hrow (fun lot hlot => ?_) (insertRow_of_none hnone) rfl rfl rfl
        obtain ⟨hkind, htype, rfl⟩ := Stayputaway.lot_eq_some hlot
        simp [Putawaygold.lot, htype]

/-- **One row of an update keeps the books right.** -/
theorem Books.visit (h : Books s L) {v : Visit} (hv : VisitFair s v) :
    Books (visit known s v).1 (L.notes (visit known s v).2) := by
  cases v with
  | trade key => exact h.trade hv
  | downKhorium key now scanned => exact h.downKhorium key now scanned
  | downGold key now scanned => exact h.downGold hv
  | up id draw => exact h.up hv

theorem Books.visits (h : Books s L) {vs : List Visit} (hvs : Each known VisitFair s vs) :
    Books (visits known s vs).1 (L.notes (visits known s vs).2) := by
  induction vs generalizing s L with
  | nil => exact h
  | cons v vs ih =>
    have hrest := ih (h.visit hvs.1) hvs.2
    rw [← notes_append] at hrest
    exact hrest

/-! ## Buying for khorium -/

/-- What a purchase for khorium leaves alone. -/
structure Aside (s t : State) (out : List Out) : Prop where
  gold : t.putawaygold = s.putawaygold
  stay : t.stayputaway = s.stayputaway
  goldId : t.putawaygoldId = s.putawaygoldId
  stayId : t.stayputawayId = s.stayputawayId
  paid : ∀ x ∈ out, ∃ uid gain, x = .paid uid gain

theorem aside_buyAll (oneprice : Int64) (s : State) (items : List (ℤ × Int64)) :
    Aside s (buyAll oneprice s items).1 (buyAll oneprice s items).2.2 := by
  induction items generalizing s with
  | nil => exact ⟨rfl, rfl, rfl, rfl, by simp [buyAll]⟩
  | cons x items ih =>
    obtain ⟨id, number⟩ := x
    unfold buyAll
    split
    · exact ⟨rfl, rfl, rfl, rfl, by simp⟩
    · rename_i t out hb
      have hstep : Aside s t out := by
        unfold buyOne at hb
        split at hb
        · cases hb
        · dsimp only at hb
          split at hb <;> cases hb <;> exact ⟨rfl, rfl, rfl, rfl, by simp⟩
      obtain ⟨h1, h2, h3, h4, h5⟩ := ih t
      refine ⟨h1.trans hstep.gold, h2.trans hstep.stay, h3.trans hstep.goldId,
        h4.trans hstep.stayId, fun x hx => ?_⟩
      rcases List.mem_append.mp hx with hx | hx
      · exact hstep.paid x hx
      · exact h5 x hx

theorem aside_khoriumbuy (s : State) (uid : Int64)
    (idandnum : Option (List (Option ℤ × Option Int64))) (now : ℤ) :
    Aside s (khoriumbuy s uid idandnum now).1 (khoriumbuy s uid idandnum now).2.2 := by
  unfold khoriumbuy
  split
  · exact ⟨rfl, rfl, rfl, rfl, by simp⟩
  · split
    · rename_i first _
      obtain ⟨h1, h2, h3, h4, h5⟩ := aside_buyAll first.price s (entries idandnum)
      unfold khoriumbuyQueue
      dsimp only
      split
      · exact ⟨h1, h2, h3, h4, h5⟩
      · exact ⟨h1, h2, h3, h4, h5⟩
    · exact ⟨rfl, rfl, rfl, rfl, by simp⟩

theorem notes_paid (L : Ledger) {out : List Out} (h : ∀ x ∈ out, ∃ uid gain, x = .paid uid gain) :
    L.notes out = L := by
  induction out with
  | nil => rfl
  | cons x out ih =>
    obtain ⟨uid, gain, rfl⟩ := h x List.mem_cons_self
    exact ih fun y hy => h y (List.mem_cons_of_mem _ hy)

/-! ## Every run -/

/-- **One event keeps the books right.** -/
theorem Books.step (h : Books s L) {e : Event} {out : List Out} (hd : Does known s e t out)
    (hf : Fair known s e) : Books t (L.notes out) := by
  cases hd with
  | refused => exact h
  | lacks => exact h.congr rfl rfl le_rfl (Int.le_add_one le_rfl)
  | @puts uid index cfgid msg quote now scanned m row asked room entry =>
    have hm : Books (s.setMaterials uid m) L := h.congr rfl rfl le_rfl le_rfl
    refine hm.enter fun lot hlot => ?_
    obtain ⟨hkind, htype, rfl⟩ := Stayputaway.lot_eq_some hlot
    subst entry
    cases hp : msg.price with
    | none => rfl
    | some price => exact hf (asked.trans (congrArg some htype)) price hp
  | @sells uid shopid quote now item row shopitem shopiteminfo bought room entry =>
    have henter : Books (s.enter row) (L.note (.put (s.stayputawayId + 1) row quote.price)) := by
      refine h.enter fun lot hlot => ?_
      obtain ⟨hkind, htype, rfl⟩ := Stayputaway.lot_eq_some hlot
      subst entry
      exact hf shopid item rfl bought htype fun hk => hkind (congrArg some hk)
    exact henter.congr rfl rfl le_rfl le_rfl
  | @cancels uid index cfgid kind number given quote now row entry =>
    refine h.enter fun lot hlot => ?_
    obtain ⟨hkind, htype, rfl⟩ := Stayputaway.lot_eq_some hlot
    subst entry
    cases hg : given with
    | none => rfl
    | some price => exact hf htype hkind price hg
  | @buys uid idandnum now =>
    obtain ⟨h1, h2, h3, h4, h5⟩ := aside_khoriumbuy s uid idandnum now
    rw [notes_paid L h5]
    exact h.congr h1 h2 h3.ge h4.ge
  | updates => exact h.visits hf

theorem books_initial (shopitem : ℤ → Option Shopitem) (shopiteminfo : Int64 → List ℤ)
    (shopitemId : ℤ) (balance : Purse → Int64 → Option Int64) (materials : Int64 → Materials) :
    Books (initial shopitem shopiteminfo shopitemId balance materials) blank :=
  { account := fun _ _ hlot => by cases hlot
    stay := fun _ _ => ⟨rfl, rfl, rfl, fun _ hkey => by cases hkey⟩
    gold := fun _ _ => ⟨rfl, rfl⟩ }

/-- **The books are right after every fair run.** -/
theorem books_of_path {s₀ : State} {es : List (Event × List Out)} (hs : (system known).init s₀)
    (hes : ((system known).restrict fun s l => Fair known s l.1).Path s₀ es s) :
    Books s (ledger es) := by
  have hrun := hes.invariant_history (P := fun fs s => Books s (ledger fs)) ?_ (l := []) ?_
  · exact hrun
  · rintro fs s ⟨e, out⟩ t ⟨⟨hact, -⟩, hfair⟩ hbooks
    rw [ledger_concat]
    exact hbooks.step (does_of_act hact) hfair
  · obtain ⟨shopitem, shopiteminfo, shopitemId, balance, materials, rfl⟩ := hs
    exact books_initial _ _ _ _ _

end Shop

end Athena
