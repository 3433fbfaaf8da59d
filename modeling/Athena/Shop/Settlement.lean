import Athena.Shop.Fair
/-!
# The settlement of a lot

In a fair run a lot is settled once, by the half-hour price or by the goods.
That none is left over is a matter of the updates: one that goes over all
rows leaves none waiting, and every row that is listed has one update less
to wait. So a lot that is due within some updates (`Due`) is settled after
that many.
-/

namespace Athena

namespace Shop

open Lua Warehouse

variable {known : Number → Bool} {s t : State} {L : Ledger}

/-! ## The updates -/

theorem visits_append (s : State) (xs ys : List Visit) :
    visits known s (xs ++ ys) = ((visits known (visits known s xs).1 ys).1,
      (visits known s xs).2 ++ (visits known (visits known s xs).1 ys).2) := by
  induction xs generalizing s with
  | nil => rfl
  | cons x xs ih =>
    simp only [List.cons_append, visits, ih, List.append_assoc]

theorem each_append {P : State → Visit → Prop} {xs ys : List Visit} :
    Each known P s (xs ++ ys) ↔ Each known P s xs ∧ Each known P (visits known s xs).1 ys := by
  induction xs generalizing s with
  | nil => simp [Each, visits]
  | cons x xs ih =>
    simp only [List.cons_append, Each, visits, ih, and_assoc]

/-- **No trade is refused** when its turn comes. -/
def VisitPrompt (s : State) : Visit → Prop
  | .trade key => ∀ row, s.putawaygold key = some row → row.type = material → row.ismarket = 0 →
      Accepted s row.uid (row.price * row.number)
  | _ => True

def Prompt (known : Number → Bool) (s : State) : Event → Prop
  | .update r => Each known VisitPrompt s r.visits
  | _ => True

theorem trade_of_ne {key key' : ℤ} (h : key' ≠ key) :
    (trade s key).1.putawaygold key' = s.putawaygold key' := by
  unfold trade
  split
  · rfl
  · split
    · dsimp only
      split
      · exact Function.update_of_ne h _ _
      · rfl
    · exact Function.update_of_ne h _ _

/-- A material that is still there has one update less to wait. -/
theorem trade_self {key : ℤ} (hv : VisitPrompt s (.trade key)) {row' : Putawaygold}
    (h : (trade s key).1.putawaygold key = some row') (htype : row'.type = material) :
    ∃ row, s.putawaygold key = some row ∧ row.type = material ∧
      row.ismarket = row'.ismarket + 1 := by
  unfold trade at h
  split at h
  · rename_i hnone
    rw [hnone] at h
    cases h
  · rename_i row hrow
    split at h
    · rename_i hturn
      dsimp only at h
      split at h
      · rw [dropGold_putawaygold, Function.update_self] at h
        cases h
      · rename_i hno
        have hsame : some row = some row' := hrow.symm.trans h
        cases hsame
        exact absurd ((accepted_iff s _ _).mpr (hv row' hrow htype hturn)) hno
    · rename_i hturn
      have hsame : some row' = some { row with ismarket := row.ismarket - 1 } :=
        h.symm.trans (Function.update_self key _ s.putawaygold)
      cases hsame
      refine ⟨row, hrow, htype, ?_⟩
      dsimp only
      omega

theorem trades_of_notMem {keys : List ℤ} {key : ℤ} (h : key ∉ keys) :
    (visits known s (keys.map .trade)).1.putawaygold key = s.putawaygold key := by
  induction keys generalizing s with
  | nil => rfl
  | cons k keys ih =>
    rw [List.mem_cons, not_or] at h
    exact (ih h.2).trans (trade_of_ne h.1)

/-- **The pass of the trades**, which takes every row once. -/
theorem trades_left {keys : List ℤ} (hnodup : keys.Nodup)
    (hp : Each known VisitPrompt s (keys.map .trade)) {key : ℤ} (hkey : key ∈ keys)
    {row' : Putawaygold}
    (h : (visits known s (keys.map .trade)).1.putawaygold key = some row')
    (htype : row'.type = material) :
    ∃ row, s.putawaygold key = some row ∧ row.type = material ∧
      row.ismarket = row'.ismarket + 1 := by
  induction keys generalizing s with
  | nil => cases hkey
  | cons k keys ih =>
    obtain ⟨hk, hnodup⟩ := List.nodup_cons.mp hnodup
    rcases List.mem_cons.mp hkey with rfl | hin
    · have hlater : (visits known s ((key :: keys).map .trade)).1.putawaygold key =
          (trade s key).1.putawaygold key := trades_of_notMem hk
      rw [hlater] at h
      exact trade_self hp.1 h htype
    · have hne : key ≠ k := fun heq => hk (heq ▸ hin)
      obtain ⟨row, hrow, hr⟩ := ih hnodup hp.2 hin h
      rw [← trade_of_ne hne]
      exact ⟨row, hrow, hr⟩

/-- **The passes of the expired rows** only take from `putawaygold`. -/
theorem downs_left {vs : List Visit}
    (hvs : ∀ v ∈ vs, (∃ key now scanned, v = .downKhorium key now scanned) ∨
      ∃ key now scanned, v = .downGold key now scanned) {key : ℤ} {row : Putawaygold}
    (h : (visits known s vs).1.putawaygold key = some row) : s.putawaygold key = some row := by
  induction vs generalizing s with
  | nil => exact h
  | cons v vs ih =>
    have hrow := ih (fun w hw => hvs w (List.mem_cons_of_mem _ hw)) h
    rcases hvs v List.mem_cons_self with ⟨k, now, scanned, rfl⟩ | ⟨k, now, scanned, rfl⟩
    · simp only [visit, downKhorium] at hrow
      split at hrow
      · exact hrow
      · split at hrow
        · split at hrow
          · rw [← (giveBack_tables s _ _ _ _ _).2.1]
            exact hrow
          · rw [← (giveBack_tables s _ _ _ _ _).2.1]
            exact hrow
        · exact hrow
    · simp only [visit, downGold] at hrow
      split at hrow
      · exact hrow
      · split at hrow
        · split at hrow
          · by_cases hk : key = k
            · rw [dropGold_putawaygold, hk, Function.update_self] at hrow
              cases hrow
            · rw [dropGold_putawaygold, Function.update_of_ne hk,
                (giveBack_tables s _ _ _ _ _).2.1] at hrow
              exact hrow
          · rw [← (giveBack_tables s _ _ _ _ _).2.1]
            exact hrow
        · exact hrow

/-- **A row that waits goes**, and a row that is new in `putawaygold` came
of it. -/
theorem up_listed (h : Books s L) {id : ℤ} {draw : ℕ} {key : ℤ} {row' : Putawaygold}
    (hrow : (up s id draw).1.putawaygold key = some row') :
    (s.putawaygold key = some row' ∧ (L.notes (up s id draw).2).origin key = L.origin key) ∨
      ((s.stayputaway id).isSome ∧ row'.ismarket + 1 = draw ∧
        (L.notes (up s id draw).2).origin key = some id) := by
  unfold up at hrow ⊢
  split
  · rename_i hnone
    rw [hnone] at hrow
    exact Or.inl ⟨hrow, rfl⟩
  · rename_i row hstay
    rw [hstay] at hrow
    dsimp only at hrow
    split
    · rename_i hk
      rw [if_pos hk] at hrow
      exact Or.inl ⟨hrow, rfl⟩
    · rename_i hk
      rw [if_neg hk] at hrow
      split
      · rename_i hdraw
        rw [if_pos hdraw] at hrow
        exact Or.inl ⟨hrow, by rw [show L.notes [_] = L.note _ from rfl]; simp [Ledger.note]⟩
      · rename_i hdraw
        rw [if_neg hdraw] at hrow
        have hnone := (h.gold (s.putawaygoldId + 1) (by omega)).1
        have htable : insertRow s.putawaygold (s.putawaygoldId + 1) ⟨tonumber row.cfgid, row.number,
            row.price, row.type, row.puttime, row.downtime, row.uid, draw - 1⟩ key = some row' := hrow
        rw [insertRow_of_none hnone] at htable
        by_cases hkey : key = s.putawaygoldId + 1
        · subst hkey
          rw [Function.update_self] at htable
          cases htable
          refine Or.inr ⟨by rw [hstay]; rfl, ?_, Function.update_self _ _ _⟩
          dsimp only
          omega
        · rw [Function.update_of_ne hkey] at htable
          exact Or.inl ⟨htable, Function.update_of_ne hkey _ _⟩

/-- **The pass of the rows that wait.** -/
theorem ups_listed (h : Books s L) {ups : List (ℤ × ℕ)}
    (hf : Each known VisitFair s (ups.map fun x => .up x.1 x.2)) {key : ℤ} {row' : Putawaygold}
    (hrow : (visits known s (ups.map fun x => .up x.1 x.2)).1.putawaygold key = some row') :
    (s.putawaygold key = some row' ∧
      (L.notes (visits known s (ups.map fun x => .up x.1 x.2)).2).origin key = L.origin key) ∨
    ∃ id draw, (id, draw) ∈ ups ∧ (s.stayputaway id).isSome ∧ row'.ismarket + 1 = draw ∧
      (L.notes (visits known s (ups.map fun x => .up x.1 x.2)).2).origin key = some id := by
  induction ups generalizing s L with
  | nil => exact Or.inl ⟨hrow, rfl⟩
  | cons x ups ih =>
    obtain ⟨id, draw⟩ := x
    have horigin : L.notes (visits known s (((id, draw) :: ups).map fun x => .up x.1 x.2)).2 =
        (L.notes (up s id draw).2).notes
          (visits known (up s id draw).1 (ups.map fun x => .up x.1 x.2)).2 := notes_append _ _ _
    rw [horigin]
    rcases ih (h.up hf.1) hf.2 hrow with ⟨hold, ho⟩ | ⟨id', draw', hin, hstay, hdraw, ho⟩
    · rw [ho]
      rcases up_listed h hold with ⟨hold, ho⟩ | ⟨hstay, hdraw, ho⟩
      · exact Or.inl ⟨hold, ho⟩
      · exact Or.inr ⟨id, draw, List.mem_cons_self, hstay, hdraw, ho⟩
    · refine Or.inr ⟨id', draw', List.mem_cons_of_mem _ hin, ?_, hdraw, ho⟩
      obtain ⟨row, hr⟩ := Option.isSome_iff_exists.mp hstay
      rw [@visit_stayputaway known s (.up id draw) id' row hr]
      rfl

theorem visits_stayputaway (vs : List Visit) {id : ℤ} {row : Stayputaway}
    (h : (visits known s vs).1.stayputaway id = some row) : s.stayputaway id = some row := by
  induction vs generalizing s with
  | nil => exact h
  | cons v vs ih => exact visit_stayputaway v id (ih h)

theorem up_gone (s : State) (id : ℤ) (draw : ℕ) : (up s id draw).1.stayputaway id = none := by
  unfold up
  split
  · assumption
  · split
    · exact Function.update_self _ _ _
    · split <;> exact Function.update_self _ _ _

/-- No row that was taken waits any more. -/
theorem ups_gone {ups : List (ℤ × ℕ)} {id : ℤ} (h : id ∈ ups.map Prod.fst) :
    (visits known s (ups.map fun x => .up x.1 x.2)).1.stayputaway id = none := by
  induction ups generalizing s with
  | nil => cases h
  | cons x ups ih =>
    rcases List.mem_cons.mp h with rfl | hin
    · by_contra hne
      obtain ⟨row, hrow⟩ := Option.ne_none_iff_exists'.mp hne
      have hback := visits_stayputaway (ups.map fun x => .up x.1 x.2) hrow
      rw [show (visit known s (.up x.1 x.2)).1.stayputaway x.1 = none from up_gone s x.1 x.2] at hback
      cases hback
    · exact ih hin

/-- What is done for a row of an update. -/
inductive Visited : Visit → List Out → Prop
  | nothing {v : Visit} : Visited v []
  | sold {v : Visit} (place : Place) (uid : Int64) (gain : ℤ) : Visited v [.sold place uid gain]
  | back {v : Visit} (key : ℤ) (uid : Int64) (cfgid : Option Number) (gain : ℤ) :
      Visited v [.back key uid cfgid gain]
  | listed (id key : ℤ) (draw : ℕ) : Visited (.up id draw) [.listed id key]

theorem visited (s : State) (v : Visit) : Visited v (visit known s v).2 := by
  cases v with
  | trade key =>
    simp only [visit, trade]
    split
    · exact .nothing
    · split
      · split
        · exact .sold _ _ _
        · exact .nothing
      · exact .nothing
  | downKhorium key now scanned =>
    simp only [visit, downKhorium]
    split
    · exact .nothing
    · split
      · split <;> exact .nothing
      · exact .nothing
  | downGold key now scanned =>
    simp only [visit, downGold]
    split
    · exact .nothing
    · split
      · split
        · exact .back _ _ _ _
        · exact .nothing
      · exact .nothing
  | up id draw =>
    simp only [visit, up]
    split
    · exact .nothing
    · split
      · exact .nothing
      · split
        · exact .sold _ _ _
        · exact .listed _ _ _

/-- None of it is of a new lot. -/
theorem visit_lot (L : Ledger) (s : State) (v : Visit) :
    (L.notes (visit known s v).2).lot = L.lot := by
  have hv := @visited known s v
  generalize (visit known s v).2 = out at hv
  cases hv with
  | nothing => rfl
  | sold place uid gain =>
    cases place with
    | stay id => exact settle_lot L (some id) _
    | gold key => exact settle_lot L _ _
  | back key uid cfgid gain => exact settle_lot L _ _
  | listed id key draw => rfl

theorem visits_lot (L : Ledger) (s : State) (vs : List Visit) :
    (L.notes (visits known s vs).2).lot = L.lot := by
  induction vs generalizing s L with
  | nil => rfl
  | cons v vs ih =>
    have hrest := ih (L.notes (visit known s v).2) (visit known s v).1
    rw [← notes_append] at hrest
    exact hrest.trans (visit_lot L s v)

/-- Only a row that waits is listed. -/
theorem visit_origin (L : Ledger) (s : State) {v : Visit} (hv : ∀ id draw, v ≠ .up id draw) :
    (L.notes (visit known s v).2).origin = L.origin := by
  have hout := @visited known s v
  generalize (visit known s v).2 = out at hout
  cases hout with
  | nothing => rfl
  | sold place uid gain =>
    cases place with
    | stay id => exact settle_origin L (some id) _
    | gold key => exact settle_origin L _ _
  | back key uid cfgid gain => exact settle_origin L _ _
  | listed id key draw => exact absurd rfl (hv id draw)

theorem visits_origin (L : Ledger) (s : State) {vs : List Visit}
    (hvs : ∀ v ∈ vs, ∀ id draw, v ≠ .up id draw) :
    (L.notes (visits known s vs).2).origin = L.origin := by
  induction vs generalizing s L with
  | nil => rfl
  | cons v vs ih =>
    have hrest := ih (L.notes (visit known s v).2) (visit known s v).1
      fun w hw => hvs w (List.mem_cons_of_mem _ hw)
    rw [← notes_append] at hrest
    exact hrest.trans (visit_origin L s (hvs v List.mem_cons_self))

/-- **What an update leaves**: no row waits, and a material that is listed
was so, with one update more to wait, or waited. -/
theorem update_left (h : Books s L) {r : Round} (hf : Each known VisitFair s r.visits)
    (hp : Each known VisitPrompt s r.visits) (hfull : r.Full known s) :
    (∀ id, (putawayupdate known s r).1.stayputaway id = none) ∧
    ∀ key row', (putawayupdate known s r).1.putawaygold key = some row' → row'.type = material →
      (∃ row, s.putawaygold key = some row ∧ row.type = material ∧
        row.ismarket = row'.ismarket + 1 ∧
        (L.notes (putawayupdate known s r).2).origin key = L.origin key) ∨
      ∃ id draw, (id, draw) ∈ r.ups ∧ (s.stayputaway id).isSome ∧ row'.ismarket + 1 = draw ∧
        (L.notes (putawayupdate known s r).2).origin key = some id := by
  -- the three parts of an update: trades, rows that come down, rows that go up
  obtain ⟨hT, -, -, hU⟩ := hfull
  set T := r.trades.map Visit.trade with hTdef
  set K := r.downKhorium.map fun x => Visit.downKhorium x.1 x.2.1 x.2.2
  set G := r.downGold.map fun x => Visit.downGold x.1 x.2.1 x.2.2
  set U := r.ups.map fun x => Visit.up x.1 x.2
  have hvisits : r.visits = T ++ ((K ++ G) ++ U) := by
    simp only [Round.visits, T, K, G, U, List.append_assoc]
  have hthird : (visits known (visits known (visits known s T).1 K).1 G).1 =
      (visits known (visits known s T).1 (K ++ G)).1 := by
    rw [visits_append]
  rw [hthird] at hU
  rw [hvisits, each_append, each_append] at hf hp
  have hA : Books (visits known (visits known s T).1 (K ++ G)).1
      ((L.notes (visits known s T).2).notes (visits known (visits known s T).1 (K ++ G)).2) :=
    (h.visits hf.1).visits hf.2.1
  have hstate : putawayupdate known s r =
      ((visits known (visits known (visits known s T).1 (K ++ G)).1 U).1,
        (visits known s T).2 ++ ((visits known (visits known s T).1 (K ++ G)).2 ++
          (visits known (visits known (visits known s T).1 (K ++ G)).1 U).2)) := by
    rw [putawayupdate, hvisits, visits_append, visits_append]
  rw [hstate]
  simp only [notes_append]
  refine ⟨fun id => ?_, fun key row' hrow htype => ?_⟩
  · by_cases hin : id ∈ r.ups.map Prod.fst
    · exact ups_gone hin
    · by_contra hne
      obtain ⟨row, hrow⟩ := Option.ne_none_iff_exists'.mp hne
      refine hin ((hU.mem id).mpr ?_)
      rw [visits_stayputaway _ hrow]
      rfl
  · have horigin : ((L.notes (visits known s T).2).notes
        (visits known (visits known s T).1 (K ++ G)).2).origin = L.origin := by
      rw [visits_origin, visits_origin]
      · intro v hv
        obtain ⟨k, -, rfl⟩ := List.mem_map.mp hv
        exact fun _ _ => Visit.noConfusion
      · intro v hv
        rcases List.mem_append.mp hv with hv | hv
        · obtain ⟨k, -, rfl⟩ := List.mem_map.mp hv
          exact fun _ _ => Visit.noConfusion
        · obtain ⟨k, -, rfl⟩ := List.mem_map.mp hv
          exact fun _ _ => Visit.noConfusion
    rcases ups_listed hA hf.2.2 hrow with ⟨hold, ho⟩ | ⟨id, draw, hin, hstay, hdraw, ho⟩
    · -- listed before the rows went up, so its trade has counted it down
      have hT1 : (visits known s T).1.putawaygold key = some row' := by
        refine downs_left (fun v hv => ?_) hold
        rcases List.mem_append.mp hv with hv | hv
        · obtain ⟨k, -, rfl⟩ := List.mem_map.mp hv
          exact Or.inl ⟨_, _, _, rfl⟩
        · obtain ⟨k, -, rfl⟩ := List.mem_map.mp hv
          exact Or.inr ⟨_, _, _, rfl⟩
      have hkey : key ∈ r.trades := by
        by_contra hnot
        have hsame : s.putawaygold key = some row' := (trades_of_notMem hnot).symm.trans hT1
        exact hnot ((hT.mem key).mpr (by rw [hsame]; rfl))
      obtain ⟨row, hrow, ht, hw⟩ := trades_left hT.nodup hp.1 hkey hT1 htype
      exact Or.inl ⟨row, hrow, ht, hw, ho.trans (congrFun horigin key)⟩
    · refine Or.inr ⟨id, draw, hin, ?_, hdraw, ho⟩
      obtain ⟨row, hr⟩ := Option.isSome_iff_exists.mp hstay
      rw [visits_stayputaway _ (visits_stayputaway _ hr)]
      rfl

/-! ## Lots that are due -/

/-- **A lot is due within some updates**: what it has to wait where it is
listed, or what is drawn for it where it waits. -/
def Due (es : List (Event × List Out)) (s : State) (L : Ledger) (id : ℤ) (n : ℕ) : Prop :=
  ((s.stayputaway id).isSome → 0 < n ∧ ∀ l ∈ es, ∀ r, l.1 = .update r → ∀ draw,
    (id, draw) ∈ r.ups → draw < n) ∧
  ∀ key row, L.origin key = some id → s.putawaygold key = some row → row.type = material →
    row.ismarket < n

/-- How many updates there are in a run. -/
def updates (es : List (Event × List Out)) : ℕ := es.countP fun l => l.1.isUpdate

/-- A lot that is due at once is over. -/
theorem Account.ended {es : List (Event × List Out)} {id : ℤ} {lot : Lot} (h : Account s L id lot)
    (hd : Due es s L id 0) : lot.Settled (L.done id) := by
  rcases h with h | ⟨key, h⟩ | h
  · obtain ⟨row, hrow, -⟩ := Option.map_eq_some_iff.mp h.row
    exact absurd (hd.1 (by rw [hrow]; rfl)).1 (lt_irrefl 0)
  · obtain ⟨row, hrow, hlot⟩ := Option.map_eq_some_iff.mp h.row
    exact absurd (hd.2 key row ((h.origin key).mpr rfl) hrow (Putawaygold.lot_eq_some hlot).1)
      (Nat.not_lt_zero _)
  · exact h.settled

/-- **An update brings a lot nearer to its end.** -/
theorem Due.update (h : Books s L) {r : Round} (hf : Each known VisitFair s r.visits)
    (hp : Each known VisitPrompt s r.visits) (hfull : r.Full known s)
    {es : List (Event × List Out)} {out : List Out} {id : ℤ} {n : ℕ}
    (hd : Due ((.update r, out) :: es) s L id n) :
    Due es (putawayupdate known s r).1 (L.notes (putawayupdate known s r).2) id (n - 1) := by
  obtain ⟨hgone, hleft⟩ := update_left h hf hp hfull
  refine ⟨fun hstay => ?_, fun key row' horigin hrow htype => ?_⟩
  · rw [hgone id] at hstay
    cases hstay
  · rcases hleft key row' hrow htype with ⟨row, hold, ht, hw, ho⟩ | ⟨i, draw, hin, hstay, hdraw, ho⟩
    · have := hd.2 key row (ho.symm.trans horigin) hold ht
      omega
    · have hid : i = id := Option.some.inj (ho.symm.trans horigin)
      subst hid
      have := (hd.1 hstay).2 _ List.mem_cons_self r rfl draw hin
      omega

/-- **The other events leave a lot alone.** -/
theorem Does.quiet {e : Event} {out : List Out} (hd : Does known s e t out)
    (he : e.isUpdate = false) (L : Ledger) :
    t.putawaygold = s.putawaygold ∧ (L.notes out).origin = L.origin ∧
      ∀ id, id ≤ s.stayputawayId → t.stayputaway id = s.stayputaway id ∧
        (L.notes out).lot id = L.lot id := by
  have henter : ∀ {row : Stayputaway} {price : Int64} (id : ℤ), id ≤ s.stayputawayId →
      (s.enter row).stayputaway id = s.stayputaway id ∧
        (L.note (.put (s.stayputawayId + 1) row price)).lot id = L.lot id := by
    intro row price id hid
    have hne : id ≠ s.stayputawayId + 1 := by omega
    refine ⟨?_, Function.update_of_ne hne _ _⟩
    show insertRow s.stayputaway (s.stayputawayId + 1) row id = _
    unfold insertRow
    split
    · rfl
    · exact Function.update_of_ne hne _ _
  cases hd with
  | refused => exact ⟨rfl, rfl, fun _ _ => ⟨rfl, rfl⟩⟩
  | lacks => exact ⟨rfl, rfl, fun _ _ => ⟨rfl, rfl⟩⟩
  | puts => exact ⟨rfl, rfl, henter⟩
  | sells => exact ⟨rfl, rfl, henter⟩
  | cancels => exact ⟨rfl, rfl, henter⟩
  | @buys uid idandnum now =>
    obtain ⟨h1, h2, h3, h4, h5⟩ := aside_khoriumbuy s uid idandnum now
    rw [notes_paid L h5]
    exact ⟨h1, rfl, fun id _ => ⟨by rw [h2], rfl⟩⟩
  | updates => cases he

/-- **A lot that is due is settled** after that many updates. -/
theorem settled_of_due {es : List (Event × List Out)}
    (hes : ((system known).restrict fun s l => Fair known s l.1 ∧ Prompt known s l.1).Path s es t)
    (h : Books s L) {id : ℤ} {lot : Lot} (hlot : L.lot id = some lot) {n : ℕ}
    (hd : Due es s L id n) (hn : n ≤ updates es) :
    lot.Settled ((L.notes (es.flatMap Prod.snd)).done id) := by
  induction hes generalizing L n with
  | nil s =>
    have hzero : n = 0 := Nat.le_zero.mp hn
    subst hzero
    exact (h.account id lot hlot).ended hd
  | @cons s s' t l es hstep hpath ih =>
    obtain ⟨e, out⟩ := l
    obtain ⟨⟨hact, hfull⟩, hfair, hprompt⟩ := hstep
    have hdoes := does_of_act hact
    have hbooks : Books s' (L.notes out) := h.step hdoes hfair
    rw [List.flatMap_cons, notes_append]
    by_cases he : e.isUpdate = true
    · cases e with
      | update r =>
        obtain ⟨rfl, rfl⟩ : (act known s (.update r)).1 = s' ∧ (act known s (.update r)).2 = out :=
          Prod.ext_iff.mp hact
        refine ih hbooks ?_ (hd.update h hfair hprompt (hfull r rfl)) ?_
        · exact (congrFun (visits_lot L s r.visits) id).trans hlot
        · simp only [updates, List.countP_cons, Event.isUpdate, if_true] at hn ⊢
          omega
      | putaway | sell | trancancel | khoriumbuy => cases he
    · have he' : e.isUpdate = false := by simpa using he
      obtain ⟨hgold, horigin, hsame⟩ := hdoes.quiet he' L
      obtain ⟨hstay, hlot'⟩ := hsame id (h.lot_le hlot)
      refine ih hbooks (hlot'.trans hlot) (n := n) ⟨fun hin => ?_, fun key row ho hrow ht => ?_⟩ ?_
      · rw [hstay] at hin
        obtain ⟨hpos, hdraws⟩ := hd.1 hin
        exact ⟨hpos, fun l hl => hdraws l (List.mem_cons_of_mem _ hl)⟩
      · rw [horigin] at ho
        rw [hgold] at hrow
        exact hd.2 key row ho hrow ht
      · simp only [updates, List.countP_cons, he'] at hn ⊢
        exact hn

/-- **Every lot is settled once.** After every fair run a lot waits, or is
listed in one row, and nothing has come of it; or it is over, in no row, and
what came of it is its half-hour price times its number in gold, or its
goods, once. And it is settled after the updates it is due within, where no
trade is refused. -/
theorem settled_exact {s₀ : State} {es : List (Event × List Out)} (hs : (system known).init s₀)
    (hes : ((system known).restrict fun s l => Fair known s l.1).Path s₀ es s) {id : ℤ} {lot : Lot}
    (hlot : (ledger es).lot id = some lot) :
    Account s (ledger es) id lot ∧
    ∀ n fs t,
      ((system known).restrict fun s l => Fair known s l.1 ∧ Prompt known s l.1).Path s fs t →
      Due fs s (ledger es) id n → n ≤ updates fs → lot.Settled ((ledger (es ++ fs)).done id) := by
  have hbooks := books_of_path hs hes
  refine ⟨hbooks.account id lot hlot, fun n fs t hfs hd hn => ?_⟩
  have hsettled := settled_of_due hfs hbooks hlot hd hn
  rw [ledger, List.flatMap_append, notes_append]
  exact hsettled

/-- Three of a material at 20, which are bought at once for 60. -/
theorem settled_exact_sixty : ∃ es fs lot,
    (ledger es).lot 1 = some lot ∧ lot.price = 20 ∧ lot.number = 3 ∧
      lot.Settled ((ledger (es ++ fs)).done 1) := by
  have hes : ((system fun _ => true).restrict fun s l => Fair (fun _ => true) s l.1).Path stall
      [(three, (act (fun _ => true) stall three).2)] (act (fun _ => true) stall three).1 :=
    .cons ⟨⟨rfl, fun r hr => by cases hr⟩, fun _ price hprice => by cases hprice⟩ (.nil _)
  have hfs : ((system fun _ => true).restrict fun s l => Fair (fun _ => true) s l.1 ∧
      Prompt (fun _ => true) s l.1).Path (act (fun _ => true) stall three).1
      [(.update (firstRound 0),
        (act (fun _ => true) (act (fun _ => true) stall three).1 (.update (firstRound 0))).2)]
      (act (fun _ => true) (act (fun _ => true) stall three).1 (.update (firstRound 0))).1 := by
    refine .cons ⟨⟨rfl, fun r hr => ?full⟩, ⟨?fair, trivial⟩, ⟨trivial, trivial⟩⟩ (.nil _)
    case full =>
      cases hr
      exact full_firstRound 0
    case fair =>
      intro row hrow _ _ _
      have hrow' : some (⟨"10016".toList, 3, some 0, 20, material, 0, 1800, 1⟩ : Stayputaway) =
          some row := hrow
      cases hrow'
      refine ⟨⟨by decide, fun b hb => ?_⟩, by decide, Or.inr rfl⟩
      have hb' : some (100 : Int64) = some b := hb
      cases hb'
      decide
  have hlot : (ledger [(three, (act (fun _ => true) stall three).2)]).lot 1 =
      some ⟨1, some (.int 10016), 3, 20⟩ := by
    decide +kernel
  obtain ⟨-, hlater⟩ := settled_exact ⟨_, _, _, _, _, rfl⟩ hes hlot
  refine ⟨_, _, _, hlot, rfl, rfl, hlater 1 _ _ hfs ⟨fun _ => ⟨by decide, ?_⟩, ?_⟩ (by decide)⟩
  · intro l hl r hr draw hin
    rw [List.mem_singleton.mp hl] at hr
    cases hr
    rw [(Prod.mk.inj (List.mem_singleton.mp hin)).2]
    decide
  · intro key row horigin
    cases horigin

/-- A market where every player may sell some of material 10016. -/
def resale (number : Int64) : State :=
  { stall with
    shopitem := fun id => if id = 1 then some ⟨"10016".toList, number, 20, material, 0, 0, 1⟩ else none
    shopiteminfo := fun _ => [1] }

/-- A lot that is put on sale by an event, and the update that buys it. -/
theorem path_firstRound {s : State} {e : Event} (he : ∀ r, e ≠ .update r)
    (hfull : (firstRound 0).Full (fun _ => true) (act (fun _ => true) s e).1) :
    (system fun _ => true).Path s [(e, (act (fun _ => true) s e).2), (.update (firstRound 0),
        (act (fun _ => true) (act (fun _ => true) s e).1 (.update (firstRound 0))).2)]
      (act (fun _ => true) (act (fun _ => true) s e).1 (.update (firstRound 0))).1 := by
  refine .cons ⟨rfl, fun r hr => absurd hr (he r)⟩ (.cons ⟨rfl, fun r hr => ?_⟩ (.nil _))
  cases hr
  exact hfull

/-- **Where a lot is not settled so.** `sell` stores the price of all three
as the price of one, and the owner receives 180 for three at 20; `putaway`
takes the price the client gives, 1000 here; and an owner who has no gold
loses what is bought at once. -/
theorem settled_wrong :
    (∃ s₀ es s lot, (system fun _ => true).init s₀ ∧ (system fun _ => true).Path s₀ es s ∧
      (ledger es).lot 1 = some lot ∧ lot.price = 20 ∧ lot.number = 3 ∧
      (ledger es).done 1 = [.gold 1 180]) ∧
    (∃ s₀ es s lot, (system fun _ => true).init s₀ ∧ (system fun _ => true).Path s₀ es s ∧
      (ledger es).lot 1 = some lot ∧ lot.price = 20 ∧ lot.number = 3 ∧
      (ledger es).done 1 = [.gold 1 3000]) ∧
    ∃ s₀ es s lot, (system fun _ => true).init s₀ ∧ (system fun _ => true).Path s₀ es s ∧
      (ledger es).lot 1 = some lot ∧ lot.price = 20 ∧ lot.number = 1 ∧
      (ledger es).done 1 = [.gold 2 0] := by
  have hfull : ∀ {t : ℤ → Option Stayputaway} {row : Stayputaway}, t 1 = none →
      Enumerates [] t → Enumerates [1] (insertRow t 1 row) := fun hnone ht => ht.insert hnone
  refine ⟨⟨resale 3, _, _, ⟨1, some (.int 10016), 3, 20⟩, ⟨_, _, _, _, _, rfl⟩,
    path_firstRound (e := .sell 1 (some 1) (some (some 20)) 0) (fun _ => Event.noConfusion)
      ⟨enumerates_nil, enumerates_nil, enumerates_nil, hfull rfl enumerates_nil⟩,
    by decide +kernel, rfl, rfl, by decide +kernel⟩,
    ⟨stall, _, _, ⟨1, some (.int 10016), 3, 20⟩, ⟨_, _, _, _, _, rfl⟩,
    path_firstRound (e := .putaway 1 ⟨some material, some "10016".toList, some 3, some 1000,
      some true⟩ (some (some 20)) 0 true) (fun _ => Event.noConfusion)
      ⟨enumerates_nil, enumerates_nil, enumerates_nil, hfull rfl enumerates_nil⟩,
    by decide +kernel, rfl, rfl, by decide +kernel⟩,
    ⟨resale 1, _, _, ⟨2, some (.int 10016), 1, 20⟩, ⟨_, _, _, _, _, rfl⟩,
    path_firstRound (e := .sell 2 (some 1) (some (some 20)) 0) (fun _ => Event.noConfusion)
      ⟨enumerates_nil, enumerates_nil, enumerates_nil, hfull rfl enumerates_nil⟩,
    by decide +kernel, rfl, rfl, by decide +kernel⟩⟩

end Shop

end Athena
