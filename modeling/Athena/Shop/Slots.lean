import Athena.Shop.Step
/-!
# The slots of a player

A player's lists in `putawayinfo` are the indexes of his rows in the three
tables, and have at most ten ids together (`Slots`). Every operation edits
the tables and the lists side by side, so each keeps this; what it takes is
that no row that waits is bought at once, since its id then stays in
`staygoldarr`, that `trancancel` comes only while there is room, which it
does not check, and that what is put on sale is for gold or for khorium
(`Tidy`).
-/

namespace Athena

namespace Shop

open Lua Warehouse

variable {known : Number → Bool} {s t : State} {uid : Int64}

/-! ## The invariant -/

/-- **The lists of a player**, and his rows. -/
structure SlotsOf (s : State) (uid : Int64) : Prop where
  goldarr : Index (s.putawayinfo uid).goldarr s.putawaygold fun row => row.uid = uid
  khoriumarr : Index (s.putawayinfo uid).khoriumarr s.putaway fun row => row.uid = uid
  staygoldarr : Index (s.putawayinfo uid).staygoldarr s.stayputaway fun row =>
    row.uid = uid ∧ row.iskh = some 0
  staykhoriumarr : Index (s.putawayinfo uid).staykhoriumarr s.stayputaway fun row =>
    row.uid = uid ∧ row.iskh = some 1
  size : (s.putawayinfo uid).size ≤ 10

/-- **The lists of every player**; what waits is of one of the two kinds,
and the ids that come are not in use. -/
structure Slots (s : State) : Prop where
  of : ∀ uid, SlotsOf s uid
  kind : ∀ id row, s.stayputaway id = some row → row.iskh = some 0 ∨ row.iskh = some 1
  putaway : ∀ id, s.putawayId < id → s.putaway id = none
  putawaygold : ∀ id, s.putawaygoldId < id → s.putawaygold id = none
  stayputaway : ∀ id, s.stayputawayId < id → s.stayputaway id = none

/-- **What the lists need of an event.** -/
def Tidy (s : State) : Event → Prop
  | .putaway _ msg _ _ _ => ∀ index, msg.index = some index → index = material ∨ index = blueprint
  | .sell _ shopid _ _ => ∀ id item, shopid = some id → s.shopitem id = some item →
      item.iskh = 0 ∨ item.iskh = 1
  | .trancancel uid _ _ iskh _ _ _ _ => iskh ≠ none →
      (iskh = some 0 ∨ iskh = some 1) ∧ (s.putawayinfo uid).size < 10
  | .khoriumbuy _ _ _ => True
  | .update r => ∀ x ∈ r.ups, ∀ row, s.stayputaway x.1 = some row → row.iskh ≠ some 1 → x.2 ≠ 0

/-- Only the tables of the market and the lists matter. -/
theorem Slots.congr (h : Slots s) (h1 : t.putaway = s.putaway) (h2 : t.putawaygold = s.putawaygold)
    (h3 : t.stayputaway = s.stayputaway) (h4 : t.putawayinfo = s.putawayinfo)
    (h5 : s.putawayId ≤ t.putawayId) (h6 : s.putawaygoldId ≤ t.putawaygoldId)
    (h7 : s.stayputawayId ≤ t.stayputawayId) : Slots t := by
  refine ⟨fun uid => ?_, ?_, fun id hid => ?_, fun id hid => ?_, fun id hid => ?_⟩
  · obtain ⟨hg, hk, hsg, hsk, hsize⟩ := h.of uid
    refine ⟨?_, ?_, ?_, ?_, ?_⟩
    · rw [h2, h4]
      exact hg
    · rw [h1, h4]
      exact hk
    · rw [h3, h4]
      exact hsg
    · rw [h3, h4]
      exact hsk
    · rw [h4]
      exact hsize
  · rw [h3]
    exact h.kind
  · rw [h1]
    exact h.putaway id (by omega)
  · rw [h2]
    exact h.putawaygold id (by omega)
  · rw [h3]
    exact h.stayputaway id (by omega)

theorem Slots.serve (h : Slots s) (r : Request) (uid : Int64) (n : Int64) :
    Slots (s.serve r uid n).2 :=
  h.congr rfl rfl rfl rfl le_rfl le_rfl le_rfl

theorem Slots.setMaterials (h : Slots s) (uid : Int64) (m : Materials) :
    Slots (s.setMaterials uid m) :=
  h.congr rfl rfl rfl rfl le_rfl le_rfl le_rfl

/-! ## Putting on sale -/

/-- **A new row waits**, and its id is in the list of its kind. -/
theorem Slots.enter (h : Slots s) {row : Stayputaway}
    (hkind : row.iskh = some 0 ∨ row.iskh = some 1) (hroom : (s.putawayinfo row.uid).size < 10) :
    Slots (s.enter row) := by
  have hnone := h.stayputaway (s.stayputawayId + 1) (by omega)
  have htable : (s.enter row).stayputaway =
      Function.update s.stayputaway (s.stayputawayId + 1) (some row) := insertRow_of_none hnone
  refine ⟨fun uid => ?_, fun id r hr => ?_, h.putaway, h.putawaygold, ?_⟩
  · obtain ⟨hg, hk, hsg, hsk, hsize⟩ := h.of uid
    by_cases huid : uid = row.uid
    · subst huid
      have hinfo : (s.enter row).putawayinfo row.uid = if row.iskh = some 1 then
          { s.putawayinfo row.uid with
            staykhoriumarr := (s.putawayinfo row.uid).staykhoriumarr ++ [s.stayputawayId + 1] }
        else { s.putawayinfo row.uid with
          staygoldarr := (s.putawayinfo row.uid).staygoldarr ++ [s.stayputawayId + 1] } :=
        Function.update_self _ _ _
      unfold Putawayinfo.size at hroom
      rcases hkind with hk0 | hk1
      · rw [if_neg (by rw [hk0]; decide)] at hinfo
        refine ⟨by rw [hinfo]; exact hg, by rw [hinfo]; exact hk, ?_, ?_, ?_⟩
        · rw [hinfo, htable]
          exact hsg.add hnone ⟨rfl, hk0⟩
        · rw [hinfo, htable]
          exact hsk.insert_other hnone (by simp [hk0])
        · rw [hinfo]
          simp only [Putawayinfo.size, List.length_append, List.length_singleton]
          omega
      · rw [if_pos hk1] at hinfo
        refine ⟨by rw [hinfo]; exact hg, by rw [hinfo]; exact hk, ?_, ?_, ?_⟩
        · rw [hinfo, htable]
          exact hsg.insert_other hnone (by simp [hk1])
        · rw [hinfo, htable]
          exact hsk.add hnone ⟨rfl, hk1⟩
        · rw [hinfo]
          simp only [Putawayinfo.size, List.length_append, List.length_singleton]
          omega
    · have hinfo : (s.enter row).putawayinfo uid = s.putawayinfo uid :=
        Function.update_of_ne huid _ _
      refine ⟨by rw [hinfo]; exact hg, by rw [hinfo]; exact hk, ?_, ?_, by rw [hinfo]; exact hsize⟩
      · rw [hinfo, htable]
        exact hsg.insert_other hnone fun hown => huid hown.1.symm
      · rw [hinfo, htable]
        exact hsk.insert_other hnone fun hown => huid hown.1.symm
  · rw [htable] at hr
    by_cases hid : id = s.stayputawayId + 1
    · rw [hid, Function.update_self] at hr
      cases hr
      exact hkind
    · rw [Function.update_of_ne hid] at hr
      exact h.kind id r hr
  · intro id hid
    rw [htable]
    exact fresh_update h.stayputaway id hid

/-- A row of the market leaves it, and its id the list. -/
theorem Slots.dropGold (h : Slots s) {key : ℤ} {row : Putawaygold}
    (hrow : s.putawaygold key = some row) : Slots (s.dropGold row.uid key) := by
  refine ⟨fun uid => ?_, h.kind, h.putaway, fresh_delete h.putawaygold, h.stayputaway⟩
  obtain ⟨hg, hk, hsg, hsk, hsize⟩ := h.of uid
  by_cases huid : uid = row.uid
  · subst huid
    have hinfo : (s.dropGold row.uid key).putawayinfo row.uid = { s.putawayinfo row.uid with
        goldarr := removeFound (s.putawayinfo row.uid).goldarr key } := Function.update_self _ _ _
    refine ⟨?_, by rw [hinfo]; exact hk, by rw [hinfo]; exact hsg, by rw [hinfo]; exact hsk, ?_⟩
    · rw [hinfo]
      exact hg.drop hrow rfl
    · rw [hinfo]
      have := hg.length_drop hrow rfl
      simp only [Putawayinfo.size] at hsize ⊢
      omega
  · have hinfo : (s.dropGold row.uid key).putawayinfo uid = s.putawayinfo uid :=
      Function.update_of_ne huid _ _
    refine ⟨?_, by rw [hinfo]; exact hk, by rw [hinfo]; exact hsg, by rw [hinfo]; exact hsk,
      by rw [hinfo]; exact hsize⟩
    rw [hinfo]
    exact hg.delete_other hrow (Ne.symm huid)

theorem Slots.dropKhorium (h : Slots s) {key : ℤ} {row : Putaway}
    (hrow : s.putaway key = some row) : Slots (s.dropKhorium row.uid key) := by
  refine ⟨fun uid => ?_, h.kind, fresh_delete h.putaway, h.putawaygold, h.stayputaway⟩
  obtain ⟨hg, hk, hsg, hsk, hsize⟩ := h.of uid
  by_cases huid : uid = row.uid
  · subst huid
    have hinfo : (s.dropKhorium row.uid key).putawayinfo row.uid = { s.putawayinfo row.uid with
        khoriumarr := removeFound (s.putawayinfo row.uid).khoriumarr key } :=
      Function.update_self _ _ _
    refine ⟨by rw [hinfo]; exact hg, ?_, by rw [hinfo]; exact hsg, by rw [hinfo]; exact hsk, ?_⟩
    · rw [hinfo]
      exact hk.drop hrow rfl
    · rw [hinfo]
      have := hk.length_drop hrow rfl
      simp only [Putawayinfo.size] at hsize ⊢
      omega
  · have hinfo : (s.dropKhorium row.uid key).putawayinfo uid = s.putawayinfo uid :=
      Function.update_of_ne huid _ _
    refine ⟨by rw [hinfo]; exact hg, ?_, by rw [hinfo]; exact hsg, by rw [hinfo]; exact hsk,
      by rw [hinfo]; exact hsize⟩
    rw [hinfo]
    exact hk.delete_other hrow (Ne.symm huid)

/-! ## The update -/

theorem Slots.trade (h : Slots s) (key : ℤ) : Slots (trade s key).1 := by
  unfold Shop.trade
  split
  · exact h
  · rename_i row hrow
    split
    · dsimp only
      split
      · exact (h.serve addgold row.uid (row.price * row.number)).dropGold hrow
      · exact h.serve addgold row.uid (row.price * row.number)
    · -- one update less to wait: the row stays its owner's
      refine ⟨fun uid => ?_, h.kind, h.putaway, fun id hid => ?_, h.stayputaway⟩
      · obtain ⟨hg, hk, hsg, hsk, hsize⟩ := h.of uid
        exact ⟨hg.modify hrow Iff.rfl, hk, hsg, hsk, hsize⟩
      · have hne : id ≠ key := by
          rintro rfl
          rw [h.putawaygold id hid] at hrow
          cases hrow
        exact (Function.update_of_ne hne _ _).trans (h.putawaygold id hid)

theorem Slots.giveBack (h : Slots s) (known : Number → Bool) (uid type : Int64) (cfgid : Option Value) (number : Int64)
    (scanned : Bool) : Slots (giveBack known s uid type cfgid number scanned).2 := by
  unfold Shop.giveBack
  split
  · exact h
  · split
    · exact h.setMaterials uid _
    · exact h

theorem Slots.downKhorium (h : Slots s) (key now : ℤ) (scanned : Bool) :
    Slots (downKhorium known s key now scanned).1 := by
  unfold Shop.downKhorium
  split
  · exact h
  · rename_i row hrow
    split
    · dsimp only
      have hback := h.giveBack known row.uid row.type (some (.str row.cfgid)) row.number
        scanned
      split
      · exact hback.dropKhorium (by rw [(giveBack_tables _ _ _ _ _ _).1]; exact hrow)
      · exact hback
    · exact h

theorem Slots.downGold (h : Slots s) (key now : ℤ) (scanned : Bool) :
    Slots (downGold known s key now scanned).1 := by
  unfold Shop.downGold
  split
  · exact h
  · rename_i row hrow
    split
    · dsimp only
      have hback := h.giveBack known row.uid row.type (row.cfgid.map .num) row.number
        scanned
      split
      · exact hback.dropGold (by rw [(giveBack_tables _ _ _ _ _ _).2.1]; exact hrow)
      · exact hback
    · exact h

/-- **A row that waits goes on sale**: two tables and two lists of its
owner change. -/
theorem Slots.up (h : Slots s) {id : ℤ} {draw : ℕ}
    (hdraw : ∀ row, s.stayputaway id = some row → row.iskh ≠ some 1 → draw ≠ 0) :
    Slots (up s id draw).1 := by
  unfold Shop.up
  split
  · exact h
  · rename_i row hrow
    have hkinds := h.kind id row hrow
    have hkind : ∀ id' r, Function.update s.stayputaway id none id' = some r →
        r.iskh = some 0 ∨ r.iskh = some 1 := by
      intro id' r hr
      by_cases hid : id' = id
      · rw [hid, Function.update_self] at hr
        cases hr
      · rw [Function.update_of_ne hid] at hr
        exact h.kind id' r hr
    split
    · -- for khorium: from the second waiting list to the second list on sale
      rename_i hk1
      have hnone := h.putaway (s.putawayId + 1) (by omega)
      refine ⟨fun uid => ?_, hkind, fun id' hid => ?_, h.putawaygold, fresh_delete h.stayputaway⟩
      · obtain ⟨hg, hk, hsg, hsk, hsize⟩ := h.of uid
        show SlotsOf ⟨insertRow s.putaway (s.putawayId + 1) _, _, _, _, _, _, _, _, _, _, _, _⟩ uid
        rw [insertRow_of_none hnone]
        by_cases huid : uid = row.uid
        · subst huid
          have hlen := hsk.length_drop hrow ⟨rfl, hk1⟩
          refine ⟨?_, ?_, ?_, ?_, ?_⟩ <;> simp only [Function.update_self]
          · exact hg
          · exact hk.add hnone rfl
          · exact hsg.delete_other hrow (by simp [hk1])
          · exact hsk.drop hrow ⟨rfl, hk1⟩
          · simp only [Putawayinfo.size, List.length_append, List.length_singleton] at hsize ⊢
            omega
        · refine ⟨?_, ?_, ?_, ?_, ?_⟩ <;> simp only [Function.update_of_ne huid]
          · exact hg
          · exact hk.insert_other hnone (Ne.symm huid)
          · exact hsg.delete_other hrow fun hown => huid hown.1.symm
          · exact hsk.delete_other hrow fun hown => huid hown.1.symm
          · exact hsize
      · show insertRow s.putaway (s.putawayId + 1) _ id' = none
        rw [insertRow_of_none hnone]
        exact fresh_update h.putaway id' hid
    · -- for gold: likewise in the first lists
      rename_i hk1
      have hk0 : row.iskh = some 0 := hkinds.resolve_right hk1
      rw [if_neg (hdraw row hrow hk1)]
      have hnone := h.putawaygold (s.putawaygoldId + 1) (by omega)
      refine ⟨fun uid => ?_, hkind, h.putaway, fun id' hid => ?_, fresh_delete h.stayputaway⟩
      · obtain ⟨hg, hk, hsg, hsk, hsize⟩ := h.of uid
        show SlotsOf ⟨_, insertRow s.putawaygold (s.putawaygoldId + 1) _, _, _, _, _, _, _, _, _, _, _⟩
          uid
        rw [insertRow_of_none hnone]
        by_cases huid : uid = row.uid
        · subst huid
          have hlen := hsg.length_drop hrow ⟨rfl, hk0⟩
          refine ⟨?_, ?_, ?_, ?_, ?_⟩ <;> simp only [Function.update_self]
          · exact hg.add hnone rfl
          · exact hk
          · exact hsg.drop hrow ⟨rfl, hk0⟩
          · exact hsk.delete_other hrow (by simp [hk0])
          · simp only [Putawayinfo.size, List.length_append, List.length_singleton] at hsize ⊢
            omega
        · refine ⟨?_, ?_, ?_, ?_, ?_⟩ <;> simp only [Function.update_of_ne huid]
          · exact hg.insert_other hnone (Ne.symm huid)
          · exact hk
          · exact hsg.delete_other hrow fun hown => huid hown.1.symm
          · exact hsk.delete_other hrow fun hown => huid hown.1.symm
          · exact hsize
      · show insertRow s.putawaygold (s.putawaygoldId + 1) _ id' = none
        rw [insertRow_of_none hnone]
        exact fresh_update h.putawaygold id' hid

/-- **The rows of an update**, one after the other. -/
theorem Slots.visits (h : Slots s) (vs : List Visit)
    (hdraw : ∀ id draw, .up id draw ∈ vs → ∀ row, s.stayputaway id = some row →
      row.iskh ≠ some 1 → draw ≠ 0) : Slots (visits known s vs).1 := by
  induction vs generalizing s with
  | nil => exact h
  | cons v vs ih =>
    have hv : Slots (visit known s v).1 := by
      cases v with
      | trade key => exact h.trade key
      | downKhorium key now scanned => exact h.downKhorium key now scanned
      | downGold key now scanned => exact h.downGold key now scanned
      | up id draw => exact h.up fun row hr hk => hdraw id draw List.mem_cons_self row hr hk
    refine ih hv fun id draw hin row hr hk => ?_
    exact hdraw id draw (List.mem_cons_of_mem _ hin) row (visit_stayputaway v id hr) hk

/-! ## Buying -/

theorem Slots.buyOne (h : Slots s) {oneprice : Int64} {id : ℤ} {number : Int64} {out : List Out}
    (hb : buyOne oneprice s id number = some (t, out)) : Slots t := by
  unfold Shop.buyOne at hb
  split at hb
  · cases hb
  · rename_i row hrow
    have hs := h.serve addkhorium row.uid (oneprice * number)
    dsimp only at hb
    split at hb
    · cases hb
      exact hs.dropKhorium hrow
    · cases hb
      refine ⟨fun uid => ?_, hs.kind, fun id' hid => ?_, hs.putawaygold, hs.stayputaway⟩
      · obtain ⟨hg, hk, hsg, hsk, hsize⟩ := hs.of uid
        exact ⟨hg, hk.modify hrow Iff.rfl, hsg, hsk, hsize⟩
      · have hne : id' ≠ id := by
          rintro rfl
          rw [h.putaway id' hid] at hrow
          cases hrow
        exact (Function.update_of_ne hne _ _).trans (hs.putaway id' hid)

theorem Slots.buyAll (h : Slots s) (oneprice : Int64) (items : List (ℤ × Int64)) :
    Slots (buyAll oneprice s items).1 := by
  induction items generalizing s with
  | nil => exact h
  | cons x items ih =>
    obtain ⟨id, number⟩ := x
    unfold Shop.buyAll
    split
    · exact h
    · rename_i hb
      exact ih (h.buyOne hb)

theorem Slots.khoriumbuy (h : Slots s) (uid : Int64)
    (idandnum : Option (List (Option ℤ × Option Int64))) (now : ℤ) :
    Slots (khoriumbuy s uid idandnum now).1 := by
  unfold Shop.khoriumbuy
  split
  · exact h
  · split
    · rename_i first _
      have hall := h.buyAll first.price (entries idandnum)
      unfold khoriumbuyQueue
      dsimp only
      split
      · exact hall.congr rfl rfl rfl rfl le_rfl le_rfl le_rfl
      · exact hall
    · exact h

/-! ## Every run -/

/-- **One event keeps the lists.** -/
theorem Slots.step (h : Slots s) {e : Event} {out : List Out} (hd : Does known s e t out)
    (ht : Tidy s e) : Slots t := by
  cases hd with
  | refused => exact h
  | lacks => exact h.congr rfl rfl rfl rfl le_rfl le_rfl (Int.le_add_one le_rfl)
  | @puts uid index cfgid msg quote now scanned m row asked room entry =>
    subst entry
    refine (h.setMaterials uid m).enter ?_ room
    rcases ht index asked with rfl | rfl
    · exact Or.inl rfl
    · exact Or.inr rfl
  | @sells uid shopid quote now item row shopitem shopiteminfo bought room entry =>
    have huid : row.uid = uid := congrArg Stayputaway.uid entry
    have hkind : row.iskh = some 0 ∨ row.iskh = some 1 := by
      rw [entry]
      rcases ht shopid item rfl bought with h0 | h1
      · exact Or.inl (congrArg some h0)
      · exact Or.inr (congrArg some h1)
    have henter := h.enter hkind (by rw [huid]; exact room)
    exact henter.congr rfl rfl rfl rfl le_rfl le_rfl le_rfl
  | @cancels uid index cfgid kind number given quote now row entry =>
    subst entry
    obtain ⟨hkind, hroom⟩ := ht (by simp)
    exact h.enter hkind hroom
  | buys => exact h.khoriumbuy _ _ _
  | @updates r =>
    refine h.visits r.visits fun id draw hin row hr hk => ?_
    have hup : (id, draw) ∈ r.ups := by
      unfold Round.visits at hin
      simp only [List.mem_append, List.mem_map] at hin
      rcases hin with ((⟨x, _, hx⟩ | ⟨x, _, hx⟩) | ⟨x, _, hx⟩) | ⟨x, hin, hx⟩
      · cases hx
      · cases hx
      · cases hx
      · cases hx
        exact hin
    exact ht (id, draw) hup row hr hk

theorem slots_initial (shopitem : ℤ → Option Shopitem) (shopiteminfo : Int64 → List ℤ)
    (shopitemId : ℤ) (balance : Purse → Int64 → Option Int64) (materials : Int64 → Materials) :
    Slots (initial shopitem shopiteminfo shopitemId balance materials) := by
  refine ⟨fun uid => ⟨index_nil, index_nil, index_nil, index_nil, Nat.zero_le _⟩, ?_, ?_, ?_, ?_⟩
  · intro id row hr
    cases hr
  · exact fun _ _ => rfl
  · exact fun _ _ => rfl
  · exact fun _ _ => rfl

/-- **The lists are the indexes of the tables**, with ten ids at most,
after every run of tidy events. -/
theorem slots_exact
    (h : ((system known).restrict fun s l => Tidy s l.1).Reachable s) : ∀ uid, SlotsOf s uid := by
  have hslots : Slots s := h.invariant (P := Slots) ?_ ?_
  · exact hslots.of
  · rintro s ⟨shopitem, shopiteminfo, shopitemId, balance, materials, rfl⟩
    exact slots_initial _ _ _ _ _
  · rintro s ⟨e, out⟩ t ⟨⟨hact, -⟩, htidy⟩ hs
    exact hs.step (does_of_act hact) htidy

/-- Three of a material on sale, which the next update lists. -/
theorem slots_exact_listed :
    ∃ s, ((system fun _ => true).restrict fun s l => Tidy s l.1).Reachable s ∧
      (∀ uid, SlotsOf s uid) ∧ (s.putawayinfo 1).goldarr = [1] := by
  have hreach : ((system fun _ => true).restrict fun s l => Tidy s l.1).Reachable
      (act (fun _ => true) (act (fun _ => true) stall three).1 (.update (firstRound 5))).1 := by
    refine ⟨stall, [(three, _), (.update (firstRound 5), _)], ⟨_, _, _, _, _, rfl⟩,
      .cons ⟨⟨rfl, fun r hr => by cases hr⟩, ?puts⟩ (.cons ⟨⟨rfl, ?full⟩, ?draws⟩ (.nil _))⟩
    case puts =>
      intro index hindex
      exact Or.inl (Option.some.inj hindex).symm
    case full =>
      intro r hr
      cases hr
      exact full_firstRound 5
    case draws =>
      intro x hx row _ _
      rw [List.mem_singleton.mp hx]
      decide
  exact ⟨_, hreach, slots_exact hreach, by decide +kernel⟩

/-- **Where the lists are not the indexes.** A row that is bought at once
leaves its id in `staygoldarr`; eleven cancelled transports are eleven
ids; and what is neither material nor blueprint waits in a row that is
neither for gold nor for khorium. -/
theorem slots_broken :
    (∃ s, (system fun _ => true).Reachable s ∧ 1 ∈ (s.putawayinfo 1).staygoldarr ∧
      s.stayputaway 1 = none ∧ ¬ SlotsOf s 1) ∧
    (∃ s, (system fun _ => true).Reachable s ∧ (s.putawayinfo 1).size = 11) ∧
    ∃ s, (system fun _ => true).Reachable s ∧ 1 ∈ (s.putawayinfo 1).staygoldarr ∧
      (∃ row, s.stayputaway 1 = some row ∧ row.iskh = none) ∧ ¬ SlotsOf s 1 := by
  refine ⟨?_, ?_, ?_⟩
  · have hreach : (system fun _ => true).Reachable
        (act (fun _ => true) (act (fun _ => true) stall three).1 (.update (firstRound 0))).1 := by
      refine ⟨stall, [(three, _), (.update (firstRound 0), _)], ⟨_, _, _, _, _, rfl⟩,
        .cons ⟨rfl, fun r hr => by cases hr⟩ (.cons ⟨rfl, ?full⟩ (.nil _))⟩
      case full =>
        intro r hr
        cases hr
        exact full_firstRound 0
    have hin : 1 ∈ ((act (fun _ => true) (act (fun _ => true) stall three).1
        (.update (firstRound 0))).1.putawayinfo 1).staygoldarr := by decide +kernel
    refine ⟨_, hreach, hin, rfl, fun hslots => ?_⟩
    obtain ⟨row, hrow, -⟩ := (Mirrors.mem hslots.staygoldarr 1).mp hin
    cases hrow
  · have hrun : (System.exec (fun s e => some (act (fun _ => true) s e))
        (fun _ e => !e.isUpdate) stall
        (List.replicate 11 (.trancancel 1 material "10016".toList (some 0) 3 none (some (some 20))
          0))).map (fun r => (r.1.putawayinfo 1).size) = some 11 := by
      decide +kernel
    obtain ⟨⟨s, labels⟩, hr, hsize⟩ := Option.map_eq_some_iff.mp hrun
    refine ⟨s, ⟨stall, labels, ⟨_, _, _, _, _, rfl⟩, System.path_of_exec ?_ hr⟩, hsize⟩
    intro s e t out hok hact
    refine ⟨Option.some.inj hact, fun r hr => ?_⟩
    subst hr
    cases hok
  · have hreach : (system fun _ => true).Reachable (act (fun _ => true) stall
        (.putaway 1 ⟨some 5, some "1".toList, some 3, some 9, some true⟩ none 0 true)).1 :=
      ⟨stall, [(.putaway _ _ _ _ _, _)], ⟨_, _, _, _, _, rfl⟩,
        .cons ⟨rfl, fun r hr => by cases hr⟩ (.nil _)⟩
    have hin : 1 ∈ ((act (fun _ => true) stall
        (.putaway 1 ⟨some 5, some "1".toList, some 3, some 9, some true⟩ none 0
          true)).1.putawayinfo 1).staygoldarr := by decide +kernel
    refine ⟨_, hreach, hin, ⟨_, rfl, rfl⟩, fun hslots => ?_⟩
    obtain ⟨row, hrow, -, hkind⟩ := (Mirrors.mem hslots.staygoldarr 1).mp hin
    cases hrow
    cases hkind

end Shop

end Athena
