import Athena.Chips.Atomic
import Athena.Chips.Volume
import Mathlib.Algebra.BigOperators.Group.Finset.Piecewise
import Mathlib.Algebra.Group.Pi.Basic
import Mathlib.Algebra.Order.Floor.Ring
/-!
# Chips — what the chips of a machine are worth

A chip that is no skill is worth the sum of its buffs at its level, and a machine
what the chips in the first four slots of its chassis, its body and its fire
controller are worth. Its row of `d_chipattribute` is to be that (`Rated`), and
no request computes it: each adds to the row, or takes from it, what it thinks
has come or gone. So the row stays right where that is the difference in worth of
an equipment, and the equipment is in one place (`Rated.shared`).
-/

namespace Athena

namespace Chips

variable {cfg : Config} {s t u : State} {e e' e'' : Equip} {m : Mod} {slot : Slot} {i : Fin 5}
  {id level part uniqueid : ℤ} {l : List (ℤ × Machine)} {d d' : ℤ → ℚ} {equip : ℤ → ℤ → Option Equip}

/-! ## Worth -/

/-- **What a chip is worth** at a level, to each attribute. -/
def Mod.worth (cfg : Config) (m : Mod) (level : ℤ) : ℤ → ℚ :=
  if is_skill m then 0 else fun res => tally (buffs cfg level true res) m.Buff_ID

def Slot.worth (cfg : Config) (slot : Slot) : ℤ → ℚ :=
  match slot.chip with
  | none => 0
  | some (id, level) =>
    match cfg.mod id with
    | none => 0
    | some m => m.worth cfg level

/-- What the chips in the first four slots are worth. -/
def Equip.worth (cfg : Config) (e : Equip) : ℤ → ℚ := ∑ i : Fin 4, (e.slots i.castSucc).worth cfg

/-- An equipment that is not there is worth nothing. -/
def worthof (cfg : Config) (equip : ℤ → ℤ → Option Equip) (part uniqueid : ℤ) : ℤ → ℚ :=
  match equip part uniqueid with
  | none => 0
  | some e => e.worth cfg

/-- The parts whose chips count for their machine. -/
def counted : Finset ℤ := {warehousetype.chassis, warehousetype.body, warehousetype.firecontroller}

/-- **What the parts of a machine are worth.** -/
def Machine.worth (cfg : Config) (equip : ℤ → ℤ → Option Equip) (x : Machine) : ℤ → ℚ :=
  ∑ part ∈ counted, tally (worthof cfg equip part) (x.part part)

/-- **Every machine has in its row what its parts are worth.** -/
def Rated (cfg : Config) (s : State) : Prop :=
  ∀ x ∈ s.machines, s.chipattribute x.1 = x.2.worth cfg s.equip

/-! ## Buffs -/

theorem round_neg (x : ℚ) : round (-x) = -round x := by
  have hneg : -x * 1000 = -(x * 1000) := by ring
  unfold round
  rcases lt_trichotomy x 0 with hx | rfl | hx
  · rw [if_pos (by linarith), if_neg (by linarith), hneg, Int.ceil_neg, Int.cast_neg, neg_div]
  · simp
  · rw [if_neg (by linarith), if_pos hx.le, hneg, Int.floor_neg, Int.cast_neg, neg_div]

/-- A buff takes what it gives. -/
theorem buffs_false (level res : ℤ) (x : ℤ × ℚ × ℚ) :
    buffs cfg level false res x = -buffs cfg level true res x := by
  by_cases h : cfg.bufftypekey x.1 = some res
  · simp only [buffs, if_pos h, Bool.false_eq_true, if_false, if_true]
    exact round_neg _
  · simp [buffs, h]

theorem addbuffs_eq (hskill : is_skill m = false) (ty : Bool) (player : ℤ → ℚ) :
    addbuffs cfg level ty m.Buff_ID player =
      player + if ty then m.worth cfg level else -m.worth cfg level := by
  funext res
  rw [addbuffs_apply, Pi.add_apply, Mod.worth, hskill]
  cases ty with
  | true => rfl
  | false =>
    have hneg : ∀ l : List (ℤ × ℚ × ℚ), tally (buffs cfg level false res) l =
        -tally (buffs cfg level true res) l := by
      intro l
      induction l with
      | nil => rw [tally_nil, tally_nil, neg_zero]
      | cons b l ih => rw [tally_cons, tally_cons, ih, buffs_false, neg_add]
    simp [hneg]

/-! ## Slots -/

theorem Slot.worth_none (h : slot.chip = none) : slot.worth cfg = 0 := by simp [Slot.worth, h]

theorem Slot.worth_some (h : slot.chip = some (id, level)) (hmod : cfg.mod id = some m) :
    slot.worth cfg = m.worth cfg level := by simp [Slot.worth, h, hmod]

theorem Slot.worth_congr {slot' : Slot} (h : slot'.chip = slot.chip) : slot'.worth cfg = slot.worth cfg := by
  simp [Slot.worth, h]

theorem Equip.worth_congr (h : ∀ i, (e'.slots i).chip = (e.slots i).chip) : e'.worth cfg = e.worth cfg :=
  Finset.sum_congr rfl fun i _ => Slot.worth_congr (h i.castSucc)

/-- **One of the first four slots changes.** -/
theorem worth_update (hi : i ≠ 4) (h : e'.slots = Function.update e.slots i slot) :
    e'.worth cfg = e.worth cfg + (slot.worth cfg - (e.slots i).worth cfg) := by
  obtain ⟨j, rfl⟩ := Fin.exists_castSucc_eq.mpr hi
  have hcomp : ∀ k : Fin 4, e'.slots k.castSucc =
      Function.update (fun k : Fin 4 => e.slots k.castSucc) j slot k := fun k => by
    by_cases hk : k = j
    · subst hk
      rw [h, Function.update_self, Function.update_self]
    · rw [h, Function.update_of_ne (fun h => hk (Fin.castSucc_injective 4 h)), Function.update_of_ne hk]
  have hsum : ∑ k : Fin 4, Slot.worth cfg (Function.update (fun k : Fin 4 => e.slots k.castSucc) j slot k) +
      (e.slots j.castSucc).worth cfg = e.worth cfg + slot.worth cfg := sum_update
  simp only [Equip.worth, hcomp]
  rw [eq_sub_of_add_eq hsum, Equip.worth]
  abel

/-- The fifth slot is worth nothing. -/
theorem worth_update_fifth (h : e'.slots = Function.update e.slots 4 slot) : e'.worth cfg = e.worth cfg := by
  refine Finset.sum_congr rfl fun k _ => ?_
  have hk : k.castSucc ≠ 4 := Fin.castSucc_ne_last k
  rw [h, Function.update_of_ne hk]

/-! ## Shares -/

/-- What is added to the rows where something comes to an equipment: the first
machine that has it gets it all, and weapons count for none. -/
def share (s : State) (part uniqueid : ℤ) : (ℤ → ℚ) →+ ℤ → ℤ → ℚ where
  toFun d machine :=
    if part ≠ warehousetype.weapon ∧ find_equip_index s part uniqueid = some machine then d else 0
  map_zero' := by
    funext machine
    split_ifs <;> rfl
  map_add' d d' := by
    funext machine
    simp only [Pi.add_apply]
    split_ifs
    · rfl
    · rw [add_zero]

theorem share_apply (machine : ℤ) : share s part uniqueid d machine =
    if part ≠ warehousetype.weapon ∧ find_equip_index s part uniqueid = some machine then d else 0 := rfl

/-- **An equipment that counts** for a machine. -/
def Counts (s : State) (part uniqueid : ℤ) : Prop :=
  part ≠ warehousetype.weapon ∧ (find_equip_index s part uniqueid).isSome

theorem share_congr (h : Counts s part uniqueid → d = d') : share s part uniqueid d = share s part uniqueid d' := by
  funext machine
  rw [share_apply, share_apply]
  split_ifs with hm
  · rw [h ⟨hm.1, by rw [hm.2]; rfl⟩]
  · rfl

@[simp] theorem update_player_attr_machines {machine : Option ℤ} {ty : Bool} :
    (update_player_attr cfg m level part machine i ty s).machines = s.machines := by
  unfold update_player_attr
  split
  · rfl
  · split_ifs <;> rfl

/-- **`update_player_attr`** for the machine that is found. -/
theorem update_player_attr_rows (ty : Bool) :
    (update_player_attr cfg m level part (find_equip_index s part uniqueid) i ty t).chipattribute =
      t.chipattribute + share s part uniqueid
        (if i = 4 then 0 else if ty then m.worth cfg level else -m.worth cfg level) := by
  funext machine
  rw [Pi.add_apply, share_apply]
  unfold update_player_attr
  cases hfind : find_equip_index s part uniqueid with
  | none => simp
  | some k =>
    by_cases hpart : part = warehousetype.weapon
    · simp [hpart]
    · by_cases hi : i = 4
      · simp [hi]
      · cases hskill : is_skill m with
        | true => simp [hpart, hi, Mod.worth, hskill]
        | false =>
          by_cases hk : machine = k
          · subst hk
            simp [hpart, hi, addbuffs_eq hskill]
          · have hne : ¬ k = machine := fun h => hk h.symm
            simp [hpart, hi, hk, hne]

/-! ## Machines -/

/-- **An equipment is in one place** at most; where a weapon is does not matter. -/
def Once (s : State) (part uniqueid : ℤ) : Prop :=
  part ≠ warehousetype.weapon → ((s.machines.flatMap fun x => x.2.part part).count uniqueid) ≤ 1

/-- **The machines have their own ids.** -/
def Distinct (s : State) : Prop := (s.machines.map Prod.fst).Nodup

/-- **The hangar**, as the requests rely on it. -/
structure Housed (s : State) : Prop where
  distinct : Distinct s
  once : ∀ part uniqueid, Once s part uniqueid

/-- The machine that is found has it once, and the others not at all. -/
theorem count_part (hdistinct : (l.map Prod.fst).Nodup)
    (honce : ((l.flatMap fun x : ℤ × Machine => x.2.part part).count uniqueid) ≤ 1) {x : ℤ × Machine}
    (hx : x ∈ l) : (x.2.part part).count uniqueid =
      if (l.find? fun x => uniqueid ∈ x.2.part part).map Prod.fst = some x.1 then 1 else 0 := by
  induction l with
  | nil => cases hx
  | cons y l ih =>
    obtain ⟨hnot, hdistinct'⟩ := List.nodup_cons.mp hdistinct
    rw [List.flatMap_cons, List.count_append] at honce
    by_cases hy : uniqueid ∈ y.2.part part
    · have hpos : 0 < (y.2.part part).count uniqueid := List.count_pos_iff.mpr hy
      rw [List.find?_cons_of_pos (by simpa using hy), Option.map_some]
      rcases List.mem_cons.mp hx with rfl | hx
      · rw [if_pos rfl]
        omega
      · have hne : y.1 ≠ x.1 := fun h => hnot (h ▸ List.mem_map_of_mem hx)
        rw [if_neg fun h => hne (Option.some.inj h), List.count_eq_zero]
        intro hin
        have hmem : uniqueid ∈ l.flatMap fun x : ℤ × Machine => x.2.part part :=
          List.mem_flatMap.mpr ⟨x, hx, hin⟩
        have := List.count_pos_iff.mpr hmem
        omega
    · rw [List.find?_cons_of_neg (by simpa using hy)]
      rcases List.mem_cons.mp hx with rfl | hx
      · rw [List.count_eq_zero.mpr hy, if_neg]
        intro hfind
        obtain ⟨z, hz, hzx⟩ := Option.map_eq_some_iff.mp hfind
        exact hnot (hzx ▸ List.mem_map_of_mem (List.mem_of_find?_eq_some hz))
      · exact ih hdistinct' (by omega) hx

/-- One id is worth more, wherever it is. -/
theorem tally_count {f g : ℤ → ℤ → ℚ} (l : List ℤ) (h : ∀ n, n ≠ uniqueid → g n = f n)
    (hself : g uniqueid = f uniqueid + d) : tally g l = tally f l + l.count uniqueid • d := by
  induction l with
  | nil => simp
  | cons n l ih =>
    rw [tally_cons, tally_cons, ih]
    by_cases hn : n = uniqueid
    · subst hn
      rw [List.count_cons_self, succ_nsmul, hself]
      abel
    · rw [List.count_cons_of_ne hn, h n hn]
      abel

theorem worthof_some (h : equip part uniqueid = some e) : worthof cfg equip part uniqueid = e.worth cfg := by
  rw [worthof, h]

/-- **What a machine is worth** when an equipment is changed. -/
theorem worth_setequip (hdistinct : Distinct s) (honce : Once s part uniqueid)
    (he : s.equip part uniqueid = some e) {x : ℤ × Machine} (hx : x ∈ s.machines) :
    x.2.worth cfg (s.setequip part uniqueid e').equip =
      x.2.worth cfg s.equip + share s part uniqueid (e'.worth cfg - e.worth cfg) x.1 := by
  have hparts : ∀ p ∈ counted, tally (worthof cfg (s.setequip part uniqueid e').equip p) (x.2.part p) =
      tally (worthof cfg s.equip p) (x.2.part p) +
        if p = part then share s part uniqueid (e'.worth cfg - e.worth cfg) x.1 else 0 := by
    intro p hp
    by_cases hpp : p = part
    · subst hpp
      have hweapon : p ≠ warehousetype.weapon := by
        rintro rfl
        exact absurd hp (by decide)
      have hne : ∀ n, n ≠ uniqueid → worthof cfg (s.setequip p uniqueid e').equip p n =
          worthof cfg s.equip p n := fun n hn => by
        rw [worthof, setequip_of_ne fun h => hn h.2, worthof]
      have hself : worthof cfg (s.setequip p uniqueid e').equip p uniqueid =
          worthof cfg s.equip p uniqueid + (e'.worth cfg - e.worth cfg) := by
        rw [worthof_some setequip_self, worthof_some he, add_sub_cancel]
      have hcount : (x.2.part p).count uniqueid =
          if find_equip_index s p uniqueid = some x.1 then 1 else 0 :=
        count_part hdistinct (honce hweapon) hx
      rw [if_pos rfl, tally_count _ hne hself, hcount, share_apply]
      by_cases hfind : find_equip_index s p uniqueid = some x.1
      · rw [if_pos hfind, if_pos ⟨hweapon, hfind⟩, one_nsmul]
      · rw [if_neg hfind, if_neg fun h => hfind h.2, zero_nsmul]
    · rw [if_neg hpp, add_zero]
      refine congrArg List.sum (List.map_congr_left fun n _ => ?_)
      rw [worthof, setequip_of_ne fun h => hpp h.1, worthof]
  rw [Machine.worth, Finset.sum_congr rfl hparts, Finset.sum_add_distrib, Finset.sum_ite_eq', Machine.worth]
  split_ifs with hpart
  · rfl
  · -- no machine has a part of another kind but weapons
    have hnone : share s part uniqueid (e'.worth cfg - e.worth cfg) x.1 = 0 := by
      rw [share_apply, if_neg]
      rintro ⟨hweapon, hfind⟩
      obtain ⟨y, hy, -⟩ := Option.map_eq_some_iff.mp hfind
      have hin : uniqueid ∈ y.2.part part := by simpa using List.find?_some hy
      simp only [counted, Finset.mem_insert, Finset.mem_singleton, not_or] at hpart
      simp [Machine.part, hpart.1, hpart.2.1, hpart.2.2, hweapon] at hin
    rw [hnone]

/-! ## Rows -/

/-- **An equipment is changed, and the row of its machine with it.** -/
structure Shared (cfg : Config) (s t : State) (part uniqueid : ℤ) (e e' : Equip) : Prop where
  machines : t.machines = s.machines
  before : s.equip part uniqueid = some e
  after : t.equip = (s.setequip part uniqueid e').equip
  rows : t.chipattribute = s.chipattribute + share s part uniqueid (e'.worth cfg - e.worth cfg)

/-- **The rows stay what the machines are worth.** -/
theorem Rated.shared (h : Rated cfg s) (hhoused : Housed s) (hs : Shared cfg s t part uniqueid e e') :
    Rated cfg t := by
  intro x hx
  rw [hs.machines] at hx
  rw [hs.rows, hs.after, worth_setequip hhoused.distinct (hhoused.once part uniqueid) hs.before hx,
    Pi.add_apply, h x hx]

/-- No chip comes or goes. -/
theorem Rated.congr (h : Rated cfg s) (hmachines : t.machines = s.machines) (hequip : t.equip = s.equip)
    (hrows : t.chipattribute = s.chipattribute) : Rated cfg t := by
  intro x hx
  rw [hmachines] at hx
  rw [hrows, hequip, h x hx]

/-- An equipment changes, but not in its chips. -/
theorem Rated.same (h : Rated cfg s) (he : s.equip part uniqueid = some e) (hmachines : t.machines = s.machines)
    (hequip : t.equip = (s.setequip part uniqueid e').equip) (hrows : t.chipattribute = s.chipattribute)
    (hchips : ∀ i, (e'.slots i).chip = (e.slots i).chip) : Rated cfg t := by
  have hworth : worthof cfg t.equip = worthof cfg s.equip := by
    funext p n
    rw [hequip]
    by_cases hpn : p = part ∧ n = uniqueid
    · obtain ⟨rfl, rfl⟩ := hpn
      rw [worthof_some setequip_self, worthof_some he, Equip.worth_congr hchips]
    · rw [worthof, setequip_of_ne hpn, worthof]
  intro x hx
  rw [hmachines] at hx
  rw [hrows, h x hx, Machine.worth, Machine.worth, hworth]

theorem Housed.congr (h : Housed s) (hmachines : t.machines = s.machines) : Housed t where
  distinct := by
    rw [Distinct, hmachines]
    exact h.distinct
  once part uniqueid := by
    rw [Once, hmachines]
    exact h.once part uniqueid

end Chips

end Athena
