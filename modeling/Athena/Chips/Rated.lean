import Athena.Chips.Restore
import Athena.Chips.Worth
import Athena.Common.Keyed
/-!
# Chips — the requests and the rows

A chip that is put in or taken out is counted with the level of its slot, and
the row of the machine follows. Three kinds of requests count otherwise
(`Accounted`): a move takes the level and the slot from the client, an upgrade
adds the chip once more at the number of its new levels, and a chip without room
is taken off with the client's level.
-/

namespace Athena

namespace Chips

variable {cfg : Config} {s t : State} {a : Add} {e e' src : Equip} {m : Mod} {slot : Slot} {i j : Fin 5}
  {id level part uniqueid r : ℤ} {u : Upgrade} {d : ℤ → ℚ}
  {equip : ℤ → ℤ → Option Equip}

/-! ## Requests that count as they should -/

/-- **A chip that is moved** is in one of the first four slots of the equipment
its record names, worth there what it is at the client's level, and not in the
slot it comes to. -/
def Sits (cfg : Config) (s : State) (a : Add) (r : ℤ) : Prop :=
  ∃ e i, s.equip (r % 10) (r / 10) = some e ∧ e.find a.id = some i ∧ i ≠ Fin.last 4 ∧
    (e.slots i).worth cfg = a.mod.worth cfg a.level ∧
    (r % 10 = a.part ∧ r / 10 = a.uniqueid → i ≠ a.index)

/-- **The requests that count a chip for what it is worth.** -/
def Accounted (cfg : Config) (s : State) : Event → Prop
  | .add m => ∀ a r, addcheck cfg s m = .ok a → a.record = some r → Counts s (r % 10) (r / 10) → Sits cfg s a r
  | .upgrade m => ∀ u, upgradecheck cfg s m = .ok u → u.isequip = true →
      Counts s (u.record % 10) (u.record / 10) →
        ∀ e i level, s.equip (u.record % 10) (u.record / 10) = some e → e.find u.id = some i → i ≠ Fin.last 4 →
          (e.slots i).chip = some (u.id, level) →
            (e.free < cost u.mod u.number * (e.slots i).num u.mod →
              u.mod.worth cfg u.level = u.mod.worth cfg level) ∧
            (cost u.mod u.number * (e.slots i).num u.mod ≤ e.free →
              u.mod.worth cfg (min 15 (level + u.number)) =
                u.mod.worth cfg level + u.mod.worth cfg u.number)
  | _ => True

/-! ## Slots -/

/-- **A chip is found where it was** when another slot loses its own. -/
theorem find_update (hi : e.find id = some i) (h : e'.slots = Function.update e.slots j slot) (hij : i ≠ j)
    (hslot : slot.chipid ≠ some id) : e'.find id = some i := by
  refine find?_of_imp (fun k hk => ?_) hi ?_
  · rw [decide_eq_true_eq, h] at hk
    rw [decide_eq_true_eq]
    by_cases hkj : k = j
    · subst hkj
      rw [Function.update_self] at hk
      exact absurd hk hslot
    · rwa [Function.update_of_ne hkj] at hk
  · rw [decide_eq_true_eq, h, Function.update_of_ne hij]
    exact find_some hi

/-- **A chip is put into an empty slot.** -/
theorem worth_fit (hi : i ≠ 4) (hmod : cfg.mod id = some m) (hempty : (e.slots i).chip = none)
    (h : e'.slots = Function.update e.slots i slot) (hslot : slot.chip = some (id, level)) :
    e'.worth cfg = e.worth cfg + m.worth cfg level := by
  rw [worth_update hi h, Slot.worth_some hslot hmod, Slot.worth_none hempty, sub_zero]

/-- **A chip is taken out.** -/
theorem worth_clear (hi : i ≠ 4) (h : e'.slots = Function.update e.slots i slot) (hslot : slot.chip = none) :
    e'.worth cfg = e.worth cfg - (e.slots i).worth cfg := by
  rw [worth_update hi h, Slot.worth_none hslot, zero_sub, sub_eq_add_neg]

/-- What a chip that is found is worth. -/
theorem worth_find {id' : ℤ} (hi : e.find id = some i) (hmod : cfg.mod id = some m)
    (hchip : (e.slots i).chip = some (id', level)) : (e.slots i).worth cfg = m.worth cfg level := by
  have hid := find_some hi
  rw [chipid_of_chip hchip, Option.some.injEq] at hid
  exact Slot.worth_some hchip (hid ▸ hmod)

/-! ## add -/

/-- **What is left when the slot is made empty**, and the row follows. -/
structure Cleared (cfg : Config) (s : State) (a : Add) (t : State) (e : Equip) : Prop where
  machines : t.machines = s.machines
  equip : t.equip = s.equip
  rows : t.chipattribute = s.chipattribute + share s a.part a.uniqueid (e.worth cfg - a.equip.worth cfg)
  slots : ∃ slot, e.slots = Function.update a.equip.slots a.index slot ∧ slot.chip = none

theorem Cleared.empty (h : Cleared cfg s a t e) : (e.slots a.index).chip = none := by
  obtain ⟨slot, hslots, hnone⟩ := h.slots
  rw [hslots, Function.update_self, hnone]

theorem uninstall_cleared (hi : a.index ≠ 4) (h : uninstall cfg s a = some (t, e)) : Cleared cfg s a t e := by
  cases hslot : (a.equip.slots a.index).chip with
  | none =>
    simp only [uninstall, hslot, Option.some.injEq, Prod.mk.injEq] at h
    obtain ⟨rfl, rfl⟩ := h
    refine ⟨rfl, rfl, ?_, _, (Function.update_eq_self _ _).symm, hslot⟩
    rw [sub_self, map_zero, add_zero]
  | some chip =>
    obtain ⟨chipid, level⟩ := chip
    obtain ⟨m, key, hmod, -, rfl, rfl⟩ := uninstall_some hslot h
    have hslots : (emptied a m level).slots =
        Function.update a.equip.slots a.index (a.equip.slots a.index).clear := rfl
    refine ⟨update_player_attr_machines, update_player_attr_equip, ?_, _, hslots, rfl⟩
    rw [update_player_attr_rows, if_neg hi, worth_clear hi hslots rfl, Slot.worth_some hslot hmod,
      sub_sub_cancel_left]
    rfl

/-- **The chip is in the slot.** -/
theorem fitted_worth (hi : a.index ≠ 4) (hmod : cfg.mod a.id = some a.mod)
    (hempty : (e.slots a.index).chip = none) : ∃ e', (fitted t a e).1.equip =
      (t.setequip a.part a.uniqueid e').equip ∧ e'.worth cfg = e.worth cfg + a.mod.worth cfg a.level := by
  obtain ⟨-, -, -, e', hequip, hslots⟩ := fitted_equip (a := a) (e := e) (s := t)
  exact ⟨e', hequip, worth_fit hi hmod hempty hslots rfl⟩

/-- **A chip that was in no slot** comes to the row. -/
theorem install_shared {msg : AddMsg} (hcheck : Checked cfg s msg a) (hout : Cleared cfg s a t e)
    (hok : (install cfg s a t e).2 = some .success) :
    ∃ e', Shared cfg s (install cfg s a t e).1 a.part a.uniqueid a.equip e' := by
  have hlists : (installed t a).machines = t.machines ∧ (installed t a).chipattribute = t.chipattribute := by
    unfold installed
    split <;> exact ⟨rfl, rfl⟩
  unfold install at hok ⊢
  split
  · rename_i hroom
    rw [if_pos hroom] at hok
    cases hok
  · rename_i hroom
    rw [if_neg hroom] at hok
    split
    · rename_i hskill
      rw [hskill] at hok
      cases hok
    · rename_i ind hskill
      rw [hskill] at hok
      simp only at hok
      split
      · rename_i hboth
        rw [if_pos hboth] at hok
        cases hok
      · rename_i hboth
        rw [if_neg hboth] at hok
        split
        · rename_i hrepeat
          rw [if_pos hrepeat] at hok
          cases hok
        · obtain ⟨e', hset, hworth⟩ := fitted_worth hcheck.index hcheck.mod hout.empty
            (t := update_player_attr cfg a.mod a.level a.part (find_equip_index s a.part a.uniqueid) a.index
              true (installed t a))
          refine ⟨e', ?_, hcheck.equip, ?_, ?_⟩
          · exact update_player_attr_machines.trans (hlists.1.trans hout.machines)
          · rw [hset]
            exact setequip_congr (update_player_attr_equip.trans (installed_equip.trans hout.equip))
          · change (update_player_attr cfg a.mod a.level a.part (find_equip_index s a.part a.uniqueid) a.index
              true (installed t a)).chipattribute = _
            rw [update_player_attr_rows, if_neg hcheck.index, if_pos rfl, hlists.2, hout.rows, hworth,
              add_assoc,
              ← map_add]
            congr 2
            abel

/-- **What a move stores.** -/
theorem moved_eq (hi : a.index ≠ 4) (hmod : cfg.mod a.id = some a.mod)
    (hempty : ((if r % 10 = a.part ∧ r / 10 = a.uniqueid then src else e).slots a.index).chip = none) :
    (moved cfg s a t e src r).1.machines = t.machines ∧
      (∃ e', (moved cfg s a t e src r).1.equip =
          ((t.setequip (r % 10) (r / 10) src.floor).setequip a.part a.uniqueid e').equip ∧
        e'.worth cfg = (if r % 10 = a.part ∧ r / 10 = a.uniqueid then src else e).worth cfg +
          a.mod.worth cfg a.level) ∧
      (moved cfg s a t e src r).1.chipattribute = t.chipattribute +
        share s (r % 10) (r / 10) (-a.mod.worth cfg a.level) +
        share s a.part a.uniqueid (a.mod.worth cfg a.level) := by
  have hlists : (relistback (relistout t a.id r) a).machines = t.machines ∧
      (relistback (relistout t a.id r) a).equip = t.equip ∧
      (relistback (relistout t a.id r) a).chipattribute = t.chipattribute := by
    unfold relistback relistout
    refine ⟨?_, ?_, ?_⟩ <;> split <;> split <;> rfl
  obtain ⟨hmachines, hequip, hrows⟩ := hlists
  obtain ⟨e', hset, hworth⟩ := fitted_worth hi hmod hempty
    (t := (update_player_attr cfg a.mod a.level a.part (find_equip_index s a.part a.uniqueid) a.index true
      (update_player_attr cfg a.mod a.level (r % 10) (find_equip_index s (r % 10) (r / 10)) a.index false
        (relistback (relistout t a.id r) a))).setequip (r % 10) (r / 10) src.floor)
  refine ⟨?_, ⟨e', hset.trans ?_, hworth⟩, ?_⟩
  · exact update_player_attr_machines.trans (update_player_attr_machines.trans hmachines)
  · refine setequip_congr (setequip_congr ?_)
    rw [update_player_attr_equip, update_player_attr_equip, hequip]
  · change (update_player_attr cfg a.mod a.level a.part (find_equip_index s a.part a.uniqueid) a.index true
      (update_player_attr cfg a.mod a.level (r % 10) (find_equip_index s (r % 10) (r / 10)) a.index false
        (relistback (relistout t a.id r) a))).chipattribute = _
    rw [update_player_attr_rows, update_player_attr_rows, hrows, if_neg hi, if_neg hi, if_pos rfl,
      if_neg Bool.false_ne_true]

/-- **What a move takes the chip out of**: the slot it finds it in, where it finds it. -/
theorem move_moved (hsource : source s a e r = some src) (hok : (move cfg s a t e r).2 = some .success) :
    ∃ src', move cfg s a t e r = moved cfg s a t e src' r ∧
      (∀ j, (src.slots j).chip = none → (src'.slots j).chip = none) ∧
      ∀ i, src.find a.id = some i → src'.slots = Function.update src.slots i (src.slots i).clear := by
  unfold move at hok ⊢
  simp only [hsource] at hok ⊢
  cases hfind : src.find a.id with
  | none => exact ⟨src, rfl, fun _ hj => hj, fun i hi => by cases hi⟩
  | some i =>
    simp only [hfind] at hok ⊢
    cases hcheck : movecheck cfg a e src r i with
    | error reply =>
      rw [hcheck] at hok
      refine absurd hcheck ?_
      obtain rfl : reply = some .success := hok
      exact movecheck_error
    | ok =>
      refine ⟨leave a src i, rfl, fun j hj => leave_chip hj, fun k hk => ?_⟩
      obtain rfl := Option.some.inj hk
      exact leave_slots

/-- **Within one equipment** the chip counts before and after. -/
theorem moved_within {msg : AddMsg} (hcheck : Checked cfg s msg a) (hout : Cleared cfg s a t e)
    (hsame : r % 10 = a.part ∧ r / 10 = a.uniqueid) (hsits : Counts s (r % 10) (r / 10) → Sits cfg s a r)
    (hempty : (src.slots a.index).chip = none)
    (hleave : ∀ i, e.find a.id = some i → src.slots = Function.update e.slots i (e.slots i).clear) :
    ∃ e', Shared cfg s (moved cfg s a t e src r).1 a.part a.uniqueid a.equip e' := by
  have hempty' : ((if r % 10 = a.part ∧ r / 10 = a.uniqueid then src else e).slots a.index).chip = none := by
    rw [if_pos hsame]
    exact hempty
  obtain ⟨hmachines, ⟨e', hset, hworth⟩, hrows⟩ := moved_eq (s := s) (t := t) hcheck.index hcheck.mod hempty'
  rw [if_pos hsame] at hworth
  have hstay : Counts s a.part a.uniqueid → e'.worth cfg = e.worth cfg := by
    intro hcounts
    obtain ⟨e₀, i, he₀, hi, hne, hsit, hij⟩ := hsits (by rwa [hsame.1, hsame.2])
    rw [hsame.1, hsame.2, hcheck.equip, Option.some.injEq] at he₀
    subst he₀
    obtain ⟨slot, hslots, hnone⟩ := hout.slots
    have hij := hij hsame
    have hsloti : e.slots i = a.equip.slots i := by rw [hslots, Function.update_of_ne hij]
    have hfind : e.find a.id = some i := find_update hi hslots hij (by simp [Slot.chipid, hnone])
    rw [hworth, worth_clear hne (hleave i hfind) rfl, hsloti, hsit, sub_add_cancel]
  refine ⟨e', hmachines.trans hout.machines, hcheck.equip, ?_, ?_⟩
  · rw [hset, hsame.1, hsame.2, setequip_setequip]
    exact setequip_congr hout.equip
  · rw [hrows, hout.rows, hsame.1, hsame.2, map_neg, neg_add_cancel_right]
    congr 1
    exact share_congr fun hcounts => by rw [hstay hcounts]

/-- **From another equipment**, which is stored first, it goes from one row to the other. -/
theorem moved_across {msg : AddMsg} {src' : Equip} (hcheck : Checked cfg s msg a) (hout : Cleared cfg s a t e)
    (hother : ¬ (r % 10 = a.part ∧ r / 10 = a.uniqueid)) (hsource : s.equip (r % 10) (r / 10) = some src)
    (hsits : Counts s (r % 10) (r / 10) → Sits cfg s a r)
    (hleave : ∀ i, src.find a.id = some i → src'.slots = Function.update src.slots i (src.slots i).clear) :
    ∃ u e', Shared cfg s u (r % 10) (r / 10) src src'.floor ∧
      Shared cfg u (moved cfg s a t e src' r).1 a.part a.uniqueid a.equip e' := by
  have hempty : ((if r % 10 = a.part ∧ r / 10 = a.uniqueid then src' else e).slots a.index).chip = none := by
    rw [if_neg hother]
    exact hout.empty
  obtain ⟨hmachines, ⟨e', hset, hworth⟩, hrows⟩ := moved_eq (s := s) (t := t) hcheck.index hcheck.mod hempty
  rw [if_neg hother] at hworth
  have hleft : Counts s (r % 10) (r / 10) →
      -a.mod.worth cfg a.level = src'.floor.worth cfg - src.worth cfg := by
    intro hcounts
    obtain ⟨e₀, i, he₀, hi, hne, hsit, -⟩ := hsits hcounts
    rw [hsource, Option.some.injEq] at he₀
    subst he₀
    have hfloor : src'.floor.worth cfg = src'.worth cfg := Equip.worth_congr fun _ => rfl
    rw [hfloor, worth_clear hne (hleave i hi) rfl, hsit, sub_sub_cancel_left]
  have hne : ¬ (a.part = r % 10 ∧ a.uniqueid = r / 10) := fun heq => hother ⟨heq.1.symm, heq.2.symm⟩
  refine ⟨{ s.setequip (r % 10) (r / 10) src'.floor with
      chipattribute := s.chipattribute + share s (r % 10) (r / 10) (-a.mod.worth cfg a.level) }, e',
    ⟨rfl, hsource, rfl, by rw [share_congr hleft]⟩,
    hmachines.trans hout.machines, (setequip_of_ne hne).trans hcheck.equip,
    hset.trans (setequip_congr (setequip_congr hout.equip)), ?_⟩
  have hsum : share s a.part a.uniqueid (e'.worth cfg - a.equip.worth cfg) =
      share s a.part a.uniqueid (e.worth cfg - a.equip.worth cfg) +
        share s a.part a.uniqueid (a.mod.worth cfg a.level) := by
    rw [hworth, ← map_add]
    congr 1
    abel
  change _ = s.chipattribute + share s (r % 10) (r / 10) (-a.mod.worth cfg a.level) +
    share s a.part a.uniqueid (e'.worth cfg - a.equip.worth cfg)
  rw [hsum, hrows, hout.rows]
  abel

/-- **A chip that is moved** goes from one row to the other. -/
theorem Rated.move (h : Rated cfg s) (hhoused : Housed s) {msg : AddMsg} (hcheck : Checked cfg s msg a)
    (hsits : Counts s (r % 10) (r / 10) → Sits cfg s a r) (hout : Cleared cfg s a t e)
    (hok : (Chips.move cfg s a t e r).2 = some .success) : Rated cfg (Chips.move cfg s a t e r).1 := by
  cases hsource : source s a e r with
  | none =>
    simp only [Chips.move, hsource] at hok
    cases hok
  | some src =>
    obtain ⟨src', hmove, hkeep, hleave⟩ := move_moved hsource hok
    rw [hmove]
    by_cases hsame : r % 10 = a.part ∧ r / 10 = a.uniqueid
    · rw [source, if_pos hsame, Option.some.injEq] at hsource
      subst hsource
      obtain ⟨e', hshared⟩ := moved_within hcheck hout hsame hsits (hkeep _ hout.empty) hleave
      exact h.shared hhoused hshared
    · rw [source, if_neg hsame] at hsource
      obtain ⟨u, e', hfirst, hsecond⟩ := moved_across hcheck hout hsame hsource hsits hleave
      exact (h.shared hhoused hfirst).shared (hhoused.congr hfirst.machines) hsecond

/-- **`add`.** -/
theorem Rated.add (h : Rated cfg s) (hhoused : Housed s) {msg : AddMsg}
    (haccounted : Accounted cfg s (.add msg)) (hok : (Chips.add cfg s msg).2 = some .success) :
    Rated cfg (Chips.add cfg s msg).1 := by
  unfold Chips.add at hok ⊢
  cases ha : addcheck cfg s msg with
  | error reply => exact h
  | ok a =>
    simp only [ha] at hok ⊢
    have hcheck := addcheck_ok ha
    cases hu : uninstall cfg s a with
    | none => exact h
    | some x =>
      obtain ⟨t, e⟩ := x
      have hout := uninstall_cleared hcheck.index hu
      simp only [hu] at hok ⊢
      cases hrecord : a.record with
      | none =>
        simp only [hrecord] at hok ⊢
        obtain ⟨e', hshared⟩ := install_shared hcheck hout hok
        exact h.shared hhoused hshared
      | some r =>
        simp only [hrecord] at hok ⊢
        exact h.move hhoused hcheck (haccounted a r ha hrecord) hout hok

/-! ## The other requests -/

theorem without_slots (e : Equip) (m : Mod) (level : ℤ) (i : Fin 5) :
    ((e.without m level i).set i (e.slots i).clear).slots = Function.update e.slots i (e.slots i).clear := by
  simp only [Equip.set, Equip.without]
  split <;> rfl

/-- What the row loses with a chip that is taken out. -/
theorem taken_worth {x : ℤ → ℚ} (h : e'.slots = Function.update e.slots i (e.slots i).clear)
    (hworth : (e.slots i).worth cfg = x) :
    (if i = 4 then 0 else if false = true then x else -x) = e'.worth cfg - e.worth cfg := by
  by_cases hi : i = 4
  · subst hi
    rw [if_pos rfl, worth_update_fifth h, sub_self]
  · rw [if_neg hi, if_neg Bool.false_ne_true, worth_clear hi h rfl, hworth, sub_sub_cancel_left]

/-- **`remove`.** -/
theorem Rated.remove (h : Rated cfg s) (hhoused : Housed s) {uniqueidpart id : Option ℤ} :
    Rated cfg (Chips.remove cfg s uniqueidpart id).1 := by
  unfold Chips.remove
  split
  · exact h
  · exact h
  · rename_i r id
    simp only
    split
    · exact h
    · split
      · exact h
      · split
        · exact h
        · rename_i e he
          split
          · exact h
          · rename_i i hi
            split
            · rename_i m id' level hmod hchip
              refine h.shared hhoused
                ⟨update_player_attr_machines, he, setequip_congr update_player_attr_equip, ?_⟩
              change (update_player_attr cfg m level (r % 10) (find_equip_index s (r % 10) (r / 10)) i false
                (s.out _)).chipattribute = _
              rw [update_player_attr_rows, taken_worth (without_slots e m level i) (worth_find hi hmod hchip)]
              rfl
            · exact h

theorem Rated.double (h : Rated cfg s) {part uniqueid : Option ℤ} :
    Rated cfg (Chips.double cfg s part uniqueid).1 := by
  unfold Chips.double
  split
  · split
    · exact h
    · split
      · exact h
      · split
        · exact h
        · split
          · exact h
          · rename_i e he
            split
            · exact h
            · split
              · exact h
              · exact h.same he rfl rfl rfl fun _ => rfl
  · exact h

/-- **The slots are emptied**, and the row follows. -/
theorem unload_rows {record : ℤ} (is : List (Fin 5)) (his : ∀ i ∈ is, i ≠ 4) : ∀ {t t' : State} {e : Equip},
    unload cfg (find_equip_index s part uniqueid) part record is t e = (t', some e') →
      t'.machines = t.machines ∧ t'.equip = t.equip ∧
        t'.chipattribute = t.chipattribute + share s part uniqueid (e'.worth cfg - e.worth cfg) := by
  induction is with
  | nil =>
    intro t t' e h
    cases h
    exact ⟨rfl, rfl, by rw [sub_self, map_zero, add_zero]⟩
  | cons i is ih =>
    intro t t' e h
    have ih := fun {t t' : State} {e : Equip} => @ih (fun j hj => his j (List.mem_cons_of_mem i hj)) t t' e
    unfold unload at h
    split at h
    · exact ih h
    · rename_i id level hchip
      split at h
      · rename_i m key hmod hkey
        obtain ⟨hmachines, hequip, hrows⟩ := ih h
        refine ⟨hmachines.trans update_player_attr_machines, hequip.trans update_player_attr_equip, ?_⟩
        have hi := his i List.mem_cons_self
        have hworth : (e.set i { e.slots i with chip := none }).worth cfg = e.worth cfg - m.worth cfg level := by
          rw [worth_clear hi rfl rfl, Slot.worth_some hchip hmod]
        rw [hrows, update_player_attr_rows, if_neg hi, if_neg Bool.false_ne_true, add_assoc, ← map_add, hworth,
          neg_add_eq_sub, sub_sub, sub_add_cancel]
        rfl
      · cases h

/-- **`slotpola`.** -/
theorem Rated.slotpola (h : Rated cfg s) (hhoused : Housed s) {part uniqueid typepola index : Option ℤ}
    (hok : (Chips.slotpola cfg s part uniqueid typepola index).2 = some .success) :
    Rated cfg (Chips.slotpola cfg s part uniqueid typepola index).1 := by
  unfold Chips.slotpola at hok ⊢
  cases hindex : index.bind slotindex with
  | none => exact h
  | some i =>
    simp only [hindex] at hok ⊢
    split
    · rename_i part uniqueid
      split
      · exact h
      · rename_i hmatch
        split
        · exact h
        · rename_i hprops
          split
          · exact h
          · rename_i e he
            simp only [if_neg hmatch, if_neg hprops, he] at hok
            have hpola : ∀ e₀ : Equip, ∀ j, ((e₀.set i { e₀.slots i with ispola := true, typepola := typepola
                }).slots j).chip = (e₀.slots j).chip := by
              intro e₀ j
              by_cases hj : j = i
              · subst hj
                simp [Equip.set]
              · simp [Equip.set, hj]
            split
            · exact h.same he rfl rfl rfl (hpola e)
            · rename_i hcount
              rw [if_neg hcount] at hok
              split
              · exact h
              · rename_i num hnum
                simp only [hnum] at hok
                split
                · rename_i t hunload
                  rw [hunload] at hok
                  cases hok
                · rename_i t e' hunload
                  obtain ⟨hmachines, hequip, hrows⟩ := unload_rows [0, 1, 2, 3] (by decide) hunload
                  refine h.shared hhoused
                    ⟨hmachines, he, setequip_congr hequip, ?_⟩
                  exact hrows.trans (congrArg (fun x => s.chipattribute + share s part uniqueid (x - e.worth cfg))
                    (Equip.worth_congr (hpola e')).symm)
    · exact h

/-- A chip without room is taken out. -/
theorem takenout_shared (he : s.equip (u.record % 10) (u.record / 10) = some e) (hi : i ≠ 4)
    (hworth : Counts s (u.record % 10) (u.record / 10) → u.mod.worth cfg u.level = (e.slots i).worth cfg) :
    ∃ e', Shared cfg s (takenout cfg s u e i).1 (u.record % 10) (u.record / 10) e e' := by
  refine ⟨{ e.set i (e.slots i).clear with
      currentvolume := e.currentvolume - cost u.mod u.level * (e.slots i).num u.mod },
    update_player_attr_machines, he, setequip_congr update_player_attr_equip, ?_⟩
  have hclear : ({ e.set i (e.slots i).clear with
      currentvolume := e.currentvolume - cost u.mod u.level * (e.slots i).num u.mod } : Equip).worth cfg =
        e.worth cfg - (e.slots i).worth cfg := worth_clear hi rfl rfl
  refine (update_player_attr_rows false).trans ?_
  rw [if_neg hi, if_neg Bool.false_ne_true, hclear, sub_sub_cancel_left]
  congr 1
  exact share_congr fun hcounts => by rw [hworth hcounts]

@[simp] theorem remmaterials_machines {n : ℤ} : (s.remmaterials n).machines = s.machines := by
  unfold State.remmaterials
  split <;> rfl

@[simp] theorem remmaterials_chipattribute {n : ℤ} : (s.remmaterials n).chipattribute = s.chipattribute := by
  unfold State.remmaterials
  split <;> rfl

/-- A chip is raised: the row gets what its number of new levels is worth. -/
theorem raised_shared (he : s.equip (u.record % 10) (u.record / 10) = some e) (hmod : cfg.mod u.id = some u.mod)
    (hchip : (e.slots i).chip = some (u.id, level))
    (hworth : Counts s (u.record % 10) (u.record / 10) → i ≠ 4 →
      u.mod.worth cfg (min 15 (level + u.number)) = u.mod.worth cfg level + u.mod.worth cfg u.number) :
    ∃ e', Shared cfg s (raised cfg s u e i level).1 (u.record % 10) (u.record / 10) e e' := by
  have hslots : (((e.more u.mod u.number i).set i { e.slots i with
      chip := some (u.id, min 15 (level + u.number)) }).floor).slots =
        Function.update e.slots i { e.slots i with chip := some (u.id, min 15 (level + u.number)) } := by
    simp only [Equip.floor, Equip.set, Equip.more]
    split <;> rfl
  refine ⟨_, remmaterials_machines.trans update_player_attr_machines, he,
    remmaterials_equip.trans (setequip_congr update_player_attr_equip), ?_⟩
  refine remmaterials_chipattribute.trans ((update_player_attr_rows true).trans ?_)
  refine congrArg (s.chipattribute + ·) (share_congr fun hcounts => ?_)
  by_cases hi : i = 4
  · subst hi
    rw [if_pos rfl, worth_update_fifth hslots, sub_self]
  · rw [if_neg hi, if_pos rfl, worth_update hi hslots, add_sub_cancel_left, Slot.worth_some rfl hmod,
      Slot.worth_some hchip hmod, hworth hcounts hi, add_sub_cancel_left]

/-- **`upgrade`**, also where it takes the chip out. -/
theorem Rated.upgrade (h : Rated cfg s) (hhoused : Housed s) {msg : UpgradeMsg}
    (haccounted : Accounted cfg s (.upgrade msg)) : Rated cfg (Chips.upgrade cfg s msg).1 := by
  unfold Chips.upgrade
  split
  · exact h
  · rename_i u hu
    obtain ⟨hmod, -⟩ := upgradecheck_ok hu
    split
    · rename_i hequip
      have hcounts := haccounted u hu hequip
      unfold upgradefitted
      simp only
      split
      · exact h
      · split
        · exact h
        · rename_i e he
          split
          · exact h
          · rename_i i hi
            obtain ⟨level, hchip⟩ := chip_of_chipid (find_some hi)
            split
            · exact h
            · split
              · rename_i hfull
                have hworth (hc : Counts s (u.record % 10) (u.record / 10)) :
                    u.mod.worth cfg u.level = (e.slots i).worth cfg := by
                  rw [Slot.worth_some hchip hmod]
                  exact (hcounts hc e i level he hi hfull.1 hchip).1 (by rw [Equip.free]; linarith [hfull.2])
                obtain ⟨e', hshared⟩ := takenout_shared he hfull.1 hworth
                exact h.shared hhoused hshared
              · rename_i hroom
                rw [hchip]
                obtain ⟨e', hshared⟩ := raised_shared he hmod hchip fun hc hne => by
                  have hroom := not_lt.mp fun hlt => hroom ⟨hne, hlt⟩
                  exact (hcounts hc e i level he hi hne hchip).2 (by rw [Equip.free]; linarith)
                exact h.shared hhoused hshared
    · refine h.congr ?_ ?_ ?_ <;> unfold upgradelisted <;> split <;> simp

/-! ## One request -/

theorem uninstall_machines (h : uninstall cfg s a = some (t, e)) : t.machines = s.machines := by
  unfold uninstall at h
  simp only at h
  split at h
  · cases h
    rfl
  · split at h
    · cases h
      exact update_player_attr_machines
    · cases h

theorem relisted_machines : (relistback (relistout t a.id r) a).machines = t.machines := by
  unfold relistback relistout
  split <;> split <;> rfl

theorem moved_machines : (moved cfg s a t e src r).1.machines = t.machines :=
  update_player_attr_machines.trans (update_player_attr_machines.trans relisted_machines)

theorem add_machines {msg : AddMsg} : (add cfg s msg).1.machines = s.machines := by
  unfold add
  split
  · rfl
  · split
    · rfl
    · rename_i t e hout
      have ht := uninstall_machines hout
      split
      · have hlists : ∀ a, (installed t a).machines = t.machines := fun a => by
          unfold installed
          split <;> rfl
        unfold install
        repeat' split
        all_goals first
          | rfl
          | exact update_player_attr_machines.trans ((hlists _).trans ht)
      · unfold move
        repeat' split
        all_goals first
          | rfl
          | exact moved_machines.trans ht

theorem unload_machines {machine : Option ℤ} {record : ℤ} (is : List (Fin 5)) : ∀ (s : State) (e : Equip),
    (unload cfg machine part record is s e).1.machines = s.machines := by
  induction is with
  | nil => exact fun _ _ => rfl
  | cons i is ih =>
    intro s e
    unfold unload
    split
    · exact ih s e
    · split
      · exact (ih _ _).trans update_player_attr_machines
      · rfl

theorem slotpola_machines {part uniqueid typepola index : Option ℤ} :
    (slotpola cfg s part uniqueid typepola index).1.machines = s.machines := by
  unfold slotpola
  split
  · rfl
  · split
    · rename_i part uniqueid
      repeat' split
      all_goals first
        | rfl
        | rename_i t e' hunload
          have ht := congrArg (fun x => x.1.machines) hunload
          exact ht.symm.trans (unload_machines [0, 1, 2, 3] _ _)
    · rfl

theorem upgrade_machines {msg : UpgradeMsg} : (upgrade cfg s msg).1.machines = s.machines := by
  unfold upgrade
  split
  · rfl
  · rename_i u hu
    split
    · unfold upgradefitted
      simp only
      repeat' split
      all_goals first
        | rfl
        | exact update_player_attr_machines
        | exact remmaterials_machines.trans update_player_attr_machines
    · unfold upgradelisted
      split <;> exact remmaterials_machines

theorem remove_machines {uniqueidpart id : Option ℤ} :
    (remove cfg s uniqueidpart id).1.machines = s.machines := by
  unfold remove
  simp only
  repeat' split
  all_goals first
    | rfl
    | exact update_player_attr_machines

theorem double_machines {part uniqueid : Option ℤ} : (double cfg s part uniqueid).1.machines = s.machines := by
  unfold double
  repeat' split
  all_goals rfl

/-- **The machines are the hangar's**: no request moves an equipment. -/
theorem step_machines (e : Event) : (step cfg s e).1.machines = s.machines := by
  cases e with
  | add msg => exact add_machines
  | remove uniqueidpart id => exact remove_machines
  | double part uniqueid => exact double_machines
  | slotpola part uniqueid typepola index => exact slotpola_machines
  | upgrade msg => exact upgrade_machines
  | setlockchip cfgid record isnew islock => exact setlockchip_rest.machines
  | addchip id level number => exact addchip_rest.machines
  | removechip id level number => exact removechip_rest.machines

/-- **A request that is not refused half way**: `add` and `slotpola` take the chips
of a slot off the row before their last checks. One that is refused before has changed
nothing. -/
def Carried (cfg : Config) (s : State) (e : Event) : Prop :=
  match e with
  | .add _ | .slotpola _ _ _ _ => (step cfg s e).2 = some .success ∨ (step cfg s e).1 = s
  | _ => True

/-- **Every request** that counts a chip for what it is worth keeps the rows. -/
theorem Rated.step {e : Event} (h : Rated cfg s) (hhoused : Housed s) (haccounted : Accounted cfg s e)
    (hcarried : Carried cfg s e) : Rated cfg (Chips.step cfg s e).1 := by
  cases e with
  | add msg =>
    rcases hcarried with hok | hsame
    · exact h.add hhoused haccounted hok
    · rw [hsame]
      exact h
  | remove uniqueidpart id => exact h.remove hhoused
  | double part uniqueid => exact h.double
  | slotpola part uniqueid typepola index =>
    rcases hcarried with hok | hsame
    · exact h.slotpola hhoused hok
    · rw [hsame]
      exact h
  | upgrade msg => exact h.upgrade hhoused haccounted
  | setlockchip cfgid record isnew islock => exact h.congr setlockchip_rest.machines setlockchip_rest.equip setlockchip_rest.chipattribute
  | addchip id level number => exact h.congr addchip_rest.machines addchip_rest.equip addchip_rest.chipattribute
  | removechip id level number => exact h.congr removechip_rest.machines removechip_rest.equip removechip_rest.chipattribute

/-! ## Every run -/

/-- **The rows of a player's machines** under requests, from a hangar without a
chip whose rows are empty. -/
def rows (cfg : Config) : System State Event where
  init s := Housed s ∧ (∀ x ∈ s.machines, s.chipattribute x.1 = 0) ∧
    ∀ part uniqueid e, s.equip part uniqueid = some e → ∀ i, (e.slots i).chip = none
  step s e t := t = (Chips.step cfg s e).1

theorem worthof_bare (h : ∀ part uniqueid e, equip part uniqueid = some e → ∀ i, (e.slots i).chip = none) :
    worthof cfg equip = 0 := by
  funext part uniqueid
  unfold worthof
  split
  · rfl
  · rename_i e he
    exact Finset.sum_eq_zero fun i _ => Slot.worth_none (h part uniqueid e he i.castSucc)

/-- A machine without a chip is worth nothing. -/
theorem rated_bare (hrows : ∀ x ∈ s.machines, s.chipattribute x.1 = 0)
    (hbare : ∀ part uniqueid e, s.equip part uniqueid = some e → ∀ i, (e.slots i).chip = none) : Rated cfg s := by
  intro x hx
  rw [hrows x hx, Machine.worth, worthof_bare hbare]
  exact (Finset.sum_eq_zero fun part _ => tally_eq_zero fun _ _ => rfl).symm

/-- **The row of a machine is what its chips are worth** in every run of requests
that count them so; without a chip it is zero again. -/
theorem rows_rated (cfg : Config) (s : State)
    (h : ((rows cfg).restrict fun s e => Accounted cfg s e ∧ Carried cfg s e).Reachable s) :
    Rated cfg s ∧ ((∀ part uniqueid e, s.equip part uniqueid = some e → ∀ i, (e.slots i).chip = none) →
      ∀ x ∈ s.machines, s.chipattribute x.1 = 0) := by
  have hboth : Housed s ∧ Rated cfg s := by
    refine h.invariant (P := fun s => Housed s ∧ Rated cfg s) (fun s h₀ => ?_) fun s e t hst hs => ?_
    · exact ⟨h₀.1, rated_bare h₀.2.1 h₀.2.2⟩
    · obtain ⟨rfl, haccounted, hcarried⟩ := hst
      exact ⟨hs.1.congr (step_machines e), hs.2.step hs.1 haccounted hcarried⟩
  refine ⟨hboth.2, fun hbare x hx => ?_⟩
  rw [hboth.2 x hx, Machine.worth, worthof_bare hbare]
  exact Finset.sum_eq_zero fun part _ => tally_eq_zero fun _ _ => rfl

theorem housed_newchip : Housed newchip where
  distinct := by simp [Distinct, newchip]
  once part uniqueid _ := by
    simp only [newchip, Machine.part, List.flatMap_cons, List.flatMap_nil, List.append_nil]
    split_ifs <;> simp [List.count_cons]
    split <;> omega

/-- The chip of a new player's body is in the row of the machine that has it. -/
theorem rows_rated_newchip : Rated onebody (step onebody newchip (.add fitmsg)).1 := by
  have hinit : (rows onebody).init newchip :=
    ⟨housed_newchip, fun _ _ => rfl, fun part uniqueid e he i => by rw [newchip_equip he]; rfl⟩
  have haccounted : Accounted onebody newchip (.add fitmsg) := by
    intro a r ha hr
    have hnone : ((addcheck onebody newchip fitmsg).toOption.bind Add.record) = none := by decide +kernel
    rw [ha] at hnone
    exact absurd (hr.symm.trans hnone) (by simp)
  have hcarried : Carried onebody newchip (.add fitmsg) := by
    have hreply : (step onebody newchip (.add fitmsg)).2 = some .success := by decide +kernel
    exact Or.inl hreply
  exact (rows_rated onebody _ ⟨newchip, [.add fitmsg], hinit, .cons ⟨rfl, haccounted, hcarried⟩ (.nil _)⟩).1

end Chips

end Athena
