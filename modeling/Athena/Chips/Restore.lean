import Athena.Chips.Capacity
import Athena.Chips.Run
/-!
# Chips — volumes over a run

In every run of requests that count a chip for what it takes, the volume that is
taken is what the chips take and no more than there is, and a chip that is put into
an empty slot and taken out again leaves the volumes as they were.
-/

namespace Athena

namespace Chips

variable {cfg : Config} {s t : State} {a : Add} {e : Equip} {i : Fin 5} {r id id' level : ℤ} {m : Mod}

/-- **A chip goes in and out again**: the volumes are those before. -/
def Restores (cfg : Config) (s : State) (m : AddMsg) : Prop :=
  ∀ a, addcheck cfg s m = .ok a → a.record = none → (a.equip.slots a.index).chip = none →
    (step cfg s (.add m)).2 = some .success →
    (step cfg (step cfg s (.add m)).1 (.remove m.uniqueidpart m.id)).2 = some .success →
    ∃ e, (step cfg (step cfg s (.add m)).1 (.remove m.uniqueidpart m.id)).1.equip a.part a.uniqueid =
      some e ∧ e.volume = a.equip.volume ∧ e.currentvolume = a.equip.currentvolume

/-- What `remove` stores when it goes well. -/
theorem remove_equip (h : (remove cfg t (some r) (some id)).2 = some .success)
    (he : t.equip (r % 10) (r / 10) = some e) (hi : e.find id = some i) (hmod : cfg.mod id = some m)
    (hchip : (e.slots i).chip = some (id', level)) :
    (remove cfg t (some r) (some id)).1.equip (r % 10) (r / 10) =
      some ((e.without m level i).set i (e.slots i).clear) := by
  unfold remove at h ⊢
  simp only at h ⊢
  split
  · rename_i hm
    rw [if_pos hm] at h
    cases h
  · rename_i hm
    rw [if_neg hm] at h
    split
    · rename_i hkey
      rw [hkey] at h
      cases h
    · simp only [he, hi, hmod, hchip]
      exact setequip_self

/-- What a fitted chip is found in. -/
theorem puton_find (hno : chip_isrepeat e a.id = false) : (e.puton a).find a.id = some a.index := by
  rw [chip_isrepeat, Option.isSome_eq_false_iff, Option.isNone_iff_eq_none] at hno
  have hslot : ((e.puton a).slots a.index).chipid = some a.id := by
    simp [Equip.puton, Equip.set, Slot.chipid, Slot.fit]
  have hother : ∀ j, ((e.puton a).slots j).chipid = some a.id → j = a.index := by
    intro j hj
    by_contra hne
    have hold : ((e.puton a).slots j) = e.slots j := by simp [Equip.puton, Equip.set, hne]
    rw [hold] at hj
    exact find_none hno j hj
  cases hfind : (e.puton a).find a.id with
  | none => exact absurd hslot (find_none hfind a.index)
  | some j => rw [hother j (find_some hfind)]

/-- What an installation that goes well has checked and stored. -/
theorem install_success (h : (install cfg s a s e).2 = some .success) :
    cost a.mod a.level * (e.slots a.index).num a.mod ≤ e.free ∧ chip_isrepeat a.equip a.id = false ∧
      ∃ t : State, t.equip = s.equip ∧ install cfg s a s e = fitted t a e := by
  unfold install at h ⊢
  split at h
  · cases h
  · rename_i hroom
    rw [if_neg hroom]
    split at h
    · cases h
    · rename_i ind hind
      split at h
      · cases h
      · rename_i hskill
        split at h
        · cases h
        · rename_i hrepeat
          refine ⟨not_lt.mp hroom, by simpa using hrepeat, update_player_attr cfg a.mod a.level a.part
            (find_equip_index s a.part a.uniqueid) a.index true (installed s a), ?_, ?_⟩
          · rw [update_player_attr_equip, installed_equip]
          · simp only [if_neg hskill, if_neg hrepeat]

/-- **Nothing is lost by a chip that goes in and out again.** -/
theorem Allsized.restores (h : Allsized cfg s) {m : AddMsg} (hexact : Exact cfg s (.add m)) :
    Restores cfg s m := by
  intro a ha hrecord hempty hadd hremove
  have hcheck := addcheck_ok ha
  have hsized : Sized cfg a.equip := h _ _ _ hcheck.equip
  have hcleared : a.cleared cfg = a.equip := by simp [Add.cleared, Equip.emptied, hempty]
  have hun : uninstall cfg s a = some (s, a.equip) := by simp [uninstall, hempty]
  have hstep : Chips.step cfg s (.add m) = Chips.install cfg s a s a.equip := by
    simp only [Chips.step, Chips.add, ha, hun, hrecord]
  rw [hstep] at hadd hremove ⊢
  obtain ⟨hroom, hrepeat, t, ht, heq⟩ := install_success hadd
  have hwhole := (hexact a ha).1 hrecord (hcleared ▸ hroom)
  have hput : Sized cfg (a.equip.puton a) := hsized.puton hcheck.index hcheck.mod hempty hwhole hroom
  rw [heq, hput.fitted_eq] at hremove ⊢
  rw [hcheck.uniqueidpart, hcheck.id] at hremove ⊢
  obtain ⟨hp, hu⟩ := split_recordof hcheck.owned
  have hchip : ((a.equip.puton a).slots a.index).chip = some (a.id, a.level) := by
    simp [Equip.puton, Equip.set, Slot.fit]
  have hnum : ((a.equip.puton a).slots a.index).num a.mod = (a.equip.slots a.index).num a.mod := by
    simp [Equip.puton, Equip.set, fit_num]
  have hfound := remove_equip (t := t.setequip a.part a.uniqueid (a.equip.puton a)) hremove
    (by rw [hp, hu]; exact setequip_self) (puton_find hrepeat) hcheck.mod hchip
  rw [hp, hu] at hfound
  refine ⟨_, hfound, ?_, ?_⟩
  · rw [without_eq hcheck.index]
    rfl
  · rw [without_eq hcheck.index, hnum]
    simp [Equip.puton, Equip.set]

/-- **The chips of a player**, from any state whose equipment is sized. -/
def sizes (cfg : Config) : System State Event where
  init := Allsized cfg
  step s e t := t = (step cfg s e).1

/-- What is said of the volumes of a state. -/
def Fair (cfg : Config) (s : State) : Prop :=
  ∀ part uniqueid e, s.equip part uniqueid = some e →
    e.currentvolume = used cfg e.slots ∧ 0 ≤ e.currentvolume ∧ e.currentvolume ≤ e.volume

theorem Allsized.fair (h : Allsized cfg s) : Fair cfg s := fun part uniqueid e he =>
  have hsized := h part uniqueid e he
  ⟨hsized.current, hsized.current_whole.nonneg, hsized.room⟩

/-- **The volume that is taken is what the chips take**, in every run of requests that
count a chip for what it takes. -/
theorem volumes_exact (cfg : Config) (s : State) (h : ((sizes cfg).restrict (Exact cfg)).Reachable s) :
    Fair cfg s ∧ ∀ m, Exact cfg s (.add m) → Restores cfg s m := by
  have hsized : Allsized cfg s := by
    refine h.invariant (P := Allsized cfg) (fun _ h₀ => h₀) fun s e t hst hs => ?_
    have heq : t = (step cfg s e).1 := hst.1
    rw [heq]
    exact hs.step hst.2
  exact ⟨hsized.fair, fun m hexact => hsized.restores hexact⟩

/-- A body as it is made is sized. -/
theorem sized_newchip : Allsized onebody newchip := by
  intro part uniqueid e he
  rw [newchip_equip he]
  exact .of_empty (fun _ => rfl) ⟨4, by norm_num [bare]⟩ rfl

theorem exact_fitmsg : Exact onebody newchip (.add fitmsg) := by
  intro a ha
  have hsome : ((addcheck onebody newchip fitmsg).toOption.map fun a => (a.takes, a.record)) =
      some (2, none) := by decide +kernel
  rw [ha] at hsome
  obtain ⟨htakes, hrecord⟩ := Prod.mk.inj (Option.some.inj hsome)
  refine ⟨fun _ _ => ⟨2, by rw [htakes]; norm_num⟩, fun r src hr => ?_⟩
  rw [hrecord] at hr
  cases hr

/-- A chip that is fitted. -/
theorem volumes_exact_fitted : Restores onebody newchip fitmsg ∧
    ∃ s, ((s.equip 2 1).map Equip.currentvolume) = some 2 ∧ Fair onebody s := by
  have hreach : ((sizes onebody).restrict (Exact onebody)).Reachable onechip :=
    ⟨newchip, [.add fitmsg], sized_newchip, .cons ⟨rfl, exact_fitmsg⟩ (.nil _)⟩
  exact ⟨(volumes_exact onebody newchip (.of_init sized_newchip)).2 fitmsg exact_fitmsg, onechip,
    by decide +kernel, (volumes_exact onebody onechip hreach).1⟩

/-- **A chip that is moved with another level** takes what its own level took. -/
theorem volumes_exact_moved : ¬ ∀ (cfg : Config) (s : State), (sizes cfg).Reachable s →
    Fair cfg s ∧ ∀ m, Restores cfg s m := by
  intro h
  obtain ⟨t, ht⟩ : ∃ t, (step onebody onechip (.add movemsg)).1 = t := ⟨_, rfl⟩
  have hreach : (sizes onebody).Reachable t :=
    ⟨newchip, [.add fitmsg, .add movemsg], sized_newchip, .cons rfl (.cons ht.symm (.nil _))⟩
  have hvolumes : ((t.equip 2 1).map fun e => (e.currentvolume, used onebody e.slots)) =
      some (2, 6) := by
    rw [← ht]
    decide +kernel
  obtain ⟨e, he, hpair⟩ := Option.map_eq_some_iff.mp hvolumes
  obtain ⟨hcurrent, hused⟩ := Prod.mk.inj hpair
  have heq := ((h onebody t hreach).1 2 1 e he).1
  rw [hcurrent, hused] at heq
  norm_num at heq

end Chips

end Athena
