import Athena.Chips.Requests
import Mathlib.Algebra.Order.BigOperators.Group.Finset
/-!
# Chips — the volume of an equipment

What the chips in the first four slots take is a sum of whole numbers, and the
volume that is taken is this sum. A chip that is put in, taken out or raised
moves both alike.
-/

namespace Athena

namespace Chips

variable {cfg : Config} {s t : State} {a : Add} {e e' : Equip} {m : Mod} {slots : Fin 5 → Slot} {slot : Slot}
  {i : Fin 5} {id level part uniqueid : ℤ} {x y : ℚ}

/-- A number without a fraction, from zero. -/
def Whole (x : ℚ) : Prop := ∃ n : ℕ, (n : ℚ) = x

/-- **What the chip in a slot takes.** -/
def slotcost (cfg : Config) (slot : Slot) : ℚ :=
  match slot.chip with
  | none => 0
  | some (id, level) =>
    match cfg.mod id with
    | none => 0
    | some m => cost m level * slot.num m

/-- **What the chips in the first four slots take.** -/
def used (cfg : Config) (slots : Fin 5 → Slot) : ℚ := ∑ i : Fin 4, slotcost cfg (slots i.castSucc)

theorem Whole.nonneg (h : Whole x) : 0 ≤ x := by
  obtain ⟨n, rfl⟩ := h
  exact n.cast_nonneg

theorem Whole.floor_eq (h : Whole x) : ((⌊x⌋ : ℤ) : ℚ) = x := by
  obtain ⟨n, rfl⟩ := h
  rw [Int.floor_natCast, Int.cast_natCast]

theorem whole_zero : Whole 0 := ⟨0, Nat.cast_zero⟩

theorem Whole.add (h : Whole x) (h' : Whole y) : Whole (x + y) := by
  obtain ⟨n, rfl⟩ := h
  obtain ⟨k, rfl⟩ := h'
  exact ⟨n + k, Nat.cast_add n k⟩

theorem Whole.sum {ι : Type*} {f : ι → ℚ} (u : Finset ι) (h : ∀ i, Whole (f i)) : Whole (∑ i ∈ u, f i) :=
  Finset.sum_induction f Whole (fun _ _ => Whole.add) whole_zero fun i _ => h i

/-! ## Slots -/

theorem slotcost_none (h : slot.chip = none) : slotcost cfg slot = 0 := by simp [slotcost, h]

theorem slotcost_some (h : slot.chip = some (id, level)) (hmod : cfg.mod id = some m) :
    slotcost cfg slot = cost m level * slot.num m := by simp [slotcost, h, hmod]

/-- A slot changes among the first four. -/
theorem used_update (hi : i ≠ 4) (slots : Fin 5 → Slot) (slot : Slot) :
    used cfg (Function.update slots i slot) + slotcost cfg (slots i) =
      used cfg slots + slotcost cfg slot := by
  obtain ⟨j, rfl⟩ := Fin.exists_castSucc_eq.mpr hi
  have hcomp : ∀ k : Fin 4, Function.update slots j.castSucc slot k.castSucc =
      Function.update (fun k : Fin 4 => slots k.castSucc) j slot k := fun k => by
    by_cases hk : k = j
    · subst hk
      rw [Function.update_self, Function.update_self]
    · rw [Function.update_of_ne (fun h => hk (Fin.castSucc_injective 4 h)), Function.update_of_ne hk]
  simp only [used, hcomp]
  exact sum_update

/-! ## Equipment -/

/-- **The volume that is taken is what the chips take**, in whole numbers and no more
than there is. -/
structure Sized (cfg : Config) (e : Equip) : Prop where
  whole : ∀ i, i ≠ 4 → Whole (slotcost cfg (e.slots i))
  fifth : (e.slots 4).chip = none
  current : e.currentvolume = used cfg e.slots
  volume : Whole e.volume
  room : e.currentvolume ≤ e.volume

theorem Sized.whole_used (h : Sized cfg e) : Whole (used cfg e.slots) :=
  Whole.sum Finset.univ fun i => h.whole _ (Fin.castSucc_ne_last i)

theorem Sized.current_whole (h : Sized cfg e) : Whole e.currentvolume := h.current ▸ h.whole_used

/-- Nothing is lost when the volumes are stored. -/
theorem Sized.floor_eq (h : Sized cfg e) : e.floor = e := by
  rw [Equip.floor, h.volume.floor_eq, h.current_whole.floor_eq]

/-- **A slot of the first four changes**, and the volume by what it does. -/
theorem Sized.change (h : Sized cfg e) (hi : i ≠ 4) (hslots : e'.slots = Function.update e.slots i slot)
    (hwhole : Whole (slotcost cfg slot))
    (hcurrent : e'.currentvolume + slotcost cfg (e.slots i) = e.currentvolume + slotcost cfg slot)
    (hvolume : Whole e'.volume) (hroom : e'.currentvolume ≤ e'.volume) : Sized cfg e' where
  whole j hj := by
    rw [hslots]
    by_cases hji : j = i
    · subst hji
      rw [Function.update_self]
      exact hwhole
    · rw [Function.update_of_ne hji]
      exact h.whole j hj
  fifth := by
    rw [hslots, Function.update_of_ne hi.symm]
    exact h.fifth
  current := by
    have hused : used cfg (Function.update e.slots i slot) + slotcost cfg (e.slots i) =
        used cfg e.slots + slotcost cfg slot := used_update hi e.slots slot
    rw [hslots]
    rw [h.current, ← hused] at hcurrent
    exact add_right_cancel hcurrent
  volume := hvolume
  room := hroom

/-- **A chip goes out of its slot.** -/
theorem Sized.out (h : Sized cfg e) (hi : i ≠ 4) (hslot : slot.chip = none)
    (hslots : e'.slots = Function.update e.slots i slot) (hvolume : e'.volume = e.volume)
    (hcurrent : e'.currentvolume = e.currentvolume - slotcost cfg (e.slots i)) : Sized cfg e' := by
  have hzero : slotcost cfg slot = 0 := slotcost_none hslot
  have hnonneg := (h.whole i hi).nonneg
  have hroom := h.room
  refine h.change hi hslots (hzero ▸ whole_zero) ?_ (hvolume ▸ h.volume) ?_
  · rw [hzero, hcurrent, sub_add_cancel, add_zero]
  · rw [hvolume, hcurrent]
    linarith

/-- **A chip comes into an empty slot.** -/
theorem Sized.into (h : Sized cfg e) (hi : i ≠ 4) (hempty : (e.slots i).chip = none)
    (hslots : e'.slots = Function.update e.slots i slot) (hwhole : Whole (slotcost cfg slot))
    (hvolume : e'.volume = e.volume) (hcurrent : e'.currentvolume = e.currentvolume + slotcost cfg slot)
    (hroom : slotcost cfg slot ≤ e.volume - e.currentvolume) : Sized cfg e' := by
  refine h.change hi hslots hwhole ?_ (hvolume ▸ h.volume) ?_
  · rw [slotcost_none hempty, hcurrent, add_zero]
  · rw [hvolume, hcurrent]
    linarith

/-- **Every equipment is sized.** -/
def Allsized (cfg : Config) (s : State) : Prop :=
  ∀ part uniqueid e, s.equip part uniqueid = some e → Sized cfg e

theorem Allsized.congr (h : Allsized cfg s) (hequip : t.equip = s.equip) : Allsized cfg t := by
  rw [Allsized, hequip]
  exact h

theorem Allsized.setequip (h : Allsized cfg s) (he : Sized cfg e)
    (hequip : t.equip = (s.setequip part uniqueid e).equip) : Allsized cfg t := by
  intro p u d hd
  rw [hequip] at hd
  by_cases hpu : p = part ∧ u = uniqueid
  · obtain ⟨rfl, rfl⟩ := hpu
    rw [setequip_self, Option.some.injEq] at hd
    exact hd ▸ he
  · rw [setequip_of_ne hpu] at hd
    exact h p u d hd

end Chips

end Athena
