import Athena.Chips.Fits
/-!
# Chips — a chip is fitted

`add` takes the chip that is in the slot out of it and then puts in one that is
not fitted, or one from another slot. Each part keeps the slots and the lists in
agreement; a move does so where its level is that of a chip it finds.
-/

namespace Athena

namespace Chips

variable {cfg : Config} {s t u : State} {a : Add} {e e' src : Equip} {m : Mod} {c : Chip} {i : Fin 5}
  {level part uniqueid part' uniqueid' record : ℤ} {machine : Option ℤ} {ty : Bool} {key : ℕ}

/-! ## What only the attributes see -/

@[simp] theorem update_player_attr_newchipinfo :
    (update_player_attr cfg m level part machine i ty s).newchipinfo = s.newchipinfo := by
  unfold update_player_attr
  split
  · rfl
  · split_ifs <;> rfl

@[simp] theorem update_player_attr_chipinfoarr :
    (update_player_attr cfg m level part machine i ty s).chipinfoarr = s.chipinfoarr := by
  unfold update_player_attr
  split
  · rfl
  · split_ifs <;> rfl

@[simp] theorem update_player_attr_inchipinfoarr :
    (update_player_attr cfg m level part machine i ty s).inchipinfoarr = s.inchipinfoarr := by
  unfold update_player_attr
  split
  · rfl
  · split_ifs <;> rfl

@[simp] theorem update_player_attr_equip :
    (update_player_attr cfg m level part machine i ty s).equip = s.equip := by
  unfold update_player_attr
  split
  · rfl
  · split_ifs <;> rfl

/-! ## Storing an equipment -/

theorem setequip_equip (h : s.equip part uniqueid = some e) :
    (s.setequip part uniqueid e).equip = s.equip := by
  funext p u
  by_cases hpu : p = part ∧ u = uniqueid
  · obtain ⟨rfl, rfl⟩ := hpu
    rw [setequip_self, h]
  · exact setequip_of_ne hpu

theorem setequip_congr (h : t.equip = s.equip) :
    (t.setequip part uniqueid e).equip = (s.setequip part uniqueid e).equip := by
  unfold State.setequip
  rw [h]

/-- What was stored before is written over. -/
theorem setequip_shadow :
    (((s.setequip part uniqueid e).setequip part' uniqueid' src).setequip part uniqueid e').equip =
      ((s.setequip part' uniqueid' src).setequip part uniqueid e').equip := by
  funext p u
  by_cases hpu : p = part ∧ u = uniqueid
  · obtain ⟨rfl, rfl⟩ := hpu
    rw [setequip_self, setequip_self]
  · rw [setequip_of_ne hpu, setequip_of_ne hpu]
    by_cases hpu' : p = part' ∧ u = uniqueid'
    · obtain ⟨rfl, rfl⟩ := hpu'
      rw [setequip_self, setequip_self]
    · rw [setequip_of_ne hpu', setequip_of_ne hpu', setequip_of_ne hpu]

/-- **An equipment changes, but not in its chips.** -/
theorem Fits.same (h : Fits cfg s) (hm : is_match cfg part uniqueid = true)
    (he : s.equip part uniqueid = some e)
    (hslots : ∀ j, (e'.slots j).chip = (e.slots j).chip ∧ (e'.slots j).islock = (e.slots j).islock)
    (hnew : t.newchipinfo = s.newchipinfo) (hinfo : t.chipinfoarr = s.chipinfoarr)
    (hin : t.inchipinfoarr = s.inchipinfoarr)
    (hequip : t.equip = (s.setequip part uniqueid e').equip) : Fits cfg t := by
  have hid : ∀ j, (e'.slots j).chipid = (e.slots j).chipid := fun j => by
    rw [Slot.chipid, (hslots j).1, Slot.chipid]
  have hfits : fitsum e'.slots = fitsum e.slots := by
    refine Finset.sum_congr rfl fun j _ => ?_
    rw [Slot.fits, (hslots j).1, (hslots j).2, Slot.fits]
  refine h.change hm (hnew ▸ h.newchipinfo) (hinfo ▸ h.chipinfoarr) (hin ▸ h.plain)
    (fun c hc => Or.inl (hin ▸ hc)) (fun r _ => by rw [hin]) ?_ (fun j k id hj hk => ?_) hequip
  · rw [hfits, hin]
    exact h.agree part uniqueid e hm he
  · rw [hid] at hj hk
    exact h.single part uniqueid e hm he j k id hj hk

/-! ## Out of a slot -/

theorem total_out (hc : s.inchipinfoarr[key]? = some c) (hplain : c.number = none)
    (hinfo : Numbered s.chipinfoarr) (id : ℤ) : total (s.out key) id = total s id := by
  have hout := tally_eraseIdx (f := held id) hc
  have hin : tally (held id) (add_chip c.id s.chipinfoarr c.level 1 c.islock none) =
      tally (held id) s.chipinfoarr + if c.id = id then 1 else 0 := (add_chip_spec hinfo).1 id
  simp only [total, State.out, removeto_fitted hc hplain]
  simp only [held, hplain, Option.getD_none] at hout
  omega

/-- **What is left when the slot is made empty.** -/
structure Emptied (cfg : Config) (s : State) (a : Add) (t : State) (e : Equip) : Prop where
  fits : Fits cfg (t.setequip a.part a.uniqueid e)
  total_eq : ∀ id, total t id = total s id
  equip : t.equip = s.equip
  newchipinfo : t.newchipinfo = s.newchipinfo
  slots : ∃ slot, e.slots = Function.update a.equip.slots a.index slot ∧ slot.chip = none
  chipinfoarr : ∀ (k : ℕ) (c : Chip), s.chipinfoarr[k]? = some c → ∃ d, t.chipinfoarr[k]? = some d ∧ c.Like d
  /-- A fitted chip stays in its list, but for the one that was in the slot. -/
  inchipinfoarr : ∀ c ∈ s.inchipinfoarr, c ∈ t.inchipinfoarr ∨
    (c.record = some (recordof a.part a.uniqueid) ∧ (a.equip.slots a.index).chipid = some c.id ∧
      ∃ d ∈ t.chipinfoarr, c.Like d)

theorem uninstall_spec (h : Fits cfg s) (hm : is_match cfg a.part a.uniqueid = true)
    (he : s.equip a.part a.uniqueid = some a.equip) (hu : uninstall cfg s a = some (t, e)) :
    Emptied cfg s a t e := by
  unfold uninstall at hu
  simp only at hu
  split at hu
  · rename_i hchip
    cases hu
    refine ⟨?_, fun _ => rfl, rfl, rfl, ⟨a.equip.slots a.index, ?_, hchip⟩, fun k c hc => ⟨c, hc, ?_⟩,
      fun c hc => Or.inl hc⟩
    · exact h.congr rfl rfl rfl (setequip_equip he)
    · rw [Function.update_eq_self]
    · exact ⟨rfl, rfl, rfl⟩
  · rename_i id level hchip
    split at hu
    · rename_i m key _ hkey
      obtain ⟨c, hc, rfl, hr, hlock⟩ := get_chip_inchip_some hkey
      have hplain := h.plain c (List.mem_of_getElem? hc)
      have hid : (a.equip.slots a.index).chipid = some c.id := chipid_of_chip hchip
      have hout : removeto_chip key s.inchipinfoarr s.chipinfoarr none =
          (s.inchipinfoarr.eraseIdx key, add_chip c.id s.chipinfoarr c.level 1 c.islock none) :=
        removeto_fitted hc hplain
      have hstate : s.out key = { s with
          inchipinfoarr := s.inchipinfoarr.eraseIdx key
          chipinfoarr := add_chip c.id s.chipinfoarr c.level 1 c.islock none } := by
        rw [State.out, hout]
      simp only [hstate, Option.some.injEq, Prod.mk.injEq] at hu
      obtain ⟨rfl, rfl⟩ := hu
      refine ⟨?_, fun id => ?_, by simp, by simp, ⟨_, rfl, rfl⟩, fun k d hd => ?_, fun d hd => ?_⟩
      · exact h.takeout hm he hc hr hid rfl rfl (by simpa using h.newchipinfo)
          (by simpa using add_one_spec h.chipinfoarr) (by simp)
          (setequip_congr (by simp))
      · have := total_out hc hplain h.chipinfoarr id
        simpa [total, State.out, hout] using this
      · simpa using getElem?_add_chip c.id c.level 1 c.islock hd
      · rcases mem_eraseIdx_or hc hd with hd | rfl
        · exact Or.inl (by simpa using hd)
        · exact Or.inr ⟨hr, hid, by
            simpa [Chip.Like] using mem_add_chip s.chipinfoarr d.id d.level 1 d.islock⟩
    · cases hu

/-- Without the chip in the equipment there is none in the emptied one. -/
theorem Emptied.absent (h : Emptied cfg s a t e) {id : ℤ} (hno : ∀ j, j ≠ a.index →
    (a.equip.slots j).chipid ≠ some id) : ∀ j, (e.slots j).chipid ≠ some id := by
  obtain ⟨slot, hslots, hempty⟩ := h.slots
  intro j hj
  rw [hslots] at hj
  by_cases hji : j = a.index
  · subst hji
    rw [Function.update_self, Slot.chipid, hempty] at hj
    cases hj
  · rw [Function.update_of_ne hji] at hj
    exact hno j hji hj

theorem Emptied.empty (h : Emptied cfg s a t e) : (e.slots a.index).chip = none := by
  obtain ⟨slot, hslots, hempty⟩ := h.slots
  rw [hslots, Function.update_self, hempty]

/-! ## Into a slot -/

/-- **The stored equipment has the chip in its slot.** -/
theorem fitted_equip : (fitted s a e).1.newchipinfo = s.newchipinfo ∧
    (fitted s a e).1.chipinfoarr = s.chipinfoarr ∧ (fitted s a e).1.inchipinfoarr = s.inchipinfoarr ∧
    ∃ e', (fitted s a e).1.equip = (s.setequip a.part a.uniqueid e').equip ∧
      e'.slots = Function.update e.slots a.index ((e.slots a.index).fit a.id a.level 0) :=
  ⟨rfl, rfl, rfl, _, rfl, rfl⟩

/-- Where no slot has the chip no entry does. -/
theorem Fits.absent (h : Fits cfg s) (hm : is_match cfg part uniqueid = true)
    (he : s.equip part uniqueid = some e) {id : ℤ} (hno : ∀ j, (e.slots j).chipid ≠ some id) :
    ∀ d ∈ s.inchipinfoarr, d.record = some (recordof part uniqueid) → d.id ≠ id := by
  rintro d hd hr rfl
  obtain ⟨j, hchip, -⟩ := h.slotof hm he hd hr
  exact hno j (chipid_of_chip hchip)

/-- The key of an `add` is that of the chip. -/
def Add.Found (a : Add) (s : State) : Prop :=
  ∃ c, (if a.isnew then s.newchipinfo else s.chipinfoarr)[a.key]? = some c ∧ c.id = a.id ∧
    c.level = a.level ∧ c.islock = 0

/-- **A chip that was not fitted is.** -/
theorem Emptied.install (h : Emptied cfg s a t e)
    (hm : is_match cfg a.part a.uniqueid = true) (hfound : a.Found s)
    (hno : ∀ j, (e.slots j).chipid ≠ some a.id) :
    Fits cfg (fitted (update_player_attr cfg a.mod a.level a.part machine a.index true
        (installed t a)) a e).1 ∧
      ∀ id, total (fitted (update_player_attr cfg a.mod a.level a.part machine a.index true
        (installed t a)) a e).1 id = total s id := by
  have hself : (t.setequip a.part a.uniqueid e).equip a.part a.uniqueid = some e := setequip_self
  have hnone := h.fits.absent hm hself hno
  have hequip : (installed t a).equip = t.equip := by
    unfold installed
    split <;> rfl
  obtain ⟨c, hc, hid, hlevel, hlock⟩ := hfound
  -- where the chip comes from
  have hlists : Numbered (installed t a).newchipinfo ∧ Numbered (installed t a).chipinfoarr ∧
      (installed t a).inchipinfoarr = t.inchipinfoarr ++
        [⟨a.id, a.level, 0, none, some (recordof a.part a.uniqueid)⟩] ∧
      ∀ id, tally (held id) (installed t a).newchipinfo + tally (held id) (installed t a).chipinfoarr +
        (if a.id = id then 1 else 0) = tally (held id) t.newchipinfo + tally (held id) t.chipinfoarr := by
    cases hnew : a.isnew with
    | true =>
      rw [hnew, if_pos rfl, ← h.newchipinfo] at hc
      have hnone' : ∀ d ∈ t.inchipinfoarr, d.record = some (recordof a.part a.uniqueid) →
          d.id ≠ c.id := hid ▸ hnone
      obtain ⟨hnumbered, htally⟩ := takeone_spec h.fits.newchipinfo hc t.inchipinfoarr
        (some (a.uniqueid, a.part))
      simp only [installed, hnew, if_true]
      refine ⟨hnumbered, h.fits.chipinfoarr, ?_, fun id => ?_⟩
      · rw [putin_spec hc hnone', hid, hlevel, hlock]
      · have := htally id
        rw [hid] at this
        simp only [setequip_newchipinfo] at this
        omega
    | false =>
      rw [hnew, if_neg (by simp)] at hc
      obtain ⟨d, hd, hdid, hdlevel, hdlock⟩ := h.chipinfoarr _ c hc
      have hnone' : ∀ x ∈ t.inchipinfoarr, x.record = some (recordof a.part a.uniqueid) →
          x.id ≠ d.id := by
        rw [hdid, hid]
        exact hnone
      obtain ⟨hnumbered, htally⟩ := takeone_spec h.fits.chipinfoarr hd t.inchipinfoarr
        (some (a.uniqueid, a.part))
      simp only [installed, hnew, if_false, Bool.false_eq_true]
      refine ⟨h.fits.newchipinfo, hnumbered, ?_, fun id => ?_⟩
      · rw [putin_spec hd hnone', hdid, hid, hdlevel, hlevel, hdlock, hlock]
      · have := htally id
        rw [hdid, hid] at this
        simp only [setequip_chipinfoarr] at this
        omega
  obtain ⟨hnew, hinfo, hin, htally⟩ := hlists
  obtain ⟨f1, f2, f3, e', hset, hslots⟩ := fitted_equip (a := a) (e := e)
    (s := update_player_attr cfg a.mod a.level a.part machine a.index true (installed t a))
  refine ⟨h.fits.putin hm hself h.empty hno hslots ⟨rfl, rfl⟩ ?_ ?_ ?_ ?_, fun id => ?_⟩
  · rw [f1, update_player_attr_newchipinfo]
    exact hnew
  · rw [f2, update_player_attr_chipinfoarr]
    exact hinfo
  · rw [f3, update_player_attr_inchipinfoarr, hin]
    rfl
  · rw [hset, setequip_setequip]
    exact setequip_congr (by rw [update_player_attr_equip, hequip])
  · rw [← h.total_eq id, total, total, f1, f2, f3, update_player_attr_newchipinfo,
      update_player_attr_chipinfoarr, update_player_attr_inchipinfoarr, hin, tally_append]
    have := htally id
    simp only [tally_cons, tally_nil, held, Option.getD_none]
    omega

end Chips

end Athena
