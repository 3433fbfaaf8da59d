import Athena.Chips.Lists
/-!
# Chips — slots and lists

The chips in the slots of an equipment are those the list of fitted chips has
under its record. A chip that is taken out of a slot, put into one or raised in
its level keeps this when the entry for it goes, comes or is raised with it.
-/

namespace Athena

namespace Chips

variable {cfg : Config} {s t : State} {e e' : Equip} {slots : Fin 5 → Slot} {slot : Slot} {c : Chip}
  {i j : Fin 5} {id level islock part uniqueid part' uniqueid' : ℤ} {key : ℕ}

/-! ## Slots -/

/-- The chip of a slot, with its level and its lock. -/
def Slot.fits (slot : Slot) : Multiset (ℤ × ℤ × Option ℤ) :=
  match slot.chip with
  | none => 0
  | some (id, level) => {(id, level, slot.islock)}

/-- **The chips in the slots.** -/
def fitsum (slots : Fin 5 → Slot) : Multiset (ℤ × ℤ × Option ℤ) := ∑ i, (slots i).fits

/-- No chip is in two slots. -/
def Single (slots : Fin 5 → Slot) : Prop :=
  ∀ i j id, (slots i).chipid = some id → (slots j).chipid = some id → i = j

theorem fits_of_chip (h : slot.chip = some (id, level)) : slot.fits = {(id, level, slot.islock)} := by
  simp [Slot.fits, h]

theorem fits_of_none (h : slot.chip = none) : slot.fits = 0 := by simp [Slot.fits, h]

theorem chipid_of_chip (h : slot.chip = some (id, level)) : slot.chipid = some id := by
  simp [Slot.chipid, h]

theorem chip_of_chipid (h : slot.chipid = some id) : ∃ level, slot.chip = some (id, level) := by
  obtain ⟨⟨id', level⟩, hchip, rfl⟩ := Option.map_eq_some_iff.mp h
  exact ⟨level, hchip⟩

theorem fitsum_update (slots : Fin 5 → Slot) (i : Fin 5) (slot : Slot) : fitsum (Function.update slots i slot) + (slots i).fits =
    fitsum slots + slot.fits := sum_update

theorem mem_fitsum {x : ℤ × ℤ × Option ℤ} : x ∈ fitsum slots ↔
    ∃ i, (slots i).chip = some (x.1, x.2.1) ∧ (slots i).islock = x.2.2 := by
  rw [fitsum, Multiset.mem_sum]
  refine ⟨fun ⟨i, _, hx⟩ => ⟨i, ?_⟩, fun ⟨i, hchip, hlock⟩ => ⟨i, Finset.mem_univ i, ?_⟩⟩
  · unfold Slot.fits at hx
    split at hx
    · simp at hx
    · rename_i id level hchip
      rw [Multiset.mem_singleton.mp hx]
      exact ⟨hchip, rfl⟩
  · rw [fits_of_chip hchip, hlock, Multiset.mem_singleton]

/-- A slot without a chip does no harm. -/
theorem Single.clear (h : Single slots) (hslot : slot.chip = none) :
    Single (Function.update slots i slot) := by
  have hold : ∀ j id, (Function.update slots i slot j).chipid = some id → (slots j).chipid = some id := by
    intro j id hj
    by_cases hji : j = i
    · subst hji
      rw [Function.update_self, Slot.chipid, hslot] at hj
      cases hj
    · rwa [Function.update_of_ne hji] at hj
  exact fun j k id hj hk => h j k id (hold j id hj) (hold k id hk)

/-- A chip that is in no other slot does none either. -/
theorem Single.fit (h : Single slots) (hslot : slot.chipid = some id)
    (hno : ∀ j, j ≠ i → (slots j).chipid ≠ some id) : Single (Function.update slots i slot) := by
  have hnew : ∀ j, (Function.update slots i slot j).chipid = some id → j = i := by
    intro j hj
    by_contra hji
    rw [Function.update_of_ne hji] at hj
    exact hno j hji hj
  intro j k id' hj hk
  by_cases hid : id' = id
  · subst hid
    rw [hnew j hj, hnew k hk]
  · have hold : ∀ j, (Function.update slots i slot j).chipid = some id' → (slots j).chipid = some id' := by
      intro j hj
      by_cases hji : j = i
      · subst hji
        rw [Function.update_self, hslot] at hj
        exact absurd (Option.some.inj hj).symm hid
      · rwa [Function.update_of_ne hji] at hj
    exact h j k id' (hold j hj) (hold k hk)

theorem find_some (h : e.find id = some i) : (e.slots i).chipid = some id := by
  have := List.find?_some h
  simpa using this

theorem find_none (h : e.find id = none) : ∀ i, (e.slots i).chipid ≠ some id := by
  intro i hi
  have := List.find?_eq_none.mp h i (List.mem_finRange i)
  exact this (by simpa using hi)

/-- A chip that is in a slot is found there. -/
theorem Single.find (h : Single e.slots) (hi : (e.slots i).chipid = some id) : e.find id = some i := by
  cases hfind : e.find id with
  | none => exact absurd hi (find_none hfind i)
  | some j => rw [h i j id hi (find_some hfind)]

/-! ## Records -/

theorem is_match_part (h : is_match cfg part uniqueid = true) : 1 ≤ part ∧ part ≤ 4 := by
  simp only [is_match, Bool.and_eq_true, decide_eq_true_eq] at h
  exact h.1

/-- A record is of one equipment. -/
theorem recordof_inj (h : is_match cfg part uniqueid = true) (h' : is_match cfg part' uniqueid' = true)
    (heq : recordof part uniqueid = recordof part' uniqueid') : part = part' ∧ uniqueid = uniqueid' := by
  have := is_match_part h
  have := is_match_part h'
  unfold recordof at heq
  omega

theorem recordof_split (r : ℤ) : recordof (r % 10) (r / 10) = r := by
  unfold recordof
  omega

theorem split_recordof (h : is_match cfg part uniqueid = true) :
    recordof part uniqueid % 10 = part ∧ recordof part uniqueid / 10 = uniqueid := by
  have := is_match_part h
  unfold recordof
  omega

theorem setequip_self : (s.setequip part uniqueid e).equip part uniqueid = some e := by
  simp [State.setequip]

theorem setequip_of_ne (h : ¬ (part' = part ∧ uniqueid' = uniqueid)) :
    (s.setequip part uniqueid e).equip part' uniqueid' = s.equip part' uniqueid' := by
  unfold State.setequip
  by_cases hp : part' = part
  · subst hp
    have hu : uniqueid' ≠ uniqueid := fun hu => h ⟨rfl, hu⟩
    simp [hu]
  · simp [hp]

theorem setequip_setequip : (s.setequip part uniqueid e).setequip part uniqueid e' =
    s.setequip part uniqueid e' := by
  simp [State.setequip]

@[simp] theorem setequip_newchipinfo :
    (s.setequip part uniqueid e).newchipinfo = s.newchipinfo := rfl

@[simp] theorem setequip_chipinfoarr :
    (s.setequip part uniqueid e).chipinfoarr = s.chipinfoarr := rfl

@[simp] theorem setequip_inchipinfoarr :
    (s.setequip part uniqueid e).inchipinfoarr = s.inchipinfoarr := rfl

/-! ## The invariant -/

/-- **The slots and the lists agree.** -/
structure Fits (cfg : Config) (s : State) : Prop where
  newchipinfo : Numbered s.newchipinfo
  chipinfoarr : Numbered s.chipinfoarr
  plain : ∀ c ∈ s.inchipinfoarr, c.number = none
  owned : ∀ c ∈ s.inchipinfoarr, ∃ part uniqueid e, is_match cfg part uniqueid = true ∧
    s.equip part uniqueid = some e ∧ c.record = some (recordof part uniqueid)
  agree : ∀ part uniqueid e, is_match cfg part uniqueid = true → s.equip part uniqueid = some e →
    fitsum e.slots = tally (listed (recordof part uniqueid)) s.inchipinfoarr
  single : ∀ part uniqueid e, is_match cfg part uniqueid = true → s.equip part uniqueid = some e →
    Single e.slots

/-- **The chips of an id** in all three lists. -/
def total (s : State) (id : ℤ) : ℤ :=
  tally (held id) s.newchipinfo + tally (held id) s.chipinfoarr + tally (held id) s.inchipinfoarr

/-- **One equipment changes**, and the entries under its record. -/
theorem Fits.change (h : Fits cfg s) (hm : is_match cfg part uniqueid = true)
    (hnew : Numbered t.newchipinfo) (hinfo : Numbered t.chipinfoarr)
    (hplain : ∀ c ∈ t.inchipinfoarr, c.number = none)
    (howned : ∀ c ∈ t.inchipinfoarr, c ∈ s.inchipinfoarr ∨ c.record = some (recordof part uniqueid))
    (hother : ∀ r, r ≠ recordof part uniqueid →
      tally (listed r) t.inchipinfoarr = tally (listed r) s.inchipinfoarr)
    (hagree : fitsum e'.slots = tally (listed (recordof part uniqueid)) t.inchipinfoarr)
    (hsingle : Single e'.slots) (hequip : t.equip = (s.setequip part uniqueid e').equip) :
    Fits cfg t := by
  have hself : t.equip part uniqueid = some e' := by rw [hequip, setequip_self]
  have hne : ∀ p u, ¬ (p = part ∧ u = uniqueid) → t.equip p u = s.equip p u := fun p u hpu => by
    rw [hequip, setequip_of_ne hpu]
  refine ⟨hnew, hinfo, hplain, fun c hc => ?_, fun p u d hpm hd => ?_, fun p u d hpm hd => ?_⟩
  · rcases howned c hc with hc | hr
    · obtain ⟨p, u, d, hpm, hd, hr⟩ := h.owned c hc
      by_cases hpu : p = part ∧ u = uniqueid
      · exact ⟨part, uniqueid, e', hm, hself, by rw [hr, hpu.1, hpu.2]⟩
      · exact ⟨p, u, d, hpm, (hne p u hpu).trans hd, hr⟩
    · exact ⟨part, uniqueid, e', hm, hself, hr⟩
  · by_cases hpu : p = part ∧ u = uniqueid
    · obtain ⟨rfl, rfl⟩ := hpu
      rw [← Option.some.inj (hself.symm.trans hd)]
      exact hagree
    · have hr : recordof p u ≠ recordof part uniqueid := fun heq => hpu (recordof_inj hpm hm heq)
      rw [hother _ hr]
      exact h.agree p u d hpm ((hne p u hpu).symm.trans hd)
  · by_cases hpu : p = part ∧ u = uniqueid
    · obtain ⟨rfl, rfl⟩ := hpu
      rw [← Option.some.inj (hself.symm.trans hd)]
      exact hsingle
    · exact h.single p u d hpm ((hne p u hpu).symm.trans hd)

/-- Chips that are not fitted may come and go. -/
theorem Fits.lists (h : Fits cfg s) (hnew : Numbered t.newchipinfo) (hinfo : Numbered t.chipinfoarr)
    (hin : t.inchipinfoarr = s.inchipinfoarr) (hequip : t.equip = s.equip) : Fits cfg t where
  newchipinfo := hnew
  chipinfoarr := hinfo
  plain := hin ▸ h.plain
  owned := by
    rw [hin, hequip]
    exact h.owned
  agree := by
    rw [hin, hequip]
    exact h.agree
  single := by
    rw [hequip]
    exact h.single

/-- The lists and the equipment are all that matters. -/
theorem Fits.congr (h : Fits cfg s) (hnew : t.newchipinfo = s.newchipinfo)
    (hinfo : t.chipinfoarr = s.chipinfoarr) (hin : t.inchipinfoarr = s.inchipinfoarr)
    (hequip : t.equip = s.equip) : Fits cfg t :=
  h.lists (hnew ▸ h.newchipinfo) (hinfo ▸ h.chipinfoarr) hin hequip

/-- The slot of an entry. -/
theorem Fits.slotof (h : Fits cfg s) (hm : is_match cfg part uniqueid = true)
    (he : s.equip part uniqueid = some e) (hc : c ∈ s.inchipinfoarr)
    (hr : c.record = some (recordof part uniqueid)) :
    ∃ i, (e.slots i).chip = some (c.id, c.level) ∧ (e.slots i).islock = some c.islock := by
  have hmem : (c.id, c.level, some c.islock) ∈ fitsum e.slots := by
    rw [h.agree part uniqueid e hm he, mem_listed]
    exact ⟨c, hc, hr, rfl⟩
  exact mem_fitsum.mp hmem

/-- **The entry and the slot of a chip** are of the same chip. -/
theorem Fits.slot_eq (h : Fits cfg s) (hm : is_match cfg part uniqueid = true)
    (he : s.equip part uniqueid = some e) (hc : c ∈ s.inchipinfoarr)
    (hr : c.record = some (recordof part uniqueid)) (hi : (e.slots i).chipid = some c.id) :
    (e.slots i).chip = some (c.id, c.level) ∧ (e.slots i).islock = some c.islock := by
  obtain ⟨j, hchip, hlock⟩ := h.slotof hm he hc hr
  obtain rfl := h.single part uniqueid e hm he j i c.id (chipid_of_chip hchip) hi
  exact ⟨hchip, hlock⟩

/-- **A chip is taken out of its slot.** -/
theorem Fits.takeout (h : Fits cfg s) (hm : is_match cfg part uniqueid = true)
    (he : s.equip part uniqueid = some e) (hc : s.inchipinfoarr[key]? = some c)
    (hr : c.record = some (recordof part uniqueid)) (hi : (e.slots i).chipid = some c.id)
    (hslots : e'.slots = Function.update e.slots i slot) (hempty : slot.chip = none)
    (hnew : Numbered t.newchipinfo) (hinfo : Numbered t.chipinfoarr)
    (hin : t.inchipinfoarr = s.inchipinfoarr.eraseIdx key)
    (hequip : t.equip = (s.setequip part uniqueid e').equip) : Fits cfg t := by
  obtain ⟨hchip, hlock⟩ := h.slot_eq hm he (List.mem_of_getElem? hc) hr hi
  have htally : ∀ r, tally (listed r) t.inchipinfoarr + listed r c =
      tally (listed r) s.inchipinfoarr := fun r => by
    rw [hin]
    exact tally_eraseIdx hc
  refine h.change hm hnew hinfo (fun d hd => ?_) (fun d hd => ?_) (fun r hne => ?_) ?_ ?_ hequip
  · rw [hin] at hd
    exact h.plain d (List.mem_of_mem_eraseIdx hd)
  · rw [hin] at hd
    exact Or.inl (List.mem_of_mem_eraseIdx hd)
  · have := htally r
    rw [listed, hr, if_neg (fun heq => hne (Option.some.inj heq).symm), add_zero] at this
    exact this
  · have hold := h.agree part uniqueid e hm he
    have hslot := fitsum_update e.slots i slot
    rw [fits_of_none hempty, add_zero, fits_of_chip hchip, hlock, hold, ← htally, listed, if_pos hr] at hslot
    rw [hslots]
    exact add_right_cancel hslot
  · rw [hslots]
    exact (h.single part uniqueid e hm he).clear hempty

/-- **A chip is put into an empty slot.** -/
theorem Fits.putin (h : Fits cfg s) (hm : is_match cfg part uniqueid = true)
    (he : s.equip part uniqueid = some e) (hempty : (e.slots i).chip = none)
    (hno : ∀ j, (e.slots j).chipid ≠ some id)
    (hslots : e'.slots = Function.update e.slots i slot)
    (hfits : slot.chip = some (id, level) ∧ slot.islock = some islock)
    (hnew : Numbered t.newchipinfo) (hinfo : Numbered t.chipinfoarr)
    (hin : t.inchipinfoarr =
      s.inchipinfoarr ++ [⟨id, level, islock, none, some (recordof part uniqueid)⟩])
    (hequip : t.equip = (s.setequip part uniqueid e').equip) : Fits cfg t := by
  obtain ⟨hchip, hlock⟩ := hfits
  refine h.change hm hnew hinfo (fun d hd => ?_) (fun d hd => ?_) (fun r hne => ?_) ?_ ?_ hequip
  · rw [hin] at hd
    rcases List.mem_append.mp hd with hd | hd
    · exact h.plain d hd
    · rw [List.mem_singleton.mp hd]
  · rw [hin] at hd
    rcases List.mem_append.mp hd with hd | hd
    · exact Or.inl hd
    · rw [List.mem_singleton.mp hd]
      exact Or.inr rfl
  · rw [hin, tally_append]
    simp [listed, hne.symm]
  · have hold := h.agree part uniqueid e hm he
    have hslot := fitsum_update e.slots i slot
    rw [fits_of_none hempty, add_zero, fits_of_chip hchip, hlock, hold] at hslot
    rw [hslots, hslot, hin, tally_append]
    simp [listed]
  · rw [hslots]
    exact (h.single part uniqueid e hm he).fit (chipid_of_chip hchip) fun j _ => hno j

/-- **A chip gets another level**, in its slot and in its entry. -/
theorem Fits.relevel (h : Fits cfg s) (hm : is_match cfg part uniqueid = true)
    (he : s.equip part uniqueid = some e) (hc : s.inchipinfoarr[key]? = some c)
    (hr : c.record = some (recordof part uniqueid)) (hi : (e.slots i).chipid = some c.id)
    (hslots : e'.slots = Function.update e.slots i { e.slots i with chip := some (c.id, level) })
    (hnew : t.newchipinfo = s.newchipinfo) (hinfo : t.chipinfoarr = s.chipinfoarr)
    (hin : t.inchipinfoarr = s.inchipinfoarr.modify key fun c => { c with level := level })
    (hequip : t.equip = (s.setequip part uniqueid e').equip) : Fits cfg t := by
  obtain ⟨hchip, hlock⟩ := h.slot_eq hm he (List.mem_of_getElem? hc) hr hi
  have htally : ∀ r, tally (listed r) t.inchipinfoarr + listed r c =
      tally (listed r) s.inchipinfoarr + listed r { c with level := level } := fun r => by
    rw [hin]
    exact tally_modify hc
  have hmem : ∀ d ∈ t.inchipinfoarr, d ∈ s.inchipinfoarr ∨ d = { c with level := level } := by
    intro d hd
    rw [hin] at hd
    exact mem_modify hc hd
  refine h.change hm (hnew ▸ h.newchipinfo) (hinfo ▸ h.chipinfoarr) (fun d hd => ?_) (fun d hd => ?_)
    (fun r hne => ?_) ?_ ?_ hequip
  · rcases hmem d hd with hd | rfl
    · exact h.plain d hd
    · exact h.plain c (List.mem_of_getElem? hc)
  · rcases hmem d hd with hd | rfl
    · exact Or.inl hd
    · exact Or.inr hr
  · have := htally r
    have hzero : c.record ≠ some r := by
      rw [hr]
      exact fun heq => hne (Option.some.inj heq).symm
    rw [listed, listed, if_neg hzero, if_neg hzero, add_zero, add_zero] at this
    exact this
  · have hold := h.agree part uniqueid e hm he
    have hslot := fitsum_update e.slots i { e.slots i with chip := some (c.id, level) }
    have hnewslot : Slot.fits { e.slots i with chip := some (c.id, level) } =
        {(c.id, level, some c.islock)} := by
      rw [← hlock]
      exact fits_of_chip rfl
    have hthis := htally (recordof part uniqueid)
    rw [listed, listed, if_pos hr, if_pos hr] at hthis
    rw [hnewslot, fits_of_chip hchip, hlock, hold] at hslot
    rw [hslots]
    exact add_right_cancel (hslot.trans hthis.symm)
  · rw [hslots]
    have hid : Slot.chipid { e.slots i with chip := some (c.id, level) } = some c.id := rfl
    refine (h.single part uniqueid e hm he).fit hid fun j hj hjc => ?_
    exact hj (h.single part uniqueid e hm he j i c.id hjc hi)

end Chips

end Athena
