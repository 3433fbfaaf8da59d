import Athena.Chips.Requests
/-!
# Chips — requests that change an equipment

`double` and `slotpola` change the volumes and the polarity of a slot, and
`slotpola` empties the first four slots. `upgrade` raises a chip in a list, or in
its slot and its entry at once; one that has no room for its level is taken out.
-/

namespace Athena

namespace Chips

variable {cfg : Config} {s t : State} {e e' : Equip} {c : Chip} {i : Fin 5}
  {part uniqueid id level : ℤ} {key : ℕ} {u : Upgrade}

/-! ## double and slotpola -/

/-- **`double`.** -/
theorem Fits.double (h : Fits cfg s) {part uniqueid : Option ℤ} :
    Kept cfg s (.double part uniqueid) (Chips.double cfg s part uniqueid).1 := by
  have hgrant : ∀ x, granted cfg s (.double part uniqueid) x = 0 := fun _ => rfl
  have hsame : Kept cfg s (.double part uniqueid) s := h.kept_congr hgrant rfl rfl rfl rfl
  unfold Chips.double
  split
  · rename_i part uniqueid
    split
    · exact hsame
    · split
      · exact hsame
      · split
        · exact hsame
        · rename_i hm
          split
          · exact hsame
          · rename_i e he
            split
            · exact hsame
            · split
              · exact hsame
              · rename_i addnum _
                have hslots : ∀ j, (({ e with
                    isdouble := 1, volume := (e.volume - addnum) * 2 + addnum } : Equip).slots j).chip =
                      (e.slots j).chip ∧ (({ e with
                    isdouble := 1, volume := (e.volume - addnum) * 2 + addnum } : Equip).slots j).islock =
                      (e.slots j).islock := fun _ => ⟨rfl, rfl⟩
                refine ⟨?_, fun id => ?_⟩
                · exact h.same (by simpa using hm) he hslots rfl rfl rfl rfl
                · rw [hgrant, add_zero]
                  rfl
  · exact hsame

/-- **The slots that are emptied** and the list agree. -/
theorem unload_spec {machine : Option ℤ} (hm : is_match cfg part uniqueid = true) (is : List (Fin 5)) :
    ∀ {s : State} {e : Equip}, Fits cfg (s.setequip part uniqueid e) →
      unload cfg machine part (recordof part uniqueid) is s e = (t, some e') →
      Fits cfg (t.setequip part uniqueid e') ∧ ∀ id, total t id = total s id := by
  induction is with
  | nil =>
    intro s e h hu
    cases hu
    exact ⟨h, fun _ => rfl⟩
  | cons i is ih =>
    intro s e h hu
    unfold unload at hu
    split at hu
    · exact ih h hu
    · rename_i id level hchip
      split at hu
      · rename_i m key _ hkey
        obtain ⟨c, hc, rfl, hr, -⟩ := get_chip_inchip_some hkey
        have hplain := h.plain c (List.mem_of_getElem? hc)
        have hout : removeto_chip key s.inchipinfoarr s.chipinfoarr none =
            (s.inchipinfoarr.eraseIdx key, add_chip c.id s.chipinfoarr c.level 1 c.islock none) :=
          removeto_fitted hc hplain
        have hslots : (e.set i { e.slots i with chip := none }).slots =
            Function.update e.slots i { e.slots i with chip := none } := rfl
        have hnext : Fits cfg ((update_player_attr cfg m level part machine i false
            (s.out key)).setequip part uniqueid (e.set i { e.slots i with chip := none })) := by
          refine h.takeout hm setequip_self hc hr (chipid_of_chip hchip) hslots rfl ?_ ?_ ?_ ?_
          · simpa [State.out] using h.newchipinfo
          · simpa [State.out, hout] using add_one_spec h.chipinfoarr
          · simp [State.out, hout]
          · rw [setequip_setequip]
            exact setequip_congr (by simp [State.out])
        obtain ⟨hfits, htotal⟩ := ih hnext hu
        refine ⟨hfits, fun id => ?_⟩
        have := total_out hc hplain h.chipinfoarr id
        rw [htotal, ← this]
        simp [total]
      · cases hu

/-- The equipment has its chips still when a slot gets its type. -/
theorem polarised_spec (h : Fits cfg (s.setequip part uniqueid e))
    (hm : is_match cfg part uniqueid = true) (e' : Equip) (hslots : e'.slots = e.slots) (i : Fin 5)
    (typepola : Option ℤ) :
    Fits cfg (polarised s part uniqueid e' i typepola).1 ∧
      ∀ id, total (polarised s part uniqueid e' i typepola).1 id = total s id := by
  have hchips : ∀ j, (({ e'.set i { e'.slots i with ispola := true, typepola := typepola } with
        count := e'.count + 1 } : Equip).slots j).chip = (e.slots j).chip ∧
      (({ e'.set i { e'.slots i with ispola := true, typepola := typepola } with
        count := e'.count + 1 } : Equip).slots j).islock = (e.slots j).islock := by
    intro j
    rw [← hslots]
    by_cases hji : j = i
    · subst hji
      simp [Equip.set]
    · simp [Equip.set, hji]
  refine ⟨h.same hm setequip_self hchips rfl rfl rfl ?_, fun _ => rfl⟩
  rw [setequip_setequip]
  rfl

/-- **`slotpola`.** -/
theorem Fits.slotpola (h : Fits cfg s) {part uniqueid typepola index : Option ℤ} :
    Kept cfg s (.slotpola part uniqueid typepola index)
      (Chips.slotpola cfg s part uniqueid typepola index).1 := by
  have hgrant : ∀ x, granted cfg s (.slotpola part uniqueid typepola index) x = 0 := fun _ => rfl
  have hsame : Kept cfg s (.slotpola part uniqueid typepola index) s :=
    h.kept_congr hgrant rfl rfl rfl rfl
  unfold Chips.slotpola
  split
  · exact hsame
  · rename_i i _
    split
    · rename_i part uniqueid
      split
      · exact hsame
      · rename_i hm
        have hm : is_match cfg part uniqueid = true := by simpa using hm
        split
        · exact hsame
        · split
          · exact hsame
          · rename_i e he
            have hstored : Fits cfg (s.setequip part uniqueid e) :=
              h.congr rfl rfl rfl (setequip_equip he)
            split
            · obtain ⟨hfits, htotal⟩ := polarised_spec hstored hm e rfl i typepola
              exact ⟨hfits, fun id => by rw [hgrant, add_zero, htotal]⟩
            · split
              · exact hsame
              · split
                · exact h.kept_congr hgrant rfl rfl rfl rfl
                · rename_i addnum _ _ t e' hu
                  obtain ⟨hunload, hkeep⟩ := unload_spec hm [0, 1, 2, 3] hstored hu
                  obtain ⟨hfits, htotal⟩ := polarised_spec hunload hm
                    { e' with volume := cfg.Mod_Volume + addnum, currentvolume := 0 } rfl i typepola
                  exact ⟨hfits, fun id => by rw [hgrant, add_zero, htotal, hkeep]⟩
    · exact hsame

/-! ## upgrade -/

@[simp] theorem remmaterials_newchipinfo {n : ℤ} :
    (s.remmaterials n).newchipinfo = s.newchipinfo := by
  unfold State.remmaterials
  split <;> rfl

@[simp] theorem remmaterials_chipinfoarr {n : ℤ} :
    (s.remmaterials n).chipinfoarr = s.chipinfoarr := by
  unfold State.remmaterials
  split <;> rfl

@[simp] theorem remmaterials_inchipinfoarr {n : ℤ} :
    (s.remmaterials n).inchipinfoarr = s.inchipinfoarr := by
  unfold State.remmaterials
  split <;> rfl

@[simp] theorem remmaterials_equip {n : ℤ} : (s.remmaterials n).equip = s.equip := by
  unfold State.remmaterials
  split <;> rfl

/-- **What the checks of `upgrade` have found.** -/
theorem upgradecheck_ok {m : UpgradeMsg} (h : upgradecheck cfg s m = .ok u) :
    cfg.mod u.id = some u.mod ∧
      upgradekey s u.id u.level u.isequip u.isnew u.record = some u.key := by
  unfold upgradecheck at h
  simp only at h
  split at h
  · split at h
    · cases h
    · split at h
      · cases h
      · split at h
        · cases h
        · rename_i hmod
          split at h
          · cases h
          · split at h
            · cases h
            · split at h
              · cases h
              · rename_i hkey
                cases h
                exact ⟨hmod, hkey⟩
  · cases h

/-- A level counts for nothing in the totals. -/
theorem tally_relevel {l : List Chip} (h : l[key]? = some c) (id : ℤ) :
    tally (held id) (l.modify key fun c => { c with level := level }) = tally (held id) l :=
  add_right_cancel (tally_modify h)

/-- An entry with its new level. -/
theorem getElem?_relevel {l : List Chip} (h : l[key]? = some c) :
    (l.modify key fun c => { c with level := level })[key]? = some { c with level := level } := by
  rw [List.getElem?_modify, h]
  simp

/-- It goes to the other list with that level. -/
theorem removeto_relevel {l toarry : List Chip} (h : l[key]? = some c) (hplain : c.number = none) :
    removeto_chip key (l.modify key fun c => { c with level := level }) toarry none =
      (l.eraseIdx key, add_chip c.id toarry level 1 c.islock none) := by
  have hnew : ({ c with level := level } : Chip).number = none := hplain
  rw [removeto_fitted (getElem?_relevel h) hnew, eraseIdx_modify h]

/-- **A chip without room** is taken out of its slot. -/
theorem Fits.takenout (h : Fits cfg s) (hm : is_match cfg (u.record % 10) (u.record / 10) = true)
    (he : s.equip (u.record % 10) (u.record / 10) = some e) (hc : s.inchipinfoarr[u.key]? = some c)
    (hr : c.record = some u.record) (hi : (e.slots i).chipid = some c.id) :
    Fits cfg (Chips.takenout cfg s u e i).1 ∧
      ∀ id, total (Chips.takenout cfg s u e i).1 id = total s id := by
  have hplain := h.plain c (List.mem_of_getElem? hc)
  have hout : removeto_chip u.key (s.inchipinfoarr.modify u.key fun c => { c with level := u.to })
      s.chipinfoarr none =
        (s.inchipinfoarr.eraseIdx u.key, add_chip c.id s.chipinfoarr u.to 1 c.islock none) :=
    removeto_relevel hc hplain
  have hr' : c.record = some (recordof (u.record % 10) (u.record / 10)) := by rw [hr, recordof_split]
  have hslots : ({ e.set i (e.slots i).clear with
      currentvolume := e.currentvolume - cost u.mod u.level * (e.slots i).num u.mod } : Equip).slots =
        Function.update e.slots i (e.slots i).clear := rfl
  refine ⟨?_, fun id => ?_⟩
  · refine h.takeout hm he hc hr' hi hslots rfl ?_ ?_ ?_ ?_
    · simpa [Chips.takenout, State.out] using h.newchipinfo
    · simpa [Chips.takenout, State.out, hout] using add_one_spec h.chipinfoarr
    · simp [Chips.takenout, State.out, hout]
    · exact setequip_congr (by simp [State.out])
  · obtain ⟨v, hv⟩ : ∃ v, ({ s with inchipinfoarr := s.inchipinfoarr.modify u.key fun c =>
        { c with level := u.to } } : State) = v := ⟨_, rfl⟩
    have hvc : v.inchipinfoarr[u.key]? = some { c with level := u.to } := by rw [← hv]; exact getElem?_relevel hc
    have hvinfo : Numbered v.chipinfoarr := by rw [← hv]; exact h.chipinfoarr
    have hvs : total v id = total s id := by
      rw [← hv, total, tally_relevel hc]
      rfl
    rw [← hvs, ← total_out hvc hplain hvinfo id]
    simp [Chips.takenout, total, hv]

/-- **A chip is raised** in its slot and in its entry. -/
theorem Fits.raised (h : Fits cfg s) (hm : is_match cfg (u.record % 10) (u.record / 10) = true)
    (he : s.equip (u.record % 10) (u.record / 10) = some e) (hc : s.inchipinfoarr[u.key]? = some c)
    (hid : c.id = u.id) (hr : c.record = some u.record) (hi : (e.slots i).chipid = some c.id)
    (hlevel : min 15 (level + u.number) = u.to) :
    Fits cfg (Chips.raised cfg s u e i level).1 ∧
      ∀ id, total (Chips.raised cfg s u e i level).1 id = total s id := by
  have hr' : c.record = some (recordof (u.record % 10) (u.record / 10)) := by rw [hr, recordof_split]
  have hslots : (((e.more u.mod u.number i).set i
      { e.slots i with chip := some (u.id, min 15 (level + u.number)) }).floor).slots =
        Function.update e.slots i { e.slots i with chip := some (c.id, u.to) } := by
    rw [hid, ← hlevel]
    unfold Equip.more
    simp only
    split <;> rfl
  refine ⟨h.relevel hm he hc hr' hi hslots ?_ ?_ ?_ ?_, fun id => ?_⟩
  · simp [Chips.raised]
  · simp [Chips.raised]
  · simp [Chips.raised]
  · simp only [Chips.raised, remmaterials_equip]
    exact setequip_congr (by simp)
  · simp [Chips.raised, total, tally_relevel hc]

/-- One chip of an entry. -/
theorem Numbered.one {l : List Chip} (h : Numbered l) (hc : l[key]? = some c) :
    1 ≤ c.number.getD 0 := by
  obtain ⟨n, hn, hpos⟩ := h c (List.mem_of_getElem? hc)
  rw [hn, Option.getD_some]
  omega

/-- **A chip that is not fitted is raised.** -/
theorem Fits.upgradelisted (h : Fits cfg s)
    (hkey : (if u.isnew then get_chip u.id s.newchipinfo (some u.level) 0 none
      else get_chip u.id s.chipinfoarr (some u.level) 0 none) = some u.key) :
    Fits cfg (Chips.upgradelisted s u).1 ∧
      ∀ id, total (Chips.upgradelisted s u).1 id = total s id := by
  unfold Chips.upgradelisted
  split
  · rename_i hnew
    rw [if_pos hnew] at hkey
    obtain ⟨c, hc, hid, -, -⟩ := get_chip_some hkey
    obtain ⟨hnumbered, hless⟩ := remove_number_spec h.newchipinfo hc (h.newchipinfo.one hc)
    have hmore : ∀ id, tally (held id) (add_chip u.id s.chipinfoarr u.to 1 0 none) =
        tally (held id) s.chipinfoarr + if u.id = id then 1 else 0 := (add_chip_spec h.chipinfoarr).1
    refine ⟨h.lists ?_ ?_ (by simp) (by simp), fun id => ?_⟩
    · simpa using hnumbered
    · simpa using add_one_spec h.chipinfoarr
    · have := hless id
      have := hmore id
      rw [hid] at *
      simp only [total, remmaterials_newchipinfo, remmaterials_chipinfoarr, remmaterials_inchipinfoarr]
      omega
  · rename_i hnew
    rw [if_neg hnew] at hkey
    obtain ⟨c, hc, hid, -, -⟩ := get_chip_some hkey
    obtain ⟨hnumbered, hless⟩ := remove_number_spec h.chipinfoarr hc (h.chipinfoarr.one hc)
    have hmore : ∀ id, tally (held id) (add_chip u.id (remove_number s.chipinfoarr u.key 1) u.to 1 0
        none) = tally (held id) (remove_number s.chipinfoarr u.key 1) + if u.id = id then 1 else 0 :=
      (add_chip_spec hnumbered).1
    refine ⟨h.lists ?_ ?_ (by simp) (by simp), fun id => ?_⟩
    · simpa using h.newchipinfo
    · simpa using add_one_spec hnumbered
    · have := hless id
      have := hmore id
      rw [hid] at *
      simp only [total, remmaterials_newchipinfo, remmaterials_chipinfoarr, remmaterials_inchipinfoarr]
      omega

/-- **`upgrade`.** -/
theorem Fits.upgrade (h : Fits cfg s) {m : UpgradeMsg} (hsure : Sure cfg s (.upgrade m)) :
    Kept cfg s (.upgrade m) (Chips.upgrade cfg s m).1 := by
  have hgrant : ∀ x, granted cfg s (.upgrade m) x = 0 := fun _ => rfl
  have hsame : Kept cfg s (.upgrade m) s := h.kept_congr hgrant rfl rfl rfl rfl
  have hkept : ∀ x : State, (Fits cfg x ∧ ∀ id, total x id = total s id) → Kept cfg s (.upgrade m) x :=
    fun x hx => ⟨hx.1, fun id => by rw [hgrant, add_zero]; exact hx.2 id⟩
  unfold Chips.upgrade
  split
  · exact hsame
  · rename_i u hu
    obtain ⟨-, hkey⟩ := upgradecheck_ok hu
    split
    · rename_i hequip
      unfold upgradefitted
      simp only
      split
      · exact hsame
      · rename_i hm
        have hm : is_match cfg (u.record % 10) (u.record / 10) = true := by simpa using hm
        split
        · exact hsame
        · rename_i e he
          split
          · exact hsame
          · rename_i i hi
            split
            · exact hsame
            · rename_i hlt
              obtain ⟨c, hc⟩ : ∃ c, s.inchipinfoarr[u.key]? = some c :=
                ⟨_, List.getElem?_eq_getElem (by omega)⟩
              obtain ⟨⟨hid, hr⟩, hlevel⟩ := hsure u c hu hequip hc
              have hi' : (e.slots i).chipid = some c.id := hid ▸ find_some hi
              split
              · exact hkept _ (h.takenout hm he hc hr hi')
              · rename_i hroom
                split
                · exact hsame
                · rename_i id' level hchip
                  have hr' : c.record = some (recordof (u.record % 10) (u.record / 10)) := by
                    rw [hr, recordof_split]
                  obtain ⟨hslot, -⟩ := h.slot_eq hm he (List.mem_of_getElem? hc) hr' hi'
                  rw [hchip, Option.some.injEq, Prod.mk.injEq] at hslot
                  rcases hlevel with hlevel | ⟨d, j, hd, hj, hno⟩
                  · exact hkept _ (h.raised hm he hc hid hr hi' (hslot.2 ▸ hlevel))
                  · rw [he, Option.some.injEq] at hd
                    subst hd
                    rw [hi, Option.some.injEq] at hj
                    subst hj
                    exact absurd hno hroom
    · rename_i hequip
      have hequip : u.isequip = false := by simpa using hequip
      rw [hequip, upgradekey] at hkey
      exact hkept _ (h.upgradelisted hkey)

end Chips

end Athena
