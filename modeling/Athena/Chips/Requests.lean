import Athena.Chips.Move
/-!
# Chips — what each request does

Each request that goes right keeps the slots and the lists in agreement. The
chips of an id stay as many as they were, but for those that `addchip` grants
and `removechip` removes.
-/

namespace Athena

namespace Chips

variable {cfg : Config} {s t u : State} {a : Add} {e e' src : Equip} {c d : Chip} {i : Fin 5}
  {part uniqueid r id level : ℤ} {key : ℕ}

/-! ## Where it goes right -/

/-- The chips `addchip` grants and `removechip` removes. -/
def granted (cfg : Config) (s : State) : Event → ℤ → ℤ
  | .addchip (some i) (some _) (some n), id => if (cfg.mod i).isSome ∧ i = id then n else 0
  | .removechip (some i) (some level) (some n), id =>
    if (removechip s (some i) (some level) (some n)).2 = some .success ∧ i = id then -n else 0
  | _, _ => 0

/-- **The requests that go right.** A chip is moved from a record that has it, with
its own level or that of another one in the list; a fitted chip is upgraded by
its own entry, to the level its slot comes to, or has no room; no locked chip is
unlocked in its slot; and what `addchip` adds to is positive and gets the whole
number. -/
def Sure (cfg : Config) (s : State) : Event → Prop
  | .add m => ∀ a r, addcheck cfg s m = .ok a → a.record = some r →
      ∃ c ∈ s.inchipinfoarr, c.id = a.id ∧ c.record = some r ∧ c.islock = 0 ∧
        (c.level = a.level ∨ Has s.chipinfoarr a.id a.level)
  | .upgrade m => ∀ u c, upgradecheck cfg s m = .ok u → u.isequip = true →
      s.inchipinfoarr[u.key]? = some c → (c.id = u.id ∧ c.record = some u.record) ∧
        (min 15 (c.level + u.number) = u.to ∨ Noroom s u)
  | .setlockchip (some cfgid) (some record) _ _ =>
    get_chip cfgid s.inchipinfoarr none 1 (some (record / 10, record % 10)) = none
  | .addchip (some id) (some level) (some n) =>
    if (get_chip id s.chipinfoarr (some level) 0 none).isSome then n = 1
    else 0 < standing s.newchipinfo id level 0 + n
  | _ => True

/-- The slots and the lists agree, and a step changes the totals by what it grants. -/
def Kept (cfg : Config) (s : State) (e : Event) (t : State) : Prop :=
  Fits cfg t ∧ ∀ id, total t id = total s id + granted cfg s e id

theorem Fits.kept_congr {e : Event} (h : Fits cfg s) (hgrant : ∀ id, granted cfg s e id = 0)
    (hnew : t.newchipinfo = s.newchipinfo) (hinfo : t.chipinfoarr = s.chipinfoarr)
    (hin : t.inchipinfoarr = s.inchipinfoarr) (hequip : t.equip = s.equip) : Kept cfg s e t :=
  ⟨h.congr hnew hinfo hin hequip, fun id => by rw [hgrant, total, total, hnew, hinfo, hin, add_zero]⟩

/-! ## add -/

/-- **What the checks of `add` have found.** -/
structure Checked (cfg : Config) (s : State) (m : AddMsg) (a : Add) : Prop where
  owned : is_match cfg a.part a.uniqueid = true
  equip : s.equip a.part a.uniqueid = some a.equip
  key : addkey s a.id a.level a.isnew a.record = some a.key
  mod : cfg.mod a.id = some a.mod
  index : a.index ≠ 4
  uniqueidpart : m.uniqueidpart = some (recordof a.part a.uniqueid)
  id : m.id = some a.id

theorem slotindex_ne {index : Option ℤ} (h : index.bind slotindex = some i) : i ≠ 4 := by
  obtain ⟨n, -, hn⟩ := Option.bind_eq_some_iff.mp h
  unfold slotindex at hn
  split_ifs at hn <;> cases hn <;> decide

theorem addcheck_ok {m : AddMsg} (h : addcheck cfg s m = .ok a) : Checked cfg s m a := by
  unfold addcheck at h
  simp only at h
  split at h
  · cases h
  · rename_i r hrecord
    split at h
    · rename_i hid hindex _ _
      split at h
      · cases h
      · rename_i hm
        split at h
        · cases h
        · split at h
          · cases h
          · rename_i key hkey
            split at h
            · cases h
            · rename_i mod hmod
              split at h
              · cases h
              · split at h
                · cases h
                · split at h
                  · cases h
                  · rename_i e he
                    cases h
                    exact ⟨by simpa using hm, he, hkey, hmod, slotindex_ne hindex,
                      by rw [recordof_split]; exact hrecord, hid⟩
    · cases h

theorem found_of_addkey (h : addkey s a.id a.level a.isnew none = some a.key) : a.Found s := by
  unfold addkey at h
  unfold Add.Found
  split at h
  · rename_i hnew
    obtain ⟨c, hc, hid, hlevel, hlock⟩ := get_chip_some h
    exact ⟨c, by rw [if_pos hnew]; exact hc, hid, Option.some.inj hlevel, hlock⟩
  · rename_i hnew
    obtain ⟨c, hc, hid, hlevel, hlock⟩ := get_chip_some h
    exact ⟨c, by rw [if_neg hnew]; exact hc, hid, Option.some.inj hlevel, hlock⟩

/-- A chip that is not in the equipment is not in it when a slot is emptied. -/
theorem Emptied.absent_of_find (h : Emptied cfg s a t e) (hno : chip_isrepeat a.equip id = false) :
    ∀ j, (e.slots j).chipid ≠ some id := by
  rw [chip_isrepeat, Option.isSome_eq_false_iff, Option.isNone_iff_eq_none] at hno
  exact h.absent fun j _ => find_none hno j

/-- The chip was in the slot that is emptied: there is no entry to take out. -/
theorem Emptied.left_self (h : Emptied cfg s a t e) (hm : is_match cfg a.part a.uniqueid = true)
    (hno : ∀ j, (e.slots j).chipid ≠ some a.id) (hhas : Has t.chipinfoarr a.id a.level) :
    Left cfg s a t e (recordof a.part a.uniqueid) e := by
  have hself : (t.setequip a.part a.uniqueid e).equip a.part a.uniqueid = some e := setequip_self
  have habsent := h.fits.absent hm hself hno
  have hstay : relistout t a.id (recordof a.part a.uniqueid) = t := by
    unfold relistout
    split
    · rename_i key hkey
      obtain ⟨d, hd, hdid, hdr, -⟩ := get_chip_inchip_some hkey
      exact absurd hdid (habsent d (List.mem_of_getElem? hd) hdr)
    · rfl
  obtain ⟨hp, hv⟩ := split_recordof hm
  refine ⟨?_, fun id => ?_, ?_⟩
  · rw [hstay, hp, hv]
    have hslots : ∀ j, (e.floor.slots j).chip = (e.slots j).chip ∧
        (e.floor.slots j).islock = (e.slots j).islock := fun _ => ⟨rfl, rfl⟩
    exact h.fits.same hm hself hslots rfl rfl rfl rfl
  · rw [hstay]
    exact h.total_eq id
  · rw [hstay]
    exact hhas

theorem move_error {reply : Reply} (hsrc : source s a e r = some src)
    (hi : src.find a.id = some i) (hcheck : movecheck cfg a e src r i = .error reply) :
    move cfg s a t e r = s.fail t reply := by simp only [move, hsrc, hi, hcheck]

theorem move_ok (hsrc : source s a e r = some src) (hi : src.find a.id = some i)
    (hcheck : movecheck cfg a e src r i = .ok ()) :
    move cfg s a t e r = moved cfg s a t e (leave a src i) r := by simp only [move, hsrc, hi, hcheck]

/-- **A move** where the record has the chip. -/
theorem Emptied.kept_move (h : Emptied cfg s a t e) (hs : Fits cfg s)
    (hm : is_match cfg a.part a.uniqueid = true) (he : s.equip a.part a.uniqueid = some a.equip)
    (hc : c ∈ s.inchipinfoarr) (hid : c.id = a.id) (hr : c.record = some r) (hlock : c.islock = 0)
    (hlevel : c.level = a.level ∨ Has s.chipinfoarr a.id a.level) {ev : Event}
    (hgrant : ∀ id, granted cfg s ev id = 0) : Kept cfg s ev (move cfg s a t e r).1 := by
  have hfail : ∀ reply, Kept cfg s ev (s.fail t reply).1 := fun reply =>
    hs.kept_congr hgrant rfl rfl rfl rfl
  have hkept : ∀ x : State, (Fits cfg x ∧ ∀ id, total x id = total s id) → Kept cfg s ev x :=
    fun x hx => ⟨hx.1, fun id => by rw [hgrant, add_zero]; exact hx.2 id⟩
  have hself : (t.setequip a.part a.uniqueid e).equip a.part a.uniqueid = some e := setequip_self
  have hsingle : Single a.equip.slots := hs.single _ _ _ hm he
  -- the record is of an equipment of the player
  obtain ⟨p, v, src, hpm, hsrc, hrec⟩ := hs.owned c hc
  rw [hr, Option.some.injEq] at hrec
  obtain ⟨hp, hv⟩ := split_recordof hpm
  rw [← hrec] at hp hv
  have hm' : is_match cfg (r % 10) (r / 10) = true := by rw [hp, hv]; exact hpm
  rcases h.inchipinfoarr c hc with hct | ⟨hocc, hslot, d, hd, hlike⟩
  · by_cases hsame : r % 10 = a.part ∧ r / 10 = a.uniqueid
    · -- another slot of the equipment
      have hr' : c.record = some (recordof a.part a.uniqueid) := by
        rw [hr, ← hsame.1, ← hsame.2, recordof_split]
      obtain ⟨i, hchip, -⟩ := h.fits.slotof hm hself hct hr'
      have hi : (e.slots i).chipid = some a.id := hid ▸ chipid_of_chip hchip
      have hesingle := h.fits.single _ _ _ hm hself
      have hsource : source s a e r = some e := if_pos hsame
      cases hcheck : movecheck cfg a e e r i with
      | error reply =>
        rw [move_error hsource (hesingle.find hi) hcheck]
        exact hfail reply
      | ok x =>
        rw [move_ok hsource (hesingle.find hi) hcheck]
        have hleft := h.left hm' (by rw [hsame.1, hsame.2]; exact hself) hi hct hid hr hlock hlevel
        have hslots : (leave a e i).slots = Function.update e.slots i (e.slots i).clear := rfl
        refine hkept _ (hleft.fits_moved hm ?_ ?_)
        · rw [if_pos hsame, hslots]
          by_cases hji : a.index = i
          · rw [hji, Function.update_self]
            rfl
          · rw [Function.update_of_ne hji]
            exact h.empty
        · rw [if_pos hsame, hslots]
          intro j hj
          by_cases hji : j = i
          · rw [hji, Function.update_self] at hj
            cases hj
          · rw [Function.update_of_ne hji] at hj
            exact hji (hesingle j i a.id hj hi)
    · -- a slot of another equipment
      have hsrc' : (t.setequip a.part a.uniqueid e).equip (r % 10) (r / 10) = some src := by
        rw [setequip_of_ne hsame, h.equip, hp, hv]
        exact hsrc
      have hrec' : c.record = some (recordof (r % 10) (r / 10)) := by rw [hr, recordof_split]
      obtain ⟨i, hchip, -⟩ := h.fits.slotof hm' hsrc' hct hrec'
      have hi : (src.slots i).chipid = some a.id := hid ▸ chipid_of_chip hchip
      have hssingle := h.fits.single _ _ _ hm' hsrc'
      have hsource : source s a e r = some src := by
        rw [source, if_neg hsame, hp, hv]
        exact hsrc
      cases hcheck : movecheck cfg a e src r i with
      | error reply =>
        rw [move_error hsource (hssingle.find hi) hcheck]
        exact hfail reply
      | ok x =>
        rw [move_ok hsource (hssingle.find hi) hcheck]
        have hrepeat : chip_isrepeat a.equip a.id = false := by
          unfold movecheck at hcheck
          simp only [hsame, if_false] at hcheck
          split at hcheck
          · cases hcheck
          · split at hcheck
            · cases hcheck
            · split at hcheck
              · cases hcheck
              · rename_i hno
                simpa using hno
        have hleft := h.left hm' hsrc' hi hct hid hr hlock hlevel
        refine hkept _ (hleft.fits_moved hm ?_ ?_)
        · rw [if_neg hsame]
          exact h.empty
        · rw [if_neg hsame]
          exact h.absent_of_find hrepeat
  · -- the slot itself, which is empty by now
    have hrr : r = recordof a.part a.uniqueid := Option.some.inj (hr.symm.trans hocc)
    obtain ⟨hp', hv'⟩ := split_recordof hm
    rw [hid] at hslot
    have hno : ∀ j, (e.slots j).chipid ≠ some a.id :=
      h.absent fun j hj hjc => hj (hsingle j a.index a.id hjc hslot)
    have hfind : e.find a.id = none := by
      cases hfind : e.find a.id with
      | none => rfl
      | some i => exact absurd (find_some hfind) (hno i)
    have hhas : Has t.chipinfoarr a.id a.level := by
      rcases hlevel with hlevel | hhas
      · exact ⟨d, hd, hlike.1.trans hid, hlike.2.1.trans hlevel, hlike.2.2.trans hlock⟩
      · exact h.has hhas
    have hmove : move cfg s a t e r = moved cfg s a t e e r := by
      simp only [move, source, hrr, hp', hv', and_self, if_true, hfind]
    rw [hmove]
    refine hkept _ (Left.fits_moved (hrr ▸ h.left_self hm hno hhas) hm ?_ ?_)
    · rw [ite_self]
      exact h.empty
    · rw [ite_self]
      exact hno

/-- **A chip that was not fitted** is fitted, or nothing changes. -/
theorem Emptied.kept_install (h : Emptied cfg s a t e) (hs : Fits cfg s)
    (hm : is_match cfg a.part a.uniqueid = true) (hfound : a.Found s) {ev : Event}
    (hgrant : ∀ id, granted cfg s ev id = 0) : Kept cfg s ev (Chips.install cfg s a t e).1 := by
  have hfail : ∀ reply, Kept cfg s ev (s.fail t reply).1 := fun reply =>
    hs.kept_congr hgrant rfl rfl rfl rfl
  unfold Chips.install
  split
  · exact hfail _
  · split
    · exact hfail _
    · split
      · exact hfail _
      · split
        · exact hfail _
        · rename_i hrepeat
          obtain ⟨hfits, htotal⟩ := h.install hm hfound
            (h.absent_of_find (by simpa using hrepeat))
          exact ⟨hfits, fun id => by rw [hgrant, add_zero, htotal]⟩

/-- **`add`.** -/
theorem Fits.add (h : Fits cfg s) {m : AddMsg} (hsure : Sure cfg s (.add m)) :
    Kept cfg s (.add m) (Chips.add cfg s m).1 := by
  have hgrant : ∀ id, granted cfg s (.add m) id = 0 := fun _ => rfl
  unfold Chips.add
  split
  · exact h.kept_congr hgrant rfl rfl rfl rfl
  · rename_i a ha
    obtain ⟨hm, he, hkey, -, -, -, -⟩ := addcheck_ok ha
    split
    · exact h.kept_congr hgrant rfl rfl rfl rfl
    · rename_i t e hu
      have hem := uninstall_spec h hm he hu
      split
      · rename_i hrecord
        rw [hrecord] at hkey
        exact hem.kept_install h hm (found_of_addkey hkey) hgrant
      · rename_i r hrecord
        obtain ⟨c, hc, hid, hr, hlock, hlevel⟩ := hsure a r ha hrecord
        exact hem.kept_move h hm he hc hid hr hlock hlevel hgrant

/-! ## remove -/

/-- **`remove`.** -/
theorem Fits.remove (h : Fits cfg s) {uniqueidpart id : Option ℤ} :
    Kept cfg s (.remove uniqueidpart id) (Chips.remove cfg s uniqueidpart id).1 := by
  have hgrant : ∀ x, granted cfg s (.remove uniqueidpart id) x = 0 := fun _ => rfl
  have hsame : Kept cfg s (.remove uniqueidpart id) s := h.kept_congr hgrant rfl rfl rfl rfl
  unfold Chips.remove
  split
  · exact hsame
  · exact hsame
  · rename_i r id
    simp only
    split
    · exact hsame
    · rename_i hm
      have hm : is_match cfg (r % 10) (r / 10) = true := by
        simp only [Bool.or_eq_true, not_or, Bool.not_eq_true, Bool.not_eq_false'] at hm
        exact hm.2
      split
      · exact hsame
      · rename_i key hkey
        obtain ⟨c, hc, rfl, hr, -⟩ := get_chip_inchip_some hkey
        split
        · exact hsame
        · rename_i e he
          split
          · exact hsame
          · rename_i i hi
            split
            · rename_i m id' level hmod hchip
              have hplain := h.plain c (List.mem_of_getElem? hc)
              have hr' : c.record = some (recordof (r % 10) (r / 10)) := by rw [hr, recordof_split]
              have hout : removeto_chip key s.inchipinfoarr s.chipinfoarr none =
                  (s.inchipinfoarr.eraseIdx key, add_chip c.id s.chipinfoarr c.level 1 c.islock none) :=
                removeto_fitted hc hplain
              refine ⟨?_, fun id => ?_⟩
              · have hslots : ((e.without m level i).set i (e.slots i).clear).slots =
                    Function.update e.slots i (e.slots i).clear := by
                  unfold Equip.without
                  simp only
                  split <;> rfl
                refine h.takeout hm he hc hr' (find_some hi) hslots rfl ?_ ?_ ?_ ?_
                · simpa [State.out] using h.newchipinfo
                · simpa [State.out, hout] using add_one_spec h.chipinfoarr
                · simp [State.out, hout]
                · exact setequip_congr (by simp [State.out])
              · have := total_out hc hplain h.chipinfoarr id
                rw [hgrant, add_zero, ← this]
                simp [total]
            · exact hsame

end Chips

end Athena
