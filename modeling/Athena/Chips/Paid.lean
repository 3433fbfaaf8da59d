import Athena.Chips.Run
import Athena.Warehouse.Stock
/-!
# Chips — what an upgrade pays for

The chips of a player are counted by their levels. A request of `upgrade` that
passes moves one chip from one level to another, and the material is taken at the
end of the paths that come to it. A fitted chip is raised from the level the
client says, its slot from its own, and the branch without room returns before
the material is taken.
-/

namespace Athena

namespace Chips

variable {cfg : Config} {s t : State} {e e' : Equip} {c : Chip} {i : Fin 5} {u : Upgrade}
  {m : UpgradeMsg} {w : ℤ → ℤ → ℤ} {slot : Slot}
  {part uniqueid id id' l₀ l₁ l₀' l₁' level number : ℤ} {key : ℕ}

/-! ## Chips by their levels -/

/-- **What all chips weigh.** -/
def weight (w : ℤ → ℤ → ℤ) (s : State) : ℤ :=
  tally (weigh w) s.newchipinfo + tally (weigh w) s.chipinfoarr + tally (weigh w) s.inchipinfoarr

/-- One chip of the id goes from a level to another, and every other is as it was. -/
def Changed (s t : State) (id l₀ l₁ : ℤ) : Prop :=
  ∀ w, weight w t + w id l₀ = weight w s + w id l₁

/-- How many chips of an id are above a level. -/
def above (s : State) (id x : ℤ) : ℤ := weight (fun id' level => if id' = id ∧ x < level then 1 else 0) s

/-- **Some chip's level increased.** -/
def Increased (s t : State) : Prop := ∃ id x, above s id x < above t id x

/-- A chip of the level is in one of the lists. -/
def Stored (s : State) (id level : ℤ) : Prop :=
  ∃ c ∈ s.newchipinfo ++ s.chipinfoarr ++ s.inchipinfoarr, c.id = id ∧ c.level = level

/-- **The slots have the chips the list has**, with their levels. -/
def Levelled (cfg : Config) (s : State) : Prop :=
  ∀ part uniqueid e, is_match cfg part uniqueid = true → s.equip part uniqueid = some e →
    fitsum e.slots = tally (listed (recordof part uniqueid)) s.inchipinfoarr

/-- **The upgrade is paid for.** -/
structure Paid (cfg : Config) (s t : State) (number : ℤ) : Prop where
  paid : Increased s t → ∃ id level mod need, Stored s id level ∧ Changed s t id level (level + number) ∧
    cfg.mod id = some mod ∧ neednum mod level number.toNat = some need ∧
    t.materials = s.materials - need
  free : ¬ Increased s t → t.materials = s.materials
  agree : Levelled cfg t

theorem Changed.increased (h : Changed s t id l₀ l₁) : Increased s t ↔ l₀ < l₁ := by
  constructor
  · rintro ⟨id', x, hx⟩
    have hw := h fun id'' level => if id'' = id' ∧ x < level then 1 else 0
    change above t id' x + _ = above s id' x + _ at hw
    by_contra hle
    have : ¬ (id = id' ∧ x < l₁) ∨ (id = id' ∧ x < l₀) := by omega
    split_ifs at hw <;> omega
  · intro hlt
    refine ⟨id, l₀, ?_⟩
    have hw := h fun id' level => if id' = id ∧ l₀ < level then 1 else 0
    change above t id l₀ + _ = above s id l₀ + _ at hw
    simp only [hlt, lt_irrefl, and_true, and_false, if_true, if_false] at hw
    omega

/-- A chip that changed its level is the only one that did. -/
theorem Changed.unique (h : Changed s t id l₀ l₁) (h' : Changed s t id' l₀' l₁') (hne : l₀ ≠ l₁) :
    id' = id ∧ l₀' = l₀ ∧ l₁' = l₁ := by
  have h₀ := h fun x y => if x = id ∧ y = l₀ then 1 else 0
  have h₀' := h' fun x y => if x = id ∧ y = l₀ then 1 else 0
  have h₁ := h fun x y => if x = id ∧ y = l₁ then 1 else 0
  have h₁' := h' fun x y => if x = id ∧ y = l₁ then 1 else 0
  simp only [hne, hne.symm, and_true, and_false, if_true, if_false] at h₀ h₁
  split_ifs at h₀' h₁' <;> omega

/-- **Where one chip went to another level**, what is left to pay. -/
theorem Changed.paid_iff (h : Changed s t id l₀ l₁) {mod : Mod} (hmod : cfg.mod id = some mod)
    (hstored : Stored s id l₀) : Paid cfg s t number ↔
      (l₀ < l₁ → l₁ = l₀ + number ∧ ∃ need, neednum mod l₀ number.toNat = some need ∧
        t.materials = s.materials - need) ∧
      (l₁ ≤ l₀ → t.materials = s.materials) ∧ Levelled cfg t := by
  constructor
  · rintro ⟨hpaid, hfree, hagree⟩
    refine ⟨fun hlt => ?_, fun hle => hfree (by rw [h.increased]; omega), hagree⟩
    obtain ⟨id', level, mod', need, -, hch, hmod', hneed, hmat⟩ := hpaid (h.increased.mpr hlt)
    obtain ⟨rfl, rfl, hl⟩ := h.unique hch hlt.ne
    obtain rfl := Option.some.inj (hmod.symm.trans hmod')
    exact ⟨hl.symm, need, hneed, hmat⟩
  · rintro ⟨hpaid, hfree, hagree⟩
    refine ⟨fun hup => ?_, fun hup => hfree (not_lt.mp fun hlt => hup (h.increased.mpr hlt)), hagree⟩
    obtain ⟨rfl, need, hneed, hmat⟩ := hpaid (h.increased.mp hup)
    exact ⟨id, l₀, mod, need, hstored, h, hmod, hneed, hmat⟩

/-- Nothing is changed and nothing is paid. -/
theorem paid_rfl (h : Fits cfg s) : Paid cfg s s number where
  paid := fun ⟨_, _, hlt⟩ => absurd hlt (lt_irrefl _)
  free := fun _ => rfl
  agree := h.agree

/-! ## Slots and entries -/

theorem listed_of_record {r : ℤ} (h : c.record = some r) :
    listed r c = {(c.id, c.level, some c.islock)} := if_pos h

theorem listed_of_ne {r : ℤ} (h : c.record ≠ some r) : listed r c = 0 := if_neg h

/-- **One slot changes, and some entries go and come**: the slots and the list still
agree just where the slot and the entries change alike. -/
theorem agree_iff (h : Fits cfg s) (hm : is_match cfg part uniqueid = true)
    (he : s.equip part uniqueid = some e) (hslots : e'.slots = Function.update e.slots i slot)
    (hequip : t.equip = (s.setequip part uniqueid e').equip)
    {x y : ℤ → Multiset (ℤ × ℤ × Option ℤ)}
    (hin : ∀ r, tally (listed r) t.inchipinfoarr + x r = tally (listed r) s.inchipinfoarr + y r) :
    Levelled cfg t ↔
      slot.fits + x (recordof part uniqueid) = (e.slots i).fits + y (recordof part uniqueid) ∧
        ∀ p q d, is_match cfg p q = true → s.equip p q = some d → ¬ (p = part ∧ q = uniqueid) →
          x (recordof p q) = y (recordof p q) := by
  have hself : t.equip part uniqueid = some e' := by rw [hequip, setequip_self]
  have hne : ∀ p q, ¬ (p = part ∧ q = uniqueid) → t.equip p q = s.equip p q := fun p q hpq => by
    rw [hequip, setequip_of_ne hpq]
  have hold := h.agree part uniqueid e hm he
  have hslot := fitsum_update e.slots i slot
  rw [← hslots] at hslot
  have hhere := hin (recordof part uniqueid)
  constructor
  · intro hagree
    refine ⟨?_, fun p q d hpm hd hpq => ?_⟩
    · have hnew := hagree part uniqueid e' hm hself
      refine add_left_cancel (a := fitsum e.slots) ?_
      calc fitsum e.slots + (slot.fits + x (recordof part uniqueid))
          = fitsum e'.slots + (e.slots i).fits + x (recordof part uniqueid) := by
            rw [hslot, add_assoc]
        _ = tally (listed (recordof part uniqueid)) t.inchipinfoarr + x (recordof part uniqueid) +
              (e.slots i).fits := by rw [hnew, add_right_comm]
        _ = fitsum e.slots + ((e.slots i).fits + y (recordof part uniqueid)) := by
            rw [hhere, ← hold, add_assoc, add_comm (y _)]
    · have hthis := hin (recordof p q)
      rw [← hagree p q d hpm ((hne p q hpq).trans hd), ← h.agree p q d hpm hd] at hthis
      exact add_left_cancel hthis
  · rintro ⟨hsame, hother⟩ p q d hpm hd
    by_cases hpq : p = part ∧ q = uniqueid
    · obtain ⟨rfl, rfl⟩ := hpq
      obtain rfl := Option.some.inj (hself.symm.trans hd)
      refine add_right_cancel (b := (e.slots i).fits + x (recordof p q)) ?_
      calc fitsum e'.slots + ((e.slots i).fits + x (recordof p q))
          = fitsum e.slots + (slot.fits + x (recordof p q)) := by
            rw [← add_assoc, hslot, add_assoc]
        _ = tally (listed (recordof p q)) s.inchipinfoarr + y (recordof p q) + (e.slots i).fits := by
            rw [hsame, hold, add_comm (e.slots i).fits, add_assoc]
        _ = tally (listed (recordof p q)) t.inchipinfoarr + ((e.slots i).fits + x (recordof p q)) := by
            rw [← hhere, add_assoc, add_comm (x _)]
    · have hthis := hin (recordof p q)
      rw [hne p q hpq] at hd
      rw [hother p q d hpm hd hpq] at hthis
      rw [h.agree p q d hpm hd]
      exact (add_right_cancel hthis).symm

/-- Two chips of different ids whose levels change. -/
theorem pair_levels {a b x x' y y' : ℤ} {k k' : Option ℤ} (hne : b ≠ a)
    (h : ({(a, x', k)} : Multiset (ℤ × ℤ × Option ℤ)) + {(b, y, k')} = {(a, x, k)} + {(b, y', k')}) :
    x' = x ∧ y' = y := by
  have hx : (a, x', k) ∈ ({(a, x, k)} : Multiset (ℤ × ℤ × Option ℤ)) + {(b, y', k')} := by
    rw [← h]
    simp
  have hy : (b, y, k') ∈ ({(a, x, k)} : Multiset (ℤ × ℤ × Option ℤ)) + {(b, y', k')} := by
    rw [← h]
    simp
  simp only [Multiset.mem_add, Multiset.mem_singleton, Prod.mk.injEq] at hx hy
  constructor
  · rcases hx with ⟨-, hx, -⟩ | ⟨hab, -, -⟩
    · exact hx
    · exact absurd hab.symm hne
  · rcases hy with ⟨hab, -, -⟩ | ⟨-, hy, -⟩
    · exact absurd hab hne
    · exact hy.symm

/-- The chip that the request names is the one whose entry it uses. -/
def Upgrade.Own (u : Upgrade) (c : Chip) : Prop := c.id = u.id ∧ c.record = some u.record

/-! ## The chip that is taken out -/

@[simp] theorem update_player_attr_materials {mod : Mod} {machine : Option ℤ} {ty : Bool} :
    (update_player_attr cfg mod level part machine i ty s).materials = s.materials := by
  unfold update_player_attr
  split
  · rfl
  · split
    · rfl
    · split <;> rfl

@[simp] theorem setequip_materials : (s.setequip part uniqueid e).materials = s.materials := rfl

theorem takenout_materials : (takenout cfg s u e i).1.materials = s.materials := by
  simp [takenout, State.out]

theorem takenout_changed (h : Fits cfg s) (hc : s.inchipinfoarr[u.key]? = some c) :
    Changed s (takenout cfg s u e i).1 c.id c.level u.to := by
  have hplain := h.plain c (List.mem_of_getElem? hc)
  have hout : removeto_chip u.key (s.inchipinfoarr.modify u.key fun c => { c with level := u.to })
      s.chipinfoarr none =
        (s.inchipinfoarr.eraseIdx u.key, add_chip c.id s.chipinfoarr u.to 1 c.islock none) :=
    removeto_relevel hc hplain
  intro w
  have hgone := tally_eraseIdx (f := weigh w) hc
  have hcome := add_chip_weigh w c.id u.to 1 c.islock h.chipinfoarr
  simp only [weigh, hplain, Option.getD_none] at hgone
  simp only [weight, takenout, State.out, hout, setequip_newchipinfo, setequip_chipinfoarr,
    setequip_inchipinfoarr, update_player_attr_newchipinfo, update_player_attr_chipinfoarr,
    update_player_attr_inchipinfoarr]
  linarith only [hgone, hcome]

/-- The slot loses the chip it has, and the list the entry that was used. -/
theorem takenout_agree_iff (h : Fits cfg s)
    (hm : is_match cfg (u.record % 10) (u.record / 10) = true)
    (he : s.equip (u.record % 10) (u.record / 10) = some e) (hchip : (e.slots i).chipid = some u.id)
    (hc : s.inchipinfoarr[u.key]? = some c) : Levelled cfg (takenout cfg s u e i).1 ↔ u.Own c := by
  constructor
  · intro hagree
    have hplain := h.plain c (List.mem_of_getElem? hc)
    have hin : (takenout cfg s u e i).1.inchipinfoarr = s.inchipinfoarr.eraseIdx u.key := by
      simp [takenout, State.out, removeto_relevel hc hplain]
    have hslots : ({ e.set i (e.slots i).clear with
        currentvolume := e.currentvolume - cost u.mod u.level * (e.slots i).num u.mod } : Equip).slots =
          Function.update e.slots i (e.slots i).clear := rfl
    obtain ⟨hsame, -⟩ := (agree_iff h hm he hslots (by simp [takenout, State.setequip, State.out])
      (x := fun r => listed r c) (y := fun _ => 0)
      (fun r => by rw [hin, add_zero]; exact tally_eraseIdx hc)).mp hagree
    obtain ⟨level, hchip⟩ := chip_of_chipid hchip
    rw [recordof_split, fits_of_none rfl, zero_add, add_zero, fits_of_chip hchip] at hsame
    by_cases hr : c.record = some u.record
    · rw [listed_of_record hr, Multiset.singleton_inj] at hsame
      exact ⟨(Prod.mk.inj hsame).1, hr⟩
    · rw [listed_of_ne hr] at hsame
      exact absurd hsame.symm (Multiset.singleton_ne_zero _)
  · rintro ⟨hid, hr⟩
    exact (h.takenout hm he hc hr (hid ▸ hchip)).1.agree

/-! ## The chip that is raised -/

theorem remmaterials_materials {need : ℤ} (h : matchmaterial s need = true) :
    (s.remmaterials need).materials = s.materials - need := by
  unfold matchmaterial at h
  split at h
  · cases h
  · unfold State.remmaterials
    split at h
    · rename_i _ hzero
      simp [hzero]
    · have hle : need ≤ s.materials := by simpa using h
      rw [if_pos ⟨by omega, hle⟩]

theorem matchmaterial_congr {need : ℤ} (h : t.materials = s.materials) :
    matchmaterial t need = matchmaterial s need := by
  rw [matchmaterial, matchmaterial, h]

theorem raised_materials (cfg : Config) (e : Equip) (i : Fin 5) (level : ℤ)
    (hneed : matchmaterial s u.neednum = true) :
    (raised cfg s u e i level).1.materials = s.materials - u.neednum := by
  rw [raised, remmaterials_materials]
  · simp
  · rw [matchmaterial_congr (s := s) (by simp), hneed]

theorem raised_changed (e : Equip) (i : Fin 5) (level : ℤ) (h : Fits cfg s)
    (hc : s.inchipinfoarr[u.key]? = some c) :
    Changed s (raised cfg s u e i level).1 c.id c.level u.to := by
  have hplain := h.plain c (List.mem_of_getElem? hc)
  intro w
  have hlevel := tally_modify (f := weigh w) (g := fun c => { c with level := u.to }) hc
  simp only [weigh, hplain, Option.getD_none] at hlevel
  simp only [weight, raised, remmaterials_newchipinfo, remmaterials_chipinfoarr,
    remmaterials_inchipinfoarr, setequip_newchipinfo, setequip_chipinfoarr, setequip_inchipinfoarr,
    update_player_attr_newchipinfo, update_player_attr_chipinfoarr, update_player_attr_inchipinfoarr]
  linarith only [hlevel]

/-- **The slot is raised from its own level**, and the entry from the client's. -/
theorem raised_agree_iff (h : Fits cfg s)
    (hm : is_match cfg (u.record % 10) (u.record / 10) = true)
    (he : s.equip (u.record % 10) (u.record / 10) = some e) (hchip : (e.slots i).chip = some (u.id, level))
    (hc : s.inchipinfoarr[u.key]? = some c) : Levelled cfg (raised cfg s u e i level).1 ↔
      (u.Own c → min 15 (level + u.number) = u.to) ∧
        (¬ u.Own c → min 15 (level + u.number) = level ∧ u.to = c.level) := by
  have hslots : (((e.more u.mod u.number i).set i
      { e.slots i with chip := some (u.id, min 15 (level + u.number)) }).floor).slots =
        Function.update e.slots i { e.slots i with chip := some (u.id, min 15 (level + u.number)) } := by
    unfold Equip.more
    simp only
    split <;> rfl
  have hfits : Slot.fits { e.slots i with chip := some (u.id, min 15 (level + u.number)) } =
      {(u.id, min 15 (level + u.number), (e.slots i).islock)} := fits_of_chip rfl
  -- the entry with its new level
  obtain ⟨c', hc', hid', hr', hlock', hlevel'⟩ : ∃ c' : Chip, { c with level := u.to } = c' ∧
      c'.id = c.id ∧ c'.record = c.record ∧ c'.islock = c.islock ∧ c'.level = u.to :=
    ⟨_, rfl, rfl, rfl, rfl, rfl⟩
  have hin : ∀ r, tally (listed r) (raised cfg s u e i level).1.inchipinfoarr + listed r c =
      tally (listed r) s.inchipinfoarr + listed r c' := by
    intro r
    simp only [raised, remmaterials_inchipinfoarr, setequip_inchipinfoarr,
      update_player_attr_inchipinfoarr]
    rw [tally_modify hc, hc']
  rw [agree_iff h hm he hslots (by simp [raised, State.setequip]) hin, recordof_split, hfits,
    fits_of_chip hchip]
  obtain ⟨p, q, d, hpm, hd, hr⟩ := h.owned c (List.mem_of_getElem? hc)
  by_cases hrec : c.record = some u.record
  · have hrest : ∀ p q d, is_match cfg p q = true → s.equip p q = some d →
        ¬ (p = u.record % 10 ∧ q = u.record / 10) →
        listed (recordof p q) c = listed (recordof p q) c' := by
      intro p q d hpm _ hpq
      have hne : c.record ≠ some (recordof p q) := by
        rw [hrec]
        intro heq
        rw [← recordof_split u.record] at heq
        obtain ⟨h1, h2⟩ := recordof_inj hm hpm (Option.some.inj heq)
        exact hpq ⟨h1.symm, h2.symm⟩
      rw [listed_of_ne hne, listed_of_ne (hr' ▸ hne)]
    rw [listed_of_record hrec, listed_of_record (hr'.trans hrec), hid', hlock', hlevel']
    by_cases hid : c.id = u.id
    · have hrec' : c.record = some (recordof (u.record % 10) (u.record / 10)) := by
        rw [hrec, recordof_split]
      obtain ⟨hslot, hlock⟩ :=
        h.slot_eq hm he (List.mem_of_getElem? hc) hrec' (hid ▸ chipid_of_chip hchip)
      rw [hchip, Option.some.injEq, Prod.mk.injEq] at hslot
      have hown : u.Own c := ⟨hid, hrec⟩
      rw [hlock, hslot.2, hid, add_comm, add_left_cancel_iff, Multiset.singleton_inj]
      simp only [hown, true_implies, not_true, false_implies, and_true, Prod.mk.injEq, true_and]
      exact ⟨fun hsame => hsame.1, fun hlevel => ⟨hlevel, hrest⟩⟩
    · have hown : ¬ u.Own c := fun hown => hid hown.1
      simp only [hown, false_implies, true_and, not_false_iff, true_implies]
      constructor
      · rintro ⟨hsame, -⟩
        exact pair_levels hid hsame
      · rintro ⟨hslot, hentry⟩
        rw [hslot, hentry]
        exact ⟨rfl, hrest⟩
  · have hown : ¬ u.Own c := fun hown => hrec hown.2
    simp only [hown, false_implies, true_and, not_false_iff, true_implies]
    rw [listed_of_ne hrec, listed_of_ne (hr' ▸ hrec), add_zero, add_zero, Multiset.singleton_inj]
    have hpq : ¬ (p = u.record % 10 ∧ q = u.record / 10) := by
      rintro ⟨rfl, rfl⟩
      rw [recordof_split] at hr
      exact hrec hr
    constructor
    · rintro ⟨hsame, hother⟩
      have hthis := hother p q d hpm hd hpq
      rw [listed_of_record hr, listed_of_record (hr'.trans hr), hid', hlock', hlevel',
        Multiset.singleton_inj] at hthis
      simp only [Prod.mk.injEq, true_and, and_true] at hsame hthis
      exact ⟨hsame, hthis.symm⟩
    · rintro ⟨hslot, hentry⟩
      rw [hslot]
      refine ⟨rfl, fun _ _ _ _ _ _ => ?_⟩
      unfold listed
      rw [hid', hr', hlock', hlevel', hentry]

/-! ## The chip that is not fitted -/

theorem upgradelisted_materials (hneed : matchmaterial s u.neednum = true) :
    (upgradelisted s u).1.materials = s.materials - u.neednum := by
  unfold upgradelisted
  split
  · exact remmaterials_materials ((matchmaterial_congr rfl).trans hneed)
  · exact remmaterials_materials ((matchmaterial_congr rfl).trans hneed)

/-- **The chip that goes has the client's level.** -/
theorem upgradelisted_changed (h : Fits cfg s)
    (hkey : (if u.isnew then get_chip u.id s.newchipinfo (some u.level) 0 none
      else get_chip u.id s.chipinfoarr (some u.level) 0 none) = some u.key) :
    Stored s u.id u.level ∧ Changed s (upgradelisted s u).1 u.id u.level u.to := by
  unfold upgradelisted
  split
  · rename_i hnew
    rw [if_pos hnew] at hkey
    obtain ⟨c, hc, hid, hlevel, -⟩ := get_chip_some hkey
    have hlevel : c.level = u.level := Option.some.inj hlevel
    refine ⟨⟨c, by simp [List.mem_of_getElem? hc], hid, hlevel⟩, fun w => ?_⟩
    obtain ⟨-, hless⟩ := remove_number_weigh h.newchipinfo hc (h.newchipinfo.one hc)
    have hgone := hless w
    have hcome := add_chip_weigh w u.id u.to 1 0 h.chipinfoarr
    rw [hid, hlevel] at hgone
    simp only [weight, remmaterials_newchipinfo, remmaterials_chipinfoarr, remmaterials_inchipinfoarr]
    linarith only [hgone, hcome]
  · rename_i hnew
    rw [if_neg hnew] at hkey
    obtain ⟨c, hc, hid, hlevel, -⟩ := get_chip_some hkey
    have hlevel : c.level = u.level := Option.some.inj hlevel
    refine ⟨⟨c, by simp [List.mem_of_getElem? hc], hid, hlevel⟩, fun w => ?_⟩
    obtain ⟨hnumbered, hless⟩ := remove_number_weigh h.chipinfoarr hc (h.chipinfoarr.one hc)
    have hgone := hless w
    have hcome := add_chip_weigh w u.id u.to 1 0 hnumbered
    rw [hid, hlevel] at hgone
    simp only [weight, remmaterials_newchipinfo, remmaterials_chipinfoarr, remmaterials_inchipinfoarr]
    linarith only [hgone, hcome]

/-! ## The material in the warehouse -/

/-- The material of upgrades. -/
def upgradematerial : Int64 := 10001

/-- The materials of the player are those on the two lists of the warehouse. -/
def Backed (b : Warehouse.Items.Bag) (s : State) : Prop :=
  Warehouse.Items.Sound b ∧ Warehouse.Items.held b upgradematerial = s.materials

/-- **`matchmaterial` and `remmaterials` of the warehouse** do what is said of them here. -/
theorem Backed.remmaterials {b : Warehouse.Items.Bag} {known : Int64 → Bool} (h : Backed b s)
    (hk : known upgradematerial = true) (n : Int64) :
    Warehouse.Items.matchnumber b upgradematerial n = some (matchmaterial s n.toInt) ∧
      ∃ ok b', Warehouse.Items.rem known b upgradematerial n = some (ok, b') ∧
        Backed b' (s.remmaterials n.toInt) := by
  obtain ⟨hsound, hheld⟩ := h
  have hzero : n = 0 ↔ n.toInt = 0 := by
    rw [← Int64.toInt_zero, Int64.toInt_inj]
  by_cases hpos : 0 < n.toInt
  · obtain ⟨ok, b', hrem, hmoves⟩ := Warehouse.Items.rem_moves known upgradematerial n hsound
    have hne : n.toInt ≠ 0 := hpos.ne'
    obtain ⟨st, hst⟩ := hsound
    have hmatch := Warehouse.Items.matchnumber_spec (i := upgradematerial) hst hpos
    rw [hheld] at hmatch
    refine ⟨by simp [hmatch, matchmaterial, not_lt.mpr hpos.le, hne], ok, b', hrem, hmoves.sound, ?_⟩
    rcases Warehouse.Items.rem_spec hst hk hpos with ⟨hlt, hno⟩ | ⟨hle, b₁, st₁, hyes, -, -⟩
    · rw [hno, Option.some.injEq, Prod.mk.injEq] at hrem
      obtain ⟨rfl, rfl⟩ := hrem
      rw [State.remmaterials, if_neg (by omega), hheld]
    · rw [hyes, Option.some.injEq, Prod.mk.injEq] at hrem
      have hall := hmoves.held hrem.1.symm upgradematerial
      rw [if_pos rfl] at hall
      rw [State.remmaterials, if_pos ⟨hpos, by omega⟩, hall, hheld]
      rfl
  · have hkeep : s.remmaterials n.toInt = s := if_neg fun hno => hpos hno.1
    rw [hkeep]
    by_cases hneg : n.toInt < 0
    · refine ⟨by simp [Warehouse.Items.matchnumber, matchmaterial, hneg], false, b, ?_, hsound, hheld⟩
      rw [Warehouse.Items.rem, if_pos hneg]
    · have hn : n = 0 := hzero.mpr (by omega)
      subst hn
      exact ⟨rfl, true, b, rfl, hsound, hheld⟩

/-! ## upgrade -/

/-- **What the checks have found**, of what is paid. -/
theorem upgradecheck_need (h : upgradecheck cfg s m = .ok u) :
    u.number = m.number.getD 1 ∧ m.level = some u.level ∧ u.level < 15 ∧
      neednum u.mod u.level u.number.toNat = some u.neednum ∧ matchmaterial s u.neednum = true := by
  unfold upgradecheck at h
  simp only at h
  split at h
  · rename_i hlevel _ _
    split at h
    · cases h
    · split at h
      · cases h
      · rename_i hfull
        split at h
        · cases h
        · split at h
          · cases h
          · rename_i hneed
            split at h
            · cases h
            · rename_i hmatch
              split at h
              · cases h
              · cases h
                exact ⟨rfl, hlevel, not_le.mp hfull, hneed, by simpa using hmatch⟩
  · cases h

/-- A slot other than the fifth, whose equipment has no room for the new levels. -/
def Upgrade.Crowded (u : Upgrade) (e : Equip) (i : Fin 5) : Prop :=
  i ≠ Fin.last 4 ∧ e.volume < e.currentvolume + cost u.mod u.number * (e.slots i).num u.mod

/-- **A fitted chip is paid for.** The chip that is named has the level of the
request; or no level increases, and nothing is taken. -/
structure Upgrade.Due (u : Upgrade) (e : Equip) (i : Fin 5) (c : Chip) (level : ℤ) : Prop where
  crowded : u.Own c → u.Crowded e i →
    u.level + u.number ≤ c.level ∨ u.level = c.level ∧ u.neednum = 0
  room : u.Own c → ¬ u.Crowded e i →
    u.level = c.level ∨ 15 ≤ c.level ∧ u.level + u.number = 15 ∧ u.neednum = 0
  other : ¬ u.Own c → ¬ u.Crowded e i ∧ min 15 (level + u.number) = level ∧
    u.level + u.number = c.level ∧ u.neednum = 0

theorem takenout_paid_iff (h : Fits cfg s) (hu : upgradecheck cfg s m = .ok u)
    (hto : u.to = u.level + u.number)
    (hm : is_match cfg (u.record % 10) (u.record / 10) = true)
    (he : s.equip (u.record % 10) (u.record / 10) = some e) (hchip : (e.slots i).chipid = some u.id)
    (hc : s.inchipinfoarr[u.key]? = some c) :
    Paid cfg s (takenout cfg s u e i).1 u.number ↔
      u.Own c ∧ (u.level + u.number ≤ c.level ∨ u.level = c.level ∧ u.neednum = 0) := by
  obtain ⟨hmod, -⟩ := upgradecheck_ok hu
  obtain ⟨-, -, -, hneed, -⟩ := upgradecheck_need hu
  have hstored : Stored s c.id c.level := ⟨c, by simp [List.mem_of_getElem? hc], rfl, rfl⟩
  rw [← takenout_agree_iff h hm he hchip hc]
  constructor
  · intro hpaid
    have hown := (takenout_agree_iff h hm he hchip hc).mp hpaid.agree
    have hch := takenout_changed (e := e) (i := i) h hc
    rw [hch.paid_iff (hown.1 ▸ hmod) hstored, takenout_materials, hto] at hpaid
    obtain ⟨hup, -, hagree⟩ := hpaid
    refine ⟨hagree, ?_⟩
    by_cases hle : u.level + u.number ≤ c.level
    · exact Or.inl hle
    · obtain ⟨hlevel, need, hn, hmat⟩ := hup (not_le.mp hle)
      have hlevel : u.level = c.level := by omega
      rw [← hlevel, hneed, Option.some.injEq] at hn
      exact Or.inr ⟨hlevel, by omega⟩
  · rintro ⟨hagree, hdue⟩
    have hown := (takenout_agree_iff h hm he hchip hc).mp hagree
    have hch := takenout_changed (e := e) (i := i) h hc
    rw [hch.paid_iff (hown.1 ▸ hmod) hstored, takenout_materials, hto]
    refine ⟨fun hlt => ?_, fun _ => rfl, hagree⟩
    obtain hle | ⟨hlevel, hzero⟩ := hdue
    · omega
    · rw [← hlevel]
      exact ⟨rfl, _, hneed, by omega⟩

theorem raised_paid_iff (h : Fits cfg s) (hu : upgradecheck cfg s m = .ok u)
    (hto : u.to = u.level + u.number)
    (hm : is_match cfg (u.record % 10) (u.record / 10) = true)
    (he : s.equip (u.record % 10) (u.record / 10) = some e) (hchip : (e.slots i).chip = some (u.id, level))
    (hc : s.inchipinfoarr[u.key]? = some c) :
    Paid cfg s (raised cfg s u e i level).1 u.number ↔
      (u.Own c → u.level = c.level ∨ 15 ≤ c.level ∧ u.level + u.number = 15 ∧ u.neednum = 0) ∧
        (¬ u.Own c → min 15 (level + u.number) = level ∧ u.level + u.number = c.level ∧
          u.neednum = 0) := by
  obtain ⟨hmod, -⟩ := upgradecheck_ok hu
  obtain ⟨-, -, hfull, hneed, hmatch⟩ := upgradecheck_need hu
  have hstored : Stored s c.id c.level := ⟨c, by simp [List.mem_of_getElem? hc], rfl, rfl⟩
  have hch := raised_changed e i level h hc
  have hmat := raised_materials cfg e i level hmatch
  have hagree := raised_agree_iff h hm he hchip hc
  by_cases hown : u.Own c
  · rw [hch.paid_iff (hown.1 ▸ hmod) hstored, hmat, hagree, hto]
    simp only [hown, true_implies, not_true, false_implies, and_true]
    have hr : c.record = some (recordof (u.record % 10) (u.record / 10)) := by
      rw [hown.2, recordof_split]
    obtain ⟨hslot, -⟩ :=
      h.slot_eq hm he (List.mem_of_getElem? hc) hr (hown.1 ▸ chipid_of_chip hchip)
    rw [hchip, Option.some.injEq, Prod.mk.injEq] at hslot
    rw [hslot.2]
    have hsum : u.level + u.number ≤ 15 := by
      rw [← hto]
      exact min_le_left _ _
    constructor
    · rintro ⟨hup, hdown, hsame⟩
      by_cases hlevel : u.level = c.level
      · exact Or.inl hlevel
      · have hlt : ¬ c.level < u.level + u.number := fun hlt => hlevel (by have := (hup hlt).1; omega)
        have := hdown (not_lt.mp hlt)
        exact Or.inr (by omega)
    · rintro (hlevel | ⟨hle, hfifteen, hzero⟩)
      · refine ⟨fun _ => ⟨by omega, _, hlevel ▸ hneed, rfl⟩, fun hle => ?_, by omega⟩
        have hnat : u.number.toNat = 0 := by omega
        rw [hnat, neednum, Option.some.injEq] at hneed
        omega
      · exact ⟨fun hlt => by omega, fun _ => by omega, by omega⟩
  · simp only [hown, false_implies, true_and, not_false_iff, true_implies] at hagree ⊢
    rw [hto] at hagree hch
    constructor
    · intro hpaid
      obtain ⟨hslot, hentry⟩ := hagree.mp hpaid.agree
      have hfree := hpaid.free (by rw [hch.increased]; omega)
      exact ⟨hslot, hentry, by omega⟩
    · rintro ⟨hslot, hentry, hzero⟩
      have hno : ¬ Increased s (raised cfg s u e i level).1 := by
        rw [hch.increased]
        omega
      exact ⟨fun hup => absurd hup hno, fun _ => by omega, hagree.mpr ⟨hslot, hentry⟩⟩

/-- **A chip that is not fitted is always paid for.** -/
theorem upgradelisted_paid (h : Fits cfg s) (hu : upgradecheck cfg s m = .ok u)
    (hto : u.to = u.level + u.number) (hequip : u.isequip = false) :
    Paid cfg s (upgradelisted s u).1 u.number := by
  obtain ⟨hmod, hkey⟩ := upgradecheck_ok hu
  obtain ⟨-, -, -, hneed, hmatch⟩ := upgradecheck_need hu
  rw [hequip, upgradekey] at hkey
  obtain ⟨hstored, hch⟩ := upgradelisted_changed h hkey
  rw [hch.paid_iff hmod hstored, upgradelisted_materials hmatch, hto]
  refine ⟨fun _ => ⟨rfl, _, hneed, rfl⟩, fun hle => ?_, (h.upgradelisted hkey).1.agree⟩
  have hnat : u.number.toNat = 0 := by omega
  rw [hnat, neednum, Option.some.injEq] at hneed
  omega

/-- **What a request has to be** for its upgrade to be paid for. -/
def Payable (cfg : Config) (s : State) (m : UpgradeMsg) : Prop :=
  ∀ u e i c level, upgradecheck cfg s m = .ok u → u.isequip = true →
    is_match cfg (u.record % 10) (u.record / 10) = true →
    s.equip (u.record % 10) (u.record / 10) = some e → e.find u.id = some i →
    (e.slots i).chip = some (u.id, level) → s.inchipinfoarr[u.key]? = some c → u.Due e i c level

/-- The chip in the slot and the entry that is used. -/
theorem upgradefitted_paid_iff (h : Fits cfg s) (hu : upgradecheck cfg s m = .ok u)
    (hto : u.to = u.level + u.number)
    (hm : is_match cfg (u.record % 10) (u.record / 10) = true)
    (he : s.equip (u.record % 10) (u.record / 10) = some e) (hi : e.find u.id = some i)
    (hchip : (e.slots i).chip = some (u.id, level)) :
    Paid cfg s (upgradefitted cfg s u).1 u.number ↔
      ∀ c, s.inchipinfoarr[u.key]? = some c → u.Due e i c level := by
  simp only [upgradefitted, hm, he, hi, hchip, Bool.not_true, Bool.false_eq_true, if_false]
  split
  · rename_i hshort
    refine iff_of_true (paid_rfl h) fun c hc => ?_
    rw [List.getElem?_eq_none hshort] at hc
    cases hc
  · rename_i hlt
    obtain ⟨c, hc⟩ : ∃ c, s.inchipinfoarr[u.key]? = some c := ⟨_, List.getElem?_eq_getElem (by omega)⟩
    have hone : (∀ c, s.inchipinfoarr[u.key]? = some c → u.Due e i c level) ↔ u.Due e i c level :=
      ⟨fun hp => hp c hc, fun hp c' hc' => by rwa [← Option.some.inj (hc.symm.trans hc')]⟩
    rw [hone]
    split
    · rename_i hcrowded
      rw [takenout_paid_iff h hu hto hm he (chipid_of_chip hchip) hc]
      constructor
      · rintro ⟨hown, hdue⟩
        exact ⟨fun _ _ => hdue, fun _ hno => absurd hcrowded hno, fun hno => absurd hown hno⟩
      · intro hdue
        have hown : u.Own c := by
          by_contra hno
          exact (hdue.other hno).1 hcrowded
        exact ⟨hown, hdue.crowded hown hcrowded⟩
    · rename_i hroom
      rw [raised_paid_iff h hu hto hm he hchip hc]
      constructor
      · rintro ⟨hown, hother⟩
        exact ⟨fun _ hno => absurd hno hroom, fun ho _ => hown ho, fun ho => ⟨hroom, hother ho⟩⟩
      · intro hdue
        exact ⟨fun ho => hdue.room ho hroom, fun ho => (hdue.other ho).2⟩

/-- Where the slot of the chip is not found, nothing is changed. -/
theorem upgradefitted_stays (h : ¬ ∃ e i level, is_match cfg (u.record % 10) (u.record / 10) = true ∧
    s.equip (u.record % 10) (u.record / 10) = some e ∧ e.find u.id = some i ∧
    (e.slots i).chip = some (u.id, level)) : (upgradefitted cfg s u).1 = s := by
  unfold upgradefitted
  simp only
  split
  · rfl
  · rename_i hm
    split
    · rfl
    · rename_i e he
      split
      · rfl
      · rename_i i hi
        obtain ⟨level, hchip⟩ := chip_of_chipid (find_some hi)
        exact absurd ⟨e, i, level, by simpa using hm, he, hi, hchip⟩ h

/-- **An upgrade is paid for** just where a fitted chip is raised from its own level
with room for it, or no level increases and nothing is taken. -/
theorem upgrade_paid_iff (h : Fits cfg s)
    (hle : ∀ level, m.level = some level → level + m.number.getD 1 ≤ 15) :
    Paid cfg s (upgrade cfg s m).1 (m.number.getD 1) ↔ Payable cfg s m := by
  unfold upgrade
  cases hu : upgradecheck cfg s m with
  | error reply =>
    refine iff_of_true (paid_rfl h) fun u e i c level hu' => ?_
    rw [hu] at hu'
    cases hu'
  | ok u =>
    obtain ⟨hnumber, hlevel, -, -, -⟩ := upgradecheck_need hu
    have hto : u.to = u.level + u.number := by
      have := hle u.level hlevel
      rw [Upgrade.to]
      omega
    have hsame : ∀ u', upgradecheck cfg s m = .ok u' → u = u' := fun u' hu' => by
      rw [hu] at hu'
      exact Except.ok.inj hu'
    rw [← hnumber]
    simp only
    split
    · rename_i hequip
      by_cases hslot : ∃ e i level, is_match cfg (u.record % 10) (u.record / 10) = true ∧
        s.equip (u.record % 10) (u.record / 10) = some e ∧ e.find u.id = some i ∧
        (e.slots i).chip = some (u.id, level)
      · obtain ⟨e, i, level, hm, he, hi, hchip⟩ := hslot
        rw [upgradefitted_paid_iff h hu hto hm he hi hchip]
        constructor
        · intro hdue u' e' i' c level' hu' _ _ he' hi' hchip' hc
          obtain rfl := hsame u' hu'
          obtain rfl := Option.some.inj (he.symm.trans he')
          obtain rfl := Option.some.inj (hi.symm.trans hi')
          obtain rfl : level = level' := by
            rw [hchip, Option.some.injEq, Prod.mk.injEq] at hchip'
            exact hchip'.2
          exact hdue c hc
        · exact fun hp c hc => hp u e i c level hu hequip hm he hi hchip hc
      · rw [upgradefitted_stays hslot]
        refine iff_of_true (paid_rfl h) fun u' e i c level hu' _ hm he hi hchip => ?_
        obtain rfl := hsame u' hu'
        exact absurd ⟨e, i, level, hm, he, hi, hchip⟩ hslot
    · rename_i hequip
      have hequip : u.isequip = false := by simpa using hequip
      refine iff_of_true (upgradelisted_paid h hu hto hequip) fun u' e i c level hu' hequip' => ?_
      obtain rfl := hsame u' hu'
      rw [hequip] at hequip'
      cases hequip'

/-! ## A chip without room -/

theorem fits_onechip : Fits onebody onechip := (fits_newchip.step sure_fitmsg).1

/-- One level more, for which there is room, -/
def raisemsg : UpgradeMsg := ⟨some 10001, some 1, some true, some 12, some false, some 1⟩

/-- and two, for which there is none. -/
def crowdmsg : UpgradeMsg := ⟨some 10001, some 1, some true, some 12, some false, some 2⟩

theorem upgrade_paid_onechip : Paid onebody onechip (upgrade onebody onechip raisemsg).1 1 ↔
    Payable onebody onechip raisemsg :=
  upgrade_paid_iff fits_onechip fun level hlevel => by
    rw [← Option.some.inj hlevel]
    decide

theorem lifechip_pos {x need : ℤ} (h : lifechip.Mod_Level_Up x = some need) : 0 < need := by
  simp only [lifechip] at h
  split at h
  · obtain rfl := Option.some.inj h
    positivity
  · cases h

theorem lifechip_needs {need : ℤ} (h : neednum lifechip level 2 = some need) : 0 < need := by
  simp only [neednum, Option.bind_eq_bind, Option.bind_some, Option.bind_eq_some_iff,
    Option.pure_def, Option.some.injEq] at h
  obtain ⟨sum, ⟨first, hfirst, rfl⟩, second, hsecond, rfl⟩ := h
  have := lifechip_pos hfirst
  have := lifechip_pos hsecond
  omega

/-- **The chip is taken out with two levels more, and nothing is taken for them.** -/
theorem onechip_unpaid : ¬ ∀ (cfg : Config) (s : State) (m : UpgradeMsg), Fits cfg s →
    (∀ level, m.level = some level → level + m.number.getD 1 ≤ 15) →
    Paid cfg s (upgrade cfg s m).1 (m.number.getD 1) := by
  intro h
  have hpaid := h onebody onechip crowdmsg fits_onechip fun level hlevel => by
    rw [← Option.some.inj hlevel]
    decide
  obtain ⟨t, ht⟩ : ∃ t, (upgrade onebody onechip crowdmsg).1 = t := ⟨_, rfl⟩
  rw [ht] at hpaid
  have hmat : t.materials = onechip.materials := by
    rw [← ht]
    decide +kernel
  have hup : Increased onechip t := by
    refine ⟨10001, 2, ?_⟩
    rw [← ht]
    decide +kernel
  obtain ⟨id, level, mod, need, -, -, hmod, hneed, hless⟩ := hpaid.paid hup
  have hlife : mod = lifechip := by
    unfold onebody at hmod
    simp only at hmod
    split at hmod
    · exact (Option.some.inj hmod).symm
    · cases hmod
  subst hlife
  have := lifechip_needs hneed
  omega

end Chips

end Athena
