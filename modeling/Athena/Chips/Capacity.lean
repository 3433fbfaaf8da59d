import Athena.Chips.Volume
import Athena.Chips.Upgrade
/-!
# Chips — the capacity of an equipment

Each request that counts a chip for what it takes in its slot keeps the volume
that is taken the sum of what the chips take, and no more than there is. The costs
must be whole, since some requests store the floor of the volumes.
-/

namespace Athena

namespace Chips

variable {cfg : Config} {s t : State} {a : Add} {e e' src : Equip} {slot : Slot} {i : Fin 5}
  {part uniqueid r id level : ℤ} {m : Mod} {u : Upgrade}

/-! ## Where the volumes are right -/

/-- The equipment with a slot empty. -/
def Equip.emptied (cfg : Config) (e : Equip) (i : Fin 5) : Equip :=
  match (e.slots i).chip with
  | none => e
  | some _ =>
    { e.set i (e.slots i).clear with currentvolume := e.currentvolume - slotcost cfg (e.slots i) }

/-- The volume that is left. -/
def Equip.free (e : Equip) : ℚ := e.volume - e.currentvolume

/-- What a chip takes in the slot it goes to. -/
def Add.takes (a : Add) : ℚ := cost a.mod a.level * (a.equip.slots a.index).num a.mod

/-- The equipment a chip goes to when its slot is empty. -/
def Add.cleared (cfg : Config) (a : Add) : Equip := a.equip.emptied cfg a.index

/-- **The requests that count a chip for what it takes.** A chip that is put into a
slot takes a whole number there, and a move takes off what the chip has taken, or
has room in its own slot. An upgrade adds what the new level takes more, and a chip
without room is taken off with its level. A slot that is polarised with its chip
in it does not change what the chip takes. -/
def Exact (cfg : Config) (s : State) : Event → Prop
  | .add m => ∀ a, addcheck cfg s m = .ok a →
      (a.record = none → a.takes ≤ (a.cleared cfg).free → Whole a.takes) ∧
      ∀ r src, a.record = some r → source s a (a.cleared cfg) r = some src →
        (∀ i, src.find a.id = some i → movecheck cfg a (a.cleared cfg) src r i = .ok () →
          Whole a.takes ∧ cost a.mod a.level * (src.slots i).movenum a.mod = slotcost cfg (src.slots i)) ∧
        (src.find a.id = none → Whole a.takes ∧ a.takes ≤ (a.cleared cfg).free)
  | .upgrade m => ∀ u e i level, upgradecheck cfg s m = .ok u → u.isequip = true →
      s.equip (u.record % 10) (u.record / 10) = some e → e.find u.id = some i →
      (e.slots i).chip = some (u.id, level) →
        (e.free < cost u.mod u.number * (e.slots i).num u.mod →
          cost u.mod u.level * (e.slots i).num u.mod = slotcost cfg (e.slots i)) ∧
        (cost u.mod u.number * (e.slots i).num u.mod ≤ e.free →
          Whole (cost u.mod (min 15 (level + u.number)) * (e.slots i).num u.mod) ∧
          cost u.mod (min 15 (level + u.number)) * (e.slots i).num u.mod =
            slotcost cfg (e.slots i) + cost u.mod u.number * (e.slots i).num u.mod)
  | .slotpola part uniqueid typepola index => Whole cfg.Mod_Volume ∧
      ∀ p u i e, part = some p → uniqueid = some u → index.bind slotindex = some i →
        s.equip p u = some e → 99 < e.count →
        slotcost cfg { e.slots i with ispola := true, typepola := typepola } = slotcost cfg (e.slots i)
  | _ => True

/-! ## add -/

theorem clear_num : slot.clear.num m = slot.num m := rfl

theorem fit_num {islock : ℤ} : (slot.fit id level islock).num m = slot.num m := rfl

theorem emptied_chip (cfg : Config) (e : Equip) (i : Fin 5) :
    ((e.emptied cfg i).slots i).chip = none := by
  unfold Equip.emptied
  split
  · assumption
  · simp [Equip.set, Slot.clear]

theorem emptied_num (cfg : Config) (e : Equip) (i : Fin 5) :
    ((e.emptied cfg i).slots i).num m = (e.slots i).num m := by
  unfold Equip.emptied
  split
  · rfl
  · simp [Equip.set, clear_num]

theorem Sized.emptied (h : Sized cfg e) (hi : i ≠ 4) : Sized cfg (e.emptied cfg i) := by
  unfold Equip.emptied
  split
  · exact h
  · exact h.out hi rfl rfl rfl rfl

/-- What is taken out first is what the slot has. -/
theorem uninstall_emptied (h : uninstall cfg s a = some (t, e)) :
    e = a.cleared cfg ∧ t.equip = s.equip := by
  unfold uninstall at h
  simp only at h
  unfold Add.cleared Equip.emptied
  split at h
  · rename_i hchip
    cases h
    rw [hchip]
    exact ⟨rfl, rfl⟩
  · rename_i id level hchip
    split at h
    · rename_i m key hmod _
      cases h
      rw [hchip]
      refine ⟨?_, by simp [State.out]⟩
      simp only [slotcost_some hchip hmod]
    · cases h

/-- The equipment with the chip in its slot. -/
def Equip.puton (e : Equip) (a : Add) : Equip :=
  { e.set a.index ((e.slots a.index).fit a.id a.level 0) with
    currentvolume := e.currentvolume + cost a.mod a.level * (e.slots a.index).num a.mod }

theorem Sized.puton (h : Sized cfg e) (hi : a.index ≠ 4) (hmod : cfg.mod a.id = some a.mod)
    (hempty : (e.slots a.index).chip = none)
    (hwhole : Whole (cost a.mod a.level * (e.slots a.index).num a.mod))
    (hroom : cost a.mod a.level * (e.slots a.index).num a.mod ≤ e.free) : Sized cfg (e.puton a) := by
  have hcost : slotcost cfg ((e.slots a.index).fit a.id a.level 0) =
      cost a.mod a.level * (e.slots a.index).num a.mod := slotcost_some rfl hmod
  refine h.into hi hempty rfl ?_ rfl ?_ ?_
  · rw [hcost]
    exact hwhole
  · rw [hcost]
    rfl
  · rw [hcost]
    exact hroom

/-- What is stored is what is meant, where it is whole. -/
theorem Sized.fitted_eq (h : Sized cfg (e.puton a)) :
    fitted s a e = (s.setequip a.part a.uniqueid (e.puton a), some .success) := by
  have hfloor := h.floor_eq
  rw [fitted, ← hfloor]
  rw [hfloor]
  exact congrArg (fun x => (s.setequip a.part a.uniqueid x, some Code.success)) hfloor

theorem Allsized.fitted (h : Allsized cfg s) (he : Sized cfg (e.puton a)) :
    Allsized cfg (Chips.fitted s a e).1 := by
  rw [he.fitted_eq]
  exact h.setequip he rfl

theorem installed_equip : (installed s a).equip = s.equip := by
  unfold installed
  split <;> rfl

/-- **A chip that was not fitted.** -/
theorem Allsized.install (h : Allsized cfg s) (ht : t.equip = s.equip)
    (he : a.takes ≤ e.free → Sized cfg (e.puton a))
    (htakes : a.takes = cost a.mod a.level * (e.slots a.index).num a.mod) :
    Allsized cfg (Chips.install cfg s a t e).1 := by
  have hfail : ∀ reply, Allsized cfg (s.fail t reply).1 := fun reply => h.congr rfl
  unfold Chips.install
  split
  · exact hfail _
  · rename_i hroom
    split
    · exact hfail _
    · split
      · exact hfail _
      · split
        · exact hfail _
        · refine Allsized.fitted (h.congr ?_) (he ?_)
          · rw [update_player_attr_equip, installed_equip, ht]
          · rw [htakes]
            exact not_lt.mp hroom

theorem relistout_equip : (relistout s id r).equip = s.equip := by
  unfold relistout
  split <;> rfl

theorem relistback_equip : (relistback s a).equip = s.equip := by
  unfold relistback
  split <;> rfl

/-- **The chip is moved.** -/
theorem Allsized.moved (h : Allsized cfg s) (ht : t.equip = s.equip) (hsrc : Sized cfg src)
    (he : Sized cfg ((if r % 10 = a.part ∧ r / 10 = a.uniqueid then src else e).puton a)) :
    Allsized cfg (Chips.moved cfg s a t e src r).1 := by
  unfold Chips.moved
  refine Allsized.fitted ?_ he
  rw [hsrc.floor_eq]
  refine h.setequip hsrc (setequip_congr ?_)
  rw [update_player_attr_equip, update_player_attr_equip, relistback_equip, relistout_equip, ht]

/-- A slot that a chip is found in is one of the first four. -/
theorem Sized.find_ne (h : Sized cfg e) (hi : e.find id = some i) : i ≠ 4 := by
  rintro rfl
  have := find_some hi
  rw [Slot.chipid, h.fifth] at this
  cases this

theorem leave_slots : (leave a src i).slots = Function.update src.slots i (src.slots i).clear := rfl

/-- A slot is empty still when a chip leaves another one. -/
theorem leave_chip {j : Fin 5} (hempty : (src.slots j).chip = none) :
    ((leave a src i).slots j).chip = none := by
  rw [leave_slots]
  by_cases hji : j = i
  · subst hji
    rw [Function.update_self]
    rfl
  · rw [Function.update_of_ne hji]
    exact hempty

theorem leave_num {j : Fin 5} : ((leave a src i).slots j).num m = (src.slots j).num m := by
  rw [leave_slots]
  by_cases hji : j = i
  · subst hji
    rw [Function.update_self, clear_num]
  · rw [Function.update_of_ne hji]

/-- **`add`.** -/
theorem Allsized.add (h : Allsized cfg s) {m : AddMsg} (hexact : Exact cfg s (.add m)) :
    Allsized cfg (Chips.add cfg s m).1 := by
  unfold Chips.add
  split
  · exact h
  · rename_i a ha
    have hcheck := addcheck_ok ha
    have hequip : Sized cfg a.equip := h _ _ _ hcheck.equip
    split
    · exact h
    · rename_i t e hu
      obtain ⟨rfl, ht⟩ := uninstall_emptied hu
      have hsized : Sized cfg (a.cleared cfg) := hequip.emptied hcheck.index
      have hempty : ((a.cleared cfg).slots a.index).chip = none := emptied_chip cfg a.equip a.index
      have htakes : a.takes = cost a.mod a.level * ((a.cleared cfg).slots a.index).num a.mod := by
        rw [Add.cleared, emptied_num, Add.takes]
      have hput : Whole a.takes → a.takes ≤ (a.cleared cfg).free → Sized cfg ((a.cleared cfg).puton a) :=
        fun hwhole hroom => hsized.puton hcheck.index hcheck.mod hempty (htakes ▸ hwhole) (htakes ▸ hroom)
      obtain ⟨hinstall, hmove⟩ := hexact a ha
      split
      · -- the chip sits nowhere yet
        rename_i hrecord
        exact h.install ht (fun hroom => hput (hinstall hrecord hroom) hroom) htakes
      · -- it sits in some equipment and has to leave it first
        rename_i r hrecord
        unfold Chips.move
        split
        · exact h.congr rfl
        · rename_i src hsource
          have hsrc : Sized cfg src := by
            unfold source at hsource
            split at hsource
            · exact Option.some.inj hsource ▸ hsized
            · exact h _ _ _ hsource
          obtain ⟨hsome, hnone⟩ := hmove r src hrecord hsource
          split
          · -- the record is stale: no slot of the source holds the chip
            rename_i hfind
            obtain ⟨hwhole, hroom⟩ := hnone hfind
            refine h.moved ht hsrc ?_
            split
            · rename_i hsame
              rw [source, if_pos hsame] at hsource
              exact Option.some.inj hsource ▸ hput hwhole hroom
            · exact hput hwhole hroom
          · rename_i i hfind
            have hi := hsrc.find_ne hfind
            split
            · exact h.congr rfl
            · rename_i hok
              obtain ⟨hwhole, hcost⟩ := hsome i hfind hok
              have hleave : Sized cfg (leave a src i) := by
                refine hsrc.out hi rfl leave_slots rfl ?_
                rw [← hcost]
                rfl
              refine h.moved ht hleave ?_
              unfold movecheck at hok
              simp only at hok
              split at hok
              · cases hok
              · split at hok
                · cases hok
                · split
                  · -- within one equipment what the old slot gives back counts as free
                    rename_i hsame
                    rw [if_pos hsame] at hok
                    split at hok
                    · cases hok
                    · rename_i hroom
                      rw [source, if_pos hsame, Option.some.injEq] at hsource
                      subst hsource
                      refine hleave.puton hcheck.index hcheck.mod (leave_chip hempty) ?_ ?_
                      · rw [leave_num, ← htakes]
                        exact hwhole
                      · rw [leave_num]
                        have hfree : (leave a (a.cleared cfg) i).free = (a.cleared cfg).free +
                            cost a.mod a.level * ((a.cleared cfg).slots i).movenum a.mod := by
                          simp only [Equip.free, leave, Equip.set]
                          ring
                        rw [hfree, Equip.free]
                        linarith
                  · rename_i hsame
                    rw [if_neg hsame] at hok
                    split at hok
                    · cases hok
                    · split at hok
                      · cases hok
                      · rename_i hroom
                        refine hput hwhole ?_
                        rw [htakes]
                        exact not_lt.mp hroom

/-! ## The other requests -/

/-- What the chip that is found takes. -/
theorem find_cost {id' : ℤ} (hi : e.find id = some i) (hmod : cfg.mod id = some m)
    (hchip : (e.slots i).chip = some (id', level)) :
    slotcost cfg (e.slots i) = cost m level * (e.slots i).num m := by
  have hid := find_some hi
  rw [chipid_of_chip hchip, Option.some.injEq] at hid
  exact slotcost_some hchip (hid ▸ hmod)

theorem without_eq (hi : i ≠ 4) : e.without m level i =
    { e with currentvolume := e.currentvolume - cost m level * (e.slots i).num m } := by
  simp only [Equip.without, if_neg hi]

/-- **`remove`.** -/
theorem Allsized.remove (h : Allsized cfg s) {uniqueidpart id : Option ℤ} :
    Allsized cfg (Chips.remove cfg s uniqueidpart id).1 := by
  unfold Chips.remove
  split
  · exact h
  · exact h
  · rename_i r id
    simp only
    split
    · exact h
    · split
      · exact h
      · split
        · exact h
        · rename_i e he
          split
          · exact h
          · rename_i i hi
            have hsized := h _ _ _ he
            have hne := hsized.find_ne hi
            split
            · rename_i m id' level hmod hchip
              have hcost := find_cost hi hmod hchip
              have hout : Sized cfg ((e.without m level i).set i (e.slots i).clear) := by
                rw [without_eq hne, ← hcost]
                exact hsized.out hne rfl rfl rfl rfl
              exact h.setequip hout (setequip_congr update_player_attr_equip)
            · exact h

theorem addnum5_fifth {pola : Bool} (h : (e.slots 4).chip = none) : addnum5 cfg e pola = some 0 := by
  simp [addnum5, h]

/-- **`double`.** -/
theorem Allsized.double (h : Allsized cfg s) {part uniqueid : Option ℤ} :
    Allsized cfg (Chips.double cfg s part uniqueid).1 := by
  unfold Chips.double
  split
  · rename_i part uniqueid
    split
    · exact h
    · split
      · exact h
      · split
        · exact h
        · split
          · exact h
          · rename_i e he
            split
            · exact h
            · have hsized := h _ _ _ he
              rw [addnum5_fifth hsized.fifth]
              refine h.setequip (e := { e with isdouble := 1, volume := (e.volume - 0) * 2 + 0 }) ?_ rfl
              have hvolume := hsized.volume
              have hroom := hsized.room
              refine ⟨hsized.whole, hsized.fifth, hsized.current, ?_, ?_⟩
              · rw [sub_zero, add_zero, mul_two]
                exact hvolume.add hvolume
              · have := hvolume.nonneg
                simp only
                linarith
  · exact h

/-- What is left of the slots that are emptied. -/
theorem unload_slots {machine : Option ℤ} {record : ℤ} (is : List (Fin 5)) :
    ∀ {s : State} {e : Equip}, unload cfg machine part record is s e = (t, some e') →
      t.equip = s.equip ∧ (∀ i ∈ is, (e'.slots i).chip = none) ∧
        ∀ i, (e.slots i).chip = none → (e'.slots i).chip = none := by
  induction is with
  | nil =>
    intro s e h
    cases h
    exact ⟨rfl, fun i hi => absurd hi List.not_mem_nil, fun _ hi => hi⟩
  | cons i is ih =>
    intro s e h
    unfold unload at h
    split at h
    · rename_i hchip
      obtain ⟨hequip, hall, hkeep⟩ := ih h
      refine ⟨hequip, fun j hj => ?_, hkeep⟩
      rcases List.mem_cons.mp hj with rfl | hj
      · exact hkeep j hchip
      · exact hall j hj
    · split at h
      · obtain ⟨hequip, hall, hkeep⟩ := ih h
        have hset : ((e.set i { e.slots i with chip := none }).slots i).chip = none := by
          simp [Equip.set]
        refine ⟨hequip.trans update_player_attr_equip, fun j hj => ?_, fun j hj => hkeep j ?_⟩
        · rcases List.mem_cons.mp hj with rfl | hj
          · exact hkeep j hset
          · exact hall j hj
        · by_cases hji : j = i
          · subst hji
            exact hset
          · simpa [Equip.set, hji] using hj
      · cases h

/-- An equipment without chips. -/
theorem Sized.of_empty (h : ∀ i, (e.slots i).chip = none) (hvolume : Whole e.volume)
    (hcurrent : e.currentvolume = 0) : Sized cfg e where
  whole i _ := by
    rw [slotcost_none (h i)]
    exact whole_zero
  fifth := h 4
  current := by
    rw [hcurrent, used]
    exact (Finset.sum_eq_zero fun i _ => slotcost_none (h _)).symm
  volume := hvolume
  room := by
    rw [hcurrent]
    exact hvolume.nonneg

/-- A slot gets its type. -/
theorem Sized.polarised (h : Sized cfg e) (hi : i ≠ 4) {typepola : Option ℤ} (count : ℤ)
    (hcost : slotcost cfg { e.slots i with ispola := true, typepola := typepola } =
      slotcost cfg (e.slots i)) :
    Sized cfg { e.set i { e.slots i with ispola := true, typepola := typepola } with
      count := count } :=
  h.change hi rfl (hcost ▸ h.whole i hi) (by rw [hcost]; rfl) h.volume h.room

/-- **`slotpola`.** -/
theorem Allsized.slotpola (h : Allsized cfg s) {part uniqueid typepola index : Option ℤ}
    (hexact : Exact cfg s (.slotpola part uniqueid typepola index)) :
    Allsized cfg (Chips.slotpola cfg s part uniqueid typepola index).1 := by
  obtain ⟨hwhole, hsame⟩ := hexact
  unfold Chips.slotpola
  split
  · exact h
  · rename_i i hindex
    have hi := slotindex_ne hindex
    split
    · rename_i part uniqueid
      split
      · exact h
      · split
        · exact h
        · split
          · exact h
          · rename_i e he
            have hsized := h _ _ _ he
            split
            · rename_i hcount
              exact h.setequip (hsized.polarised hi _ (hsame _ _ _ _ rfl rfl hindex he hcount)) rfl
            · rw [addnum5_fifth hsized.fifth]
              simp only
              split
              · exact h.congr rfl
              · rename_i t e' hu
                obtain ⟨hequip, hall, hkeep⟩ := unload_slots [0, 1, 2, 3] hu
                -- the four slots are emptied, and the fifth one was empty
                have hempty : ∀ j, (e'.slots j).chip = none := by
                  intro j
                  by_cases hj : j = 4
                  · exact hkeep j (hj ▸ hsized.fifth)
                  · refine hall j ?_
                    revert hj
                    revert j
                    decide
                have hbare : Sized cfg { e' with volume := cfg.Mod_Volume + 0, currentvolume := 0 } :=
                  .of_empty hempty (by rw [add_zero]; exact hwhole) rfl
                have hcost : slotcost cfg { e'.slots i with ispola := true, typepola := typepola } =
                    slotcost cfg (e'.slots i) := by
                  have hnone : ({ e'.slots i with ispola := true, typepola := typepola } : Slot).chip =
                      none := hempty i
                  rw [slotcost_none hnone, slotcost_none (hempty i)]
                exact h.setequip (hbare.polarised hi _ hcost) (setequip_congr hequip)
    · exact h

/-- **`upgrade`.** -/
theorem Allsized.upgrade (h : Allsized cfg s) {m : UpgradeMsg} (hexact : Exact cfg s (.upgrade m)) :
    Allsized cfg (Chips.upgrade cfg s m).1 := by
  unfold Chips.upgrade
  split
  · exact h
  · rename_i u hu
    obtain ⟨hmod, -⟩ := upgradecheck_ok hu
    split
    · rename_i hequip
      unfold upgradefitted
      simp only
      split
      · exact h
      · split
        · exact h
        · rename_i e he
          have hsized := h _ _ _ he
          split
          · exact h
          · rename_i i hi
            have hne := hsized.find_ne hi
            obtain ⟨level, hchip⟩ := chip_of_chipid (find_some hi)
            obtain ⟨hnoroom, hraise⟩ := hexact u e i level hu hequip he hi hchip
            split
            · exact h
            · split
              · rename_i hfull
                have hcost := hnoroom (by rw [Equip.free]; linarith [hfull.2])
                unfold takenout
                simp only
                rw [hcost]
                have hout : Sized cfg { e.set i (e.slots i).clear with
                    currentvolume := e.currentvolume - slotcost cfg (e.slots i) } :=
                  hsized.out hne rfl rfl rfl rfl
                exact h.setequip hout (setequip_congr update_player_attr_equip)
              · rename_i hroom
                have hroom : cost u.mod u.number * (e.slots i).num u.mod ≤ e.free := by
                  have := not_lt.mp fun hlt => hroom ⟨hne, hlt⟩
                  rw [Equip.free]
                  linarith
                obtain ⟨hwhole, hlevel⟩ := hraise hroom
                rw [hchip]
                unfold raised
                simp only
                have hcost : slotcost cfg { e.slots i with
                    chip := some (u.id, min 15 (level + u.number)) } =
                      cost u.mod (min 15 (level + u.number)) * (e.slots i).num u.mod :=
                  slotcost_some rfl hmod
                have hmore : e.more u.mod u.number i =
                    { e with currentvolume :=
                        e.currentvolume + cost u.mod u.number * (e.slots i).num u.mod } := by
                  simp only [Equip.more, if_neg hne]
                have hnew : Sized cfg ((e.more u.mod u.number i).set i
                    { e.slots i with chip := some (u.id, min 15 (level + u.number)) }) := by
                  rw [hmore]
                  refine hsized.change hne rfl (hcost ▸ hwhole) ?_ hsized.volume ?_
                  · rw [hcost, hlevel]
                    simp only [Equip.set]
                    ring
                  · rw [Equip.free] at hroom
                    simp only [Equip.set]
                    linarith
                rw [hnew.floor_eq]
                exact h.setequip hnew
                  (remmaterials_equip.trans (setequip_congr update_player_attr_equip))
    · refine h.congr ?_
      unfold upgradelisted
      split <;> exact remmaterials_equip

/-- The rest of a player, which requests that only read and write the lists leave as it is. -/
structure Rest (s t : State) : Prop where
  equip : t.equip = s.equip
  machines : t.machines = s.machines
  chipattribute : t.chipattribute = s.chipattribute

theorem setlockchip_rest {cfgid record : Option ℤ} {isnew islock : Option Bool} :
    Rest s (setlockchip s cfgid record isnew islock).1 := by
  unfold setlockchip
  repeat' split
  all_goals exact ⟨rfl, rfl, rfl⟩

theorem addchip_rest {id level number : Option ℤ} : Rest s (addchip cfg s id level number).1 := by
  unfold addchip
  repeat' split
  all_goals exact ⟨rfl, rfl, rfl⟩

theorem removechip_rest {id level number : Option ℤ} : Rest s (removechip s id level number).1 := by
  unfold removechip
  repeat' split
  all_goals exact ⟨rfl, rfl, rfl⟩

/-- **Every request** that counts a chip for what it takes. -/
theorem Allsized.step {e : Event} (h : Allsized cfg s) (hexact : Exact cfg s e) :
    Allsized cfg (Chips.step cfg s e).1 := by
  cases e with
  | add m => exact h.add hexact
  | remove uniqueidpart id => exact h.remove
  | double part uniqueid => exact h.double
  | slotpola part uniqueid typepola index => exact h.slotpola hexact
  | upgrade m => exact h.upgrade hexact
  | setlockchip cfgid record isnew islock => exact h.congr setlockchip_rest.equip
  | addchip id level number => exact h.congr addchip_rest.equip
  | removechip id level number => exact h.congr removechip_rest.equip

end Chips

end Athena
