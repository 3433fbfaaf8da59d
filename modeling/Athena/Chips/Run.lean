import Athena.Chips.Upgrade
/-!
# Chips — runs

In every run of requests that go right the slots of each equipment and the list
of fitted chips agree, and the chips of an id change only by what is granted and
removed.
-/

namespace Athena

namespace Chips

variable {cfg : Config} {s t : State}

/-! ## setlockchip, addchip and removechip -/

theorem get_chip_level_none {id islock : ℤ} {l : List Chip} :
    get_chip id l none islock none = none := by
  rw [get_chip, List.findIdx?_eq_none_iff]
  intro c _
  simp

/-- **`setlockchip`** finds nothing. -/
theorem Fits.setlockchip (h : Fits cfg s) {cfgid record : Option ℤ} {isnew islock : Option Bool}
    (hsure : Sure cfg s (.setlockchip cfgid record isnew islock)) :
    Kept cfg s (.setlockchip cfgid record isnew islock)
      (Chips.setlockchip s cfgid record isnew islock).1 := by
  have hgrant : ∀ x, granted cfg s (.setlockchip cfgid record isnew islock) x = 0 := fun _ => rfl
  have hsame : Kept cfg s (.setlockchip cfgid record isnew islock) s :=
    h.kept_congr hgrant rfl rfl rfl rfl
  unfold Chips.setlockchip
  split
  · rename_i cfgid isnew
    split
    · rename_i record
      have hnone : get_chip cfgid s.inchipinfoarr none 1 (some (record / 10, record % 10)) = none := hsure
      rw [hnone]
      exact hsame
    · split
      · exact hsame
      · rw [get_chip_level_none]
        exact hsame
  · exact hsame

/-- A grant or a removal that is not all told is none. -/
theorem granted_incomplete {id level number : Option ℤ}
    (h : ∀ i l n, id = some i → level = some l → number = some n → False) :
    (∀ x, granted cfg s (.addchip id level number) x = 0) ∧
      ∀ x, granted cfg s (.removechip id level number) x = 0 := by
  cases id with
  | none => exact ⟨fun _ => rfl, fun _ => rfl⟩
  | some id =>
    cases level with
    | none => exact ⟨fun _ => rfl, fun _ => rfl⟩
    | some level =>
      cases number with
      | none => exact ⟨fun _ => rfl, fun _ => rfl⟩
      | some n => exact absurd rfl (h id level n rfl rfl)

/-- **`addchip`.** -/
theorem Fits.addchip (h : Fits cfg s) {id level number : Option ℤ}
    (hsure : Sure cfg s (.addchip id level number)) :
    Kept cfg s (.addchip id level number) (Chips.addchip cfg s id level number).1 := by
  unfold Chips.addchip
  split
  · rename_i id level n
    split
    · rename_i hmod
      refine h.kept_congr (fun x => ?_) rfl rfl rfl rfl
      simp [granted, hmod]
    · rename_i m hmod
      have hgrant : ∀ x, granted cfg s (.addchip (some id) (some level) (some n)) x =
          if id = x then n else 0 := fun x => by simp [granted, hmod]
      split
      · rename_i key hkey
        have hone : n = 1 := by simpa [Sure, hkey] using hsure
        obtain ⟨c, hc, hid, -, -⟩ := get_chip_some hkey
        obtain ⟨k, hk, hpos⟩ := h.chipinfoarr c (List.mem_of_getElem? hc)
        have heq : (s.chipinfoarr.modify key fun c => { c with number := c.number.map (· + 1) }) =
            s.chipinfoarr.modify key fun d => { d with number := some (k + 1) } :=
          modify_congr hc (by rw [hk]; rfl)
        simp only [heq]
        refine ⟨h.lists h.newchipinfo (h.chipinfoarr.modify hc (by omega)) rfl rfl, fun x => ?_⟩
        have htally := tally_number x (k + 1) hc
        rw [held, hk, Option.getD_some, hid] at htally
        rw [hgrant, hone]
        simp only [total]
        split_ifs at htally ⊢ <;> omega
      · rename_i hkey
        have hpos : 0 < standing s.newchipinfo id level 0 + n := by simpa [Sure, hkey] using hsure
        have hnumbered : Numbered (add_chip id s.newchipinfo level n 0 none) :=
          (add_chip_spec h.newchipinfo).2 hpos
        have htally : ∀ x, tally (held x) (add_chip id s.newchipinfo level n 0 none) =
            tally (held x) s.newchipinfo + if id = x then n else 0 := (add_chip_spec h.newchipinfo).1
        refine ⟨h.lists hnumbered h.chipinfoarr rfl rfl, fun x => ?_⟩
        simp only [hgrant, total, htally]
        omega
  · rename_i hnone
    refine h.kept_congr (fun x => ?_) rfl rfl rfl rfl
    exact (granted_incomplete hnone).1 x

/-- **`removechip`.** -/
theorem Fits.removechip (h : Fits cfg s) {id level number : Option ℤ} :
    Kept cfg s (.removechip id level number) (Chips.removechip s id level number).1 := by
  unfold Chips.removechip
  split
  · rename_i id level n
    have hsame : (Chips.removechip s (some id) (some level) (some n)).2 ≠ some .success →
        Kept cfg s (.removechip (some id) (some level) (some n)) s := fun hno =>
      h.kept_congr (fun x => by simp [granted, hno]) rfl rfl rfl rfl
    split
    · rename_i hkey
      exact hsame (by simp [Chips.removechip, hkey])
    · rename_i key hkey
      obtain ⟨c, hc, hid, -, -⟩ := get_chip_some hkey
      simp only [hc, Option.bind_some]
      split
      · rename_i hless
        exact hsame (by simp [Chips.removechip, hkey, hc, hless])
      · rename_i hless
        obtain ⟨hnumbered, htally⟩ := remove_number_spec h.chipinfoarr hc (not_lt.mp hless)
        have hgrant : ∀ x, granted cfg s (.removechip (some id) (some level) (some n)) x =
            if id = x then -n else 0 := fun x => by
          simp [granted, Chips.removechip, hkey, hc, hless]
        refine ⟨h.lists h.newchipinfo hnumbered rfl rfl, fun x => ?_⟩
        have := htally x
        rw [hid] at this
        simp only [hgrant, total]
        split_ifs at this ⊢ <;> omega
  · rename_i hnone
    refine h.kept_congr (fun x => ?_) rfl rfl rfl rfl
    exact (granted_incomplete hnone).2 x

/-! ## Every request -/

/-- **Every request that goes right** keeps the slots and the lists in agreement. -/
theorem Fits.step {e : Event} (h : Fits cfg s) (hsure : Sure cfg s e) :
    Kept cfg s e (Chips.step cfg s e).1 := by
  cases e with
  | add m => exact h.add hsure
  | remove uniqueidpart id => exact h.remove
  | double part uniqueid => exact h.double
  | slotpola part uniqueid typepola index => exact h.slotpola
  | upgrade m => exact h.upgrade hsure
  | setlockchip cfgid record isnew islock => exact h.setlockchip hsure
  | addchip id level number => exact h.addchip hsure
  | removechip id level number => exact h.removechip

/-- **The chips of a player** under requests, from any state in which the slots and
the lists agree. -/
def chips (cfg : Config) : System State Event where
  init := Fits cfg
  step s e t := t = (Chips.step cfg s e).1

/-- The equipment that is the player's has in its slots what the list of fitted
chips says, and chips that are not fitted have positive numbers. -/
def Agree (cfg : Config) (s : State) : Prop :=
  (∀ part uniqueid e, is_match cfg part uniqueid = true → s.equip part uniqueid = some e →
    fitsum e.slots = tally (listed (recordof part uniqueid)) s.inchipinfoarr) ∧
    Numbered s.newchipinfo ∧ Numbered s.chipinfoarr

theorem Fits.agreed (h : Fits cfg s) : Agree cfg s := ⟨h.agree, h.newchipinfo, h.chipinfoarr⟩

/-- **Slots and lists agree** in every run of requests that go right, and a request
changes the chips of an id by what it grants or removes. -/
theorem chips_agree (cfg : Config) (s : State)
    (h : ((chips cfg).restrict (Sure cfg)).Reachable s) :
    Agree cfg s ∧ ∀ e, Sure cfg s e → ∀ id,
      total (Chips.step cfg s e).1 id = total s id + granted cfg s e id := by
  have hfits : Fits cfg s := by
    refine h.invariant (P := Fits cfg) (fun _ h₀ => h₀) fun s e t hst hs => ?_
    have heq : t = (Chips.step cfg s e).1 := hst.1
    rw [heq]
    exact (hs.step hst.2).1
  exact ⟨hfits.agreed, fun e hsure => (hfits.step hsure).2⟩

/-! ## A body and a chip -/

/-- An equipment as it is made. -/
def bare : Equip := ⟨fun _ => ⟨none, none, false, none⟩, 4, 0, 0, 0⟩

/-- A chip for bodies. -/
def lifechip : Mod where
  Mod_Type := 2
  Mod_Capacity := 2
  Pole_Type := 10001
  Load_Pisiton := [(warehousetype.body, 0)]
  Buff_ID := [(10008, 1 / 8, 1 / 200)]
  Mod_Level_Up level := if 2 ≤ level ∧ level ≤ 15 then some (40 * 2 ^ (level - 2).toNat) else none

def onebody : Config :=
  ⟨fun id => if id = 10001 then some lifechip else none, 2, fun id => some id,
    fun part => if part = warehousetype.body then [1] else []⟩

/-- A player with a body and a new chip. -/
def newchip : State :=
  { newchipinfo := [⟨10001, 1, 0, some 1, none⟩]
    chipinfoarr := []
    inchipinfoarr := []
    equip := fun part uniqueid => if part = warehousetype.body ∧ uniqueid = 1 then some bare else none
    machines := [(7, ⟨[], [1], [], []⟩)]
    chipattribute := fun _ _ => 0
    materials := 1000
    props := fun _ => 1 }

theorem newchip_equip {part uniqueid : ℤ} {e : Equip} (h : newchip.equip part uniqueid = some e) :
    e = bare := by
  simp only [newchip] at h
  split at h
  · exact (Option.some.inj h).symm
  · cases h

theorem fits_newchip : Fits onebody newchip where
  newchipinfo c hc := by
    rw [List.mem_singleton.mp hc]
    exact ⟨1, rfl, by decide⟩
  chipinfoarr c hc := by cases hc
  plain c hc := by cases hc
  owned c hc := by cases hc
  agree part uniqueid e _ he := by
    rw [newchip_equip he]
    simp [fitsum, bare, Slot.fits, newchip]
  single part uniqueid e _ he := by
    rw [newchip_equip he]
    intro i j id hi
    cases hi

/-- The chip goes into the first slot, -/
def fitmsg : AddMsg := ⟨some 10001, some 12, some 1, some 1, some true, none, some true⟩

/-- and from there into the second one, with a level that is not its own. -/
def movemsg : AddMsg := ⟨some 10001, some 12, some 2, some 3, some false, some 12, some false⟩

/-- or with its own. -/
def keepmsg : AddMsg := ⟨some 10001, some 12, some 2, some 1, some false, some 12, some false⟩

theorem sure_fitmsg : Sure onebody newchip (.add fitmsg) := by
  intro a r ha hr
  have hnone : ((addcheck onebody newchip fitmsg).toOption.bind Add.record) = none := by decide +kernel
  rw [ha] at hnone
  exact absurd (hr.symm.trans hnone) (by simp)

/-- The chip in the first slot. -/
def onechip : State := (Chips.step onebody newchip (.add fitmsg)).1

theorem sure_keepmsg : Sure onebody onechip (.add keepmsg) := by
  intro a r ha hr
  have hcheck : ((addcheck onebody onechip keepmsg).toOption.map fun a => (a.id, a.level, a.record)) =
      some (10001, 1, some 12) := by decide +kernel
  have hin : (⟨10001, 1, 0, none, some 12⟩ : Chip) ∈ onechip.inchipinfoarr := by decide +kernel
  rw [ha] at hcheck
  obtain ⟨hid, hlevel, hrecord⟩ : a.id = 10001 ∧ a.level = 1 ∧ a.record = some 12 := by
    simpa [Except.toOption] using hcheck
  obtain rfl : r = 12 := Option.some.inj (hr.symm.trans hrecord)
  exact ⟨_, hin, hid.symm, rfl, rfl, Or.inl hlevel.symm⟩

/-- It has been fitted and moved, and can be taken out. -/
theorem chips_agree_kept : ∃ t, ((t.equip 2 1).map fun e => (e.slots 1).chip) = some (some (10001, 1)) ∧
    Agree onebody t ∧ total (Chips.step onebody t (.remove (some 12) (some 10001))).1 10001 =
      total t 10001 + granted onebody t (.remove (some 12) (some 10001)) 10001 := by
  have hpath : ((chips onebody).restrict (Sure onebody)).Path newchip [.add fitmsg, .add keepmsg] _ :=
    .cons ⟨rfl, sure_fitmsg⟩ (.cons ⟨rfl, sure_keepmsg⟩ (.nil _))
  obtain ⟨hagree, htotal⟩ := chips_agree onebody _ ⟨newchip, _, fits_newchip, hpath⟩
  exact ⟨_, by decide +kernel, hagree, htotal (.remove (some 12) (some 10001)) trivial _⟩

/-- **A chip that is moved with another level** is in its slot and in no list. -/
theorem chips_agree_moved : ¬ ∀ (cfg : Config) (s : State), (chips cfg).Reachable s →
    Agree cfg s ∧ ∀ e id, total (Chips.step cfg s e).1 id = total s id + granted cfg s e id := by
  intro h
  obtain ⟨t, ht⟩ : ∃ t, (Chips.step onebody onechip (.add movemsg)).1 = t := ⟨_, rfl⟩
  have hreach : (chips onebody).Reachable t :=
    ⟨newchip, [.add fitmsg, .add movemsg], fits_newchip, .cons rfl (.cons ht.symm (.nil _))⟩
  have hin : t.inchipinfoarr = [] := by
    rw [← ht]
    decide +kernel
  have hslot : ((t.equip 2 1).map fun e => (e.slots 1).chip) = some (some (10001, 3)) := by
    rw [← ht]
    decide +kernel
  obtain ⟨e, he, hchip⟩ := Option.map_eq_some_iff.mp hslot
  have hagree := (h onebody t hreach).1.1 2 1 e (by decide) he
  have hmem : (10001, 3, (e.slots 1).islock) ∈ fitsum e.slots := mem_fitsum.mpr ⟨1, hchip, rfl⟩
  rw [hagree, hin] at hmem
  simp at hmem

end Chips

end Athena
