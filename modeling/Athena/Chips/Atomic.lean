import Athena.Chips.Skills
/-!
# Chips — all or nothing

A chip that is put where another one is takes that one out first. What it gave is
taken from the machine at once, and the checks that come then may refuse the new
chip; the lists and the slots are not stored then, but the attributes and skills are.
-/

namespace Athena

namespace Chips

variable {cfg : Config} {Sikll_ID : ℤ → ℤ} {s t : State} {p : Player} {a : Add} {e : Equip} {m : Mod}
  {msg : AddMsg} {chipid level : ℤ}

/-! ## What goes with a chip -/

/-- What a buff does to an attribute. -/
def buffs (cfg : Config) (level : ℤ) (ty : Bool) (res : ℤ) (x : ℤ × ℚ × ℚ) : ℚ :=
  if cfg.bufftypekey x.1 = some res then
    round (if ty then x.2.1 + x.2.2 * level else -(x.2.1 + x.2.2 * level))
  else 0

/-- **The buffs of a chip** add up, one attribute at a time. -/
theorem addbuffs_apply (ty : Bool) (l : List (ℤ × ℚ × ℚ)) (player : ℤ → ℚ) (res : ℤ) :
    addbuffs cfg level ty l player res = player res + tally (buffs cfg level ty res) l := by
  induction l generalizing player with
  | nil => simp [addbuffs]
  | cons x l ih =>
    obtain ⟨buffid, base, increment⟩ := x
    simp only [addbuffs]
    rw [ih, tally_cons, buffs, update_attr]
    cases hkey : cfg.bufftypekey buffid with
    | none => simp
    | some r =>
      by_cases hr : r = res
      · subst hr
        simp [add_assoc]
      · have hres : ¬ res = r := fun h => hr h.symm
        simp [hr, hres]

/-- **The buffs of a chip come to something** for an attribute. -/
def Buffed (cfg : Config) (m : Mod) (level : ℤ) : Prop :=
  ∃ res, tally (buffs cfg level false res) m.Buff_ID ≠ 0

theorem addbuffs_eq_self {player : ℤ → ℚ} :
    addbuffs cfg level false m.Buff_ID player = player ↔ ¬ Buffed cfg m level := by
  rw [funext_iff, Buffed, not_exists]
  refine forall_congr' fun res => ?_
  rw [addbuffs_apply, not_not, add_eq_left]

/-- **The machine has something of the chip**: its skill or its buffs. Weapons and
equipment that is in no machine have nothing. -/
def Acts (cfg : Config) (Sikll_ID : ℤ → ℤ) (p : Player) (a : Add) (chipid : ℤ) (m : Mod) (level : ℤ) : Prop :=
  a.part ≠ warehousetype.weapon ∧ ∃ k, find_equip_index p.state a.part a.uniqueid = some k ∧
    if is_skill m then Skilled m (Sikll_ID chipid) a.part (p.skills k) else Buffed cfg m level

/-- **Nothing goes from the machine** just where it has nothing of the chip. -/
theorem evicted_eq_iff (Sikll_ID : ℤ → ℤ) (hslot : (a.equip.slots a.index).chip = some (chipid, level))
    (hmod : cfg.mod chipid = some m) (hindex : a.index ≠ 4) (hattr : s.chipattribute = p.state.chipattribute) :
    (update_player_attr cfg m level a.part (find_equip_index p.state a.part a.uniqueid) a.index false
        s).chipattribute = p.state.chipattribute ∧ evicted cfg Sikll_ID p a = p.skills ↔
      ¬ Acts cfg Sikll_ID p a chipid m level := by
  have hlast : a.index ≠ Fin.last 4 := hindex
  simp only [evicted, hslot, hmod, Acts]
  cases hk : find_equip_index p.state a.part a.uniqueid with
  | none =>
    refine iff_of_true ⟨hattr, rfl⟩ ?_
    rintro ⟨-, k, hk, -⟩
    cases hk
  | some k =>
    simp only [update_player_attr, updateskills, hindex, hlast, or_false, Option.some.injEq,
      exists_eq_left']
    by_cases hpart : a.part = warehousetype.weapon
    · rw [if_pos hpart, if_pos hpart]
      exact iff_of_true ⟨hattr, rfl⟩ fun h => h.1 hpart
    · rw [if_neg hpart, if_neg hpart]
      by_cases hskill : is_skill m = true
      · simp only [if_pos hskill, Function.update_eq_self_iff, update_skill_eq_self hpart, hattr,
          true_and, ne_eq, hpart, not_false_eq_true]
      · simp only [if_neg hskill, and_true, hattr, Function.update_eq_self_iff, addbuffs_eq_self,
          ne_eq, hpart, not_false_eq_true, true_and]

/-! ## Refusals -/

/-- The equipment when the chip in the slot is taken out. -/
def emptied (a : Add) (m : Mod) (level : ℤ) : Equip :=
  { a.equip.set a.index (a.equip.slots a.index).clear with
    currentvolume := a.equip.currentvolume - cost m level * (a.equip.slots a.index).num m }

/-- **What the eviction stores** and what it leaves in the slot. -/
theorem uninstall_some (hslot : (a.equip.slots a.index).chip = some (chipid, level))
    (h : uninstall cfg s a = some (t, e)) : ∃ m key, cfg.mod chipid = some m ∧
      get_chip_inchip chipid s.inchipinfoarr (recordof a.part a.uniqueid)
        (a.equip.slots a.index).islock = some key ∧
      t = update_player_attr cfg m level a.part (find_equip_index s a.part a.uniqueid) a.index false
        (s.out key) ∧ e = emptied a m level := by
  unfold uninstall at h
  simp only [hslot] at h
  split at h
  · rename_i m key hmod hkey
    obtain ⟨rfl, rfl⟩ := Prod.mk.inj (Option.some.inj h)
    exact ⟨m, key, hmod, hkey, rfl, rfl⟩
  · cases h

/-- A chip is not put in: there is no room for it, or a skill or the chip itself is
there. -/
def Uninstallable (cfg : Config) (a : Add) (e : Equip) : Prop :=
  e.volume - e.currentvolume < cost a.mod a.level * (e.slots a.index).num a.mod ∨
    is_part_skill cfg e = none ∨ (∃ id, is_part_skill cfg e = some (some id) ∧ is_skill a.mod = true) ∨
    chip_isrepeat a.equip a.id = true

/-- A chip is not moved. -/
def Unmovable (cfg : Config) (s : State) (a : Add) (e : Equip) (record : ℤ) : Prop :=
  source s a e record = none ∨ ∃ src i reply, source s a e record = some src ∧
    src.find a.id = some i ∧ movecheck cfg a e src record i = .error reply

/-- **The checks after the eviction refuse the chip.** -/
def Refused (cfg : Config) (s : State) (a : Add) (e : Equip) : Prop :=
  match a.record with
  | none => Uninstallable cfg a e
  | some record => Unmovable cfg s a e record

theorem install_cases (cfg : Config) (s : State) (a : Add) (t : State) (e : Equip) :
    (Uninstallable cfg a e ∧ ∃ reply, reply ≠ some .success ∧ install cfg s a t e = s.fail t reply) ∨
      (¬ Uninstallable cfg a e ∧ (install cfg s a t e).2 = some .success) := by
  unfold install
  split
  · rename_i hroom
    exact Or.inl ⟨Or.inl hroom, _, by simp, rfl⟩
  · rename_i hroom
    split
    · rename_i hskill
      exact Or.inl ⟨Or.inr (Or.inl hskill), _, by simp, rfl⟩
    · rename_i ind hskill
      split
      · rename_i hboth
        obtain ⟨hind, hmod⟩ := Bool.and_eq_true_iff.mp hboth
        obtain ⟨id, rfl⟩ := Option.isSome_iff_exists.mp hind
        exact Or.inl ⟨Or.inr (Or.inr (Or.inl ⟨id, hskill, hmod⟩)), _, by simp, rfl⟩
      · rename_i hboth
        split
        · rename_i hrepeat
          exact Or.inl ⟨Or.inr (Or.inr (Or.inr hrepeat)), _, by simp, rfl⟩
        · rename_i hrepeat
          refine Or.inr ⟨?_, rfl⟩
          rintro (h | h | ⟨id, h, hmod⟩ | h)
          · exact hroom h
          · rw [hskill] at h
            cases h
          · rw [hskill, Option.some.injEq] at h
            subst h
            exact hboth (by simp [hmod])
          · exact hrepeat h

theorem movecheck_error {src : Equip} {record : ℤ} {i : Fin 5} :
    movecheck cfg a e src record i ≠ .error (some .success) := by
  unfold movecheck
  simp only
  repeat' split
  all_goals simp

theorem move_cases (cfg : Config) (s : State) (a : Add) (t : State) (e : Equip) (record : ℤ) :
    (Unmovable cfg s a e record ∧
        ∃ reply, reply ≠ some .success ∧ move cfg s a t e record = s.fail t reply) ∨
      (¬ Unmovable cfg s a e record ∧ (move cfg s a t e record).2 = some .success) := by
  unfold move
  cases hsource : source s a e record with
  | none => exact Or.inl ⟨Or.inl hsource, _, by simp, rfl⟩
  | some src =>
    simp only
    cases hfind : src.find a.id with
    | none =>
      refine Or.inr ⟨?_, rfl⟩
      rintro (h | ⟨src', i, reply, h, hfind', -⟩)
      · rw [hsource] at h
        cases h
      · obtain rfl := Option.some.inj (hsource.symm.trans h)
        rw [hfind] at hfind'
        cases hfind'
    | some i =>
      simp only
      cases hcheck : movecheck cfg a e src record i with
      | error reply =>
        refine Or.inl ⟨Or.inr ⟨src, i, reply, hsource, hfind, hcheck⟩, reply, ?_, rfl⟩
        rintro rfl
        exact movecheck_error hcheck
      | ok =>
        refine Or.inr ⟨?_, rfl⟩
        rintro (h | ⟨src', j, reply, h, hfind', hcheck'⟩)
        · rw [hsource] at h
          cases h
        · obtain rfl := Option.some.inj (hsource.symm.trans h)
          obtain rfl := Option.some.inj (hfind.symm.trans hfind')
          rw [hcheck] at hcheck'
          cases hcheck'

/-- **After the eviction** the chip is refused, and what was stored stays, or it is in. -/
theorem Player.add_cases (Sikll_ID : ℤ → ℤ) (hcheck : addcheck cfg p.state msg = .ok a)
    (hout : uninstall cfg p.state a = some (t, e)) :
    (Refused cfg p.state a e ∧ (p.add cfg Sikll_ID msg).2 ≠ some .success ∧
        (p.add cfg Sikll_ID msg).1 =
          ⟨{ p.state with chipattribute := t.chipattribute }, evicted cfg Sikll_ID p a⟩) ∨
      (¬ Refused cfg p.state a e ∧ (p.add cfg Sikll_ID msg).2 = some .success) := by
  unfold Player.add Refused
  simp only [hcheck, hout]
  cases a.record with
  | none =>
    simp only
    rcases install_cases cfg p.state a t e with ⟨hrefused, reply, hreply, hfail⟩ | hdone
    · rw [hfail]
      exact Or.inl ⟨hrefused, hreply, by simp [State.fail, hreply]⟩
    · exact Or.inr hdone
  | some record =>
    simp only
    rcases move_cases cfg p.state a t e record with ⟨hrefused, reply, hreply, hfail⟩ | hdone
    · rw [hfail]
      exact Or.inl ⟨hrefused, hreply, by simp [State.fail, hreply]⟩
    · exact Or.inr hdone

/-! ## All or nothing -/

/-- **A request that is not answered with success** has done nothing. -/
def Allornothing (cfg : Config) (Sikll_ID : ℤ → ℤ) (p : Player) (msg : AddMsg) : Prop :=
  (p.add cfg Sikll_ID msg).2 ≠ some .success → (p.add cfg Sikll_ID msg).1 = p

/-- **No chip is taken out in vain**: where the new chip is refused, its machine had
nothing of the one in the slot. -/
def Spared (cfg : Config) (Sikll_ID : ℤ → ℤ) (p : Player) (msg : AddMsg) : Prop :=
  ∀ a chipid level m, addcheck cfg p.state msg = .ok a →
    (a.equip.slots a.index).chip = some (chipid, level) → cfg.mod chipid = some m →
    (get_chip_inchip chipid p.state.inchipinfoarr (recordof a.part a.uniqueid)
      (a.equip.slots a.index).islock).isSome →
    Refused cfg p.state a (emptied a m level) → ¬ Acts cfg Sikll_ID p a chipid m level

theorem add_allornothing_iff (cfg : Config) (Sikll_ID : ℤ → ℤ) (p : Player) (msg : AddMsg) :
    Allornothing cfg Sikll_ID p msg ↔ Spared cfg Sikll_ID p msg := by
  cases hcheck : addcheck cfg p.state msg with
  | error reply =>
    refine iff_of_true (fun _ => ?_) fun a chipid level m ha => ?_
    · simp only [Player.add, hcheck]
    · rw [hcheck] at ha
      cases ha
  | ok a =>
    have hindex := (addcheck_ok hcheck).index
    cases hslot : (a.equip.slots a.index).chip with
    | none =>
      have hout : uninstall cfg p.state a = some (p.state, a.equip) := by
        simp only [uninstall, hslot]
      refine iff_of_true (fun hfail => ?_) fun b chipid level m hb hchip => ?_
      · rcases Player.add_cases Sikll_ID hcheck hout with ⟨-, -, hsame⟩ | ⟨-, hdone⟩
        · rw [hsame]
          simp only [evicted, hslot]
        · exact absurd hdone hfail
      · obtain rfl := Except.ok.inj (hcheck.symm.trans hb)
        rw [hslot] at hchip
        cases hchip
    | some chip =>
      obtain ⟨chipid, level⟩ := chip
      cases hfound : uninstall cfg p.state a with
      | none =>
        refine iff_of_true (fun _ => ?_) fun b id lv m hb hchip hmod hkey => ?_
        · simp only [Player.add, hcheck, hfound]
        · obtain rfl := Except.ok.inj (hcheck.symm.trans hb)
          obtain ⟨rfl, rfl⟩ := Prod.mk.inj (Option.some.inj (hslot.symm.trans hchip))
          obtain ⟨key, hkey⟩ := Option.isSome_iff_exists.mp hkey
          simp [uninstall, hslot, hmod, hkey] at hfound
      | some te =>
        obtain ⟨t, e⟩ := te
        obtain ⟨m, key, hmod, hkey, rfl, rfl⟩ := uninstall_some hslot hfound
        have hacts := evicted_eq_iff Sikll_ID (p := p) (s := p.state.out key) hslot hmod hindex rfl
        rcases Player.add_cases Sikll_ID hcheck hfound with ⟨hrefused, hfail, hsame⟩ | ⟨haccepted, hdone⟩
        · -- the old chip is out by then, and is all that a refused request changes
          have hsamestate : (p.add cfg Sikll_ID msg).1 = p ↔
              (update_player_attr cfg m level a.part (find_equip_index p.state a.part a.uniqueid) a.index
                false (p.state.out key)).chipattribute = p.state.chipattribute ∧
              evicted cfg Sikll_ID p a = p.skills := by
            rw [hsame]
            constructor
            · intro heq
              exact ⟨congrArg (fun p => p.state.chipattribute) heq, congrArg Player.skills heq⟩
            · rintro ⟨hattr, hskills⟩
              rw [hattr, hskills]
          have hnothing : Allornothing cfg Sikll_ID p msg ↔ ¬ Acts cfg Sikll_ID p a chipid m level := by
            rw [← hacts, ← hsamestate]
            exact ⟨fun h => h hfail, fun h _ => h⟩
          rw [hnothing]
          constructor
          · intro hno b id lv m' hb hchip hmod' _ _
            obtain rfl := Except.ok.inj (hcheck.symm.trans hb)
            obtain ⟨rfl, rfl⟩ := Prod.mk.inj (Option.some.inj (hslot.symm.trans hchip))
            obtain rfl := Option.some.inj (hmod.symm.trans hmod')
            exact hno
          · intro hspared
            exact hspared a chipid level m hcheck hslot hmod (by rw [hkey]; rfl) hrefused
        · refine iff_of_true (fun hfail => absurd hdone hfail) fun b id lv m' hb hchip hmod' _ hrefused => ?_
          obtain rfl := Except.ok.inj (hcheck.symm.trans hb)
          obtain ⟨rfl, rfl⟩ := Prod.mk.inj (Option.some.inj (hslot.symm.trans hchip))
          obtain rfl := Option.some.inj (hmod.symm.trans hmod')
          exact absurd hrefused haccepted

/-- The player of the one chip has another one like it. -/
def sparechip : Player where
  state := { onechip with newchipinfo := [⟨10001, 1, 0, some 1, none⟩] }
  skills := fun _ => ⟨[], [], none⟩

/-- **A chip is refused where one like it is**, which gives nothing any more. -/
theorem sparechip_evicted : ¬ ∀ (cfg : Config) (Sikll_ID : ℤ → ℤ) (p : Player) (msg : AddMsg),
    Allornothing cfg Sikll_ID p msg := by
  intro h
  have hreply : (sparechip.add onebody (fun _ => 0) fitmsg).2 = some .chip_repeat := by decide +kernel
  have hsame := h onebody (fun _ => 0) sparechip fitmsg (by rw [hreply]; simp)
  have hbefore : sparechip.state.chipattribute 7 10008 = 13 / 100 := by decide +kernel
  have hafter : (sparechip.add onebody (fun _ => 0) fitmsg).1.state.chipattribute 7 10008 = 0 := by
    decide +kernel
  rw [hsame, hbefore] at hafter
  norm_num at hafter

end Chips

end Athena
