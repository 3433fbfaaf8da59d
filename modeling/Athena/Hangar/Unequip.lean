import Athena.Hangar.Exclusive
/-!
# The hangar — a weapon that is taken off

A weapon is taken off where 0 is equipped in its slot. The search for the machine of the
part that comes is made for 0 as for any other id, and an empty slot has it.
-/

namespace Athena

namespace Hangar

open Chips (Slot warehousetype.chassis warehousetype.body warehousetype.firecontroller
  warehousetype.weapon)

variable {cfg : Config} {s t : State} {part machine real old other : ℤ} {k : ℕ} {id : Id} {c : Change}

/-! ## The chip service, for weapons -/

/-- The chips of a weapon count for nothing. -/
theorem attr_weapon {ty : Bool} {i : Fin 5} {slot : Slot} :
    attr cfg warehousetype.weapon machine ty i slot = pure () := by
  unfold attr
  split
  · rfl
  · rw [if_pos (.inl rfl)]

/-- Chips of weapons have no attributes. -/
theorem each_weapon {ty : Bool} (l : List (Fin 5 × Slot)) (s : State) :
    Act.each l (fun x => attr cfg warehousetype.weapon machine ty x.1 x.2) s = (.ok (), s) := by
  induction l with
  | nil => rfl
  | cons x l ih =>
    rw [Act.each_cons, Act.bind_ok (by rw [attr_weapon]; rfl)]
    exact ih

/-- An equipment without a row raises an error. -/
theorem slotarray_cases (id : Option Id) (s : State) : ∃ t, Frame s t ∧
    ((∀ x ∈ id, (s.rowof part x).isSome) ∧ (∃ l, slotarray part id s = (.ok l, t)) ∨
      (¬ ∀ x ∈ id, (s.rowof part x).isSome) ∧ slotarray part id s = (.error (), t)) := by
  cases id with
  | none => exact ⟨s, Frame.refl s, .inl ⟨fun x hx => (by cases hx), [], rfl⟩⟩
  | some id =>
    obtain ⟨t, ht, hframe, -⟩ := read_eq part id s
    refine ⟨t, hframe, ?_⟩
    rw [slotarray, Act.bind_ok ht]
    cases hrow : s.rowof part id with
    | none =>
      refine .inr ⟨fun h => ?_, rfl⟩
      have := h id rfl
      rw [hrow] at this
      cases this
    | some e =>
      refine .inl ⟨fun x hx => ?_, _, rfl⟩
      cases hx
      rw [hrow]
      rfl

/-- **The chip service goes through** just where the weapons have rows. -/
theorem chipchange_weapon {oldid newid : Option Id} :
    (chipchange cfg warehousetype.weapon machine oldid newid s).1 = .ok () ↔
      (∀ x ∈ oldid, (s.rowof warehousetype.weapon x).isSome) ∧
        ∀ x ∈ newid, (s.rowof warehousetype.weapon x).isSome := by
  obtain ⟨t₁, h1, ⟨hold, l, hl⟩ | ⟨hold, hl⟩⟩ := @slotarray_cases warehousetype.weapon oldid s
  · obtain ⟨t₂, -, hnew⟩ := @slotarray_cases warehousetype.weapon newid t₁
    rw [chipchange, Act.bind_ok hl]
    rw [h1.rowof] at hnew
    rcases hnew with ⟨hnew, l', hl'⟩ | ⟨hnew, hl'⟩
    · rw [Act.bind_ok hl', Act.bind_ok (each_weapon l t₂), each_weapon l' t₂]
      exact iff_of_true rfl ⟨hold, hnew⟩
    · rw [Act.bind_error hl']
      exact iff_of_false (by simp) fun h => hnew h.2
  · rw [chipchange, Act.bind_error hl]
    exact iff_of_false (by simp) fun h => hold h.1

/-! ## update_attribute -/

/-- The configuration of the first part of a kind. -/
def State.firstof (cfg : Config) (s : State) (machine part : ℤ) : Option (Option ℤ) :=
  (s.part machine part).head?.map fun id => s.cfgidof cfg part (.number id)

/-- **The tables have what the machine is made of.** -/
def Complete (cfg : Config) (s : State) (machine : ℤ) : Prop :=
  ∃ body chassis firecontroller,
    s.firstof cfg machine warehousetype.body = some body ∧
    s.firstof cfg machine warehousetype.chassis = some chassis ∧
    s.firstof cfg machine warehousetype.firecontroller = some firecontroller ∧
    body.all cfg.machinebody = true ∧ chassis.any cfg.machinechassis = true ∧
    firecontroller.any cfg.firecontrol = true

/-- The first part of a kind is looked up in the row. -/
theorem firstcfg_eq (machine part : ℤ) (s : State) : firstcfg cfg (s.row machine) part s =
    (match s.firstof cfg machine part with
      | none => .error ()
      | some x => .ok x, s) := by
  unfold firstcfg State.firstof State.part
  cases (s.row machine).parts.part part with
  | nil => rfl
  | cons id l => rfl

/-- **The attributes can be summed** exactly where the machine is complete. -/
theorem update_attribute_ok_iff (hcurrent : s.current = some real) :
    (update_attribute cfg s).1 = .ok () ↔ Complete cfg s real := by
  unfold update_attribute Complete
  rw [Act.get_bind_apply, hcurrent]
  have hbody := @firstcfg_eq cfg real warehousetype.body s
  have hchassis := @firstcfg_eq cfg real warehousetype.chassis s
  have hfire := @firstcfg_eq cfg real warehousetype.firecontroller s
  dsimp only
  cases hb : s.firstof cfg real warehousetype.body with
  | none =>
    rw [hb] at hbody
    rw [Act.bind_error hbody]
    simp
  | some body =>
    rw [hb] at hbody
    rw [Act.bind_ok hbody]
    cases hc : s.firstof cfg real warehousetype.chassis with
    | none =>
      rw [hc] at hchassis
      rw [Act.bind_error hchassis]
      simp
    | some chassis =>
      rw [hc] at hchassis
      rw [Act.bind_ok hchassis]
      cases hf : s.firstof cfg real warehousetype.firecontroller with
      | none =>
        rw [hf] at hfire
        rw [Act.bind_error hfire]
        simp
      | some firecontroller =>
        rw [hf] at hfire
        rw [Act.bind_ok hfire]
        simp only [Option.some.injEq, exists_and_left, exists_eq_left']
        split <;> simp_all

/-! ## The request -/

/-- The request for a weapon that is taken off. -/
def takeoff (k : ℕ) (isnew : Bool) : Msg := ⟨some warehousetype.weapon, some 0, some ((k : ℤ) + 1), some isnew⟩

/-- **A weapon is taken off**: the request succeeds, its slot is empty, and no other slot of any
machine changes. -/
def Unequips (cfg : Config) (s : State) (isnew : Bool) (real : ℤ) (k : ℕ) : Prop :=
  ∃ t, changeequip cfg (takeoff k isnew) s = (.ok .success, t) ∧
    t.part real warehousetype.weapon = (s.part real warehousetype.weapon).set k 0 ∧
    ∀ machine part, ¬ (machine = real ∧ part = warehousetype.weapon) →
      t.part machine part = s.part machine part

/-- What the checks find. -/
def offchange (s : State) (real : ℤ) (k : ℕ) (old : ℤ) : Change :=
  ⟨warehousetype.weapon, 0, real, k, s.part real warehousetype.weapon, old⟩

/-- **The machine with an empty slot** is the one the 0 comes from. -/
theorem changeequip_takeoff (hcurrent : s.current = some real)
    (hslot : (s.part real warehousetype.weapon)[k]? = some old) (isnew : Bool) :
    changeequip cfg (takeoff k isnew) s =
      if find_equip_index s warehousetype.weapon 0 = some real then (.ok .equip_repeat, s)
      else swap cfg (offchange s real k old) (find_equip_index s warehousetype.weapon 0) s := by
  have hcheck : paramcheck cfg (takeoff k isnew) = .ok (warehousetype.weapon, 0) := rfl
  have hindex : ((k : ℤ) + 1 - 1).toNat = k := by omega
  simp only [changeequip, hcheck, change, Act.get_bind_apply, hcurrent]
  split
  · rfl
  · have hweld : weldandtype cfg warehousetype.weapon (.number 0) (s.row real) (some ((k : ℤ) + 1)) s =
        (.ok .success, s) := rfl
    rw [show (takeoff k isnew).index = some ((k : ℤ) + 1) from rfl, Act.bind_ok hweld]
    simp only [hindex, hslot, show (1 : ℤ) ≤ (k : ℤ) + 1 by omega, if_true, ne_eq, not_true_eq_false, if_false]
    rfl

/-- A machine cannot give 0, which no weapon has as its id. -/
theorem swapout_ne_success (hzero : s.chips.equip warehousetype.weapon 0 = none)
    (hpart : c.part = warehousetype.weapon) (hu : c.uniqueid = 0) (hmem : c.uniqueid ∈ s.part other c.part) :
    (swapout cfg c other s).1 ≠ .ok .success := by
  intro h
  obtain ⟨t, ht⟩ : ∃ t, swapout cfg c other s = (.ok .success, t) := ⟨_, Prod.ext h rfl⟩
  have hfind := findIdx?_of_mem hmem
  unfold State.part at hfind
  rw [swapout, Act.get_bind_apply] at ht
  simp only [hfind] at ht
  obtain ⟨code, t₁, hweld, ht⟩ := Act.bind_eq_ok.mp ht
  have hframe : Frame s t₁ := framed_weldandtype.frame hweld
  split at ht
  · rename_i hcode
    exact hcode (Except.ok.inj (congrArg Prod.fst ht))
  · have hno : c.part ≠ warehousetype.body := by
      rw [hpart]
      decide
    rw [resized, if_neg hno] at ht
    -- the chip service is asked for the chips of 0
    obtain ⟨_, t₂, hpure, ht⟩ := Act.bind_eq_ok.mp ht
    cases hpure
    rw [Act.modify_bind_apply] at ht
    obtain ⟨_, t₃, hchip, _⟩ := Act.bind_eq_ok.mp ht
    rw [hpart, hu] at hchip
    have hrow := (chipchange_weapon.mp (congrArg Prod.fst hchip)).1 (.number 0) rfl
    rw [rowof_setvalue, hframe.rowof, State.rowof, hzero] at hrow
    cases hrow

/-- A weapon that is taken off leaves its chips to be changed. -/
theorem swapin_offchange (hold : old ≠ 0) :
    swapin cfg (offchange s real k old) s =
      chipchange cfg warehousetype.weapon real (some (.text old)) none
        (s.setvalue real warehousetype.weapon ((s.part real warehousetype.weapon).set k 0)) := by
  unfold swapin offchange
  dsimp only
  rw [resized, if_neg (by decide), if_pos hold]
  rfl

/-- It is complete by its other parts. -/
theorem Complete.congr (hrow : t.rowof = s.rowof)
    (hpart : ∀ part, part ≠ warehousetype.weapon → t.part real part = s.part real part) :
    Complete cfg t real ↔ Complete cfg s real := by
  have hfirst : ∀ part, part ≠ warehousetype.weapon → t.firstof cfg real part = s.firstof cfg real part := by
    intro part hne
    rw [State.firstof, hpart part hne, State.firstof]
    unfold State.cfgidof
    rw [hrow]
  unfold Complete
  rw [hfirst _ (by decide), hfirst _ (by decide), hfirst _ (by decide)]

/-- **Where no machine gives 0**, the slot is empty and the rest is as it was. -/
theorem swap_none (hcurrent : s.current = some real) (hslot : (s.part real warehousetype.weapon)[k]? = some old)
    (hold : old ≠ 0) :
    (∃ t, swap cfg (offchange s real k old) none s = (.ok .success, t) ∧
        t.part real warehousetype.weapon = (s.part real warehousetype.weapon).set k 0 ∧
        ∀ machine part, ¬ (machine = real ∧ part = warehousetype.weapon) →
          t.part machine part = s.part machine part) ↔
      (s.rowof warehousetype.weapon (.text old)).isSome ∧ Complete cfg s real := by
  have hchange : ∀ r, swap cfg (offchange s real k old) none s = r ↔
      (swapin cfg (offchange s real k old) >>= fun _ => update_attribute cfg >>= fun _ =>
        (pure .success : Op Code)) s = r := fun r => Iff.rfl
  obtain ⟨v, hv⟩ : ∃ v, s.setvalue real warehousetype.weapon ((s.part real warehousetype.weapon).set k 0) = v :=
    ⟨_, rfl⟩
  have hweapons : v.part real warehousetype.weapon = (s.part real warehousetype.weapon).set k 0 := by
    rw [← hv]
    exact part_setvalue (row_of_mem hslot).1 (row_of_mem hslot).2
  have hothers : ∀ machine part, ¬ (machine = real ∧ part = warehousetype.weapon) →
      v.part machine part = s.part machine part := by
    intro machine part hne
    rw [← hv]
    exact part_setvalue_of_ne hne
  have hrows : v.rowof = s.rowof := by
    rw [← hv]
    exact rowof_setvalue
  have hcur : ∀ t, Frame v t → t.current = some real := by
    intro t ht
    rw [State.current, ht.defaultindex, ht.machinecfgid, ← hv]
    exact hcurrent
  have hcomplete : ∀ t, Frame v t → (Complete cfg t real ↔ Complete cfg s real) := by
    intro t ht
    refine Complete.congr (ht.rowof.trans hrows) fun part hne => ?_
    rw [ht.part_eq, hothers real part fun h => hne h.2]
  have hchip : (swapin cfg (offchange s real k old) s).1 = .ok () ↔
      (s.rowof warehousetype.weapon (.text old)).isSome := by
    rw [swapin_offchange hold, hv, chipchange_weapon, hrows]
    simp
  -- the slot is cleared first; what runs after it may raise, but changes no part
  have hframe : Frame v (swapin cfg (offchange s real k old) s).2 := by
    rw [swapin_offchange hold, hv]
    exact framed_chipchange v
  rcases hin : swapin cfg (offchange s real k old) s with ⟨x, t₁⟩
  rw [hin] at hchip hframe
  have hattr : (update_attribute cfg t₁).1 = .ok () ↔ Complete cfg t₁ real :=
    update_attribute_ok_iff (hcur t₁ hframe)
  rw [hcomplete t₁ hframe] at hattr
  rcases hup : update_attribute cfg t₁ with ⟨y, t₂⟩
  have hframe₂ : Frame v t₂ := hframe.trans (framed_update_attribute.frame hup)
  rw [hup] at hattr
  rw [← hchip, ← hattr]
  constructor
  · rintro ⟨t, ht, -, -⟩
    rw [hchange] at ht
    obtain ⟨_, u, hx, ht⟩ := Act.bind_eq_ok.mp ht
    rw [hin] at hx
    cases hx
    obtain ⟨_, u, hy, ht⟩ := Act.bind_eq_ok.mp ht
    rw [hup] at hy
    cases hy
    exact ⟨rfl, rfl⟩
  · rintro ⟨hx, hy⟩
    dsimp only at hx hy
    subst hx hy
    refine ⟨t₂, ?_, ?_, fun machine part hne => ?_⟩
    · rw [hchange, Act.bind_ok hin, Act.bind_ok hup]
      rfl
    · rw [hframe₂.part_eq, hweapons]
    · rw [hframe₂.part_eq, hothers machine part hne]

/-- **A weapon is taken off** just where no weapon slot of any machine is empty. -/
theorem unequips_iff (isnew : Bool) (hzero : s.chips.equip warehousetype.weapon 0 = none)
    (hcurrent : s.current = some real) (hslot : (s.part real warehousetype.weapon)[k]? = some old)
    (hold : old ≠ 0) :
    Unequips cfg s isnew real k ↔
      (∀ machine ∈ s.machinecfgid, 0 ∉ s.part machine warehousetype.weapon) ∧
        (s.rowof warehousetype.weapon (.text old)).isSome ∧ Complete cfg s real := by
  have hrequest : changeequip cfg (takeoff k isnew) s = _ := changeequip_takeoff hcurrent hslot isnew
  cases hfind : find_equip_index s warehousetype.weapon 0 with
  | some other =>
    obtain ⟨hmem, hempty⟩ := mem_of_find hfind
    refine iff_of_false ?_ fun h => h.1 other hmem hempty
    rintro ⟨t, ht, -, -⟩
    rw [hrequest, hfind] at ht
    split at ht
    · cases ht
    · obtain ⟨code, t₁, hout, ht⟩ := Act.bind_eq_ok.mp ht
      dsimp only at ht
      split at ht
      · rename_i hcode
        exact hcode (Except.ok.inj (congrArg Prod.fst ht))
      · rename_i hcode
        rw [not_not] at hcode
        rw [hcode] at hout
        exact swapout_ne_success hzero rfl rfl hempty (congrArg Prod.fst hout)
  | none =>
    have hfull : ∀ machine ∈ s.machinecfgid, 0 ∉ s.part machine warehousetype.weapon := by
      simpa [find_equip_index] using hfind
    rw [and_iff_right hfull, ← swap_none hcurrent hslot hold, Unequips, hrequest, hfind,
      if_neg (by simp)]

/-- A machine with some weapons. -/
def armed (weapons : List ℤ) : State where
  chips := ⟨[], [], [], fun _ id => if id = 0 then none else some bare, [], fun _ _ => 0, 0, fun _ => 0⟩
  machinecfgid := [7]
  defaultindex := 1
  machinecfg machine := if machine = 7 then some ⟨⟨[1], [3], [5], weapons⟩, 0⟩ else none
  textrows _ _ := none

/-- Two weapons, of which the first is taken off. -/
theorem unequips_iff_two : Unequips garage (armed [11, 12]) true 7 0 := by
  have hslot : ((armed [11, 12]).part 7 warehousetype.weapon)[0]? = some 11 := rfl
  refine (unequips_iff true rfl rfl hslot (by decide)).mpr ⟨?_, rfl, some 3, some 1, some 5, ?_⟩
  · decide
  · exact ⟨rfl, rfl, rfl, rfl, rfl, rfl⟩

/-- A weapon with an empty slot beside it stays: the 0 is in the machine already. -/
theorem not_unequips_beside : (armed [11, 0]).current = some 7 ∧
    ((armed [11, 0]).part 7 warehousetype.weapon)[0]? = some 11 ∧
    (changeequip garage (takeoff 0 true) (armed [11, 0])).1 = .ok .equip_repeat ∧
    ¬ Unequips garage (armed [11, 0]) true 7 0 := by
  have hrepeat : changeequip garage (takeoff 0 true) (armed [11, 0]) = (.ok .equip_repeat, armed [11, 0]) := by
    rw [changeequip_takeoff (show (armed [11, 0]).current = some 7 from rfl)
      (show ((armed [11, 0]).part 7 warehousetype.weapon)[0]? = some 11 from rfl), if_pos (by decide)]
  refine ⟨rfl, rfl, by rw [hrepeat], ?_⟩
  rintro ⟨t, ht, -, -⟩
  rw [hrepeat] at ht
  cases ht

end Hangar

end Athena
