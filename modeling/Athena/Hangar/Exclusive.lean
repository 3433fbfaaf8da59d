import Athena.Hangar.Step
import Athena.Common.Places
import Athena.Common.System
/-!
# The hangar — a part is in one place

An id other than zero is in one slot of one machine at most, and stays so over every
sequence of requests in which the chip service can read the parts that change places.
-/

namespace Athena

namespace Hangar

open Chips (Equip Slot Machine warehousetype.chassis warehousetype.body
  warehousetype.firecontroller warehousetype.weapon)

variable {cfg : Config} {s t : State} {part part' machine machine' other uniqueid n : ℤ} {l : List ℤ}
  {id : Id} {c : Change} {r : Except Unit Code} {index : Option ℤ} {k : ℕ}

/-! ## The slots of a kind -/

/-- **The slots of a kind** in the machines of the player. -/
def State.place (s : State) (part : ℤ) (x : ℤ × ℕ) : Option ℤ :=
  if x.1 ∈ s.machinecfgid then (s.part x.1 part)[x.2]? else none

/-- **Each id is in one slot of one machine at most.** -/
def Exclusive (s : State) : Prop := ∀ part, Places.Exclusive 0 (s.place part)

theorem Frame.place (h : Frame s t) (part : ℤ) : t.place part = s.place part := by
  funext x
  rw [State.place, State.place, h.machinecfgid, h.part_eq]

/-- What writes no part keeps the parts exclusive. -/
theorem Frame.exclusive (h : Frame s t) (hs : Exclusive s) : Exclusive t := fun part => by
  rw [h.place]
  exact hs part

/-- A place of a machine is one of its list. -/
theorem place_of_mem (h : machine ∈ s.machinecfgid) (part : ℤ) (k : ℕ) :
    s.place part (machine, k) = (s.part machine part)[k]? := if_pos h

@[simp] theorem machinecfgid_setvalue : (s.setvalue machine part l).machinecfgid = s.machinecfgid := rfl

/-- A slot of a kind is set. -/
theorem place_setvalue_set (hm : machine ∈ s.machinecfgid) (hk : (s.part machine part)[k]? = some n)
    (v : ℤ) : (s.setvalue machine part ((s.part machine part).set k v)).place part =
      Function.update (s.place part) (machine, k) (some v) := by
  obtain ⟨hrow, hkind⟩ := row_of_mem hk
  obtain ⟨hlt, -⟩ := List.getElem?_eq_some_iff.mp hk
  funext x
  obtain ⟨m, j⟩ := x
  by_cases hmm : m = machine
  · subst hmm
    have hpart := part_setvalue (l := (s.part m part).set k v) hrow hkind
    by_cases hj : j = k
    · subst hj
      rw [Function.update_self, place_of_mem (by exact hm), hpart, List.getElem?_set_self hlt]
    · have hne : (m, j) ≠ (m, k) := fun h => hj (Prod.mk.inj h).2
      rw [Function.update_of_ne hne, place_of_mem (by exact hm), hpart,
        List.getElem?_set_ne (Ne.symm hj), place_of_mem hm]
  · have hne : (m, j) ≠ (machine, k) := fun h => hmm (Prod.mk.inj h).1
    rw [Function.update_of_ne hne, State.place, State.place, part_setvalue_of_ne fun h => hmm h.1]
    rfl

/-- A list that is written is of one kind of parts, -/
theorem place_setvalue_of_ne (h : part' ≠ part) :
    (s.setvalue machine part l).place part' = s.place part' := by
  funext x
  rw [State.place, State.place, part_setvalue_of_ne fun hx => h hx.2]
  rfl

/-! ## The weapons under a body -/

/-- A body adds empty slots, or takes slots away. -/
theorem resize_getElem? {body : Option ℤ} (hn : n ≠ 0) (h : (resize body l)[k]? = some n) :
    l[k]? = some n := by
  unfold resize at h
  split_ifs at h
  · rw [List.getElem?_append] at h
    split at h
    · exact h
    · have hmem := List.mem_of_getElem? h
      simp only [List.mem_cons, List.not_mem_nil, or_false, or_self] at hmem
      exact absurd hmem hn
  · rename_i hlen
    rw [List.getElem?_eraseIdx] at h
    split at h
    · rw [List.getElem?_eraseIdx, if_pos (by omega)] at h
      exact h
    · have hshort : ((l.eraseIdx 7)).length = 7 := by
        rw [List.length_eraseIdx, hlen.2]
        rfl
      rw [List.getElem?_eq_none (by omega)] at h
      cases h
  · exact h

/-- and another size changes no list of its kind. -/
theorem part_resized (machine part : ℤ) (id : Id) (m : ℤ) :
    (s.resized cfg machine part id).part m part = s.part m part := by
  unfold State.resized
  split
  · rename_i hbody
    subst hbody
    exact part_setvalue_of_ne fun h => absurd h.2 (by decide)
  · rfl

@[simp] theorem machinecfgid_resized :
    (s.resized cfg machine part id).machinecfgid = s.machinecfgid := by
  unfold State.resized
  split <;> rfl

theorem place_resized (machine part : ℤ) (id : Id) :
    (s.resized cfg machine part id).place part = s.place part := by
  funext x
  rw [State.place, State.place, part_resized, machinecfgid_resized]

/-- **A kind stays exclusive under a new body.** -/
theorem exclusive_resized (h : Places.Exclusive 0 (s.place part')) (machine part : ℤ) (id : Id) :
    Places.Exclusive 0 ((s.resized cfg machine part id).place part') := by
  unfold State.resized
  split
  · by_cases hp : part' = warehousetype.weapon
    · subst hp
      refine h.mono fun x n hn hx => ?_
      by_cases hm : x.1 = machine
      · cases hrow : s.machinecfg machine with
        | none =>
          have hsame : s.setvalue machine warehousetype.weapon (resize (s.cfgidof cfg
              warehousetype.body id) (s.part machine warehousetype.weapon)) = s := by
            unfold State.setvalue
            rw [hrow, Option.map_none, ← hrow, Function.update_eq_self]
          rwa [hsame] at hx
        | some row =>
          rw [State.place] at hx ⊢
          split at hx
          · rename_i hmem
            rw [hm, part_setvalue (by rw [hrow]; rfl) ⟨by decide, by decide⟩] at hx
            rw [if_pos (by exact hmem), hm]
            exact resize_getElem? hn hx
          · cases hx
      · rw [State.place, part_setvalue_of_ne fun hx => hm hx.1] at hx
        exact hx
    · rw [place_setvalue_of_ne hp]
      exact h
  · exact h

/-! ## The two machines -/

/-- The machine in use is one of the hangar. -/
theorem mem_of_current (h : s.current = some machine) : machine ∈ s.machinecfgid := by
  unfold State.current at h
  split at h
  · exact List.mem_of_getElem? h
  · cases h

@[simp] theorem machinecfgid_outrows : (s.outrows cfg c other).machinecfgid = s.machinecfgid := by
  rw [State.outrows, machinecfgid_setvalue, machinecfgid_resized]

/-- **The other machine gives the part away** for what it gets. -/
theorem place_outrows (hother : other ∈ s.machinecfgid) (hmem : c.uniqueid ∈ s.part other c.part) :
    (s.outrows cfg c other).place c.part = Function.update (s.place c.part)
      (other, (s.part other c.part).idxOf c.uniqueid) (some c.back) := by
  have hk : ((s.resized cfg other c.part (.text c.olduniqueid)).part other c.part)[
      (s.part other c.part).idxOf c.uniqueid]? = some c.uniqueid := by
    rw [part_resized]
    exact List.getElem?_idxOf hmem
  have hset := place_setvalue_set (by simpa using hother) hk c.back
  rw [part_resized, place_resized] at hset
  exact hset

/-- **The current machine gets the part.** -/
theorem place_inrows (hmachine : c.machine ∈ s.machinecfgid)
    (hdata : c.partdata = s.part c.machine c.part) (hold : c.partdata[c.index]? = some c.olduniqueid) :
    (s.inrows cfg c).place c.part =
      Function.update (s.place c.part) (c.machine, c.index) (some c.uniqueid) := by
  have hk : ((s.resized cfg c.machine c.part (.number c.uniqueid)).part c.machine c.part)[c.index]? =
      some c.olduniqueid := by
    rw [part_resized, ← hdata]
    exact hold
  have hset := place_setvalue_set (by simpa using hmachine) hk c.uniqueid
  rw [part_resized, place_resized, ← hdata] at hset
  exact hset

/-- A kind that is not the part's: only weapons change, under a body. -/
theorem exclusive_outrows (h : Places.Exclusive 0 (s.place part')) (hp : part' ≠ c.part) :
    Places.Exclusive 0 ((s.outrows cfg c other).place part') := by
  rw [State.outrows, place_setvalue_of_ne hp]
  exact exclusive_resized h _ _ _

theorem exclusive_inrows (h : Places.Exclusive 0 (s.place part')) (hp : part' ≠ c.part) :
    Places.Exclusive 0 ((s.inrows cfg c).place part') := by
  rw [State.inrows, place_setvalue_of_ne hp]
  exact exclusive_resized h _ _ _

section Found

variable {found : Option ℤ}

/-- Where the part is. -/
theorem Found.place_other (h : Found s part uniqueid index c (some other)) :
    other ∈ s.machinecfgid ∧ c.uniqueid ∈ s.part other c.part ∧
      s.place c.part (other, (s.part other c.part).idxOf c.uniqueid) = some c.uniqueid := by
  obtain ⟨hother, hmem⟩ := mem_of_find h.found
  rw [← h.part_eq, ← h.uniqueid_eq] at hmem
  refine ⟨hother, hmem, ?_⟩
  rw [place_of_mem hother]
  exact List.getElem?_idxOf hmem

/-- Where it goes. -/
theorem Found.place_current (h : Found s part uniqueid index c found) :
    s.place c.part (c.machine, c.index) = some c.olduniqueid := by
  rw [place_of_mem (mem_of_current h.current), ← h.partdata]
  exact h.displaced

/-- The other machine has another place. -/
theorem Found.keys_ne (h : Found s part uniqueid index c (some other)) (j : ℕ) :
    (other, j) ≠ (c.machine, c.index) := by
  intro heq
  exact h.ne (congrArg some (Prod.mk.inj heq).1)

/-- A part that no machine has is in no slot. -/
theorem Found.free (h : Found s part uniqueid index c none) (x : ℤ × ℕ) :
    s.place c.part x ≠ some c.uniqueid := by
  intro hx
  rw [State.place] at hx
  split at hx
  · rename_i hmem
    have hnone := List.find?_eq_none.mp h.found x.1 hmem
    rw [h.part_eq, h.uniqueid_eq] at hx
    exact hnone (by simpa using List.mem_of_getElem? hx)
  · cases hx

/-- The slots of the kind when both machines are changed. -/
theorem Found.place_full (cfg : Config) (h : Found s part uniqueid index c found) :
    ((s.outmaybe cfg c found).inrows cfg c).place c.part = Function.update
      ((s.outmaybe cfg c found).place c.part) (c.machine, c.index) (some c.uniqueid) := by
  cases found with
  | none => exact place_inrows (mem_of_current h.current) h.partdata h.displaced
  | some other =>
    refine place_inrows (by simpa [State.outmaybe] using mem_of_current h.current) ?_ h.displaced
    have hne : ¬ (c.machine = other ∧ c.part = c.part) := fun hx => h.ne (congrArg some hx.1.symm)
    rw [State.outmaybe, State.outrows, part_setvalue_of_ne hne, part_resized]
    exact h.partdata

/-- The slots of the kind when the other machine is changed. -/
theorem Found.place_half (cfg : Config) (h : Found s part uniqueid index c (some other)) :
    (s.outrows cfg c other).place c.part = Function.update (s.place c.part)
      (other, (s.part other c.part).idxOf c.uniqueid) (some c.back) :=
  place_outrows h.place_other.1 h.place_other.2.1

/-- **The kind of the part stays exclusive**: the part moves, or the two change places. -/
theorem Found.exclusive_full (h : Found s part uniqueid index c found)
    (hs : Places.Exclusive 0 (s.place c.part)) (hzero : c.part ≠ warehousetype.weapon → c.uniqueid ≠ 0) :
    Places.Exclusive 0 (((s.outmaybe cfg c found).inrows cfg c).place c.part) := by
  rw [h.place_full cfg]
  cases found with
  | none => exact hs.put h.free _
  | some other =>
    obtain ⟨-, -, hplace⟩ := h.place_other
    rw [State.outmaybe, h.place_half cfg]
    by_cases hu : c.uniqueid = 0
    · -- an empty slot of another machine, for weapons
      have hweapon : c.part = warehousetype.weapon := by
        by_contra hne
        exact hzero hne hu
      rw [Change.back, if_pos hweapon, hu]
      exact (hs.clear _).clear _
    · by_cases hweapon : c.part = warehousetype.weapon
      · rw [Change.back, if_pos hweapon]
        exact hs.move hu hplace
      · rw [Change.back, if_neg hweapon]
        exact hs.swap hu hplace (h.keys_ne _) h.place_current

/-- **Both machines are changed**, and every part is in one place still. -/
theorem Found.exclusive (h : Found s part uniqueid index c found) (hs : Exclusive s)
    (hzero : c.part ≠ warehousetype.weapon → c.uniqueid ≠ 0) :
    Exclusive ((s.outmaybe cfg c found).inrows cfg c) := by
  intro p
  by_cases hp : p = c.part
  · rw [hp]
    exact h.exclusive_full (hs c.part) hzero
  · refine exclusive_inrows ?_ hp
    cases found with
    | none => exact hs p
    | some other => exact exclusive_outrows (hs p) hp

/-- Where nothing is displaced, the first change alone leaves every part in one place. -/
theorem Found.exclusive_half (h : Found s part uniqueid index c (some other)) (hs : Exclusive s)
    (hback : c.back = 0) : Exclusive (s.outrows cfg c other) := by
  intro p
  by_cases hp : p = c.part
  · rw [hp, h.place_half cfg, hback]
    exact (hs c.part).clear _
  · exact exclusive_outrows (hs p) hp

end Found

/-! ## What a success changes -/

/-- **The two extra slots of a machine**: its weapons are as they were, or the special
body adds two empty slots, or another one takes the last two of eight away. -/
def Extra (cfg : Config) (s : State) (id : Id) (w w' : List ℤ) : Prop :=
  w' = w ∨ (s.cfgidof cfg warehousetype.body id = some special ∧ w' = w ++ [0, 0]) ∨
    (s.cfgidof cfg warehousetype.body id ≠ some special ∧ w.length = 8 ∧ w' = w.take 6)

/-- A body brings its number of weapons. -/
theorem extra_resize (w : List ℤ) :
    Extra cfg s id w (resize (s.cfgidof cfg warehousetype.body id) w) := by
  unfold resize
  split_ifs with h1 h2
  · exact Or.inr (Or.inl ⟨h1.1, rfl⟩)
  · refine Or.inr (Or.inr ⟨h2.1, h2.2, ?_⟩)
    have h7 : w.eraseIdx 7 = w.take 7 := by
      rw [List.eraseIdx_eq_take_drop_succ, List.drop_eq_nil_of_le (by omega), List.append_nil]
    rw [h7, List.eraseIdx_eq_take_drop_succ, List.take_take, List.drop_eq_nil_of_le (by simp),
      List.append_nil]
    rfl
  · exact Or.inl rfl

/-- Another body changes the weapons at most. -/
theorem part_resized_cases (cfg : Config) (s : State) (machine part : ℤ) (id : Id) (m p : ℤ) :
    (s.resized cfg machine part id).part m p = s.part m p ∨
      (part = warehousetype.body ∧ p = warehousetype.weapon ∧ m = machine ∧
        (s.resized cfg machine part id).part m p =
          resize (s.cfgidof cfg warehousetype.body id) (s.part m p)) := by
  unfold State.resized
  split
  · rename_i hbody
    by_cases hmp : m = machine ∧ p = warehousetype.weapon
    · obtain ⟨rfl, rfl⟩ := hmp
      cases hrow : s.machinecfg m with
      | none =>
        left
        have hsame : ∀ l, s.setvalue m warehousetype.weapon l = s := fun l => by
          unfold State.setvalue
          rw [hrow, Option.map_none, ← hrow, Function.update_eq_self]
        rw [hsame]
      | some row =>
        exact Or.inr ⟨hbody, rfl, rfl, part_setvalue (by rw [hrow]; rfl) ⟨by decide, by decide⟩⟩
    · exact Or.inl (part_setvalue_of_ne hmp)
  · exact Or.inl rfl

/-- **What a success is**: the part is in the slot, the slot it was in has what it
displaced, or nothing for a weapon, and no other slot changes but the two extra ones. -/
structure Equipped (cfg : Config) (s t : State) (part uniqueid real old : ℤ) (slot : ℕ) : Prop where
  current : s.current = some real
  displaced : s.place part (real, slot) = some old
  placed : t.place part (real, slot) = some uniqueid
  back : ∀ x, s.place part x = some uniqueid →
    t.place part x = some (if part = warehousetype.weapon then 0 else old)
  others : ∀ x, x ≠ (real, slot) → s.place part x ≠ some uniqueid → t.place part x = s.place part x
  kinds : ∀ machine part', part' ≠ part → t.part machine part' = s.part machine part' ∨
    (part = warehousetype.body ∧ part' = warehousetype.weapon ∧
      ((machine = real ∧ Extra cfg s (.number uniqueid) (s.part machine part') (t.part machine part')) ∨
        (machine ≠ real ∧ uniqueid ∈ s.part machine part ∧
          Extra cfg s (.text old) (s.part machine part') (t.part machine part'))))
  machines : ∀ machine, machine ∉ s.machinecfgid → t.machinecfg machine = s.machinecfg machine

/-- A write goes to one machine, -/
theorem machinecfg_setvalue {m : ℤ} (h : m ≠ machine) :
    (s.setvalue machine part l).machinecfg m = s.machinecfg m := Function.update_of_ne h _ _

/-- and so do the weapons of another body. -/
theorem machinecfg_resized {m : ℤ} (h : m ≠ machine) :
    (s.resized cfg machine part id).machinecfg m = s.machinecfg m := by
  unfold State.resized
  split
  · exact machinecfg_setvalue h
  · rfl

theorem machinecfg_outrows {m : ℤ} (h : m ≠ other) :
    (s.outrows cfg c other).machinecfg m = s.machinecfg m := by
  rw [State.outrows, machinecfg_setvalue h, machinecfg_resized h]

theorem machinecfg_inrows {m : ℤ} (h : m ≠ c.machine) :
    (s.inrows cfg c).machinecfg m = s.machinecfg m := by
  rw [State.inrows, machinecfg_setvalue h, machinecfg_resized h]

section Found

variable {found : Option ℤ}

/-- The kinds that are not the part's. -/
theorem Found.kinds_full (cfg : Config) (h : Found s part uniqueid index c found) (m p : ℤ) (hp : p ≠ c.part) :
    ((s.outmaybe cfg c found).inrows cfg c).part m p = s.part m p ∨
      (c.part = warehousetype.body ∧ p = warehousetype.weapon ∧
        ((m = c.machine ∧ Extra cfg s (.number c.uniqueid) (s.part m p)
            (((s.outmaybe cfg c found).inrows cfg c).part m p)) ∨
          (m ≠ c.machine ∧ c.uniqueid ∈ s.part m c.part ∧ Extra cfg s (.text c.olduniqueid) (s.part m p)
            (((s.outmaybe cfg c found).inrows cfg c).part m p)))) := by
  have hin : ∀ v : State, (v.inrows cfg c).part m p =
      (v.resized cfg c.machine c.part (.number c.uniqueid)).part m p := fun v =>
    part_setvalue_of_ne fun hx => hp hx.2
  rw [hin]
  cases found with
  | none =>
    rcases part_resized_cases cfg s c.machine c.part (.number c.uniqueid) m p with
      hsame | ⟨hbody, hweapon, hm, hres⟩
    · exact Or.inl hsame
    · refine Or.inr ⟨hbody, hweapon, Or.inl ⟨hm, ?_⟩⟩
      rw [State.outmaybe, hres]
      exact extra_resize _
  | some other =>
    rw [State.outmaybe]
    have hout : (s.outrows cfg c other).part m p =
        (s.resized cfg other c.part (.text c.olduniqueid)).part m p :=
      part_setvalue_of_ne fun hx => hp hx.2
    have hcfg : ∀ id, (s.outrows cfg c other).cfgidof cfg warehousetype.body id =
        s.cfgidof cfg warehousetype.body id := fun id => by
      rw [State.cfgidof, rowof_outrows, State.cfgidof]
    rcases part_resized_cases cfg (s.outrows cfg c other) c.machine c.part
      (.number c.uniqueid) m p with hsame | ⟨hbody, hweapon, hm, hres⟩
    · rw [hsame, hout]
      rcases part_resized_cases cfg s other c.part (.text c.olduniqueid) m p with
        hsame' | ⟨hbody', hweapon', hm', hres'⟩
      · exact Or.inl hsame'
      · have hne : m ≠ c.machine := fun hx => h.ne (congrArg some (hm'.symm.trans hx))
        refine Or.inr ⟨hbody', hweapon', Or.inr ⟨hne, ?_, ?_⟩⟩
        · rw [hm']
          exact h.place_other.2.1
        · rw [hres']
          exact extra_resize _
    · refine Or.inr ⟨hbody, hweapon, Or.inl ⟨hm, ?_⟩⟩
      have hne : m ≠ other := fun hx => h.ne (congrArg some (hx.symm.trans hm))
      have hpart : (s.outrows cfg c other).part m p = s.part m p := by
        rw [State.part, State.row, machinecfg_outrows hne, ← State.row, ← State.part]
      rw [hres, hcfg, hpart]
      exact extra_resize _

/-- **A change that goes through is a success.** -/
theorem Found.equipped (h : Found s part uniqueid index c found) (hs : Exclusive s) (hu : uniqueid ≠ 0)
    (ht : Frame ((s.outmaybe cfg c found).inrows cfg c) t) :
    Equipped cfg s t part uniqueid c.machine c.olduniqueid c.index := by
  have hplace : t.place part = Function.update ((s.outmaybe cfg c found).place part)
      (c.machine, c.index) (some uniqueid) := by
    have := h.place_full cfg
    rw [h.part_eq, h.uniqueid_eq] at this
    rw [ht.place, this]
  have hold : s.place part (c.machine, c.index) = some c.olduniqueid := by
    rw [← h.part_eq]
    exact h.place_current
  refine ⟨h.current, hold, ?_, fun x hx => ?_, fun x hx hxu => ?_, fun m p hp => ?_, fun m hm => ?_⟩
  · rw [hplace, Function.update_self]
  · cases found with
    | none =>
      rw [← h.part_eq, ← h.uniqueid_eq] at hx
      exact absurd hx (h.free x)
    | some other =>
      -- the part is in one slot only, the one it is taken from
      have hthere := h.place_other.2.2
      rw [h.part_eq, h.uniqueid_eq] at hthere
      have hkey : x = (other, (s.part other part).idxOf uniqueid) := hs part _ hu _ _ hx hthere
      have hhalf := h.place_half cfg
      rw [h.part_eq, h.uniqueid_eq] at hhalf
      rw [hplace, hkey, Function.update_of_ne (h.keys_ne _), State.outmaybe, hhalf,
        Function.update_self, Change.back, h.part_eq]
  · rw [hplace, Function.update_of_ne hx]
    cases found with
    | none => rfl
    | some other =>
      have hhalf := h.place_half cfg
      have hthere := h.place_other.2.2
      rw [h.part_eq, h.uniqueid_eq] at hhalf hthere
      have hkey : x ≠ (other, (s.part other part).idxOf uniqueid) := by
        rintro rfl
        exact hxu hthere
      rw [State.outmaybe, hhalf, Function.update_of_ne hkey]
  · have hkinds := h.kinds_full cfg m p (by rw [h.part_eq]; exact hp)
    rw [h.part_eq, h.uniqueid_eq, ← ht.part_eq] at hkinds
    exact hkinds
  · have hne : m ≠ c.machine := fun hx => hm (hx ▸ mem_of_current h.current)
    rw [ht.machinecfg, machinecfg_inrows hne]
    cases found with
    | none => rfl
    | some other =>
      exact machinecfg_outrows fun hx => hm (hx ▸ h.place_other.1)

end Found

/-! ## Runs -/

/-- **A request**, with the default machine when it comes. -/
structure Request where
  defaultindex : ℤ
  msg : Msg

def State.choose (s : State) (defaultindex : ℤ) : State := { s with defaultindex := defaultindex }

/-- The requests of a player, one at a time. -/
def hangar (cfg : Config) : System State Request where
  init := Exclusive
  step s q t := t = (changeequip cfg q.msg (s.choose q.defaultindex)).2

/-- **The requests that leave nothing half done**: where the part is in another machine,
and it is no weapon, the chip service can read it and the one it displaces. -/
def Sound (cfg : Config) (s : State) (q : Request) : Prop :=
  ∀ part uniqueid c other, q.msg.part = some part → q.msg.uniqueid = some uniqueid →
    Found (s.choose q.defaultindex) part uniqueid q.msg.index c (some other) →
    part ≠ warehousetype.weapon → c.olduniqueid ≠ 0 → c.Read cfg (s.choose q.defaultindex)

/-- **A request does what its answer says**: a success for a part equips it, and an error
code changes no machine. -/
def Answers (cfg : Config) (s : State) (m : Msg) : Prop :=
  (∀ t part uniqueid, changeequip cfg m s = (.ok .success, t) → m.part = some part →
    m.uniqueid = some uniqueid → uniqueid ≠ 0 → ∃ (real old : ℤ) (slot : ℕ),
      m.index = some ((slot : ℤ) + 1) ∧ Equipped cfg s t part uniqueid real old slot) ∧
  ∀ code t, changeequip cfg m s = (.ok code, t) → code ≠ .success → t.machinecfg = s.machinecfg

/-- What passes the check has a kind and an id, which is 0 for a weapon at most. -/
theorem paramcheck_ok {m : Msg} {x : ℤ × ℤ} (h : paramcheck cfg m = .ok x) : m.part = some x.1 ∧
    m.uniqueid = some x.2 ∧ (x.1 ≠ warehousetype.weapon → x.2 ≠ 0) := by
  unfold paramcheck at h
  split at h
  · cases h
  · rename_i part hpart
    split at h
    · rename_i uniqueid isnew huniqueid hisnew
      split_ifs at h with h1 h2
      cases h
      exact ⟨hpart, huniqueid, fun hp hu => h1 (Or.inr (Or.inr ⟨hp, hu⟩))⟩
    · cases h

/-- **What becomes of a request.** -/
theorem changeequip_cases {m : Msg} (h : changeequip cfg m s = (r, t)) :
    (Frame s t ∧ r ≠ .ok .success) ∨ ∃ part uniqueid, m.part = some part ∧
      m.uniqueid = some uniqueid ∧ (part ≠ warehousetype.weapon → uniqueid ≠ 0) ∧
      Outcome cfg s part uniqueid m.index r t := by
  unfold changeequip at h
  cases hcheck : paramcheck cfg m with
  | error e =>
    rw [hcheck] at h
    cases e with
    | none =>
      cases h
      exact Or.inl ⟨Frame.refl s, by simp⟩
    | some code =>
      cases h
      refine Or.inl ⟨Frame.refl s, fun hcode => ?_⟩
      -- the checks answer with errors only
      unfold paramcheck at hcheck
      split at hcheck
      · cases hcheck
      · split at hcheck
        · split_ifs at hcheck <;> cases hcheck <;> cases hcode
        · cases hcheck
          cases hcode
  | ok x =>
    rw [hcheck] at h
    obtain ⟨hpart, huniqueid, hzero⟩ := paramcheck_ok hcheck
    exact Or.inr ⟨x.1, x.2, hpart, huniqueid, hzero, change_outcome h⟩

/-- **A request** that leaves nothing half done keeps every part in one place. -/
theorem exclusive_step {q : Request} (hs : Exclusive s) (hsound : Sound cfg s q) :
    Exclusive (changeequip cfg q.msg (s.choose q.defaultindex)).2 := by
  have hs' : Exclusive (s.choose q.defaultindex) := hs
  rcases hstep : changeequip cfg q.msg (s.choose q.defaultindex) with ⟨r, t⟩
  rcases changeequip_cases hstep with ⟨hframe, -⟩ | ⟨part, uniqueid, hpart, huniqueid, hzero, hout⟩
  · exact hframe.exclusive hs'
  · cases hout with
    | same hframe => exact hframe.exclusive hs'
    | half hfound hframe hread =>
      refine hframe.exclusive (hfound.exclusive_half hs' ?_)
      unfold Change.back
      split
      · rfl
      · rename_i hweapon
        by_contra hold
        exact hread (hsound part uniqueid _ _ hpart huniqueid hfound
          (by rw [← hfound.part_eq]; exact hweapon) hold)
    | full hfound hframe =>
      refine hframe.exclusive (hfound.exclusive hs' ?_)
      rw [hfound.part_eq, hfound.uniqueid_eq]
      exact hzero

/-- **Every request answers**, where the parts are exclusive. -/
theorem answers (hs : Exclusive s) (m : Msg) : Answers cfg s m := by
  constructor
  · intro t part uniqueid h hpart huniqueid hu
    rcases changeequip_cases h with ⟨-, hr⟩ | ⟨part', uniqueid', hpart', huniqueid', -, hout⟩
    · exact absurd rfl hr
    · rw [hpart, Option.some.injEq] at hpart'
      rw [huniqueid, Option.some.injEq] at huniqueid'
      subst hpart' huniqueid'
      generalize hok : (.ok .success : Except Unit Code) = r at hout
      cases hout with
      | same _ hr => exact absurd hok.symm hr
      | half => cases hok
      | full hfound hframe =>
        exact ⟨_, _, _, hfound.index_eq, hfound.equipped hs hu hframe⟩
  · intro code t h hcode
    rcases changeequip_cases h with ⟨hframe, -⟩ | ⟨part, uniqueid, -, -, -, hout⟩
    · exact hframe.machinecfg
    · generalize hok : (.ok code : Except Unit Code) = r at hout
      cases hout with
      | same hframe => exact hframe.machinecfg
      | half => cases hok
      | full _ _ hr =>
        rcases hr with hr | hr
        · exact absurd (Except.ok.inj (hok.trans hr)) hcode
        · cases hok.trans hr

/-- **A part is in one slot of one machine** in every run of requests that leave nothing
half done, and each request, with any default machine, does what its answer says. -/
theorem equipment_exclusive (cfg : Config) (s : State)
    (h : ((hangar cfg).restrict (Sound cfg)).Reachable s) :
    Exclusive s ∧ ∀ q : Request, Answers cfg (s.choose q.defaultindex) q.msg := by
  have hs : Exclusive s := by
    refine h.invariant (P := Exclusive) (fun _ h₀ => h₀) fun s q t hst hs => ?_
    obtain ⟨hstep, hsound⟩ := hst
    rw [show t = (changeequip cfg q.msg (s.choose q.defaultindex)).2 from hstep]
    exact exclusive_step hs hsound
  exact ⟨hs, fun q => answers (s := s.choose q.defaultindex) hs q.msg⟩

/-! ## Two machines -/

/-- A player who owns two chassis. -/
def garage : Config where
  chips := ⟨fun _ => none, 2, fun _ => none, fun part => if part = warehousetype.chassis then [1, 2] else []⟩
  newhangar _ := []
  cfgid _ id := id
  weapontable _ := none
  firecontroltype _ := none
  machinebody _ := true
  machinechassis _ := true
  firecontrol _ := true

/-- Two machines with a chassis each, for some rows of equipment. -/
def twomachines (rows : ℤ → ℤ → Option Equip) : State where
  chips := ⟨[], [], [], rows, [], fun _ _ => 0, 0, fun _ => 0⟩
  machinecfgid := [7, 8]
  defaultindex := 1
  machinecfg machine :=
    if machine = 7 then some ⟨⟨[1], [3], [5], []⟩, 0⟩
    else if machine = 8 then some ⟨⟨[2], [4], [6], []⟩, 0⟩ else none
  textrows _ _ := none

/-- The first machine gets the chassis of the second. -/
def swapchassis : Request := ⟨1, ⟨some 1, some 2, some 1, some false⟩⟩

theorem exclusive_twomachines (rows : ℤ → ℤ → Option Equip) : Exclusive (twomachines rows) := by
  intro part a ha x y hx hy
  have hplace : ∀ z : ℤ × ℕ, (twomachines rows).place part z = some a → z.2 = 0 ∧
      (z.1 = 7 ∧ a = 2 * part - 1 ∨ z.1 = 8 ∧ a = 2 * part) := by
    rintro ⟨m, k⟩ hz
    have hkind := (row_of_mem (by
      rw [State.place] at hz
      split at hz
      · exact hz
      · cases hz)).2
    rw [State.place] at hz
    split at hz
    · rename_i hm
      have hm : m = 7 ∨ m = 8 := by simpa [twomachines] using hm
      rcases hm with rfl | rfl <;> rcases hkind.cases with rfl | rfl | rfl | rfl <;>
        rcases k with - | k <;>
        simp [State.part, State.row, twomachines, Machine.part, warehousetype.chassis,
          warehousetype.body, warehousetype.firecontroller, warehousetype.weapon] at hz ⊢ <;> omega
    · cases hz
  obtain ⟨hx0, hx1⟩ := hplace x hx
  obtain ⟨hy0, hy1⟩ := hplace y hy
  refine Prod.ext ?_ (hx0.trans hy0.symm)
  omega

/-- An equipment without chips. -/
def bare : Equip := ⟨fun _ => ⟨none, none, false, none⟩, 4, 0, 0, 0⟩

theorem equipment_exclusive_swap :
    Exclusive (changeequip garage swapchassis.msg ((twomachines fun _ _ => some bare).choose 1)).2 ∧
      ∀ q : Request, Answers garage ((changeequip garage swapchassis.msg
        ((twomachines fun _ _ => some bare).choose 1)).2.choose q.defaultindex) q.msg := by
  have hstart : ((hangar garage).restrict (Sound garage)).Reachable (twomachines fun _ _ => some bare) :=
    .of_init (exclusive_twomachines _)
  have hread : ∀ part id, Readable garage ((twomachines fun _ _ => some bare).choose 1) part id := by
    intro part id
    refine ⟨bare, ?_, fun i chip level _ hchip => by cases hchip⟩
    cases id <;> rfl
  refine equipment_exclusive garage _ (hstart.step (e := swapchassis) ⟨rfl, ?_⟩)
  intro part uniqueid c other _ _ _ _ _
  exact ⟨hread _ _, fun _ => hread _ _⟩

/-- **A chassis without a row** is in both machines when the chip service has raised an
error over it. -/
theorem equipment_twice : ¬ ∀ (cfg : Config) (s : State), (hangar cfg).Reachable s →
    Exclusive s ∧ ∀ q : Request, Answers cfg (s.choose q.defaultindex) q.msg := by
  intro h
  obtain ⟨rows, hrows⟩ : ∃ rows : ℤ → ℤ → Option Equip,
      (fun _ id => if id = 1 then none else some bare) = rows := ⟨_, rfl⟩
  have hreach : (hangar garage).Reachable
      (changeequip garage swapchassis.msg ((twomachines rows).choose 1)).2 :=
    System.Reachable.step (e := swapchassis) (.of_init (exclusive_twomachines rows)) rfl
  have hboth := (h garage _ hreach).1 1 1 (by decide) (7, 0) (8, 0)
  rw [← hrows] at hboth
  exact absurd (hboth (by decide +kernel) (by decide +kernel)) (by decide)

end Hangar

end Athena
