import Athena.Chips.Enlisted
/-!
# Chips — the skills of a machine

One machine, with the chips in the slots of its chassis, its body and its fire controller,
over any run in which skill chips are installed and removed and parts are changed for others.
A part has one skill chip at most, and of a slot only the chip counts. Beside the rows of
`d_skill` stands what they are to be: the skill chips, in the order they were installed.
-/

namespace Athena

namespace Chips

variable {cfg : Config} {Sikll_ID : ℤ → ℤ} {machine : ℤ}

/-! ## The slots of an equipment -/

section Slots

variable {part : ℤ} {ty : Bool} {i : Fin 5}

/-- **`update_player_attr`** for the chip of a slot, as far as skills go. -/
def slotskill (cfg : Config) (Sikll_ID : ℤ → ℤ) (machine part : ℤ) (ty : Bool) (i : Fin 5) (slot : Option ℤ)
    (skills : ℤ → Skills) : Option (ℤ → Skills) :=
  match slot with
  | none => some skills
  | some id =>
    if part = warehousetype.weapon ∨ i = Fin.last 4 then some skills
    else (cfg.mod id).map fun m => updateskills m (Sikll_ID id) part (some machine) i ty skills

/-- A loop of `changeequip` over the slots of an equipment. -/
def slotskills (cfg : Config) (Sikll_ID : ℤ → ℤ) (machine part : ℤ) (ty : Bool) (slots : Fin 5 → Option ℤ) :
    List (Fin 5) → (ℤ → Skills) → Option (ℤ → Skills)
  | [], skills => some skills
  | i :: l, skills => do
    let skills ← slotskill cfg Sikll_ID machine part ty i (slots i) skills
    slotskills cfg Sikll_ID machine part ty slots l skills

/-- **`chiphandler:changeequip`**, as far as skills go; without an equipment the slots are empty. -/
def changeskills (cfg : Config) (Sikll_ID : ℤ → ℤ) (machine part : ℤ) (olddata newdata : Fin 5 → Option ℤ)
    (skills : ℤ → Skills) : Option (ℤ → Skills) := do
  let skills ← slotskills cfg Sikll_ID machine part false olddata (List.finRange 5) skills
  slotskills cfg Sikll_ID machine part true newdata (List.finRange 5) skills

/-- The skill chip of a slot. The fifth slot has none. -/
def skillat (cfg : Config) (i : Fin 5) (slot : Option ℤ) : Option ℤ :=
  if i = Fin.last 4 then none else slot.filter fun id => (cfg.mod id).any is_skill

/-- The skill chips of an equipment. -/
def skillsof (cfg : Config) (slots : Fin 5 → Option ℤ) : List ℤ :=
  (List.finRange 5).filterMap fun i => skillat cfg i (slots i)

theorem skillat_eq_some {slot : Option ℤ} {id : ℤ} :
    skillat cfg i slot = some id ↔ i ≠ Fin.last 4 ∧ slot = some id ∧ (cfg.mod id).any is_skill = true := by
  unfold skillat
  split
  · rename_i hi
    simp [hi]
  · rename_i hi
    rw [Option.filter_eq_some_iff]
    exact (and_iff_right hi).symm

theorem is_skill_of_mem {slots : Fin 5 → Option ℤ} {id : ℤ} (h : id ∈ skillsof cfg slots) :
    (cfg.mod id).any is_skill = true := by
  obtain ⟨i, -, hi⟩ := List.mem_filterMap.mp h
  exact (skillat_eq_some.mp hi).2.2

/-- **A slot is its skill chip**: it turns the row of the machine and no other. -/
theorem slotskill_eq {slot : Option ℤ} {skills t : ℤ → Skills} (hpart : part ≠ warehousetype.weapon)
    (h : slotskill cfg Sikll_ID machine part ty i slot skills = some t) :
    t = Function.update skills machine
      ((skillat cfg i slot).toList.foldl (turn cfg Sikll_ID part ty) (skills machine)) := by
  have hsame : skillat cfg i slot = none → t = skills → t = Function.update skills machine
      ((skillat cfg i slot).toList.foldl (turn cfg Sikll_ID part ty) (skills machine)) := by
    rintro hno rfl
    rw [hno, Option.toList_none, List.foldl_nil, Function.update_eq_self]
  unfold slotskill at h
  split at h
  · refine hsame ?_ (Option.some_inj.mp h).symm
    unfold skillat
    split <;> rfl
  · rename_i id
    split at h
    · rename_i hlast
      refine hsame ?_ (Option.some_inj.mp h).symm
      rw [skillat, if_pos (hlast.resolve_left hpart)]
    · rename_i hlast
      obtain ⟨m, hm, rfl⟩ := Option.map_eq_some_iff.mp h
      have hi : i ≠ Fin.last 4 := fun hi => hlast (.inr hi)
      have hup : updateskills m (Sikll_ID id) part (some machine) i ty skills =
          if is_skill m then
            Function.update skills machine (update_skill m (Sikll_ID id) part ty (skills machine))
          else skills := by
        unfold updateskills
        simp only [if_neg hlast]
      cases hskill : is_skill m with
      | false =>
        refine hsame ?_ ?_
        · rw [skillat, if_neg hi, Option.filter_some, hm, Option.any_some, hskill]
          rfl
        · rw [hup, hskill, if_neg Bool.false_ne_true]
      | true =>
        have hat : skillat cfg i (some id) = some id := by
          rw [skillat_eq_some]
          exact ⟨hi, rfl, by rw [hm]; exact hskill⟩
        rw [hup, hskill, if_pos rfl, hat, Option.toList_some, List.foldl_cons, List.foldl_nil, turn, hm]

theorem slotskills_eq {slots : Fin 5 → Option ℤ} {l : List (Fin 5)} {skills t : ℤ → Skills}
    (hpart : part ≠ warehousetype.weapon)
    (h : slotskills cfg Sikll_ID machine part ty slots l skills = some t) :
    t = Function.update skills machine
      ((l.filterMap fun i => skillat cfg i (slots i)).foldl (turn cfg Sikll_ID part ty) (skills machine)) := by
  induction l generalizing skills with
  | nil =>
    rw [List.filterMap_nil, List.foldl_nil, Function.update_eq_self]
    exact (Option.some_inj.mp h).symm
  | cons i l ih =>
    obtain ⟨u, hu, ht⟩ := Option.bind_eq_some_iff.mp h
    obtain rfl := slotskill_eq hpart hu
    rw [ih ht, Function.update_self, Function.update_idem, List.filterMap_cons]
    cases skillat cfg i (slots i) with
    | none => rfl
    | some id => rfl

/-- **A part for another**: the skill chips of the one go, and those of the other come. -/
theorem changeskills_eq {olddata newdata : Fin 5 → Option ℤ} {skills t : ℤ → Skills}
    (hpart : part ≠ warehousetype.weapon)
    (h : changeskills cfg Sikll_ID machine part olddata newdata skills = some t) :
    t = Function.update skills machine
      ((skillsof cfg newdata).foldl (turn cfg Sikll_ID part true)
        ((skillsof cfg olddata).foldl (turn cfg Sikll_ID part false) (skills machine))) := by
  obtain ⟨u, hu, ht⟩ := Option.bind_eq_some_iff.mp h
  obtain rfl := slotskills_eq hpart hu
  rw [slotskills_eq hpart ht, Function.update_self, Function.update_idem]
  rfl

/-- The skill chips of an equipment one slot of which is changed. -/
theorem skillsof_update (slots : Fin 5 → Option ℤ) (i : Fin 5) :
    ∃ before after, (∀ slot, skillsof cfg (Function.update slots i slot) =
        before ++ (skillat cfg i slot).toList ++ after) ∧
      skillsof cfg slots = before ++ (skillat cfg i (slots i)).toList ++ after := by
  obtain ⟨l₁, l₂, hl⟩ := List.append_of_mem (List.mem_finRange i)
  have hnodup := List.nodup_finRange 5
  rw [hl, List.nodup_middle, List.nodup_cons, List.mem_append, not_or] at hnodup
  have hall : ∀ slot, skillsof cfg (Function.update slots i slot) =
      (l₁.filterMap fun j => skillat cfg j (slots j)) ++ (skillat cfg i slot).toList ++
        l₂.filterMap fun j => skillat cfg j (slots j) := by
    intro slot
    have hother : ∀ l : List (Fin 5), i ∉ l →
        (l.filterMap fun j => skillat cfg j (Function.update slots i slot j)) =
          l.filterMap fun j => skillat cfg j (slots j) := by
      intro l hi
      refine List.filterMap_congr fun j hj => ?_
      have hne : j ≠ i := fun heq => hi (heq ▸ hj)
      rw [Function.update_of_ne hne]
    rw [skillsof, hl, List.filterMap_append, hother l₁ hnodup.1.1, List.append_assoc]
    congr 1
    cases hat : skillat cfg i slot with
    | none =>
      rw [List.filterMap_cons_none (by rw [Function.update_self, hat]), hother l₂ hnodup.1.2]
      rfl
    | some id =>
      rw [List.filterMap_cons_some (by rw [Function.update_self, hat]), hother l₂ hnodup.1.2]
      rfl
  refine ⟨_, _, hall, ?_⟩
  rw [← hall, Function.update_eq_self]

end Slots

/-! ## The machine -/

/-- The parts whose skills are those of the machine. -/
def Carries (part : ℤ) : Prop :=
  part = warehousetype.chassis ∨ part = warehousetype.body ∨ part = warehousetype.firecontroller

/-- **A machine**: the chips in the slots of its parts, and the rows of `d_skill`. -/
structure Rig where
  slots : ℤ → Fin 5 → Option ℤ
  skills : ℤ → Skills
  /-- The skill chips with their parts, in the order they were installed. -/
  installed : List (ℤ × ℤ)

/-- A skill chip is installed or removed, or a part is changed for another. -/
inductive Refit
  | install (part : ℤ) (i : Fin 5) (id : ℤ)
  | remove (part : ℤ) (i : Fin 5)
  | changeequip (part : ℤ) (newdata : Fin 5 → Option ℤ)

def Refit.part : Refit → ℤ
  | .install part _ _ => part
  | .remove part _ => part
  | .changeequip part _ => part

/-- The skill chips that come. -/
def Refit.come (cfg : Config) : Refit → List ℤ
  | .install _ _ id => [id]
  | .remove _ _ => []
  | .changeequip _ newdata => skillsof cfg newdata

/-- The slots of the part afterwards. -/
def Rig.newslots (s : Rig) : Refit → Fin 5 → Option ℤ
  | .install part i id => Function.update (s.slots part) i (some id)
  | .remove part i => Function.update (s.slots part) i none
  | .changeequip _ newdata => newdata

/-- The rows afterwards, as the service writes them. -/
def Rig.newskills (cfg : Config) (Sikll_ID : ℤ → ℤ) (machine : ℤ) (s : Rig) : Refit → Option (ℤ → Skills)
  | .install part i id => slotskill cfg Sikll_ID machine part true i (some id) s.skills
  | .remove part i => slotskill cfg Sikll_ID machine part false i (s.slots part i) s.skills
  | .changeequip part newdata => changeskills cfg Sikll_ID machine part (s.slots part) newdata s.skills

/-- The list afterwards. -/
def Rig.newinstalled (cfg : Config) (s : Rig) : Refit → List (ℤ × ℤ)
  | .install part _ id => s.installed ++ [(part, id)]
  | .remove part _ => s.installed.filter fun x => x.1 ≠ part
  | .changeequip part newdata =>
    (s.installed.filter fun x => x.1 ≠ part) ++ (skillsof cfg newdata).map fun id => (part, id)

/-- **One change of the machine.** -/
def Rig.refit (cfg : Config) (Sikll_ID : ℤ → ℤ) (machine : ℤ) (s : Rig) (e : Refit) : Option Rig :=
  (s.newskills cfg Sikll_ID machine e).map fun skills =>
    ⟨Function.update s.slots e.part (s.newslots e), skills, s.newinstalled cfg e⟩

/-- **No part gets a second skill chip**, and one that is removed is there. -/
def Rig.Legal (cfg : Config) (s : Rig) : Refit → Prop
  | .install part i id => Carries part ∧ skillat cfg i (some id) = some id ∧ skillsof cfg (s.slots part) = []
  | .remove part i => Carries part ∧ ∃ id, skillat cfg i (s.slots part i) = some id
  | .changeequip part newdata => Carries part ∧ (skillsof cfg newdata).length ≤ 1

/-- **The machines and their runs**, from one without skill chips, whose row is empty. -/
def rigs (cfg : Config) (Sikll_ID : ℤ → ℤ) (machine : ℤ) : System Rig Refit where
  init s := (∀ part, Carries part → skillsof cfg (s.slots part) = []) ∧ s.installed = [] ∧
    s.skills machine = ⟨[], [], none⟩
  step s e t := s.Legal cfg e ∧ s.refit cfg Sikll_ID machine e = some t

/-- **The rows go along**: a passive skill that goes is the one that the loop finds, and an
active one comes where no pair of another part has the number of the part as its skill. -/
def Rig.Clear (cfg : Config) (Sikll_ID : ℤ → ℤ) (machine : ℤ) (s : Rig) (e : Refit) : Prop :=
  (∀ id ∈ skillsof cfg (s.slots e.part), passive cfg id = true →
      Frees e.part (Sikll_ID id) (s.skills machine).passkillarray) ∧
    ∀ id ∈ e.come cfg, active cfg id = true →
      ∀ x ∈ (s.skills machine).skillarray, x.1 ≠ e.part → x.2 ≠ e.part

/-- **The list is that of the slots**, where each part has one skill chip at most. -/
structure Rig.Fitted (cfg : Config) (s : Rig) : Prop where
  carries : ∀ x ∈ s.installed, Carries x.1
  mem : ∀ part, Carries part → ∀ id, (part, id) ∈ s.installed ↔ id ∈ skillsof cfg (s.slots part)
  one : ∀ part, Carries part → (skillsof cfg (s.slots part)).length ≤ 1
  nodup : (s.installed.map Prod.fst).Nodup

theorem Carries.ne_weapon {part : ℤ} (h : Carries part) : part ≠ warehousetype.weapon := by
  rcases h with rfl | rfl | rfl <;> decide

variable {s t : Rig} {e : Refit}

/-- A part without a skill chip is not in the list. -/
theorem Rig.Fitted.free {part : ℤ} (h : s.Fitted cfg) (hpart : Carries part) (hno : skillsof cfg (s.slots part) = []) :
    part ∉ s.installed.map Prod.fst := by
  rw [List.mem_map]
  rintro ⟨⟨part', id⟩, hx, rfl⟩
  have hid := (h.mem part' hpart id).mp hx
  rw [hno] at hid
  exact List.not_mem_nil hid

/-- **What a change comes to**: the skill chips of the part go, and others come. -/
structure Swaps (cfg : Config) (Sikll_ID : ℤ → ℤ) (machine : ℤ) (s : Rig) (e : Refit) (t : Rig) : Prop where
  carries : Carries e.part
  one : (e.come cfg).length ≤ 1
  slots : t.slots = Function.update s.slots e.part (s.newslots e)
  come : skillsof cfg (s.newslots e) = e.come cfg
  installed : t.installed =
    (s.installed.filter fun x => x.1 ≠ e.part) ++ (e.come cfg).map fun id => (e.part, id)
  row : t.skills machine = (e.come cfg).foldl (turn cfg Sikll_ID e.part true)
    ((skillsof cfg (s.slots e.part)).foldl (turn cfg Sikll_ID e.part false) (s.skills machine))

theorem refit_swaps (hf : s.Fitted cfg) (h : (rigs cfg Sikll_ID machine).step s e t) :
    Swaps cfg Sikll_ID machine s e t := by
  obtain ⟨hlegal, hrefit⟩ := h
  obtain ⟨skills, hskills, rfl⟩ := Option.map_eq_some_iff.mp hrefit
  unfold Rig.newskills at hskills
  cases e with
  | install part i id =>
    obtain ⟨hpart, hat, hno⟩ := hlegal
    obtain rfl := slotskill_eq hpart.ne_weapon hskills
    obtain ⟨before, after, hall, hold⟩ := @skillsof_update cfg (s.slots part) i
    refine ⟨hpart, Nat.le_refl 1, rfl, ?_, ?_, ?_⟩
    · rw [hno] at hold
      obtain ⟨hba, rfl⟩ := List.append_eq_nil_iff.mp hold.symm
      obtain ⟨rfl, -⟩ := List.append_eq_nil_iff.mp hba
      exact (hall (some id)).trans (by rw [hat]; rfl)
    · exact (congrArg (· ++ [(part, id)]) (filter_fst_eq_self (hf.free hpart hno))).symm
    · dsimp only [Refit.part, Refit.come]
      rw [hno, hat, Function.update_self]
      rfl
  | remove part i =>
    obtain ⟨hpart, id, hat⟩ := hlegal
    obtain rfl := slotskill_eq hpart.ne_weapon hskills
    obtain ⟨before, after, hall, hold⟩ := @skillsof_update cfg (s.slots part) i
    have hone := hf.one part hpart
    rw [hat] at hold
    rw [hold] at hone
    simp only [List.length_append, Option.toList_some, List.length_singleton] at hone
    obtain rfl : before = [] := List.eq_nil_of_length_eq_zero (by omega)
    obtain rfl : after = [] := List.eq_nil_of_length_eq_zero (by omega)
    refine ⟨hpart, Nat.zero_le 1, rfl, ?_, ?_, ?_⟩
    · refine (hall none).trans ?_
      unfold skillat
      split <;> rfl
    · exact (List.append_nil _).symm
    · dsimp only [Refit.part, Refit.come]
      rw [hold, hat, Function.update_self]
      rfl
  | changeequip part newdata =>
    obtain ⟨hpart, hone⟩ := hlegal
    obtain rfl := changeskills_eq hpart.ne_weapon hskills
    refine ⟨hpart, hone, rfl, rfl, rfl, ?_⟩
    dsimp only [Refit.part, Refit.come]
    rw [Function.update_self]

theorem Refit.mem_come {id : ℤ} (h : Swaps cfg Sikll_ID machine s e t) (hid : id ∈ e.come cfg) :
    (cfg.mod id).any is_skill = true := by
  rw [← h.come] at hid
  exact is_skill_of_mem hid

/-- **The list stays that of the slots.** -/
theorem Rig.Fitted.swaps (hf : s.Fitted cfg) (h : Swaps cfg Sikll_ID machine s e t) : t.Fitted cfg := by
  have hslots : ∀ part, part ≠ e.part → t.slots part = s.slots part := by
    intro part hne
    rw [h.slots, Function.update_of_ne hne]
  have hown : skillsof cfg (t.slots e.part) = e.come cfg := by
    rw [h.slots, Function.update_self, h.come]
  have hmem : ∀ part id, (part, id) ∈ t.installed ↔
      (part, id) ∈ s.installed ∧ part ≠ e.part ∨ part = e.part ∧ id ∈ e.come cfg := by
    intro part id
    rw [h.installed, List.mem_append, List.mem_filter, decide_eq_true_eq, List.mem_map]
    refine or_congr Iff.rfl ⟨?_, ?_⟩
    · rintro ⟨id, hid, heq⟩
      cases heq
      exact ⟨rfl, hid⟩
    · rintro ⟨rfl, hid⟩
      exact ⟨id, hid, rfl⟩
  refine ⟨?_, ?_, ?_, ?_⟩
  · rintro ⟨part, id⟩ hx
    rcases (hmem part id).mp hx with ⟨hx, -⟩ | ⟨rfl, -⟩
    · exact hf.carries _ hx
    · exact h.carries
  · intro part hpart id
    rw [hmem]
    by_cases hsame : part = e.part
    · rw [hsame, hown]
      simp
    · rw [hslots part hsame, hf.mem part hpart]
      simp [hsame]
  · intro part hpart
    by_cases hsame : part = e.part
    · rw [hsame, hown]
      exact h.one
    · rw [hslots part hsame]
      exact hf.one part hpart
  · rw [h.installed, List.map_append, List.nodup_append]
    refine ⟨(List.filter_sublist.map Prod.fst).nodup hf.nodup, ?_, ?_⟩
    · rw [List.map_map]
      match hcome : e.come cfg with
      | [] => exact List.nodup_nil
      | [id] => exact List.nodup_singleton _
      | _ :: _ :: _ =>
        have hone := h.one
        rw [hcome] at hone
        simp at hone
    · intro a ha b hb
      obtain ⟨x, hx, rfl⟩ := List.mem_map.mp ha
      rw [List.map_map, List.mem_map] at hb
      obtain ⟨id, -, rfl⟩ := hb
      simpa using (List.mem_filter.mp hx).2

/-- **One step**: the row stays that of the chips just where it goes along. -/
theorem listed_step (hf : s.Fitted cfg) (hl : Listed cfg Sikll_ID s.installed (s.skills machine))
    (h : (rigs cfg Sikll_ID machine).step s e t) :
    Listed cfg Sikll_ID t.installed (t.skills machine) ↔ s.Clear cfg Sikll_ID machine e := by
  have hswaps := refit_swaps hf h
  rw [hswaps.installed, hswaps.row]
  exact listed_swap hl hswaps.carries.ne_weapon hf.nodup (hf.mem e.part hswaps.carries)
    (hf.one e.part hswaps.carries) (fun _ => is_skill_of_mem) hswaps.one fun _ => Refit.mem_come hswaps

/-- A machine without skill chips. -/
theorem fitted_of_init (h : (rigs cfg Sikll_ID machine).init s) :
    s.Fitted cfg ∧ Listed cfg Sikll_ID s.installed (s.skills machine) := by
  obtain ⟨hno, hempty, hrow⟩ := h
  rw [hrow, hempty]
  refine ⟨⟨?_, ?_, ?_, ?_⟩, ⟨⟨rfl, iff_of_true rfl rfl, ?_⟩, rfl⟩⟩
  · rw [hempty]
    simp
  · intro part hpart id
    rw [hempty, hno part hpart]
    simp
  · intro part hpart
    rw [hno part hpart]
    exact Nat.zero_le 1
  · rw [hempty]
    exact List.nodup_nil
  · intro x hx
    cases hx

/-- A pair of the part that goes is the only one that goes. -/
theorem Listed.filter {installed : List (ℤ × ℤ)} {row row' : Skills} {part : ℤ}
    (h : Listed cfg Sikll_ID installed row)
    (h' : Listed cfg Sikll_ID (installed.filter fun x => x.1 ≠ part) row') :
    row'.skillarray = (row.skillarray.filter fun x => x.1 ≠ part) ∧
      row'.passkillarray = row.passkillarray.filter fun x => x.1 ≠ part := by
  rw [h'.selects.array, h'.passes, pairs_filter, pairs_filter, h.selects.array, h.passes]
  exact ⟨rfl, rfl⟩

/-- **Runs whose steps go along.** In every state reached the pairs of the row are those of the
skill chips, in the order they were installed, and the selected one is one of them, if there is
any; a step keeps this just where the rows go along; and a chip that is removed then takes the
pair of its part and no other. -/
theorem listed_iff (h : ((rigs cfg Sikll_ID machine).restrict (Rig.Clear cfg Sikll_ID machine)).Reachable s) :
    (s.Fitted cfg ∧ Listed cfg Sikll_ID s.installed (s.skills machine)) ∧
    (∀ e t, (rigs cfg Sikll_ID machine).step s e t →
      (Listed cfg Sikll_ID t.installed (t.skills machine) ↔ s.Clear cfg Sikll_ID machine e)) ∧
    ∀ part i t, (rigs cfg Sikll_ID machine).step s (.remove part i) t → s.Clear cfg Sikll_ID machine (.remove part i) →
      (t.skills machine).skillarray = ((s.skills machine).skillarray.filter fun x => x.1 ≠ part) ∧
        (t.skills machine).passkillarray = (s.skills machine).passkillarray.filter fun x => x.1 ≠ part := by
  have hboth : s.Fitted cfg ∧ Listed cfg Sikll_ID s.installed (s.skills machine) := by
    refine h.invariant (P := fun s => s.Fitted cfg ∧ Listed cfg Sikll_ID s.installed (s.skills machine)) ?_ ?_
    · intro s hs
      exact fitted_of_init hs
    · intro s e t hst hs
      exact ⟨hs.1.swaps (refit_swaps hs.1 hst.1), (listed_step hs.1 hs.2 hst.1).mpr hst.2⟩
  refine ⟨hboth, fun e t hst => listed_step hboth.1 hboth.2 hst, fun part i t hst hclear => ?_⟩
  have hafter := (listed_step hboth.1 hboth.2 hst).mpr hclear
  rw [(refit_swaps hboth.1 hst).installed, show Refit.come cfg (.remove part i) = [] from rfl, List.map_nil,
    List.append_nil] at hafter
  exact hboth.2.filter hafter

/-- Chip 5 has an active skill, and the others a passive one. -/
def skillchips : Config :=
  ⟨fun id => some ⟨if id = 5 then chiptype.skill else chiptype.passkill, 0, 0, [], [], fun _ => none⟩, 0,
    fun _ => none, fun _ => []⟩

/-- A machine without chips. -/
def unchipped : Rig := ⟨fun _ _ => none, fun _ => ⟨[], [], none⟩, []⟩

theorem unchipped_init : (rigs skillchips (fun _ => 7) 1).init unchipped := ⟨fun _ _ => rfl, rfl, rfl⟩

/-- An active skill on the body of a machine with a passive one. -/
theorem listed_iff_body : ∃ s : Rig, s.installed = [(1, 6), (2, 5)] ∧ s.skills 1 = ⟨[(2, 7)], [(1, 7)], some (2, 7)⟩ ∧
    Listed skillchips (fun _ => 7) s.installed (s.skills 1) := by
  have hreach : ∃ s : Rig, s.installed = [(1, 6), (2, 5)] ∧ s.skills 1 = ⟨[(2, 7)], [(1, 7)], some (2, 7)⟩ ∧
      ((rigs skillchips (fun _ => 7) 1).restrict (Rig.Clear skillchips (fun _ => 7) 1)).Reachable s := by
    refine ⟨_, ?_, ?_, unchipped, [.install 1 ⟨0, by decide⟩ 6, .install 2 ⟨0, by decide⟩ 5], unchipped_init,
      .cons ⟨⟨⟨.inl rfl, rfl, rfl⟩, rfl⟩, ?_⟩ (.cons ⟨⟨⟨.inr (.inl rfl), rfl, rfl⟩, rfl⟩, ?_⟩ (.nil _))⟩
    · rfl
    · rfl
    · exact ⟨fun id hid => absurd hid List.not_mem_nil, fun _ _ _ x hx => absurd hx List.not_mem_nil⟩
    · exact ⟨fun id hid => absurd hid List.not_mem_nil, fun _ _ _ x hx => absurd hx List.not_mem_nil⟩
  obtain ⟨s, hinstalled, hrow, hs⟩ := hreach
  exact ⟨s, hinstalled, hrow, (listed_iff hs).1.2⟩

/-- A passive skill on the chassis and on the body: what is removed from the body is the pair of
the chassis. -/
theorem not_listed_second : ∃ s, (rigs skillchips (fun _ => 7) 1).Reachable s ∧ s.installed = [(1, 6)] ∧
    (s.skills 1).passkillarray = [(2, 7)] ∧ ¬ Listed skillchips (fun _ => 7) s.installed (s.skills 1) := by
  refine ⟨_, ⟨unchipped, [.install 1 ⟨0, by decide⟩ 6, .install 2 ⟨0, by decide⟩ 6, .remove 2 ⟨0, by decide⟩],
    unchipped_init, .cons ⟨⟨.inl rfl, rfl, rfl⟩, rfl⟩ (.cons ⟨⟨.inr (.inl rfl), rfl, rfl⟩, rfl⟩
      (.cons ⟨⟨.inr (.inl rfl), 6, rfl⟩, rfl⟩ (.nil _)))⟩, rfl, rfl, fun h => ?_⟩
  exact absurd h.passes (by decide)

end Chips

end Athena
