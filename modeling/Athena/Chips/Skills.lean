import Athena.Chips.Paid
/-!
# Chips — skills

`add` for a player with the skills of the machines. A skill comes with the part whose
chip gives it, and goes when the chip is taken out. What `update_skill` writes is
stored at once, before the checks that may refuse the chip that is to come.
-/

namespace Athena

namespace Chips

variable {cfg : Config} {Sikll_ID : ℤ → ℤ} {a : Add} {m : Mod} {msg : AddMsg}

/-- **A row of `d_skill`**: skills with their parts, and the one that is selected. -/
structure Skills where
  skillarray : List (ℤ × ℤ)
  passkillarray : List (ℤ × ℤ)
  selectskill : Option (ℤ × ℤ)
  deriving DecidableEq

/-- The loop over the passive skills: what follows a skill that goes is passed over. -/
def dropskill (skillid : ℤ) : List (ℤ × ℤ) → List (ℤ × ℤ)
  | [] => []
  | [x] => if x.2 = skillid then [] else [x]
  | x :: y :: l => if x.2 = skillid then y :: dropskill skillid l else x :: dropskill skillid (y :: l)

/-- **`update_skill`**, by the row of the chip. -/
def update_skill (m : Mod) (skillid part : ℤ) (ty : Bool) (row : Skills) : Skills :=
  if part = warehousetype.weapon then row
  else if ty then
    if m.Mod_Type = chiptype.skill ∧ !row.skillarray.any fun x => x.1 = part || x.2 = part then
      { row with
        skillarray := row.skillarray ++ [(part, skillid)]
        selectskill := row.selectskill.or (some (part, skillid)) }
    else if m.Mod_Type = chiptype.passkill then
      { row with passkillarray := row.passkillarray ++ [(part, skillid)] }
    else row
  else if m.Mod_Type = chiptype.skill then
    let skill := row.skillarray.eraseP fun x => x.1 = part && x.2 = skillid
    { row with
      skillarray := skill
      selectskill := if row.selectskill = some (part, skillid) then skill.head? else row.selectskill }
  else { row with passkillarray := dropskill skillid row.passkillarray }

/-- What `update_player_attr` does to the skills. -/
def updateskills (m : Mod) (skillid part : ℤ) (machinecfgid : Option ℤ) (index : Fin 5) (ty : Bool)
    (skills : ℤ → Skills) : ℤ → Skills :=
  match machinecfgid with
  | none => skills
  | some id =>
    if part = warehousetype.weapon ∨ index = Fin.last 4 then skills
    else if is_skill m then
      Function.update skills id (update_skill m skillid part ty (skills id))
    else skills

/-- **A player with skills.** Each machine has its row. -/
structure Player where
  state : State
  skills : ℤ → Skills

/-- The skills without that of the chip that is in the slot. -/
def evicted (cfg : Config) (Sikll_ID : ℤ → ℤ) (p : Player) (a : Add) : ℤ → Skills :=
  match (a.equip.slots a.index).chip with
  | none => p.skills
  | some (chipid, _) =>
    match cfg.mod chipid with
    | none => p.skills
    | some m =>
      updateskills m (Sikll_ID chipid) a.part (find_equip_index p.state a.part a.uniqueid) a.index false
        p.skills

/-- The skills with that of the chip that comes. -/
def enlisted (Sikll_ID : ℤ → ℤ) (p : Player) (a : Add) (skills : ℤ → Skills) : ℤ → Skills :=
  updateskills a.mod (Sikll_ID a.id) a.part (find_equip_index p.state a.part a.uniqueid) a.index true skills

/-- The same for a chip that leaves another equipment. -/
def relocated (Sikll_ID : ℤ → ℤ) (p : Player) (a : Add) (record : ℤ) (skills : ℤ → Skills) : ℤ → Skills :=
  enlisted Sikll_ID p a (updateskills a.mod (Sikll_ID a.id) (record % 10)
    (find_equip_index p.state (record % 10) (record / 10)) a.index false skills)

/-- **`chiphandler:add`** with the skills; after a chip's own skill is written
nothing fails any more. -/
def Player.add (cfg : Config) (Sikll_ID : ℤ → ℤ) (p : Player) (msg : AddMsg) : Player × Reply :=
  match addcheck cfg p.state msg with
  | .error reply => (p, reply)
  | .ok a =>
    match uninstall cfg p.state a with
    | none => (p, none)
    | some (t, e) =>
      let skills := evicted cfg Sikll_ID p a
      match a.record with
      | none =>
        let out := install cfg p.state a t e
        (⟨out.1, if out.2 = some .success then enlisted Sikll_ID p a skills else skills⟩, out.2)
      | some record =>
        let out := move cfg p.state a t e record
        (⟨out.1, if out.2 = some .success then relocated Sikll_ID p a record skills else skills⟩, out.2)

/-! ## What goes with a skill -/

/-- **A skill of the part is there**, or is the one selected; a passive skill is looked
for whatever its part. -/
def Skilled (m : Mod) (skillid part : ℤ) (row : Skills) : Prop :=
  if m.Mod_Type = chiptype.skill then
    (part, skillid) ∈ row.skillarray ∨ row.selectskill = some (part, skillid)
  else ∃ x ∈ row.passkillarray, x.2 = skillid

theorem dropskill_length (skillid : ℤ) (l : List (ℤ × ℤ)) : (dropskill skillid l).length ≤ l.length := by
  induction l using dropskill.induct skillid with
  | case1 => rfl
  | case2 x hx => simp [dropskill, hx]
  | case3 x hx => simp [dropskill, hx]
  | case4 x y l hx ih =>
    rw [dropskill, if_pos hx, List.length_cons, List.length_cons, List.length_cons]
    omega
  | case5 x y l hx ih =>
    rw [dropskill, if_neg hx, List.length_cons, List.length_cons]
    omega

/-- The loop leaves the list as it is just where the skill is not in it. -/
theorem dropskill_eq_self {skillid : ℤ} {l : List (ℤ × ℤ)} :
    dropskill skillid l = l ↔ ∀ x ∈ l, x.2 ≠ skillid := by
  induction l using dropskill.induct skillid with
  | case1 => simp [dropskill]
  | case2 x hx => simp [dropskill, hx]
  | case3 x hx => simp [dropskill, hx]
  | case4 x y l hx _ =>
    refine iff_of_false (fun h => ?_) fun h => h x List.mem_cons_self hx
    have hlength := congrArg List.length h
    have hle := dropskill_length skillid l
    rw [dropskill, if_pos hx, List.length_cons, List.length_cons, List.length_cons] at hlength
    omega
  | case5 x y l hx ih =>
    rw [dropskill, if_neg hx, List.cons.injEq, ih]
    constructor
    · rintro ⟨-, h⟩ z hz
      rcases List.mem_cons.mp hz with rfl | hz
      · exact hx
      · exact h z hz
    · intro h
      exact ⟨rfl, fun z hz => h z (List.mem_cons_of_mem x hz)⟩

/-- **A row stays as it is** just where the chip has no skill in it. -/
theorem update_skill_eq_self {skillid part : ℤ} {row : Skills} (hpart : part ≠ warehousetype.weapon) :
    update_skill m skillid part false row = row ↔ ¬ Skilled m skillid part row := by
  obtain ⟨skillarray, passkillarray, selectskill⟩ := row
  unfold update_skill Skilled
  rw [if_neg hpart, if_neg (by simp)]
  by_cases htype : m.Mod_Type = chiptype.skill
  · simp only [if_pos htype, Skills.mk.injEq, true_and]
    have herase : (skillarray.eraseP fun x => decide (x.1 = part) && decide (x.2 = skillid)) = skillarray ↔
        (part, skillid) ∉ skillarray := by
      rw [List.eraseP_eq_self_iff]
      constructor
      · intro h hmem
        simpa using h _ hmem
      · intro h x hx hp
        simp only [Bool.and_eq_true, decide_eq_true_eq] at hp
        refine h ?_
        rw [← hp.1, ← hp.2]
        exact hx
    rw [herase, not_or]
    refine and_congr_right fun hno => ?_
    rw [(herase.mpr hno)]
    split
    · rename_i hselect
      refine iff_of_false (fun h => ?_) fun h => h hselect
      rw [hselect] at h
      exact hno (List.mem_of_head? h)
    · rename_i hselect
      exact iff_of_true rfl hselect
  · simp only [if_neg htype, Skills.mk.injEq, true_and, and_true]
    rw [dropskill_eq_self, not_exists]
    exact forall_congr' fun x => not_and.symm

end Chips

end Athena
