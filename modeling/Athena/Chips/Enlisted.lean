import Athena.Chips.Skills
import Mathlib.Data.List.Nodup
import Mathlib.Data.List.TakeWhile
/-!
# Chips — skills in order

The skill chips of a machine in the order they were installed, with the parts they are in,
against its row of `d_skill`. A chip that comes has its pair written last, unless a pair of
the row has the number of the part as its skill; a chip that goes takes its own pair along,
where the loop over the passive skills finds it first and no other behind it.
-/

namespace Athena

namespace Chips

variable {cfg : Config} {Sikll_ID : ℤ → ℤ} {part skillid id : ℤ} {row : Skills}

/-! ## The loop over the passive skills -/

theorem dropskill_cons_of_ne {x : ℤ × ℤ} (hx : x.2 ≠ skillid) (l : List (ℤ × ℤ)) :
    dropskill skillid (x :: l) = x :: dropskill skillid l := by
  match l with
  | [] => simp [dropskill, hx]
  | y :: l => rw [dropskill, if_neg hx]

theorem dropskill_cons_of_eq {x : ℤ × ℤ} (hx : x.2 = skillid) (l : List (ℤ × ℤ)) :
    dropskill skillid (x :: l) = l.take 1 ++ dropskill skillid l.tail := by
  match l with
  | [] => rw [dropskill, if_pos hx, List.take_nil, List.tail_nil, dropskill, List.append_nil]
  | y :: l =>
    rw [dropskill, if_pos hx]
    rfl

/-- Pairs of other skills are kept. -/
theorem dropskill_append {l₁ : List (ℤ × ℤ)} (h : ∀ x ∈ l₁, x.2 ≠ skillid) (l : List (ℤ × ℤ)) :
    dropskill skillid (l₁ ++ l) = l₁ ++ dropskill skillid l := by
  induction l₁ with
  | nil => rfl
  | cons x l₁ ih =>
    rw [List.cons_append, dropskill_cons_of_ne (h x List.mem_cons_self),
      ih fun y hy => h y (List.mem_cons_of_mem x hy), List.cons_append]

theorem dropskill_sublist (skillid : ℤ) (l : List (ℤ × ℤ)) : (dropskill skillid l).Sublist l := by
  induction l using dropskill.induct skillid with
  | case1 => exact List.Sublist.refl _
  | case2 x hx =>
    rw [dropskill, if_pos hx]
    exact List.nil_sublist _
  | case3 x hx =>
    rw [dropskill, if_neg hx]
  | case4 x y l hx ih =>
    rw [dropskill, if_pos hx]
    exact (ih.cons_cons y).cons x
  | case5 x y l hx ih =>
    rw [dropskill, if_neg hx]
    exact ih.cons_cons x

/-- **The pair of the part is the first with its skill**, and no later one has it but the next. -/
def Frees (part skillid : ℤ) (l : List (ℤ × ℤ)) : Prop :=
  ∃ after, (l.dropWhile fun x => x.2 ≠ skillid) = (part, skillid) :: after ∧ ∀ x ∈ after.tail, x.2 ≠ skillid

theorem filter_fst_eq_self {l : List (ℤ × ℤ)} (h : part ∉ l.map Prod.fst) :
    (l.filter fun x => x.1 ≠ part) = l := by
  rw [List.filter_eq_self]
  intro x hx
  simp only [ne_eq, decide_not, Bool.not_eq_true', decide_eq_false_iff_not]
  rintro rfl
  exact h (List.mem_map_of_mem hx)

/-- **The loop takes out the pair of the part and no other** just there. -/
theorem dropskill_eq_filter {l : List (ℤ × ℤ)} (hnodup : (l.map Prod.fst).Nodup)
    (hmem : (part, skillid) ∈ l) :
    dropskill skillid l = (l.filter fun x => x.1 ≠ part) ↔ Frees part skillid l := by
  -- the first pair with the skill, which is the one that the loop takes out
  obtain ⟨b, after, hdrop⟩ : ∃ b after, (l.dropWhile fun x => x.2 ≠ skillid) = b :: after := by
    refine List.exists_cons_of_ne_nil fun hnil => ?_
    rw [List.dropWhile_eq_nil_iff] at hnil
    exact absurd (hnil _ hmem) (by simp)
  have hb : b.2 = skillid := by
    have hhead := List.head_dropWhile_not (fun x : ℤ × ℤ => decide (x.2 ≠ skillid)) (l := l) (by rw [hdrop]; simp)
    simp only [hdrop, List.head_cons] at hhead
    simpa using hhead
  have hfrees : Frees part skillid l ↔ b = (part, skillid) ∧ ∀ x ∈ after.tail, x.2 ≠ skillid := by
    simp only [Frees, hdrop, List.cons.injEq]
    constructor
    · rintro ⟨_, ⟨hpair, rfl⟩, htail⟩
      exact ⟨hpair, htail⟩
    · rintro ⟨hpair, htail⟩
      exact ⟨after, ⟨hpair, rfl⟩, htail⟩
  obtain ⟨before, hl, hbefore⟩ : ∃ before, l = before ++ b :: after ∧ ∀ x ∈ before, x.2 ≠ skillid := by
    refine ⟨l.takeWhile fun x => x.2 ≠ skillid, ?_, fun x hx => ?_⟩
    · rw [← hdrop, List.takeWhile_append_dropWhile]
    · simpa using List.mem_takeWhile_imp hx
  rw [hfrees, hl, dropskill_append hbefore, dropskill_cons_of_eq hb]
  subst hl
  rw [List.map_append, List.map_cons, List.nodup_middle, List.nodup_cons, ← List.map_append] at hnodup
  by_cases hpart : b.1 = part
  · have hpair : b = (part, skillid) := Prod.ext hpart hb
    have hrest : ((before ++ b :: after).filter fun x => x.1 ≠ part) = before ++ after := by
      rw [List.filter_append, List.filter_cons_of_neg (by simp [hpart]), ← List.filter_append]
      exact filter_fst_eq_self (hpart ▸ hnodup.1)
    rw [hrest, List.append_cancel_left_eq]
    refine Iff.trans ?_ (and_iff_right hpair).symm
    rw [← dropskill_eq_self]
    match after with
    | [] => simp [dropskill]
    | y :: after => simp
  · refine iff_of_false (fun heq => ?_) fun h => hpart (by rw [h.1])
    have hin : b ∈ (before ++ b :: after).filter fun x => x.1 ≠ part := by
      rw [List.mem_filter]
      exact ⟨List.mem_append_right before List.mem_cons_self, by simpa using hpart⟩
    rw [← heq] at hin
    refine hnodup.1 (List.mem_map_of_mem ?_)
    rcases List.mem_append.mp hin with hin | hin
    · exact List.mem_append_left after hin
    · refine List.mem_append_right before ?_
      rw [← List.take_append_drop 1 after]
      rcases List.mem_append.mp hin with hin | hin
      · exact List.mem_append_left _ hin
      · rw [List.drop_one]
        exact List.mem_append_right _ ((dropskill_sublist skillid after.tail).subset hin)

/-- The pair of a part is the only one of the part. -/
theorem eraseP_eq_filter {l : List (ℤ × ℤ)} (hnodup : (l.map Prod.fst).Nodup)
    (hmem : (part, skillid) ∈ l) :
    (l.eraseP fun x => x.1 = part && x.2 = skillid) = l.filter fun x => x.1 ≠ part := by
  induction l with
  | nil => cases hmem
  | cons y l ih =>
    rw [List.map_cons, List.nodup_cons] at hnodup
    rcases List.mem_cons.mp hmem with rfl | hmem
    · rw [List.eraseP_cons_of_pos (by simp), List.filter_cons_of_neg (by simp), filter_fst_eq_self hnodup.1]
    · have hy : y.1 ≠ part := by
        intro hy
        rw [hy] at hnodup
        exact hnodup.1 (List.mem_map_of_mem hmem)
      rw [List.eraseP_cons_of_neg (by simp [hy]), List.filter_cons_of_pos (by simpa using hy), ih hnodup.2 hmem]

/-! ## The row -/

/-- The chip gives a skill that can be selected. -/
def active (cfg : Config) (id : ℤ) : Bool := (cfg.mod id).any fun m => m.Mod_Type = chiptype.skill

/-- The chip gives a skill that is always on. -/
def passive (cfg : Config) (id : ℤ) : Bool := (cfg.mod id).any fun m => m.Mod_Type = chiptype.passkill

/-- The pairs of some chips, in order. -/
def pairs (Sikll_ID : ℤ → ℤ) (p : ℤ → Bool) (installed : List (ℤ × ℤ)) : List (ℤ × ℤ) :=
  (installed.filter fun x => p x.2).map fun x => (x.1, Sikll_ID x.2)

/-- **Active skills**: a pair for each chip, and one of them is selected. -/
structure Selects (cfg : Config) (Sikll_ID : ℤ → ℤ) (installed : List (ℤ × ℤ)) (row : Skills) : Prop where
  array : row.skillarray = pairs Sikll_ID (active cfg) installed
  empty_iff : row.selectskill = none ↔ row.skillarray = []
  mem : ∀ x, row.selectskill = some x → x ∈ row.skillarray

/-- **The row is that of the chips**: the active and the passive skills. -/
structure Listed (cfg : Config) (Sikll_ID : ℤ → ℤ) (installed : List (ℤ × ℤ)) (row : Skills) : Prop where
  selects : Selects cfg Sikll_ID installed row
  passes : row.passkillarray = pairs Sikll_ID (passive cfg) installed

/-- What a skill chip that comes or goes does to the row. -/
def turn (cfg : Config) (Sikll_ID : ℤ → ℤ) (part : ℤ) (ty : Bool) (row : Skills) (id : ℤ) : Skills :=
  match cfg.mod id with
  | none => row
  | some m => update_skill m (Sikll_ID id) part ty row

variable {installed : List (ℤ × ℤ)} {p : ℤ → Bool} {ids out come : List ℤ}

theorem pairs_append (l₁ l₂ : List (ℤ × ℤ)) :
    pairs Sikll_ID p (l₁ ++ l₂) = pairs Sikll_ID p l₁ ++ pairs Sikll_ID p l₂ := by
  rw [pairs, List.filter_append, List.map_append, pairs, pairs]

theorem pairs_filter (l : List (ℤ × ℤ)) :
    pairs Sikll_ID p (l.filter fun x => x.1 ≠ part) = (pairs Sikll_ID p l).filter fun x => x.1 ≠ part := by
  rw [pairs, pairs, List.filter_map, List.filter_filter, List.filter_filter]
  congr 1
  exact List.filter_congr fun x _ => Bool.and_comm _ _

theorem pairs_single_pos (hp : p id = true) : pairs Sikll_ID p [(part, id)] = [(part, Sikll_ID id)] := by
  simp [pairs, hp]

theorem pairs_single_neg (hp : p id = false) : pairs Sikll_ID p [(part, id)] = [] := by
  simp [pairs, hp]

theorem pairs_sublist (l : List (ℤ × ℤ)) : ((pairs Sikll_ID p l).map Prod.fst).Sublist (l.map Prod.fst) := by
  rw [pairs, List.map_map]
  exact List.filter_sublist.map Prod.fst

theorem mem_pairs (hid : (part, id) ∈ installed) (hp : p id = true) :
    (part, Sikll_ID id) ∈ pairs Sikll_ID p installed :=
  List.mem_map.mpr ⟨(part, id), List.mem_filter.mpr ⟨hid, hp⟩, rfl⟩

/-- A chip of another kind has no pair in the list. -/
theorem pairs_filter_eq_self (hnodup : (installed.map Prod.fst).Nodup) (hid : (part, id) ∈ installed)
    (hp : p id = false) :
    pairs Sikll_ID p (installed.filter fun x => x.1 ≠ part) = pairs Sikll_ID p installed := by
  rw [pairs_filter]
  refine filter_fst_eq_self fun hmem => ?_
  rw [pairs, List.map_map, List.mem_map] at hmem
  obtain ⟨x, hx, hpart⟩ := hmem
  obtain ⟨hx, hpx⟩ := List.mem_filter.mp hx
  obtain rfl : x = (part, id) := List.inj_on_of_nodup_map hnodup hx hid hpart
  rw [hp] at hpx
  cases hpx

/-- A skill chip is active or passive. -/
theorem skill_cases (h : (cfg.mod id).any is_skill = true) : ∃ m, cfg.mod id = some m ∧
    (m.Mod_Type = chiptype.skill ∧ active cfg id = true ∧ passive cfg id = false ∨
      m.Mod_Type = chiptype.passkill ∧ active cfg id = false ∧ passive cfg id = true) := by
  obtain ⟨m, hm, hskill⟩ := (Option.any_eq_true _ _).mp h
  refine ⟨m, hm, ?_⟩
  unfold active passive
  simp only [is_skill, Bool.or_eq_true, decide_eq_true_eq] at hskill
  simp only [hm, Option.any_some, decide_eq_true_eq, decide_eq_false_iff_not]
  rcases hskill with htype | htype <;> rw [htype]
  · exact .inl ⟨rfl, rfl, by decide⟩
  · exact .inr ⟨rfl, by decide, rfl⟩

/-! ## A chip that comes -/

/-- An active skill is written unless a pair has the part's number. -/
theorem turn_active_true {m : Mod} (hm : cfg.mod id = some m) (htype : m.Mod_Type = chiptype.skill)
    (hpart : part ≠ warehousetype.weapon) :
    turn cfg Sikll_ID part true row id =
      if row.skillarray.any fun x => x.1 = part || x.2 = part then row
      else { row with
        skillarray := row.skillarray ++ [(part, Sikll_ID id)]
        selectskill := row.selectskill.or (some (part, Sikll_ID id)) } := by
  have hne : chiptype.skill ≠ chiptype.passkill := by decide
  unfold turn update_skill
  simp only [hm, if_neg hpart, if_true, htype, true_and]
  cases row.skillarray.any fun x => decide (x.1 = part) || decide (x.2 = part) with
  | true => rw [if_neg (by simp), if_neg hne, if_pos rfl]
  | false => rw [if_pos (by simp), if_neg (by simp)]

theorem turn_passive_true {m : Mod} (hm : cfg.mod id = some m) (htype : m.Mod_Type = chiptype.passkill)
    (hpart : part ≠ warehousetype.weapon) :
    turn cfg Sikll_ID part true row id =
      { row with passkillarray := row.passkillarray ++ [(part, Sikll_ID id)] } := by
  have hne : chiptype.passkill ≠ chiptype.skill := by decide
  unfold turn update_skill
  simp only [hm, if_neg hpart, if_true, htype, hne, false_and, if_false]

/-- **A chip that comes to a part without one** has its pair written last, just where no pair
of the row has the number of the part as its skill. -/
theorem selects_come (h : Selects cfg Sikll_ID installed row) (hskill : (cfg.mod id).any is_skill = true)
    (hpart : part ≠ warehousetype.weapon) (hfree : part ∉ installed.map Prod.fst) :
    Selects cfg Sikll_ID (installed ++ [(part, id)]) (turn cfg Sikll_ID part true row id) ↔
      (active cfg id = true → ∀ x ∈ row.skillarray, x.2 ≠ part) := by
  obtain ⟨m, hm, ⟨htype, hact, -⟩ | ⟨htype, hact, -⟩⟩ := skill_cases hskill
  · have hfirst : ∀ x ∈ row.skillarray, x.1 ≠ part := by
      rintro x hx rfl
      rw [h.array] at hx
      exact hfree ((pairs_sublist installed).subset (List.mem_map_of_mem hx))
    have hany : (row.skillarray.any fun x => x.1 = part || x.2 = part) = false ↔
        ∀ x ∈ row.skillarray, x.2 ≠ part := by
      simp only [List.any_eq_false, Bool.or_eq_true, decide_eq_true_eq, not_or]
      exact ⟨fun hx x hmem => (hx x hmem).2, fun hx x hmem => ⟨hfirst x hmem, hx x hmem⟩⟩
    rw [turn_active_true hm htype hpart, ← hany, imp_iff_right hact]
    constructor
    · intro hafter
      by_contra hno
      rw [Bool.not_eq_false] at hno
      rw [if_pos hno] at hafter
      have heq := hafter.array
      rw [h.array, pairs_append, pairs_single_pos hact] at heq
      simpa using congrArg List.length heq
    · intro hno
      rw [if_neg (by rw [hno]; exact Bool.false_ne_true)]
      refine ⟨?_, ?_, ?_⟩
      · rw [pairs_append, pairs_single_pos hact, ← h.array]
      · simp
      · intro x hx
        rcases Option.or_eq_some_iff.mp hx with hx | ⟨-, hx⟩
        · exact List.mem_append_left _ (h.mem x hx)
        · cases hx
          exact List.mem_append_right _ List.mem_cons_self
  · rw [turn_passive_true hm htype hpart]
    refine iff_of_true ⟨?_, h.empty_iff, h.mem⟩ fun hno => ?_
    · rw [pairs_append, pairs_single_neg hact, List.append_nil]
      exact h.array
    · rw [hact] at hno
      cases hno

theorem passes_come (hskill : (cfg.mod id).any is_skill = true) (hpart : part ≠ warehousetype.weapon) :
    (turn cfg Sikll_ID part true row id).passkillarray =
        pairs Sikll_ID (passive cfg) (installed ++ [(part, id)]) ↔
      row.passkillarray = pairs Sikll_ID (passive cfg) installed := by
  rw [pairs_append]
  obtain ⟨m, hm, ⟨htype, -, hpas⟩ | ⟨htype, -, hpas⟩⟩ := skill_cases hskill
  · rw [turn_active_true hm htype hpart, pairs_single_neg hpas, List.append_nil]
    split <;> rfl
  · rw [turn_passive_true hm htype hpart, pairs_single_pos hpas]
    exact List.append_left_inj _

/-! ## A chip that goes -/

theorem turn_active_false {m : Mod} (hm : cfg.mod id = some m) (htype : m.Mod_Type = chiptype.skill)
    (hpart : part ≠ warehousetype.weapon) :
    turn cfg Sikll_ID part false row id =
      { row with
        skillarray := row.skillarray.eraseP fun x => x.1 = part && x.2 = Sikll_ID id
        selectskill :=
          if row.selectskill = some (part, Sikll_ID id) then
            (row.skillarray.eraseP fun x => x.1 = part && x.2 = Sikll_ID id).head?
          else row.selectskill } := by
  unfold turn update_skill
  simp only [hm, if_neg hpart, htype, if_true, Bool.false_eq_true, if_false]

theorem turn_passive_false {m : Mod} (hm : cfg.mod id = some m) (htype : m.Mod_Type = chiptype.passkill)
    (hpart : part ≠ warehousetype.weapon) :
    turn cfg Sikll_ID part false row id =
      { row with passkillarray := dropskill (Sikll_ID id) row.passkillarray } := by
  have hne : chiptype.passkill ≠ chiptype.skill := by decide
  unfold turn update_skill
  simp only [hm, if_neg hpart, htype, hne, if_false, Bool.false_eq_true]

/-- **An active skill that goes** takes its own pair along; if it was selected, the first of
the others is. -/
theorem selects_out (h : Selects cfg Sikll_ID installed row) (hskill : (cfg.mod id).any is_skill = true)
    (hpart : part ≠ warehousetype.weapon) (hnodup : (installed.map Prod.fst).Nodup)
    (hid : (part, id) ∈ installed) :
    Selects cfg Sikll_ID (installed.filter fun x => x.1 ≠ part) (turn cfg Sikll_ID part false row id) := by
  obtain ⟨m, hm, ⟨htype, hact, -⟩ | ⟨htype, hact, -⟩⟩ := skill_cases hskill
  · have hown : (part, Sikll_ID id) ∈ row.skillarray := h.array ▸ mem_pairs hid hact
    have hfst : (row.skillarray.map Prod.fst).Nodup := by
      rw [h.array]
      exact (pairs_sublist installed).nodup hnodup
    rw [turn_active_false hm htype hpart, eraseP_eq_filter hfst hown]
    have hrest : ∀ x, row.selectskill = some x → row.selectskill ≠ some (part, Sikll_ID id) →
        x ∈ row.skillarray.filter fun x => x.1 ≠ part := by
      intro x hx hne
      refine List.mem_filter.mpr ⟨h.mem x hx, ?_⟩
      simp only [ne_eq, decide_not, Bool.not_eq_true', decide_eq_false_iff_not]
      intro hsame
      refine hne ?_
      rw [hx, List.inj_on_of_nodup_map hfst (h.mem x hx) hown hsame]
    refine ⟨?_, ?_, ?_⟩
    · rw [pairs_filter, ← h.array]
    · split
      · exact List.head?_eq_none_iff
      · rename_i hne
        -- something is selected, and it is still there
        obtain ⟨x, hx⟩ : ∃ x, row.selectskill = some x := by
          rw [← Option.ne_none_iff_exists', Ne, h.empty_iff]
          exact List.ne_nil_of_mem hown
        refine iff_of_false (fun hnone => ?_) (List.ne_nil_of_mem (hrest x hx hne))
        rw [hx] at hnone
        cases hnone
    · intro x hx
      dsimp only at hx ⊢
      split at hx
      · exact List.mem_of_head? hx
      · rename_i hne
        exact hrest x hx hne
  · rw [turn_passive_false hm htype hpart]
    refine ⟨?_, h.empty_iff, h.mem⟩
    rw [pairs_filter_eq_self hnodup hid hact]
    exact h.array

/-- **A passive skill that goes** takes its own pair along just where the loop does. -/
theorem passes_out (h : row.passkillarray = pairs Sikll_ID (passive cfg) installed)
    (hskill : (cfg.mod id).any is_skill = true) (hpart : part ≠ warehousetype.weapon)
    (hnodup : (installed.map Prod.fst).Nodup) (hid : (part, id) ∈ installed) :
    (turn cfg Sikll_ID part false row id).passkillarray =
        pairs Sikll_ID (passive cfg) (installed.filter fun x => x.1 ≠ part) ↔
      (passive cfg id = true → Frees part (Sikll_ID id) row.passkillarray) := by
  obtain ⟨m, hm, ⟨htype, -, hpas⟩ | ⟨htype, -, hpas⟩⟩ := skill_cases hskill
  · rw [turn_active_false hm htype hpart, pairs_filter_eq_self hnodup hid hpas]
    refine iff_of_true h fun hno => ?_
    rw [hpas] at hno
    cases hno
  · have hown : (part, Sikll_ID id) ∈ row.passkillarray := h ▸ mem_pairs hid hpas
    have hfst : (row.passkillarray.map Prod.fst).Nodup := by
      rw [h]
      exact (pairs_sublist installed).nodup hnodup
    rw [turn_passive_false hm htype hpart, pairs_filter, ← h, imp_iff_right hpas]
    exact dropskill_eq_filter hfst hown

/-! ## Chips that go for chips that come -/

/-- The chip of a part goes, if there is one. -/
theorem selects_outs (h : Listed cfg Sikll_ID installed row) (hpart : part ≠ warehousetype.weapon)
    (hnodup : (installed.map Prod.fst).Nodup) (hout : ∀ id, (part, id) ∈ installed ↔ id ∈ out)
    (hone : out.length ≤ 1) (hskill : ∀ id ∈ out, (cfg.mod id).any is_skill = true) :
    Selects cfg Sikll_ID (installed.filter fun x => x.1 ≠ part) (out.foldl (turn cfg Sikll_ID part false) row) ∧
      ((out.foldl (turn cfg Sikll_ID part false) row).passkillarray =
          pairs Sikll_ID (passive cfg) (installed.filter fun x => x.1 ≠ part) ↔
        ∀ id ∈ out, passive cfg id = true → Frees part (Sikll_ID id) row.passkillarray) := by
  match out with
  | [] =>
    have hno : part ∉ installed.map Prod.fst := by
      rw [List.mem_map]
      rintro ⟨⟨part', id⟩, hx, rfl⟩
      exact absurd ((hout id).mp hx) List.not_mem_nil
    rw [filter_fst_eq_self hno]
    exact ⟨h.selects, iff_of_true h.passes (by simp)⟩
  | [id] =>
    have hid := (hout id).mpr List.mem_cons_self
    have hskill := hskill id List.mem_cons_self
    rw [List.forall_mem_singleton]
    exact ⟨selects_out h.selects hskill hpart hnodup hid, passes_out h.passes hskill hpart hnodup hid⟩
  | _ :: _ :: _ => simp at hone

/-- **The row stays that of the chips** of a machine one part of which gets other chips, just
where a passive skill that goes is the one the loop finds, and no pair of another part has
the number of the part as its skill where an active one comes. -/
theorem listed_swap (h : Listed cfg Sikll_ID installed row) (hpart : part ≠ warehousetype.weapon)
    (hnodup : (installed.map Prod.fst).Nodup) (hout : ∀ id, (part, id) ∈ installed ↔ id ∈ out)
    (hone : out.length ≤ 1) (hskill : ∀ id ∈ out, (cfg.mod id).any is_skill = true)
    (hcome : come.length ≤ 1) (hskill' : ∀ id ∈ come, (cfg.mod id).any is_skill = true) :
    Listed cfg Sikll_ID ((installed.filter fun x => x.1 ≠ part) ++ come.map fun id => (part, id))
        (come.foldl (turn cfg Sikll_ID part true) (out.foldl (turn cfg Sikll_ID part false) row)) ↔
      (∀ id ∈ out, passive cfg id = true → Frees part (Sikll_ID id) row.passkillarray) ∧
        ∀ id ∈ come, active cfg id = true → ∀ x ∈ row.skillarray, x.1 ≠ part → x.2 ≠ part := by
  obtain ⟨hselects, hpasses⟩ := selects_outs h hpart hnodup hout hone hskill
  rw [← hpasses]
  match come with
  | [] =>
    rw [List.map_nil, List.append_nil, List.foldl_nil]
    constructor
    · intro hlisted
      exact ⟨hlisted.passes, by simp⟩
    · intro hpass
      exact ⟨hselects, hpass.1⟩
  | [id] =>
    have hskill' := hskill' id List.mem_cons_self
    have hfree : part ∉ (installed.filter fun x => x.1 ≠ part).map Prod.fst := by
      rw [List.mem_map]
      rintro ⟨x, hx, rfl⟩
      simp at hx
    have hrest : ∀ x, x ∈ (out.foldl (turn cfg Sikll_ID part false) row).skillarray ↔
        x ∈ row.skillarray ∧ x.1 ≠ part := by
      intro x
      rw [hselects.array, pairs_filter, ← h.selects.array, List.mem_filter, decide_eq_true_eq]
    have hsel := selects_come hselects hskill' hpart hfree
    have hpass : (turn cfg Sikll_ID part true (out.foldl (turn cfg Sikll_ID part false) row) id).passkillarray =
        pairs Sikll_ID (passive cfg) ((installed.filter fun x => x.1 ≠ part) ++ [(part, id)]) ↔ _ :=
      passes_come hskill' hpart
    rw [List.forall_mem_singleton]
    simp only [hrest, and_imp] at hsel
    rw [← hsel, ← hpass]
    exact ⟨fun hlisted => ⟨hlisted.passes, hlisted.selects⟩, fun hboth => ⟨hboth.2, hboth.1⟩⟩
  | _ :: _ :: _ => simp at hcome

end Chips

end Athena
