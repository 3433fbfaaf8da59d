import Athena.Scan.Refund
import Athena.Scan.Run
/-!
# Blueprints — fair castings

A casting of some copies costs what they need, gives it back and grants an equipment for
each of them: where it does.
-/

namespace Athena

namespace Scan

open Lua (Str)
open Queue (Row Award BpReward PropReward EquipReward)

variable {cfg : Config} {s t u : State} {bpid cfgid : Str} {n type : ℤ} {name : Option Str} {key a : ℕ}
  {d : Entry} {l : Lists} {info : List PropReward × List EquipReward × ℤ} {row : Row}

/-! ## Equipment -/

/-- The equipment a part is cast to, by its type and id. -/
def equippart (b : Str) : Option (ℤ × Str) :=
  match (b.drop 1).head? with
  | some '1' => some (1, (b.drop 2).take 5)
  | some '2' => some (2, (b.drop 2).take 5)
  | some '3' => some (3, (b.drop 2).take 5)
  | some '4' => some (4, (b.drop 2).take 5)
  | _ => none

theorem castpart_equips (n : ℤ) (b : Str) :
    (castpart n b).2 = ((equippart b).map fun x => ⟨x.1, x.2, 1, n⟩).toList := by
  unfold castpart equippart
  dsimp only
  -- the same character decides both
  repeat' split
  all_goals simp_all

/-- How many of an equipment were given. -/
def equipsof (l : List (Option ℕ × Given)) (type : ℤ) (cfgid : Str) : ℤ :=
  tally (fun x => match x.2 with
    | .equip type' cfgid' _ _ => if type' = type ∧ cfgid' = cfgid then 1 else 0
    | _ => 0) l

/-- **How many of an equipment a copy has.** -/
def partequips (bpid : Str) (type : ℤ) (cfgid : Str) : ℤ :=
  tally (fun b => if equippart b = some (type, cfgid) then 1 else 0) (strtoarr bpid)

/-- **What a finished casting gives** when it is received: each equipment for each copy. -/
def Grants (cfg : Config) (row : Row) (bpid : Str) (n : ℤ) : Prop :=
  ∀ u a, u.awards a = some (row.award a) → a ∈ u.endcasting → machinefull u (row.award a) = false →
    ∀ type cfgid, equipsof (receivecasting cfg u (some a)).1.given type cfgid =
      equipsof u.given type cfgid + n * partequips bpid type cfgid

theorem equipsof_append (l m : List (Option ℕ × Given)) :
    equipsof (l ++ m) type cfgid = equipsof l type cfgid + equipsof m type cfgid := tally_append

/-- Where an award is received, nothing but `get_award` gives. -/
theorem receivecasting_given {award : Award} (ha : u.awards a = some award) (hend : a ∈ u.endcasting)
    (hfull : machinefull u award = false) :
    (receivecasting cfg u (some a)).1.given = (get_award cfg (some a) award none u).2.given := by
  simp only [receivecasting, ha, hend, not_true_eq_false, if_false, hfull, Bool.false_eq_true]
  split
  · rfl
  · split <;> rfl

theorem equipsof_equips {source : Option ℕ} {w : Bool} (arr : List Str) :
    equipsof (((arr.flatMap fun b => (castpart n b).2).map fun e : EquipReward =>
      Given.equip e.type e.cfgid e.lv w).map fun x => (source, x)) type cfgid =
      tally (fun b => if equippart b = some (type, cfgid) then 1 else 0) arr := by
  induction arr with
  | nil => rfl
  | cons b arr ih =>
    rw [List.flatMap_cons, List.map_append, List.map_append, equipsof_append, ih, tally_cons, castpart_equips]
    congr 1
    cases equippart b with
    | none => simp [equipsof]
    | some x =>
      obtain ⟨type', cfgid'⟩ := x
      simp [equipsof, Prod.ext_iff]

/-- Blueprints, materials and machines are no equipment. -/
theorem equipsof_upto {source : Option ℕ} {m : List Given}
    (hm : ∀ x ∈ m, ∀ type cfgid lv lock, x ≠ .equip type cfgid lv lock) :
    equipsof (upto cfg source m) type cfgid = 0 := by
  refine tally_eq_zero fun x hx => ?_
  obtain ⟨y, hy, rfl⟩ := List.mem_map.mp hx
  have hne := hm y (List.takeWhile_subset _ hy)
  cases y with
  | equip type cfgid lv lock => exact absurd rfl (hne type cfgid lv lock)
  | blueprint id number name => rfl
  | material cfgid number => rfl
  | machine bpid => rfl

/-- **Each part gives one equipment**, however many copies are cast. -/
theorem receivecasting_equips (h : Stocked cfg) (hknown : hasblueprint cfg bpid = true)
    (hrow : row.equiplist = (strtoarr bpid).flatMap fun b => (castpart n b).2)
    (ha : u.awards a = some (row.award a)) (hend : a ∈ u.endcasting)
    (hfull : machinefull u (row.award a) = false) :
    equipsof (receivecasting cfg u (some a)).1.given type cfgid =
      equipsof u.given type cfgid + partequips bpid type cfgid := by
  rw [receivecasting_given ha hend hfull, get_award_gives.2, equipsof_append]
  have hall : (((row.award a).equiplist.map fun e : EquipReward =>
      Given.equip e.type e.cfgid e.lv (weld (row.award a).sponsorid))).all (givable cfg) = true := by
    rw [List.all_eq_true]
    intro x hx
    obtain ⟨e, he, rfl⟩ := List.mem_map.mp hx
    change e ∈ row.equiplist at he
    rw [hrow] at he
    obtain ⟨b, hb, he⟩ := List.mem_flatMap.mp he
    exact h.part b n (List.all_eq_true.mp hknown b hb) e he
  rw [contents, upto_append_of_all hall, equipsof_append, equipsof_upto, add_zero]
  · congr 1
    change equipsof ((row.equiplist.map _).map _) _ _ = _
    rw [hrow]
    exact equipsof_equips (strtoarr bpid)
  · intro x hx type cfgid lv lock heq
    subst heq
    simp at hx

/-! ## Fair castings -/

/-- **A casting is fair.** It succeeds where the player has what the copies need, and
takes just that; every casting that is cancelled gives back what its unfinished copies
needed; one that is cancelled at once leaves all as it was; and one that is finished
grants each equipment for each copy. -/
structure Castfair (cfg : Config) (s : State) (bpid : Str) (n : ℤ) (name : Option Str) : Prop where
  succeeds : (casting cfg s (some bpid) (some n) name).2 = some .success ↔ Affords cfg s bpid n
  takes : (casting cfg s (some bpid) (some n) name).2 = some .success → ∀ id,
    (casting cfg s (some bpid) (some n) name).1.materials id = s.materials id - n * percopy cfg bpid id
  refunds : ∀ b, Refunds cfg s b
  restores : (casting cfg s (some bpid) (some n) name).2 = some .success →
    (cancelcasting cfg (casting cfg s (some bpid) (some n) name).1 (some (s.bqid + 1))).2 = some .success ∧
      Restored s (cancelcasting cfg (casting cfg s (some bpid) (some n) name).1 (some (s.bqid + 1))).1
  grants : (casting cfg s (some bpid) (some n) name).2 = some .success → ∀ row,
    (casting cfg s (some bpid) (some n) name).1.rows (s.bqid + 1) = some row → Grants cfg row bpid n

/-- One copy, or parts that share no material and are no equipment. -/
def Plain (cfg : Config) (bpid : Str) (n : ℤ) : Prop :=
  n = 1 ∨ (((partmaterials cfg bpid).map Prod.snd).Nodup ∧ ∀ b ∈ strtoarr bpid, equippart b = none)

/-- **What a casting does**: where it has all that it takes. -/
theorem casting_spec (h : Stocked cfg) (hn : 1 ≤ n) (hadm : Admitted cfg s bpid n name l key d)
    (hinfo : getcastring_info cfg bpid n = some info) :
    ((casting cfg s (some bpid) (some n) name).2 = some .success ↔
        ∀ y ∈ partmaterials cfg bpid, castcost cfg bpid n y.2 ≤ s.materials y.2) ∧
      ((casting cfg s (some bpid) (some n) name).2 = some .success →
        ∃ m, (∀ id, m id = s.materials id - castcost cfg bpid n id) ∧
          (casting cfg s (some bpid) (some n) name).1 =
            { s with materials := m }.cast (castrow cfg s.now bpid info)
              (casted s (castrow cfg s.now bpid info) key n l)) := by
  obtain ⟨hnodup, hmem, -, hunder⟩ := castmaterials_spec h hn bpid
  have hmatch := castmaterials_match h hn s bpid
  rw [casting_admitted hadm hinfo, ← hmatch]
  by_cases hall : ((castmaterials cfg bpid n).all fun x => matchmaterial s x.1 x.2) = true
  · rw [if_pos hall]
    refine ⟨iff_of_true rfl hall, fun _ => ?_⟩
    obtain ⟨m, hm⟩ := foldl_remmaterials_eq cfg s (castmaterials cfg bpid n)
    refine ⟨m, fun id => ?_, by rw [hm]⟩
    have hacc : ∀ x ∈ castmaterials cfg bpid n, 0 < x.2 ∧ cfg.material x.1 = true ∧ x.2 ≤ s.materials x.1 := by
      intro x hx
      obtain ⟨hvalue, hpos, hmat, y, hy, hyx⟩ := hmem x hx
      refine ⟨hpos, hmat, ?_⟩
      rw [hvalue, ← hyx]
      exact hmatch.mp hall y hy
    have htaken := foldl_remmaterials hnodup hacc id
    rw [hm, hunder] at htaken
    exact htaken
  · rw [if_neg hall]
    refine ⟨iff_of_false ?_ hall, fun hdone => ?_⟩
    · simp
    · simp at hdone

theorem partequips_pos {b : Str} (hb : b ∈ strtoarr bpid) (heq : equippart b = some (type, cfgid)) :
    0 < partequips bpid type cfgid := by
  have hnonneg : ∀ x ∈ (strtoarr bpid).map fun b => if equippart b = some (type, cfgid) then (1 : ℤ) else 0,
      0 ≤ x := by
    intro x hx
    obtain ⟨c, -, rfl⟩ := List.mem_map.mp hx
    split <;> omega
  have hone := List.single_le_sum hnonneg 1 (List.mem_map.mpr ⟨b, hb, if_pos heq⟩)
  rw [partequips, tally]
  omega

/-- The row of a casting grants each equipment once for a copy. -/
theorem grants_iff (h : Stocked cfg) (hn : 1 ≤ n) (hknown : hasblueprint cfg bpid = true)
    (hrow : row.equiplist = (strtoarr bpid).flatMap fun b => (castpart n b).2) :
    Grants cfg row bpid n ↔ n = 1 ∨ ∀ b ∈ strtoarr bpid, equippart b = none := by
  constructor
  · intro hgrants
    by_contra hno
    rw [not_or, not_forall] at hno
    obtain ⟨hone, b, hb⟩ := hno
    rw [Classical.not_imp] at hb
    obtain ⟨hb, hequip⟩ := hb
    obtain ⟨⟨type, cfgid⟩, hequip⟩ := Option.ne_none_iff_exists'.mp hequip
    -- any player with the award finished
    obtain ⟨u, hu⟩ : ∃ u : State, u = ⟨0, none, fun _ => 0, fun _ => none, 0, [], [0], [], [], 0,
      Function.update (fun _ => none) 0 (some (row.award 0)), 0, 0, []⟩ := ⟨_, rfl⟩
    have haward : u.awards 0 = some (row.award 0) := by
      rw [hu]
      simp
    have hend : 0 ∈ u.endcasting := by
      rw [hu]
      exact List.mem_cons_self
    have hfull : machinefull u (row.award 0) = false := by
      rw [hu]
      simp [machinefull]
    have hall := hgrants u 0 haward hend hfull type cfgid
    have hpos := partequips_pos hb hequip
    rw [receivecasting_equips h hknown hrow haward hend hfull] at hall
    have hmul : 2 * partequips bpid type cfgid ≤ n * partequips bpid type cfgid :=
      mul_le_mul_of_nonneg_right (by omega) hpos.le
    omega
  · intro hor u a haward hend hfull type cfgid
    rw [receivecasting_equips h hknown hrow haward hend hfull]
    rcases hor with rfl | hnone
    · rw [one_mul]
    · have hzero : partequips bpid type cfgid = 0 := tally_eq_zero fun b hb => by simp [hnone b hb]
      rw [hzero, mul_zero]

/-- The materials of every part, which takes eight hours. -/
def eighthours : Config where
  uid := 7
  blueprint := fun _ => some ⟨[(1, ['1', '0', '0', '0', '1']), (2, ['1', '0', '0', '0', '2'])], 28800⟩
  part := fun _ _ => true
  material := fun _ => true
  machinecfg := fun _ => true

/-- A chassis and a body. -/
def walker : Str := ['1', '1', '0', '0', '0', '1', '2', '1', '0', '0', '0', '1']

/-- A player with some copies of them. -/
def haswalker : State :=
  { hastwo with
    blueprint := some ⟨[], [⟨walker, 5, none, none, none, none, none⟩], [], []⟩
    materials := fun _ => 100 }

theorem stocked_eighthours : Stocked eighthours where
  material b row hrow x hx := by
    obtain rfl := Option.some.inj hrow
    refine ⟨?_, rfl⟩
    simp only [List.mem_cons, List.not_mem_nil, or_false] at hx
    rcases hx with rfl | rfl <;> decide
  time b row hrow := by
    obtain rfl := Option.some.inj hrow
    norm_num
  part _ _ _ _ _ := rfl

theorem fresh_haswalker : Fresh haswalker := fun _ hd => absurd hd List.not_mem_nil

theorem admitted_haswalker (hn : n ≤ 5) : Admitted eighthours haswalker walker n none
    ⟨[], [⟨walker, 5, none, none, none, none, none⟩], [], []⟩ 0 ⟨walker, 5, none, none, none, none, none⟩ where
  blueprint := rfl
  found := by decide
  entry := rfl
  owned := hn
  free := by decide
  known := rfl
  parts := by decide

end Scan

end Athena
