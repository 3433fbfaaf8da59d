import Athena.Scan.Cancel
import Athena.Common.Tally
import Mathlib.Algebra.Order.BigOperators.Group.List
/-!
# Blueprints — what a casting costs

The materials of the parts are summed up under their ids, and with each amount that is
added the whole sum is multiplied by the number of copies. For one copy, or where no
material is in two places, this is what the copies need.
-/

namespace Athena

namespace Scan

open Lua (Str)
open Queue (Row Award BpReward PropReward EquipReward)

variable {cfg : Config} {s t : State} {bpid id : Str} {n v : ℤ} {as : List ℤ} {l : List (ℤ × Str)}
  {acc : List (Str × ℤ)} {name : Option Str} {key : ℕ} {d : Entry} {lists : Lists}

/-! ## Sums that are multiplied on the way -/

/-- A sum that is multiplied with each amount. -/
def compounded (n v : ℤ) (as : List ℤ) : ℤ := as.foldl (fun v a => n * (v + a)) v

theorem compounded_one (v : ℤ) (as : List ℤ) : compounded 1 v as = v + as.sum := by
  induction as generalizing v with
  | nil => simp [compounded]
  | cons a as ih =>
    change compounded 1 (1 * (v + a)) as = _
    rw [ih, List.sum_cons]
    omega

theorem compounded_le (hn : 1 ≤ n) (hv : 0 ≤ v) (has : ∀ a ∈ as, 0 < a) :
    v + n * as.sum ≤ compounded n v as := by
  induction as generalizing v with
  | nil => simp [compounded]
  | cons a as ih =>
    have ha := has a List.mem_cons_self
    have hnext : 0 ≤ n * (v + a) := mul_nonneg (by omega) (by omega)
    have hrest := ih hnext fun b hb => has b (List.mem_cons_of_mem a hb)
    have hone : v ≤ n * v := le_mul_of_one_le_left hv hn
    have hsplit : n * (v + a) = n * v + n * a := mul_add n v a
    change _ ≤ compounded n (n * (v + a)) as
    rw [List.sum_cons, mul_add]
    omega

/-- A second amount multiplies the first one once more. -/
theorem compounded_lt (hn : 2 ≤ n) (hv : 0 < v) (has : ∀ a ∈ as, 0 < a) (hne : as ≠ []) :
    v + n * as.sum < compounded n v as := by
  cases as with
  | nil => exact absurd rfl hne
  | cons a as =>
    have ha := has a List.mem_cons_self
    have hnext : 0 ≤ n * (v + a) := mul_nonneg (by omega) (by omega)
    have hone : 1 ≤ n := by omega
    have hrest := compounded_le hone hnext fun b hb => has b (List.mem_cons_of_mem a hb)
    have htwo : 2 * v ≤ n * v := mul_le_mul_of_nonneg_right hn hv.le
    have hsplit : n * (v + a) = n * v + n * a := mul_add n v a
    change _ < compounded n (n * (v + a)) as
    rw [List.sum_cons, mul_add]
    omega

/-- **It is the plain sum times the number** for one copy or one amount only. -/
theorem compounded_eq_iff (hn : 1 ≤ n) (has : ∀ a ∈ as, 0 < a) :
    compounded n 0 as = n * as.sum ↔ n = 1 ∨ as.length ≤ 1 := by
  rcases eq_or_lt_of_le hn with rfl | hn
  · rw [compounded_one]
    simp
  · cases as with
    | nil => simp [compounded]
    | cons a as =>
      have ha := has a List.mem_cons_self
      have hfirst : compounded n 0 (a :: as) = compounded n (n * a) as := by
        simp [compounded]
      rw [hfirst, List.sum_cons, mul_add]
      cases as with
      | nil => simp [compounded]
      | cons b as =>
        have hpos : 0 < n * a := mul_pos (by omega) ha
        have hlt := compounded_lt hn hpos
          (fun c hc => has c (List.mem_cons_of_mem a hc)) (List.cons_ne_nil b as)
        refine iff_of_false (by omega) ?_
        simp only [List.length_cons]
        omega

/-! ## The materials of a blueprint -/

/-- The amounts of all parts, in their order. -/
def partmaterials (cfg : Config) (bpid : Str) : List (ℤ × Str) :=
  (strtoarr bpid).flatMap fun b => ((cfg.blueprint b).map Blueprint.Material).getD []

/-- Those of one material. -/
def amounts (id : Str) (l : List (ℤ × Str)) : List ℤ := (l.filter fun x => x.2 = id).map Prod.fst

/-- **What one copy needs of a material.** -/
def percopy (cfg : Config) (bpid id : Str) : ℤ := (amounts id (partmaterials cfg bpid)).sum

/-- **The player has what the copies need.** -/
def Affords (cfg : Config) (s : State) (bpid : Str) (n : ℤ) : Prop :=
  ∀ x ∈ partmaterials cfg bpid, n * percopy cfg bpid x.2 ≤ s.materials x.2

/-- **The tables are filled in**: amounts are positive and of materials there are, a part
takes some time, and what is cast from it can be given. -/
structure Stocked (cfg : Config) : Prop where
  material : ∀ b row, cfg.blueprint b = some row → ∀ x ∈ row.Material, 0 < x.1 ∧ cfg.material x.2 = true
  time : ∀ b row, cfg.blueprint b = some row → 1 ≤ row.Cast_Time
  part : ∀ b n, (cfg.blueprint b).isSome → ∀ e ∈ (castpart n b).2, cfg.part e.type e.cfgid = true

theorem Stocked.partmaterials (h : Stocked cfg) (bpid : Str) :
    ∀ x ∈ partmaterials cfg bpid, 0 < x.1 ∧ cfg.material x.2 = true := by
  intro x hx
  obtain ⟨b, -, hx⟩ := List.mem_flatMap.mp hx
  cases hrow : cfg.blueprint b with
  | none => simp [hrow] at hx
  | some row =>
    rw [hrow, Option.map_some, Option.getD_some] at hx
    exact h.material b row hrow x hx

theorem mem_amounts {a : ℤ} : a ∈ amounts id l ↔ (a, id) ∈ l := by
  simp [amounts]

theorem amounts_pos (id : Str) (hl : ∀ x ∈ l, 0 < x.1) : ∀ a ∈ amounts id l, 0 < a :=
  fun a ha => hl (a, id) (mem_amounts.mp ha)

/-- **No material is in two places** where each has one amount at most. -/
theorem nodup_iff_amounts : (l.map Prod.snd).Nodup ↔ ∀ id, (amounts id l).length ≤ 1 := by
  rw [List.nodup_iff_count_le_one]
  refine forall_congr' fun id => ?_
  have hcount : List.count id (l.map Prod.snd) = (amounts id l).length := by
    rw [List.count_eq_countP, List.countP_map, List.countP_eq_length_filter, amounts, List.length_map]
    congr 2
    funext x
    rw [Function.comp_apply, Bool.eq_iff_iff, beq_iff_eq, decide_eq_true_eq]
  rw [hcount]

/-! ## mateinfo -/

/-- What a list of materials has under an id. -/
def under (acc : List (Str × ℤ)) (id : Str) : ℤ := tally (fun x => if x.1 = id then x.2 else 0) acc

theorem under_eq_zero (h : id ∉ acc.map Prod.fst) : under acc id = 0 := by
  refine tally_eq_zero fun x hx => if_neg ?_
  rintro rfl
  exact h (List.mem_map_of_mem hx)

theorem under_of_mem (hnodup : (acc.map Prod.fst).Nodup) {x : Str × ℤ} (hx : x ∈ acc) :
    under acc x.1 = x.2 := by
  induction acc with
  | nil => cases hx
  | cons y acc ih =>
    obtain ⟨hy, hrest⟩ := List.nodup_cons.mp (List.map_cons ▸ hnodup)
    rw [under, tally_cons]
    rcases List.mem_cons.mp hx with rfl | hx
    · rw [if_pos rfl]
      have := under_eq_zero hy
      rw [under] at this
      omega
    · have hne : y.1 ≠ x.1 := fun h => hy (h ▸ List.mem_map_of_mem hx)
      have := ih hrest hx
      rw [under] at this
      rw [if_neg hne]
      omega

/-- An amount that is added under an id. -/
def addamount (n amount : ℤ) (id : Str) (acc : List (Str × ℤ)) : List (Str × ℤ) :=
  if acc.any fun x => x.1 = id then acc.map fun x => if x.1 = id then (id, n * (x.2 + amount)) else x
  else acc ++ [(id, n * amount)]

theorem mateinfo_cons (amount : ℤ) : mateinfo n ((amount, id) :: l) acc =
    mateinfo n l (addamount n amount id acc) := by
  rw [mateinfo, addamount]
  split <;> rfl

theorem addamount_keys (n amount : ℤ) (id : Str) (hnodup : (acc.map Prod.fst).Nodup) :
    ((addamount n amount id acc).map Prod.fst).Nodup ∧
      ∀ id', id' ∈ (addamount n amount id acc).map Prod.fst ↔ id' ∈ acc.map Prod.fst ∨ id' = id := by
  unfold addamount
  split
  · rename_i hany
    have hkeys : (acc.map fun x => if x.1 = id then (id, n * (x.2 + amount)) else x).map Prod.fst =
        acc.map Prod.fst := by
      rw [List.map_map]
      refine List.map_congr_left fun x _ => ?_
      simp only [Function.comp_apply]
      split
      · rename_i hx
        exact hx.symm
      · rfl
    rw [hkeys]
    refine ⟨hnodup, fun id' => ⟨Or.inl, ?_⟩⟩
    rintro (h | rfl)
    · exact h
    · obtain ⟨x, hx, hid⟩ := List.any_eq_true.mp hany
      exact List.mem_map.mpr ⟨x, hx, by simpa using hid⟩
  · rename_i hany
    have hno : id ∉ acc.map Prod.fst := by
      intro hmem
      obtain ⟨x, hx, hid⟩ := List.mem_map.mp hmem
      exact hany (List.any_eq_true.mpr ⟨x, hx, by simpa using hid⟩)
    refine ⟨?_, fun id' => by simp⟩
    rw [List.map_append, List.nodup_append]
    refine ⟨hnodup, by simp, fun x hx y hy => ?_⟩
    obtain rfl : y = id := by simpa using hy
    rintro rfl
    exact hno hx

/-- **The sum under the id is multiplied**, and every other stays. -/
theorem under_addamount (n amount : ℤ) (id id' : Str) (hnodup : (acc.map Prod.fst).Nodup) :
    under (addamount n amount id acc) id' =
      if id = id' then n * (under acc id + amount) else under acc id' := by
  unfold addamount
  split
  · rename_i hany
    obtain ⟨x, hx, hid⟩ := List.any_eq_true.mp hany
    obtain rfl : x.1 = id := by simpa using hid
    have hvalue := under_of_mem hnodup hx
    have hkeys := (addamount_keys n amount x.1 hnodup).1
    rw [addamount, if_pos hany] at hkeys
    by_cases hid' : x.1 = id'
    · subst hid'
      rw [if_pos rfl, hvalue]
      exact under_of_mem hkeys (x := (x.1, n * (x.2 + amount)))
        (List.mem_map.mpr ⟨x, hx, if_pos rfl⟩)
    · rw [if_neg hid', under, under, tally, tally, List.map_map]
      congr 1
      refine List.map_congr_left fun y _ => ?_
      simp only [Function.comp_apply]
      by_cases hy : y.1 = x.1
      · rw [if_pos hy, if_neg hid', if_neg (hy ▸ hid')]
      · rw [if_neg hy]
  · rename_i hany
    have hno : id ∉ acc.map Prod.fst := by
      intro hmem
      obtain ⟨x, hx, hid⟩ := List.mem_map.mp hmem
      exact hany (List.any_eq_true.mpr ⟨x, hx, by simpa using hid⟩)
    rw [under, tally_append, tally_cons, tally_nil]
    by_cases hid' : id = id'
    · subst hid'
      have := under_eq_zero hno
      rw [under] at this ⊢
      rw [if_pos rfl, if_pos rfl, this]
      ring
    · rw [if_neg hid', if_neg hid', under]
      ring

/-- **What `mateinfo` comes to.** -/
theorem mateinfo_spec (n : ℤ) (l : List (ℤ × Str)) (acc : List (Str × ℤ)) (hnodup : (acc.map Prod.fst).Nodup) :
    ((mateinfo n l acc).map Prod.fst).Nodup ∧
      (∀ id, id ∈ (mateinfo n l acc).map Prod.fst ↔ id ∈ acc.map Prod.fst ∨ id ∈ l.map Prod.snd) ∧
      ∀ id, under (mateinfo n l acc) id = compounded n (under acc id) (amounts id l) := by
  induction l generalizing acc with
  | nil => exact ⟨hnodup, fun id => by simp [mateinfo], fun id => rfl⟩
  | cons x l ih =>
    obtain ⟨amount, k⟩ := x
    obtain ⟨hkeys, hmem⟩ := addamount_keys n amount k hnodup
    obtain ⟨h₁, h₂, h₃⟩ := ih _ hkeys
    rw [mateinfo_cons]
    refine ⟨h₁, fun id => ?_, fun id => ?_⟩
    · rw [h₂, hmem, List.map_cons, List.mem_cons, or_assoc]
    · rw [h₃, under_addamount n amount k id hnodup]
      by_cases hk : k = id
      · subst hk
        rw [if_pos rfl, amounts, amounts, List.filter_cons_of_pos (by simp), List.map_cons]
        rfl
      · rw [if_neg hk, amounts, amounts, List.filter_cons_of_neg (by simpa using hk)]

/-! ## Taking materials -/

/-- Materials are all that is taken. -/
theorem foldl_remmaterials_eq (cfg : Config) (s : State) (acc : List (Str × ℤ)) :
    ∃ m, acc.foldl (remmaterials cfg) s = { s with materials := m } := by
  induction acc generalizing s with
  | nil => exact ⟨s.materials, rfl⟩
  | cons x acc ih =>
    obtain ⟨m, hm⟩ := ih (remmaterials cfg s x)
    refine ⟨m, ?_⟩
    rw [List.foldl_cons, hm, remmaterials]
    split <;> rfl

/-- What is listed for different materials is taken where it is there. -/
theorem foldl_remmaterials (hnodup : (acc.map Prod.fst).Nodup)
    (hacc : ∀ x ∈ acc, 0 < x.2 ∧ cfg.material x.1 = true ∧ x.2 ≤ s.materials x.1) (id : Str) :
    (acc.foldl (remmaterials cfg) s).materials id = s.materials id - under acc id := by
  induction acc generalizing s with
  | nil => simp [under]
  | cons x acc ih =>
    obtain ⟨hx, hrest⟩ := List.nodup_cons.mp (List.map_cons ▸ hnodup)
    obtain ⟨hpos, hmat, hle⟩ := hacc x List.mem_cons_self
    have hstep : (remmaterials cfg s x).materials = Function.update s.materials x.1 (s.materials x.1 - x.2) := by
      rw [remmaterials, if_pos ⟨hpos, hmat, hle⟩]
    have hnext : ∀ y ∈ acc, 0 < y.2 ∧ cfg.material y.1 = true ∧
        y.2 ≤ (remmaterials cfg s x).materials y.1 := by
      intro y hy
      obtain ⟨h₁, h₂, h₃⟩ := hacc y (List.mem_cons_of_mem x hy)
      have hne : y.1 ≠ x.1 := fun h => hx (h ▸ List.mem_map_of_mem hy)
      rw [hstep, Function.update_of_ne hne]
      exact ⟨h₁, h₂, h₃⟩
    rw [List.foldl_cons, ih hrest hnext, hstep, under, under, tally_cons]
    by_cases hid : x.1 = id
    · subst hid
      rw [Function.update_self, if_pos rfl]
      omega
    · rw [Function.update_of_ne (fun h => hid h.symm), if_neg hid]
      omega

/-- What comes back is the plain sum. -/
theorem foldl_returnmaterials {k : ℤ} (hk : 0 ≤ k) (hl : ∀ x ∈ l, 0 < x.1 ∧ cfg.material x.2 = true)
    (id : Str) : (l.foldl (fun s x => (addmaterials cfg x.2 (x.1 * k) s).2) s).materials id =
      s.materials id + k * (amounts id l).sum := by
  induction l generalizing s with
  | nil => simp [amounts]
  | cons x l ih =>
    obtain ⟨hpos, hmat⟩ := hl x List.mem_cons_self
    have hx : 0 ≤ x.1 * k := mul_nonneg hpos.le hk
    have hstep : (addmaterials cfg x.2 (x.1 * k) s).2.materials id =
        s.materials id + if x.2 = id then x.1 * k else 0 := by
      unfold addmaterials
      rw [if_neg (by omega)]
      split
      · rename_i hzero
        rw [hzero]
        simp
      · by_cases hid : x.2 = id
        · subst hid
          simp
        · simp [hid, Function.update_of_ne (fun h => hid h.symm)]
    rw [List.foldl_cons, ih fun y hy => hl y (List.mem_cons_of_mem x hy), hstep]
    by_cases hid : x.2 = id
    · rw [if_pos hid, amounts, amounts, List.filter_cons_of_pos (by simpa using hid), List.map_cons,
        List.sum_cons]
      ring
    · rw [if_neg hid, amounts, amounts, List.filter_cons_of_neg (by simpa using hid), add_zero]

end Scan

end Athena
