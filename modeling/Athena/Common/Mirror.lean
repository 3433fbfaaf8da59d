import Mathlib.Data.List.Count
import Mathlib.Data.List.Nodup
import Mathlib.Logic.Function.Basic
import Mathlib.Tactic.Common
/-!
# Lists that mirror a table

A list mirrors a property when it holds the things that have it, each once.
An index of a table does: the keys of the rows of one owner, say. Adding a
row goes with appending its key, and deleting a row with removing its key.

`removeFound` is the removal of what a search found. A search that found
nothing has it remove the last entry, so it does what it should only where
the key is there.
-/

namespace Athena

variable {ι : Type*} {l : List ι} {P Q : ι → Prop} {a : ι}

/-- **The list holds what has the property**, each once. -/
structure Mirrors (l : List ι) (P : ι → Prop) : Prop where
  nodup : l.Nodup
  mem : ∀ i, i ∈ l ↔ P i

theorem Mirrors.congr (h : Mirrors l P) (hPQ : ∀ i, Q i ↔ P i) : Mirrors l Q :=
  ⟨h.nodup, fun i => (h.mem i).trans (hPQ i).symm⟩

theorem mirrors_nil (h : ∀ i, ¬ P i) : Mirrors [] P :=
  ⟨List.nodup_nil, fun i => ⟨fun hi => absurd hi List.not_mem_nil, fun hi => absurd hi (h i)⟩⟩

/-- A new row comes, and its key at the end of the list. -/
theorem Mirrors.append (h : Mirrors l P) (ha : ¬ P a) (hQ : ∀ i, Q i ↔ P i ∨ i = a) :
    Mirrors (l ++ [a]) Q := by
  refine ⟨?_, fun i => ?_⟩
  · rw [← List.concat_eq_append]
    exact h.nodup.concat fun hin => ha ((h.mem a).mp hin)
  · rw [hQ, List.mem_append, List.mem_singleton, h.mem]

variable [DecidableEq ι]

/-- `table.remove(l, table.find(l, a))`. -/
def removeFound (l : List ι) (a : ι) : List ι := if a ∈ l then l.erase a else l.dropLast

theorem removeFound_of_mem (h : a ∈ l) : removeFound l a = l.erase a := if_pos h

theorem length_removeFound (l : List ι) (a : ι) : (removeFound l a).length = l.length - 1 := by
  unfold removeFound
  split
  · rename_i h
    exact List.length_erase_of_mem h
  · exact List.length_dropLast

/-- A row goes, and its key from the list. -/
theorem Mirrors.remove (h : Mirrors l P) (ha : P a) (hQ : ∀ i, Q i ↔ P i ∧ i ≠ a) :
    Mirrors (removeFound l a) Q := by
  rw [removeFound_of_mem ((h.mem a).mpr ha)]
  refine ⟨h.nodup.erase a, fun i => ?_⟩
  rw [h.nodup.mem_erase_iff, h.mem, hQ, and_comm]

/-- And one key less. -/
theorem Mirrors.length_remove (h : Mirrors l P) (ha : P a) :
    (removeFound l a).length + 1 = l.length := by
  have hpos : 0 < l.length := List.length_pos_of_mem ((h.mem a).mpr ha)
  rw [length_removeFound]
  omega

/-! ## Several keys -/

section Several

variable {ids : List ι}

theorem foldl_removeFound (hn : ids.Nodup) (hmem : ∀ a ∈ ids, a ∈ l) :
    ids.foldl removeFound l = l.diff ids := by
  induction ids generalizing l with
  | nil => rfl
  | cons a ids ih =>
    obtain ⟨ha, hn⟩ := List.nodup_cons.1 hn
    rw [List.foldl_cons, List.diff_cons, removeFound_of_mem (hmem a (List.mem_cons_self ..))]
    refine ih hn fun b hb => ?_
    have hne : b ≠ a := fun h => ha (h ▸ hb)
    exact (List.mem_erase_of_ne hne).2 (hmem b (List.mem_cons_of_mem _ hb))

theorem erase_of_count (h : l.count a ≤ 1) : l.erase a = l.filter (· ≠ a) := by
  induction l with
  | nil => rfl
  | cons b l ih =>
    by_cases hb : b = a
    · subst hb
      rw [List.count_cons_self] at h
      have hnot : b ∉ l := List.count_eq_zero.1 (by omega)
      have hall : l.filter (· ≠ b) = l := by
        refine List.filter_eq_self.2 fun c hc => ?_
        have hne : c ≠ b := fun h => hnot (h ▸ hc)
        simpa using hne
      rw [List.erase_cons_head, List.filter_cons_of_neg (by simp), hall]
    · rw [List.count_cons_of_ne hb] at h
      rw [List.erase_cons_tail (by simpa using hb), List.filter_cons_of_pos (by simpa using hb), ih h]

/-- **Keys that are taken out one by one leave the others**, just where each is
found once. -/
theorem diff_eq_filter_iff (hn : ids.Nodup) (hmem : ∀ a ∈ ids, a ∈ l) :
    l.diff ids = l.filter (· ∉ ids) ↔ ∀ a ∈ ids, l.count a = 1 := by
  constructor
  · intro h a ha
    have hzero : (l.diff ids).count a = 0 := by
      rw [h]
      exact List.count_eq_zero.2 fun hin => by simpa [ha] using List.mem_filter.1 hin
    rw [List.count_diff, List.count_eq_one_of_mem hn ha] at hzero
    have hpos : 0 < l.count a := List.count_pos_iff.2 (hmem a ha)
    omega
  · intro h
    induction ids generalizing l with
    | nil => simp
    | cons a ids ih =>
      obtain ⟨ha, hn⟩ := List.nodup_cons.1 hn
      have hne : ∀ b ∈ ids, b ≠ a := fun b hb h => ha (h ▸ hb)
      rw [List.diff_cons, ih hn]
      · rw [erase_of_count (Nat.le_of_eq (h a (List.mem_cons_self ..))), List.filter_filter]
        exact List.filter_congr fun b _ => by simp [Bool.and_comm]
      · exact fun b hb => (List.mem_erase_of_ne (hne b hb)).2 (hmem b (List.mem_cons_of_mem _ hb))
      · intro b hb
        rw [List.count_erase_of_ne (hne b hb)]
        exact h b (List.mem_cons_of_mem _ hb)

end Several

/-! ## Indexes -/

variable {ρ : Type*} {t : ι → Option ρ} {own : ρ → Prop} {row : ρ}

/-- **The list is the index of the rows** of an owner. -/
def Index (l : List ι) (t : ι → Option ρ) (own : ρ → Prop) : Prop :=
  Mirrors l fun i => ∃ row, t i = some row ∧ own row

/-- A row of the owner is added. -/
theorem Index.add (h : Index l t own) (ht : t a = none) (hown : own row) :
    Index (l ++ [a]) (Function.update t a (some row)) own := by
  refine h.append (by simp [ht]) fun i => ?_
  by_cases hi : i = a
  · subst hi
    simp [hown]
  · simp [hi]

/-- A row of another is added, or changes. -/
theorem Index.other {row' : Option ρ} (h : Index l t own) (ht : ∀ row, t a = some row → ¬ own row)
    (hown : ∀ row, row' = some row → ¬ own row) : Index l (Function.update t a row') own := by
  refine h.congr fun i => ?_
  by_cases hi : i = a
  · subst hi
    rw [Function.update_self]
    constructor
    · rintro ⟨row, hr, ho⟩
      exact absurd ho (hown row hr)
    · rintro ⟨row, hr, ho⟩
      exact absurd ho (ht row hr)
  · rw [Function.update_of_ne hi]

theorem Index.insert_other (h : Index l t own) (ht : t a = none) (hown : ¬ own row) :
    Index l (Function.update t a (some row)) own := by
  refine h.other (fun r hr => ?_) fun r hr => ?_
  · rw [ht] at hr
    cases hr
  · cases hr
    exact hown

theorem Index.delete_other (h : Index l t own) (ht : t a = some row) (hown : ¬ own row) :
    Index l (Function.update t a none) own := by
  refine h.other (fun r hr => ?_) fun r hr => by cases hr
  rw [ht] at hr
  cases hr
  exact hown

/-- A row changes, and not its owner. -/
theorem Index.modify {row' : ρ} (h : Index l t own) (ht : t a = some row) (hown : own row' ↔ own row) :
    Index l (Function.update t a (some row')) own := by
  refine h.congr fun i => ?_
  by_cases hi : i = a
  · subst hi
    simp [ht, hown]
  · rw [Function.update_of_ne hi]

/-- A row of the owner is deleted. -/
theorem Index.drop (h : Index l t own) (ht : t a = some row) (hown : own row) :
    Index (removeFound l a) (Function.update t a none) own := by
  refine h.remove ⟨row, ht, hown⟩ fun i => ?_
  by_cases hi : i = a
  · subst hi
    simp
  · simp [hi]

theorem Index.length_drop (h : Index l t own) (ht : t a = some row) (hown : own row) :
    (removeFound l a).length + 1 = l.length :=
  h.length_remove ⟨row, ht, hown⟩

omit [DecidableEq ι] in
theorem index_nil : Index ([] : List ι) (fun _ => none) own :=
  mirrors_nil fun i h => by simp at h

end Athena
