import Mathlib.Algebra.BigOperators.Group.List.Basic
import Mathlib.Algebra.BigOperators.Group.Finset.Basic
import Mathlib.Algebra.BigOperators.Group.Multiset.Basic
import Mathlib.Data.Fintype.Basic
import Mathlib.Tactic.Abel
/-!
# Tallies

A tally is the sum of what each element of a list counts for, in any commutative
monoid: a number, or the multiset of what the elements stand for. An element that
goes, comes or changes moves the tally by what it counts for. The same is said of
a family that is changed at one index.
-/

namespace Athena

variable {α ι M : Type*} [AddCommMonoid M] {f : α → M} {l m : List α} {a : α} {key : ℕ}

/-- **The sum of what the elements count for.** -/
def tally (f : α → M) (l : List α) : M := (l.map f).sum

@[simp] theorem tally_nil : tally f [] = 0 := rfl

@[simp] theorem tally_cons : tally f (a :: l) = f a + tally f l := by simp [tally]

@[simp] theorem tally_append : tally f (l ++ m) = tally f l + tally f m := by simp [tally]

/-- An element goes. -/
theorem tally_eraseIdx (h : l[key]? = some a) : tally f (l.eraseIdx key) + f a = tally f l := by
  obtain ⟨hlt, hget⟩ := List.getElem?_eq_some_iff.mp h
  have hsplit : l = l.take key ++ a :: l.drop (key + 1) := by
    rw [← hget, ← List.drop_eq_getElem_cons hlt, List.take_append_drop]
  rw [l.eraseIdx_eq_take_drop_succ key, tally_append]
  conv_rhs => rw [hsplit, tally_append, tally_cons]
  abel

/-- An element changes. -/
theorem tally_modify {g : α → α} (h : l[key]? = some a) :
    tally f (l.modify key g) + f a = tally f l + f (g a) := by
  obtain ⟨hlt, hget⟩ := List.getElem?_eq_some_iff.mp h
  have hsplit : l = l.take key ++ a :: l.drop (key + 1) := by
    rw [← hget, ← List.drop_eq_getElem_cons hlt, List.take_append_drop]
  rw [List.modify_eq_take_cons_drop hlt, hget, tally_append, tally_cons]
  conv_rhs => rw [hsplit, tally_append, tally_cons]
  abel

/-- Elements that count for nothing. -/
theorem tally_eq_zero (h : ∀ a ∈ l, f a = 0) : tally f l = 0 := by
  induction l with
  | nil => rfl
  | cons a l ih =>
    rw [tally_cons, h a List.mem_cons_self, ih fun b hb => h b (List.mem_cons_of_mem a hb), add_zero]

theorem tally_add {g : α → M} : tally (fun a => f a + g a) l = tally f l + tally g l := by
  induction l with
  | nil => simp
  | cons a l ih =>
    rw [tally_cons, tally_cons, tally_cons, ih]
    abel

theorem tally_perm (h : l.Perm m) : tally f l = tally f m := (h.map f).sum_eq

/-- What a tally of multisets has is in one of them. -/
theorem mem_tally {β : Type*} {f : α → Multiset β} {b : β} : b ∈ tally f l ↔ ∃ a ∈ l, b ∈ f a := by
  induction l with
  | nil => simp
  | cons a l ih => simp [ih]

/-- A family changes at one index. -/
theorem sum_update [Fintype ι] [DecidableEq ι] {g : ι → α} {i : ι} :
    ∑ j, f (Function.update g i a j) + f (g i) = ∑ j, f (g j) + f a := by
  have hrest : ∑ j ∈ Finset.univ.erase i, f (Function.update g i a j) =
      ∑ j ∈ Finset.univ.erase i, f (g j) := by
    refine Finset.sum_congr rfl fun j hj => ?_
    rw [Function.update_of_ne (Finset.ne_of_mem_erase hj)]
  rw [← Finset.add_sum_erase Finset.univ _ (Finset.mem_univ i), Function.update_self, hrest,
    ← Finset.add_sum_erase Finset.univ (fun j => f (g j)) (Finset.mem_univ i)]
  abel

end Athena
