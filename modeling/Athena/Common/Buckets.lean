import Mathlib.Data.List.Nodup
import Mathlib.Logic.Function.Basic
/-!
# Chained hash tables

A table of chains: an entry stands in the chain that the hash of its key names. `put`
adds it at the front of the chain, and `take` takes the first entry with a key out of it.
When no two entries have one key (`Distinct`), the table is the map `get` from keys to
entries, whatever the hash: `get_put` and `get_take` say what the two do to it.
-/

namespace Athena

variable {α κ ι : Type*} {key : α → κ} {hash : κ → ι}

/-- **A table of chains.** -/
structure Buckets (key : α → κ) (hash : κ → ι) where
  chain : ι → List α
  placed : ∀ i, ∀ a ∈ chain i, hash (key a) = i

namespace Buckets

variable {b : Buckets key hash} {a : α} {k k' : κ} {l : List α}

/-- A table without entries. -/
def empty : Buckets key hash := ⟨fun _ => [], fun _ _ h => absurd h List.not_mem_nil⟩

/-- **No two entries of a chain have one key.** -/
def Distinct (b : Buckets key hash) : Prop := ∀ i, ((b.chain i).map key).Nodup

theorem distinct_empty : (empty : Buckets key hash).Distinct := fun _ => List.nodup_nil

section

variable [DecidableEq κ]

/-- The first entry of a chain with a key, and the others. -/
def split (key : α → κ) (k : κ) : List α → Option (α × List α)
  | [] => none
  | a :: l => if key a = k then some (a, l) else (split key k l).map fun r => (r.1, a :: r.2)

/-- The entry with a key. -/
def get (b : Buckets key hash) (k : κ) : Option α := (split key k (b.chain (hash k))).map Prod.fst

theorem split_eq_some {r : α × List α} (h : split key k l = some r) : key r.1 = k ∧ l.Perm (r.1 :: r.2) := by
  induction l generalizing r with
  | nil => cases h
  | cons a l ih =>
    rw [split] at h
    by_cases ha : key a = k
    · rw [if_pos ha] at h
      obtain rfl := Option.some.inj h
      exact ⟨ha, List.Perm.refl _⟩
    · rw [if_neg ha] at h
      obtain ⟨r', hr', rfl⟩ := Option.map_eq_some_iff.mp h
      obtain ⟨hkey, hperm⟩ := ih hr'
      exact ⟨hkey, (hperm.cons a).trans (List.Perm.swap ..)⟩

theorem split_eq_none : split key k l = none ↔ ∀ a ∈ l, key a ≠ k := by
  induction l with
  | nil => simp only [split, List.not_mem_nil, false_imp_iff, implies_true]
  | cons a l ih =>
    by_cases ha : key a = k
    · simp only [split, ha, if_true, reduceCtorEq, List.mem_cons, forall_eq_or_imp, ne_eq, not_true_eq_false, false_and]
    · simp only [split, ha, if_false, Option.map_eq_none_iff, ih, List.mem_cons, forall_eq_or_imp, ne_eq,
        not_false_eq_true, true_and]

theorem get_eq_none : b.get k = none ↔ ∀ a ∈ b.chain (hash k), key a ≠ k := by
  rw [get, Option.map_eq_none_iff, split_eq_none]

/-- A chain without its first entry with a key. -/
def others (key : α → κ) (k : κ) (l : List α) : List α := (split key k l).elim l Prod.snd

theorem others_subset : others key k l ⊆ l := by
  rw [others]
  match h : split key k l with
  | none => exact List.Subset.refl l
  | some r => exact fun c hc => (split_eq_some h).2.symm.subset (List.mem_cons_of_mem r.1 hc)

theorem others_nodup (h : (l.map key).Nodup) : ((others key k l).map key).Nodup ∧ ∀ a ∈ others key k l, key a ≠ k := by
  rw [others]
  match hsplit : split key k l with
  | none => exact ⟨h, split_eq_none.mp hsplit⟩
  | some r =>
    obtain ⟨hkey, hperm⟩ := split_eq_some hsplit
    have hnodup := ((hperm.map key).nodup_iff).mp h
    rw [List.map_cons, List.nodup_cons, hkey] at hnodup
    exact ⟨hnodup.2, fun a ha hak => hnodup.1 (hak ▸ List.mem_map_of_mem ha)⟩

/-- The other keys do not notice. -/
theorem split_others (h : k' ≠ k) : (split key k' (others key k l)).map Prod.fst = (split key k' l).map Prod.fst := by
  induction l with
  | nil => rfl
  | cons a l ih =>
    by_cases ha : key a = k
    · have hne : key a ≠ k' := fun hk => h (hk.symm.trans ha)
      rw [others, split, if_pos ha, split, if_neg hne, Option.map_map]
      rfl
    · have hcons : others key k (a :: l) = a :: others key k l := by
        rw [others, split, if_neg ha, others]
        cases split key k l with
        | none => rfl
        | some r => rfl
      rw [hcons, split, split]
      by_cases hk : key a = k'
      · rw [if_pos hk, if_pos hk]
        rfl
      · rw [if_neg hk, if_neg hk, Option.map_map, Option.map_map]
        exact ih

end

variable [DecidableEq ι]

/-- **An entry is added** at the front of its chain. -/
def put (b : Buckets key hash) (a : α) : Buckets key hash where
  chain := Function.update b.chain (hash (key a)) (a :: b.chain (hash (key a)))
  placed i c hc := by
    by_cases hi : i = hash (key a)
    · subst hi
      rw [Function.update_self] at hc
      obtain rfl | hc := List.mem_cons.mp hc
      · rfl
      · exact b.placed _ c hc
    · rw [Function.update_of_ne hi] at hc
      exact b.placed i c hc

variable [DecidableEq κ]

/-- The table without the first entry with a key. -/
def remove (b : Buckets key hash) (k : κ) : Buckets key hash where
  chain := Function.update b.chain (hash k) (others key k (b.chain (hash k)))
  placed i c hc := by
    by_cases hi : i = hash k
    · subst hi
      rw [Function.update_self] at hc
      exact b.placed _ c (others_subset hc)
    · rw [Function.update_of_ne hi] at hc
      exact b.placed i c hc

/-- **The first entry with a key is taken** out of its chain. -/
def take (b : Buckets key hash) (k : κ) : Option (α × Buckets key hash) := (b.get k).map fun a => (a, b.remove k)

theorem get_put : (b.put a).get k = if k = key a then some a else b.get k := by
  by_cases hk : k = key a
  · subst hk
    rw [if_pos rfl, get, put]
    dsimp only
    rw [Function.update_self, split, if_pos rfl]
    rfl
  · rw [if_neg hk, get, put]
    dsimp only
    by_cases hh : hash k = hash (key a)
    · rw [hh, Function.update_self, split, if_neg (Ne.symm hk), Option.map_map, get, hh]
      rfl
    · rw [Function.update_of_ne hh, get]

theorem Distinct.put (h : b.Distinct) (hnew : b.get (key a) = none) : (b.put a).Distinct := by
  intro i
  rw [Buckets.put]
  dsimp only
  by_cases hi : i = hash (key a)
  · subst hi
    rw [Function.update_self, List.map_cons, List.nodup_cons]
    refine ⟨?_, h _⟩
    intro hmem
    obtain ⟨c, hc, hkey⟩ := List.mem_map.mp hmem
    exact get_eq_none.mp hnew c hc hkey
  · rw [Function.update_of_ne hi]
    exact h i

theorem get_remove (h : b.Distinct) : (b.remove k).get k' = if k' = k then none else b.get k' := by
  by_cases hk : k' = k
  · subst hk
    rw [if_pos rfl, get_eq_none]
    intro a ha
    rw [remove] at ha
    dsimp only at ha
    rw [Function.update_self] at ha
    exact (others_nodup (h _)).2 a ha
  · rw [if_neg hk, get, remove]
    dsimp only
    by_cases hh : hash k' = hash k
    · rw [hh, Function.update_self, split_others hk, get, hh]
    · rw [Function.update_of_ne hh, get]

theorem Distinct.remove (h : b.Distinct) : (b.remove k).Distinct := by
  intro i
  rw [Buckets.remove]
  dsimp only
  by_cases hi : i = hash k
  · subst hi
    rw [Function.update_self]
    exact (others_nodup (h _)).1
  · rw [Function.update_of_ne hi]
    exact h i

end Buckets

end Athena
