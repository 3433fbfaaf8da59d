import Athena.Common.Tally
import Mathlib.Data.List.Perm.Basic
import Mathlib.Algebra.BigOperators.Group.Finset.Piecewise
/-!
# Lists of elements with keys

Elements are told apart by a key, which need not be one element's own. To pick for
some elements is to take, for each of them in turn, the first element left in a
list with its key. What is picked has the keys asked for, and comes from the front.
-/

namespace Athena

variable {α κ M : Type*} [DecidableEq κ] [AddCommMonoid M] {key : α → κ} {f : α → M}
  {l m ws : List α} {k : κ} {p : α → Bool} {x : α}

/-- **The elements picked** for some from a list, and what is left of it. -/
def picks (key : α → κ) : List α → List α → List α × List α
  | [], l => ([], l)
  | w :: ws, l =>
    match l.find? fun x => key x = key w with
    | none => picks key ws l
    | some x =>
      (x :: (picks key ws (l.eraseP fun x => key x = key w)).1,
        (picks key ws (l.eraseP fun x => key x = key w)).2)

/-- The first that is found is found still, where fewer are to be found. -/
theorem find?_of_imp {q : α → Bool} (h : ∀ y, q y = true → p y = true) (hp : l.find? p = some x)
    (hq : q x = true) : l.find? q = some x := by
  induction l with
  | nil => cases hp
  | cons y l ih =>
    cases hy : p y with
    | true =>
      rw [List.find?_cons_of_pos hy, Option.some.injEq] at hp
      subst hp
      rw [List.find?_cons_of_pos hq]
    | false =>
      have hqy : ¬ q y = true := fun hqy => by
        rw [h y hqy] at hy
        cases hy
      rw [List.find?_cons_of_neg (by simp [hy])] at hp
      rw [List.find?_cons_of_neg hqy]
      exact ih hp

/-- The element that is found, and the list without it. -/
theorem eraseP_of_find? (h : l.find? p = some x) :
    ∃ as bs, l = as ++ x :: bs ∧ l.eraseP p = as ++ bs ∧ p x = true ∧ ∀ a ∈ as, p a = false := by
  obtain ⟨hx, as, bs, rfl, has⟩ := List.find?_eq_some_iff_append.1 h
  have has' : ∀ a ∈ as, ¬ p a = true := fun a ha => by simpa using has a ha
  refine ⟨as, bs, rfl, ?_, hx, fun a ha => by simpa using has a ha⟩
  rw [List.eraseP_append_right _ has', List.eraseP_cons_of_pos hx]

/-- **Nothing is lost.** -/
theorem picks_perm (ws l : List α) : ((picks key ws l).1 ++ (picks key ws l).2).Perm l := by
  induction ws generalizing l with
  | nil => exact List.Perm.refl l
  | cons w ws ih =>
    unfold picks
    split
    · exact ih l
    · rename_i x hx
      obtain ⟨as, bs, hl, herase, -, -⟩ := eraseP_of_find? hx
      rw [hl] at *
      rw [herase, List.cons_append]
      exact ((ih (as ++ bs)).cons x).trans List.perm_middle.symm

/-- **What is picked under a key** is what comes first under it. -/
theorem picks_filter (ws l : List α) (k : κ) :
    (picks key ws l).1.filter (fun x => key x = k) =
      (l.filter fun x => key x = k).take (ws.countP fun x => key x = k) := by
  induction ws generalizing l with
  | nil => simp [picks]
  | cons w ws ih =>
    unfold picks
    split
    · rename_i hnone
      rw [ih]
      by_cases hw : key w = k
      · have hempty : (l.filter fun x => key x = k) = [] := by
          rw [List.filter_eq_nil_iff]
          intro a ha
          rw [← hw]
          exact List.find?_eq_none.1 hnone a ha
        rw [hempty, List.take_nil, List.take_nil]
      · rw [List.countP_cons_of_neg (by simpa using hw)]
    · rename_i x hx
      obtain ⟨as, bs, hl, herase, hkey, has⟩ := eraseP_of_find? hx
      have hkey : key x = key w := by simpa using hkey
      rw [herase, List.filter_cons, ih, hl, List.filter_append, List.filter_append, List.filter_cons,
        hkey]
      by_cases hw : key w = k
      · have hempty : (as.filter fun x => key x = k) = [] := by
          rw [List.filter_eq_nil_iff]
          intro a ha
          have := has a ha
          rw [hw] at this
          simpa using this
        rw [hempty, List.countP_cons_of_pos (by simpa using hw)]
        simp [hw]
      · rw [List.countP_cons_of_neg (by simpa using hw)]
        simp [hw]

/-- **The keys that are asked for** are those that are picked, where the list has
enough of each. -/
theorem picks_keys (ws l : List α)
    (h : ∀ k, (ws.countP fun x => key x = k) ≤ l.countP fun x => key x = k) :
    (picks key ws l).1.map key = ws.map key := by
  induction ws generalizing l with
  | nil => rfl
  | cons w ws ih =>
    unfold picks
    split
    · rename_i hnone
      have hpos := h (key w)
      rw [List.countP_cons_of_pos (by simp), List.countP_eq_zero.2 (List.find?_eq_none.1 hnone)] at hpos
      omega
    · rename_i x hx
      obtain ⟨as, bs, hl, herase, hkey, -⟩ := eraseP_of_find? hx
      have hkey : key x = key w := by simpa using hkey
      rw [List.map_cons, List.map_cons, hkey, herase, ih (as ++ bs)]
      intro k
      have hk := h k
      rw [hl, List.countP_append, List.countP_cons, List.countP_cons, hkey] at hk
      rw [List.countP_append]
      omega

/-- Lists that agree under each key are one list, up to its order. -/
theorem perm_of_filter [DecidableEq α] (key : α → κ)
    (h : ∀ k, (l.filter fun x => key x = k).Perm (m.filter fun x => key x = k)) : l.Perm m := by
  rw [List.perm_iff_count]
  intro a
  have hcount := (h (key a)).count_eq a
  rwa [List.count_filter (by simp), List.count_filter (by simp)] at hcount

/-- **A tally over some keys is the sum of those under each.** -/
theorem tally_keys (P : κ → Prop) [DecidablePred P] (S : Finset κ) (hS : ∀ x ∈ l, key x ∈ S) :
    tally (fun x => if P (key x) then f x else 0) l =
      ∑ k ∈ S.filter P, tally (fun x => if key x = k then f x else 0) l := by
  induction l with
  | nil => simp
  | cons x l ih =>
    simp only [tally_cons, Finset.sum_add_distrib]
    rw [ih fun y hy => hS y (List.mem_cons_of_mem x hy), Finset.sum_ite_eq]
    congr 1
    by_cases hP : P (key x)
    · rw [if_pos hP, if_pos (Finset.mem_filter.2 ⟨hS x List.mem_cons_self, hP⟩)]
    · rw [if_neg hP, if_neg fun hmem => hP (Finset.mem_filter.1 hmem).2]

/-- Keys under which nothing is counted count for nothing together. -/
theorem tally_keys_eq_zero (P : κ → Prop) [DecidablePred P]
    (h : ∀ k, P k → tally (fun x => if key x = k then f x else 0) l = 0) :
    tally (fun x => if P (key x) then f x else 0) l = 0 := by
  rw [tally_keys P (l.map key).toFinset fun x hx => List.mem_toFinset.2 (List.mem_map_of_mem hx)]
  exact Finset.sum_eq_zero fun k hk => h k (Finset.mem_filter.1 hk).2

/-- **Numbers that go from key to key**: each key keeps what is counted under it just
where nothing is counted under a key that is left. -/
theorem tally_moved_iff {T : κ → κ} (hT : ∀ k, T (T k) = T k) :
    (∀ k, tally (fun x => if T (key x) = k then f x else 0) l =
      tally (fun x => if key x = k then f x else 0) l) ↔
      ∀ k, T k ≠ k → tally (fun x => if key x = k then f x else 0) l = 0 := by
  have hleft : ∀ k, T k ≠ k → tally (fun x => if T (key x) = k then f x else 0) l = 0 := by
    intro k hk
    refine tally_eq_zero fun x _ => if_neg fun hx => hk ?_
    rw [← hx, hT]
  constructor
  · intro h k hk
    rw [← h k, hleft k hk]
  · intro h k
    by_cases hk : T k = k
    · -- what comes to `k` is what is there, and what is under the keys that go there
      have hothers : tally (fun x => if T (key x) = k ∧ key x ≠ k then f x else 0) l = 0 :=
        tally_keys_eq_zero (fun k' => T k' = k ∧ k' ≠ k) fun k' hk' =>
          h k' fun he => hk'.2 (he.symm.trans hk'.1)
      have hsplit : ∀ x, (if T (key x) = k then f x else 0) =
          (if key x = k then f x else 0) + if T (key x) = k ∧ key x ≠ k then f x else 0 := by
        intro x
        by_cases hx : key x = k
        · simp [hx, hk]
        · simp [hx]
      rw [show (fun x => if T (key x) = k then f x else 0) = fun x => (if key x = k then f x else 0) +
        if T (key x) = k ∧ key x ≠ k then f x else 0 from funext hsplit, tally_add, hothers, add_zero]
    · rw [h k hk, hleft k hk]

end Athena
