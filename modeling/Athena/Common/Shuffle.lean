import Mathlib.Data.List.Perm.Subperm
import Mathlib.Data.List.Nodup
import Mathlib.Tactic.Linarith
/-!
# Shuffling in place

A shuffle of `k` turns exchanges, in its turn `i`, the cell `i` of a list with a cell that
is not before it; what it gives is the first `k` cells. Seen from what is left it takes one
element after another away. So what it gives is a part of the list, and every part, in
every order, is given for one choice of the cells.
-/

namespace Athena

namespace Shuffle

variable {α : Type*}

/-- Two cells of a list are exchanged. -/
def exchange (t : List α) (i x : ℕ) : List α :=
  match t[i]?, t[x]? with
  | some a, some b => (t.set i b).set x a
  | _, _ => t

/-- What is left of a list when a cell of it is exchanged with the first and taken away. -/
def leave : List α → ℕ → List α
  | [], _ => []
  | _ :: r, 0 => r
  | a :: r, d + 1 => r.set d a

/-- The list after the exchanges with the cells `xs`, from the cell `i` on. -/
def swapped : List α → ℕ → List ℕ → List α
  | t, _, [] => t
  | t, i, x :: xs => swapped (exchange t i x) (i + 1) xs

/-- **What is taken away**, where the first cell of what is left has the number `i`. -/
def taken : List α → ℕ → List ℕ → List α
  | _, _, [] => []
  | r, i, x :: xs =>
    match r[x - i]? with
    | none => []
    | some a => a :: taken (leave r (x - i)) (i + 1) xs

/-- Each cell is one of those that are left in its turn. -/
def Within (size : ℕ) : ℕ → List ℕ → Prop
  | _, [] => True
  | i, x :: xs => i ≤ x ∧ x < size ∧ Within size (i + 1) xs

/-! ## One turn -/

theorem length_leave (r : List α) (d : ℕ) : (leave r d).length = r.length - 1 := by
  cases r with
  | nil => rfl
  | cons a r => cases d <;> simp [leave]

theorem exchange_append (p r : List α) {d : ℕ} (h : d < r.length) :
    exchange (p ++ r) p.length (p.length + d) = p ++ r[d] :: leave r d := by
  cases r with
  | nil => exact absurd h (Nat.not_lt_zero _)
  | cons a r =>
    cases d with
    | zero => simp [exchange, leave]
    | succ d =>
      have hd : d < r.length := by simpa using h
      simp [exchange, leave, hd]

theorem perm_set (a : α) {r : List α} {d : ℕ} (h : d < r.length) :
    (r[d] :: r.set d a).Perm (a :: r) := by
  induction r generalizing d with
  | nil => exact absurd h (Nat.not_lt_zero _)
  | cons b r ih =>
    cases d with
    | zero => exact .swap _ _ _
    | succ d =>
      have hd : d < r.length := by simpa using h
      calc (r[d] :: b :: r.set d a).Perm (b :: r[d] :: r.set d a) := .swap _ _ _
        _ |>.Perm (b :: a :: r) := (ih hd).cons b
        _ |>.Perm (a :: b :: r) := .swap _ _ _

/-- Nothing is lost and nothing is added. -/
theorem perm_leave {r : List α} {d : ℕ} (h : d < r.length) : (r[d] :: leave r d).Perm r := by
  cases r with
  | nil => exact absurd h (Nat.not_lt_zero _)
  | cons a r =>
    cases d with
    | zero => exact .refl _
    | succ d => exact perm_set a (by simpa using h)

theorem exchange_comm (t : List α) (i x : ℕ) : exchange t i x = exchange t x i := by
  unfold exchange
  by_cases hix : i = x
  · rw [hix]
  cases t[i]? <;> cases t[x]? <;> simp [List.set_comm _ _ (Ne.symm hix)]

/-- An exchange moves elements only. -/
theorem perm_exchange (t : List α) (i x : ℕ) : (exchange t i x).Perm t := by
  wlog hix : i ≤ x generalizing i x
  · rw [exchange_comm]
    exact this x i (by omega)
  by_cases hx : x < t.length
  · obtain ⟨d, rfl⟩ := Nat.exists_eq_add_of_le hix
    have hi : (t.take i).length = i := by
      rw [List.length_take]
      omega
    have hd : d < (t.drop i).length := by
      rw [List.length_drop]
      omega
    have h := exchange_append (t.take i) (t.drop i) hd
    rw [hi, List.take_append_drop] at h
    calc (exchange t i (i + d)).Perm (t.take i ++ (t.drop i)[d] :: leave (t.drop i) d) := .of_eq h
      _ |>.Perm (t.take i ++ t.drop i) := (perm_leave hd).append_left _
      _ = t := List.take_append_drop i t
  · have h : exchange t i x = t := by
      unfold exchange
      rw [List.getElem?_eq_none (show t.length ≤ x by omega)]
      cases t[i]? <;> rfl
    rw [h]

theorem exchange_map {β : Type*} (f : α → β) (t : List α) (i x : ℕ) :
    exchange (t.map f) i x = (exchange t i x).map f := by
  simp only [exchange, List.getElem?_map]
  cases t[i]? <;> cases t[x]? <;> simp [List.map_set]

/-! ## All turns -/

theorem perm_swapped (t : List α) (i : ℕ) (xs : List ℕ) : (swapped t i xs).Perm t := by
  induction xs generalizing t i with
  | nil => exact .refl _
  | cons x xs ih => exact (ih _ _).trans (perm_exchange t i x)

theorem swapped_map {β : Type*} (f : α → β) (t : List α) (i : ℕ) (xs : List ℕ) :
    swapped (t.map f) i xs = (swapped t i xs).map f := by
  induction xs generalizing t i with
  | nil => rfl
  | cons x xs ih => simp only [swapped, exchange_map, ih]

theorem taken_cons {r : List α} {i x : ℕ} (xs : List ℕ) (h : x - i < r.length) :
    taken r i (x :: xs) = r[x - i] :: taken (leave r (x - i)) (i + 1) xs := by
  simp only [taken, List.getElem?_eq_getElem h]

/-- In place, what is taken away is what comes to stand in front. -/
theorem take_swapped {p r : List α} {xs : List ℕ} (h : Within (p.length + r.length) p.length xs) :
    (swapped (p ++ r) p.length xs).take (p.length + xs.length) = p ++ taken r p.length xs := by
  induction xs generalizing p r with
  | nil => simp [swapped, taken]
  | cons x xs ih =>
    obtain ⟨hx, hlt, hrest⟩ := h
    obtain ⟨d, rfl⟩ := Nat.exists_eq_add_of_le hx
    have hd : d < r.length := by omega
    have hp : (p ++ [r[d]]).length = p.length + 1 := by simp
    have hwithin : Within ((p ++ [r[d]]).length + (leave r d).length) (p ++ [r[d]]).length xs := by
      rw [hp, length_leave, show p.length + 1 + (r.length - 1) = p.length + r.length by omega]
      exact hrest
    have hih := ih hwithin
    rw [hp, List.append_assoc, List.singleton_append] at hih
    rw [swapped, exchange_append p r hd, taken_cons xs (by omega), List.length_cons,
      show p.length + (xs.length + 1) = p.length + 1 + xs.length by omega, hih]
    simp

theorem length_taken {r : List α} {i : ℕ} {xs : List ℕ} (h : Within (i + r.length) i xs) :
    (taken r i xs).length = xs.length := by
  induction xs generalizing r i with
  | nil => rfl
  | cons x xs ih =>
    obtain ⟨hx, hlt, hrest⟩ := h
    rw [taken_cons xs (by omega), List.length_cons, List.length_cons, ih]
    rw [length_leave, show i + 1 + (r.length - 1) = i + r.length by omega]
    exact hrest

/-- **What is taken away is a part of the list.** -/
theorem taken_subperm {r : List α} {i : ℕ} {xs : List ℕ} (h : Within (i + r.length) i xs) :
    (taken r i xs).Subperm r := by
  induction xs generalizing r i with
  | nil => exact List.nil_subperm
  | cons x xs ih =>
    obtain ⟨hx, hlt, hrest⟩ := h
    have hd : x - i < r.length := by omega
    have hwithin : Within (i + 1 + (leave r (x - i)).length) (i + 1) xs := by
      rw [length_leave, show i + 1 + (r.length - 1) = i + r.length by omega]
      exact hrest
    rw [taken_cons xs hd]
    exact (List.subperm_cons _ |>.2 (ih hwithin)).trans (perm_leave hd).subperm

theorem nodup_taken {r : List α} (hr : r.Nodup) {i : ℕ} {xs : List ℕ}
    (h : Within (i + r.length) i xs) : (taken r i xs).Nodup := by
  obtain ⟨l, hperm, hsub⟩ := taken_subperm h
  exact hperm.nodup_iff.1 (hsub.nodup hr)

/-- **Every part of the list, in every order, is taken away for one choice of the cells.** -/
theorem exists_unique_taken {r l : List α} (hr : r.Nodup) (hl : l.Nodup) (hsub : l ⊆ r) (i : ℕ) :
    ∃! xs, xs.length = l.length ∧ Within (i + r.length) i xs ∧ taken r i xs = l := by
  induction l generalizing r i with
  | nil =>
    refine ⟨[], ⟨rfl, trivial, rfl⟩, ?_⟩
    rintro xs ⟨hlen, -⟩
    exact List.length_eq_zero_iff.1 hlen
  | cons a l ih =>
    obtain ⟨d, hd, hda⟩ := List.getElem_of_mem (hsub List.mem_cons_self)
    have hperm := perm_leave hd
    have hleave : (leave r d).Nodup := (List.nodup_cons.1 (hperm.nodup_iff.2 hr)).2
    obtain ⟨hal, hl⟩ := List.nodup_cons.1 hl
    have hsub' : l ⊆ leave r d := by
      intro b hb
      have hb' : b ∈ r[d] :: leave r d := hperm.mem_iff.2 (hsub (List.mem_cons_of_mem a hb))
      rcases List.mem_cons.1 hb' with rfl | hb'
      · exact absurd (hda ▸ hb) hal
      · exact hb'
    have hsize : i + 1 + (leave r d).length = i + r.length := by
      rw [length_leave]
      omega
    obtain ⟨xs, ⟨hlen, hwithin, htaken⟩, huniq⟩ := ih hleave hl hsub' (i + 1)
    rw [hsize] at hwithin
    refine ⟨(i + d) :: xs, ⟨by simp [hlen], ⟨by omega, by omega, hwithin⟩, ?_⟩, ?_⟩
    · rw [taken_cons xs (by omega)]
      simp only [Nat.add_sub_cancel_left, hda, htaken]
    · rintro ys ⟨hlen', hwithin', htaken'⟩
      cases ys with
      | nil => simp at hlen'
      | cons y ys =>
        obtain ⟨hy, hlt, hrest⟩ := hwithin'
        rw [taken_cons ys (by omega), List.cons.injEq] at htaken'
        -- One cell only holds `a`.
        have hyd : y - i = d := hr.getElem_inj_iff.1 (htaken'.1.trans hda.symm)
        have hys : ys = xs := huniq ys ⟨by simpa using hlen', by rwa [hsize], hyd ▸ htaken'.2⟩
        rw [hys, show y = i + d by omega]

end Shuffle

end Athena
