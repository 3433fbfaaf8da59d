import Athena.Common.Pairs
import Mathlib.Algebra.GroupWithZero.Nat
/-!
# Pages of several lists

A page of lists that stand one behind the other is gathered from one list after another:
each list gives its entries in the window, and the window is moved on by what it gave or,
where it gave nothing, by its length. As long as the window starts at a place, or ends
before it starts, what is gathered is the window of the lists together.
-/

namespace Athena

namespace Page

open Pairs (window entry)

variable {β γ : Type*}

/-- `for i = be, math.min(#l, en) do`, over entries that have to be there. -/
def visit (l : List β) (be en : ℤ) : Option (List β) :=
  (List.range (min en (l.length : ℤ) - be + 1).toNat).mapM fun n : ℕ => entry l (be + n)

/-- The window for the list after one of `size` entries that gave `taken` of them. With an
end from 0 on nothing here leaves the 64-bit range. -/
def onward (size taken : ℕ) (be en : ℤ) : ℤ × ℤ :=
  if taken ≠ 0 then (1, en - be + 1 - taken) else (be - size, en - size)

/-- The window starts at a place, or ends before it starts. -/
def Forward (w : ℤ × ℤ) : Prop := 1 ≤ w.1 ∨ w.2 < w.1

theorem mapM_eq_filterMap {f : β → Option γ} {l : List β} (h : ∀ a ∈ l, ∃ b, f a = some b) :
    l.mapM f = some (l.filterMap f) := by
  induction l with
  | nil => rfl
  | cons a l ih =>
    rw [List.forall_mem_cons] at h
    obtain ⟨b, hb⟩ := h.1
    rw [List.mapM_cons, ih h.2, hb, List.filterMap_cons_some hb]
    rfl

/-- **The entries of a window that goes forward are there.** -/
theorem entry_of_forward {l : List β} {be en : ℤ} (h : Forward (be, en)) {n : ℕ}
    (hn : n ∈ List.range (min en (l.length : ℤ) - be + 1).toNat) : ∃ a, entry l (be + n) = some a := by
  rw [List.mem_range] at hn
  have hbe : 1 ≤ be := by
    rcases h with h | h
    · exact h
    · dsimp only at h
      omega
  rw [entry, if_pos (by omega)]
  exact ⟨_, List.getElem?_eq_getElem (by omega)⟩

theorem visit_eq {l : List β} {be en : ℤ} (h : Forward (be, en)) : visit l be en = some (window l be en) := by
  rw [visit, mapM_eq_filterMap fun n hn => entry_of_forward h hn, Pairs.filterMap_window]

/-- **Moving on keeps the window of the lists together.** -/
theorem onward_window {l : List β} {be en : ℤ} (h : Forward (be, en)) :
    Forward (onward l.length (window l be en).length be en) ∧
      ∀ m : List β, window (l ++ m) be en = window l be en ++
        window m (onward l.length (window l be en).length be en).1
          (onward l.length (window l be en).length be en).2 := by
  have hlen := Pairs.length_window l be en
  unfold Forward at h
  dsimp only at h
  unfold onward
  split
  · rename_i htaken
    refine ⟨.inl (Int.le_refl 1), fun m => ?_⟩
    rw [Pairs.window_append]
    congr 1
    unfold window
    have hstart : (be - l.length - 1).toNat = 0 ∨ (en - l.length).toNat = 0 := by omega
    have hend : (en - be + 1 - ((window l be en).length : ℤ)).toNat = (en - l.length).toNat := by omega
    unfold window at hend
    rw [hend]
    rcases hstart with h0 | h0
    · rw [h0]
      rfl
    · rw [h0]
      simp
  · refine ⟨?_, fun m => Pairs.window_append l m be en⟩
    unfold Forward
    dsimp only
    omega

/-! ## One page after another -/

/-- Pages of the given sizes, from the place `b` on. -/
def pages (page : ℤ → ℤ → Option (List β)) : ℤ → List ℕ → Option (List β)
  | _, [] => some []
  | b, size :: sizes => do
    let l ← page b (b + size - 1)
    let rest ← pages page (b + size) sizes
    pure (l ++ rest)

/-- **A request for a page shows the list**: it gives the window, and requests for
consecutive windows that reach the end give every entry once, in order. -/
structure Shows (page : ℤ → ℤ → Option (List β)) (l : List β) : Prop where
  slice : ∀ b e, 1 ≤ b → page b e = some (window l b e)
  once : ∀ sizes : List ℕ, l.length ≤ sizes.sum → pages page 1 sizes = some l

theorem pages_eq {page : ℤ → ℤ → Option (List β)} {l : List β}
    (h : ∀ b e, 1 ≤ b → page b e = some (window l b e)) {b : ℤ} (hb : 1 ≤ b) (sizes : List ℕ) :
    pages page b sizes = some (window l b (b + sizes.sum - 1)) := by
  induction sizes generalizing b with
  | nil =>
    have hnil : window l b (b + (List.sum [] : ℕ) - 1) = [] := by
      refine List.eq_nil_of_length_eq_zero ?_
      rw [Pairs.length_window, List.sum_nil]
      omega
    rw [hnil, pages]
  | cons size sizes ih =>
    have hwindow := Pairs.window_window l (show b ≤ b + size - 1 + 1 by omega)
      (show b + size - 1 ≤ b + size + (sizes.sum : ℤ) - 1 by omega)
    rw [show b + (size : ℤ) - 1 + 1 = b + size by omega] at hwindow
    have hend : b + ((size + sizes.sum : ℕ) : ℤ) - 1 = b + size + sizes.sum - 1 := by omega
    rw [pages, h b _ hb, ih (by omega), List.sum_cons, hend, ← hwindow]
    rfl

theorem shows_of_slice {page : ℤ → ℤ → Option (List β)} {l : List β}
    (h : ∀ b e, 1 ≤ b → page b e = some (window l b e)) : Shows page l := by
  refine ⟨h, fun sizes hsizes => ?_⟩
  rw [pages_eq h (Int.le_refl 1), window, List.take_of_length_le (by omega)]
  rfl

end Page

end Athena
