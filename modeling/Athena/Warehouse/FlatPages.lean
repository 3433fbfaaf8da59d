import Athena.Warehouse.Paging
/-!
# The pages of the warehouse — materials and props

The window is moved on from the new entries by the number of their cells, which is twice
their number. So a page that starts behind the new entries shows others than it should.
-/

namespace Athena

namespace Warehouse

namespace Paging

open Lua (Str wrap wrap_eq)
open Page (onward Forward onward_window)
open Pairs (flat entry window oddPlaces)

/-- An entry of a page. -/
def item (isnew : Bool) (e : Str × Str) : ItemInfo := ⟨some e.1, some e.2, isnew⟩

/-- New entries, and then the seen ones. -/
def items (new seen : List (Str × Str)) : List ItemInfo := new.map (item true) ++ seen.map (item false)

variable {new seen : List (Str × Str)} {isnew : Bool} {b e : ℤ}

/-! ## The loop -/

/-- Both ends can be doubled. -/
def Doubles (be en : ℤ) : Prop := (-2 ^ 62 < be ∧ be ≤ 2 ^ 62) ∧ -2 ^ 62 ≤ en ∧ en < 2 ^ 62

/-- The entries that a loop gives, some of them empty. -/
theorem cells_flat (l : List (Str × Str)) (isnew : Bool) {be en : ℤ} (h : Doubles be en) :
    cells (flat l) isnew be en = (List.range (min en (l.length : ℤ) - be + 1).toNat).map fun n : ℕ =>
      ⟨(entry l (be + n)).map Prod.fst, (entry l (be + n)).map Prod.snd, isnew⟩ := by
  have hcount : ((min ((flat l).length : ℤ) (en * 2) - (2 * be - 1)) / 2 + 1).toNat =
      (min en (l.length : ℤ) - be + 1).toNat := by
    rw [Pairs.length_flat]
    push_cast
    omega
  obtain ⟨⟨hbe, hbe'⟩, hen, hen'⟩ := h
  rw [cells, wrap_eq (by omega) (by omega), wrap_eq (by omega) (by omega), oddPlaces, hcount, List.map_map]
  refine List.map_congr_left fun n _ => ?_
  simp only [Function.comp]
  rw [show 2 * be - 1 + 2 * (n : ℤ) = 2 * (be + n) - 1 by omega, Pairs.entry_flat,
    show 2 * (be + (n : ℤ)) - 1 + 1 = 2 * (be + n) by omega, Pairs.entry_flat_value]

/-- In a window that goes forward none is. -/
theorem cells_eq {be en : ℤ} (h : Forward (be, en)) (hd : Doubles be en) (l : List (Str × Str)) (isnew : Bool) :
    cells (flat l) isnew be en = (window l be en).map (item isnew) := by
  rw [cells_flat l isnew hd, ← Pairs.filterMap_window, List.map_filterMap, eq_comm]
  refine List.filterMap_eq_map_iff_forall_eq_some.2 fun n hn => ?_
  obtain ⟨a, ha⟩ := Page.entry_of_forward h hn
  rw [ha]
  rfl

theorem length_cells (l : List (Str × Str)) (isnew : Bool) {be en : ℤ} (h : Doubles be en) :
    (cells (flat l) isnew be en).length = (min en (l.length : ℤ) - be + 1).toNat := by
  rw [cells_flat l isnew h, List.length_map, List.length_range]

/-! ## The page -/

/-- **Where the page should be**, in the seen entries, where it starts behind the new
ones: the entries it shows are those that stand as many places before as there are new
entries. -/
def Same (new seen : List (Str × Str)) (b e : ℤ) : Prop :=
  2 * new.length < b ∧ e ≤ new.length + seen.length ∧
    window seen (b - 2 * new.length) (e - 2 * new.length) = window seen (b - new.length) (e - new.length)

/-- **The range**: a window that can be doubled, and moved on by a list of a size that there is. -/
structure Narrow (new : List (Str × Str)) (b e : ℤ) : Prop where
  first : 1 ≤ b ∧ b ≤ 2 ^ 61
  last : -2 ^ 61 ≤ e ∧ e < 2 ^ 61
  size : new.length ≤ 2 ^ 60

theorem Narrow.doubles (h : Narrow new b e) : Doubles b e := by
  obtain ⟨⟨hb, hb'⟩, ⟨he, he'⟩, -⟩ := h
  exact ⟨⟨by omega, by omega⟩, by omega, by omega⟩

theorem Narrow.behind (h : Narrow new b e) : Doubles (b - 2 * new.length) (e - 2 * new.length) := by
  obtain ⟨⟨hb, hb'⟩, ⟨he, he'⟩, hsize⟩ := h
  exact ⟨⟨by omega, by omega⟩, by omega, by omega⟩

/-- **The condition**: no entry is new, or the page starts among the new entries, or it is
empty, or it starts far behind all of them, or it shows the same by chance. -/
def Clear (new seen : List (Str × Str)) (b e : ℤ) : Prop :=
  new = [] ∨ b ≤ new.length ∨ e < b ∨ 2 * new.length + seen.length < b ∨ Same new seen b e

theorem window_eq_nil {β : Type*} {l : List β} (h : e < b) : window l b e = [] := by
  refine List.eq_nil_of_length_eq_zero ?_
  rw [Pairs.length_window]
  omega

/-- What the page should be, behind the new entries. -/
theorem window_items (hb : new.length < b) :
    window (items new seen) b e = (window seen (b - new.length) (e - new.length)).map (item false) := by
  have hnil : window (new.map (item true)) b e = [] := by
    refine List.eq_nil_of_length_eq_zero ?_
    rw [Pairs.length_window, List.length_map]
    omega
  rw [items, Pairs.window_append, hnil, List.nil_append, List.length_map, Pairs.window_map]

/-- What it is. -/
theorem get_material_info_behind (hnarrow : Narrow new b e) (hb : new.length < b) :
    get_material_info (flat new) (flat seen) b e =
      cells (flat seen) false (b - 2 * new.length) (e - 2 * new.length) := by
  have hnone : cells (flat new) true b e = [] := by
    refine List.eq_nil_of_length_eq_zero ?_
    rw [length_cells new true hnarrow.doubles]
    omega
  simp only [get_material_info, hnone, List.length_nil, onward, ne_eq, not_true_eq_false, if_false,
    List.nil_append, Pairs.length_flat, Nat.cast_mul, Nat.cast_ofNat]

/-- **A page that starts among the new entries is right**: it shows some of them, so it is
moved on by how many. -/
theorem get_material_info_new (hnarrow : Narrow new b e) (h : b ≤ new.length) (he : b ≤ e) :
    get_material_info (flat new) (flat seen) b e = window (items new seen) b e := by
  have hb : 1 ≤ b := hnarrow.first.1
  have hforward : Forward (b, e) := .inl hb
  have htaken : (window new b e).length ≠ 0 := by
    rw [Pairs.length_window]
    omega
  obtain ⟨hnext, hwindow⟩ := onward_window (l := new.map (item true)) hforward
  rw [Pairs.window_map, List.length_map, List.length_map, onward, if_pos htaken] at hnext hwindow
  have hdoubles : Doubles 1 (e - b + 1 - (window new b e).length) := by
    obtain ⟨⟨-, hb'⟩, ⟨-, he'⟩, hsize⟩ := hnarrow
    rw [Pairs.length_window]
    exact ⟨⟨by omega, by omega⟩, by omega, by omega⟩
  simp only [get_material_info, cells_eq hforward hnarrow.doubles, List.length_map, onward, ne_eq, htaken,
    not_false_eq_true, if_true, cells_eq hnext hdoubles]
  rw [items, hwindow, Pairs.window_map]

theorem item_injective (isnew : Bool) : Function.Injective (item isnew) := by
  rintro ⟨k, v⟩ ⟨k', v'⟩ h
  simpa [item] using h

/-- A page behind the new entries that starts before twice their number shows an empty
entry. -/
theorem get_material_info_empty (seen : List (Str × Str)) (hnarrow : Narrow new b e) (hb : new.length < b) (hb' : b ≤ 2 * new.length) (he : b ≤ e) :
    ∃ info ∈ get_material_info (flat new) (flat seen) b e, info.cfgid = none := by
  rw [get_material_info_behind hnarrow hb, cells_flat seen false hnarrow.behind]
  refine ⟨_, List.mem_map_of_mem (List.mem_range.2 (show 0 < _ by omega)), ?_⟩
  dsimp only
  rw [entry, if_neg (by push_cast; omega)]
  rfl

end Paging

end Warehouse

end Athena
