import Athena.Common.Shuffle
import Mathlib.Data.Rat.Floor
/-!
# Random numbers — model

`lualib/random.lua`: numbers from `math.random` that are mixed by a table of 97 of them,
distinct numbers of a range, and items that are chosen by their rates. The numbers are
exact. Of `math.random` it is used that it gives numbers from 0 to below 1, in any order.
-/

namespace Athena

namespace Random

open Shuffle (exchange)

/-- What `math.random()` gives. -/
def Draw := { x : ℚ // 0 ≤ x ∧ x < 1 }

/-- `tablesize`. -/
def tablesize : ℕ := 97

/-- `math.floor(tablesize*x)`: a cell of the table, from 0. -/
def Draw.cell (x : Draw) : Fin tablesize :=
  ⟨⌊tablesize * x.1⌋.toNat, by
    have h1 : (tablesize : ℚ) * x.1 < tablesize := by
      have h := mul_lt_mul_of_pos_left x.2.2 (show (0 : ℚ) < tablesize by norm_num [tablesize])
      rwa [mul_one] at h
    have h2 : ⌊tablesize * x.1⌋ < (tablesize : ℤ) := Int.floor_lt.2 (by exact_mod_cast h1)
    simp only [tablesize] at h2 ⊢
    omega⟩

/-- **The state of the generator**: the table, once it is there, and how often
`math.random` has been called. -/
structure State where
  randomtable : Option (Vector Draw tablesize)
  called : ℕ

/-- The table is filled at the first call. -/
def fill (random : ℕ → Draw) (s : State) : Vector Draw tablesize × ℕ :=
  match s.randomtable with
  | some randomtable => (randomtable, s.called)
  | none => (Vector.ofFn fun i => random (s.called + i), s.called + tablesize)

/-- `Random.Get()`: the number at a random place of the table, which the new one takes. -/
def Get (random : ℕ → Draw) (s : State) : Draw × State :=
  let (randomtable, called) := fill random s
  let x := random called
  let i := x.cell
  (randomtable[i], ⟨some (randomtable.set i x), called + 1⟩)

/-- `Random.Get(m, n)`. -/
def GetBetween (random : ℕ → Draw) (s : State) (m n : ℤ) : ℤ × State :=
  let (x, s) := Get random s
  (m + ⌊x.1 * (n - m + 1)⌋, s)

/-! ## Ranges -/

/-- The loop of `Random.GetRange`, for the turns that are left. -/
def exchanges (random : ℕ → Draw) (size : ℕ) : ℕ → ℕ → List ℤ → State → List ℤ × State
  | 0, _, t, s => (t, s)
  | left + 1, i, t, s =>
    let (x, s) := GetBetween random s i size
    exchanges random size left (i + 1) (exchange t (i - 1) (x.toNat - 1)) s

/-- `for i = m, n do`. -/
def range (m n : ℤ) : List ℤ := (List.range (n - m + 1).toNat).map fun i : ℕ => m + (i : ℤ)

/-- **`Random.GetRange(m, n, k)`**, for no more numbers than there are. -/
def GetRange (random : ℕ → Draw) (s : State) (m n : ℤ) (k : ℕ) : List ℤ × State :=
  let t := range m n
  let (t, s) := exchanges random t.length k 1 t s
  (t.take k, s)

/-! ## Items with rates -/

/-- An item. -/
structure Item where
  id : ℤ
  rate : ℚ

/-- The first item at which the rates so far reach `x`. -/
def reach (x : ℚ) : ℚ → List Item → Option ℕ
  | _, [] => none
  | rate, a :: t => if x ≤ rate + a.rate then some 0 else (reach x (rate + a.rate) t).map (· + 1)

/-- One turn of the loop of `Random.GetIds`, with the number that `Random.Get` gave. It
raises where no item is reached. -/
def choose (x : Draw) (i : ℕ) (rate_left : ℚ) (t : List Item) : Option (List Item × ℚ) := do
  let n ← reach (x.1 * rate_left) 0 t
  let t := exchange t (i - 1) n
  let a ← t[i - 1]?
  pure (t, rate_left - a.rate)

/-- The loop of `Random.GetIds`, for the turns that are left. -/
def choices (random : ℕ → Draw) : ℕ → ℕ → ℚ → List Item → State → Option (List Item) × State
  | 0, _, _, t, s => (some t, s)
  | left + 1, i, rate_left, t, s =>
    let (x, s) := Get random s
    match choose x i rate_left t with
    | none => (none, s)
    | some (t, rate_left) => choices random left (i + 1) rate_left t s

/-- **`Random.GetIds(t, k)`**, for no more items than there are. -/
def GetIds (random : ℕ → Draw) (s : State) (t : List Item) (k : ℕ) : Option (List ℤ) × State :=
  let (t, s) := choices random k 1 1 t s
  (t.map fun t => (t.take k).map Item.id, s)

end Random

/-!
## Random numbers — distinct numbers of a range

`GetRange` shuffles the range in place, with the cells that `Get` gives. Each of them is
one of those that are left, so the numbers are distinct; and every choice of distinct
numbers, in every order, comes from one choice of the cells.
-/

namespace Random

open Shuffle (exchange swapped taken Within)

variable (random : ℕ → Draw) (s : State)

/-- **`Random.Get(m, n)` is in its bounds.** -/
theorem getBetween_bounds {m n : ℤ} (h : m ≤ n) :
    m ≤ (GetBetween random s m n).1 ∧ (GetBetween random s m n).1 ≤ n := by
  obtain ⟨hx, hx'⟩ := (Get random s).1.2
  have hpos : (0 : ℚ) < n - m + 1 := by
    have : (m : ℚ) ≤ n := by exact_mod_cast h
    linarith
  have hlow : 0 ≤ ⌊(Get random s).1.1 * (n - m + 1 : ℚ)⌋ := Int.floor_nonneg.2 (mul_nonneg hx hpos.le)
  have hup : ⌊(Get random s).1.1 * (n - m + 1 : ℚ)⌋ < n - m + 1 := by
    rw [Int.floor_lt]
    push_cast
    calc (Get random s).1.1 * (n - m + 1 : ℚ) < 1 * (n - m + 1) := mul_lt_mul_of_pos_right hx' hpos
      _ = n - m + 1 := one_mul _
  simp only [GetBetween]
  omega

/-! ## The cells -/

/-- The cells that the loop exchanges, from 0. -/
def positions (size : ℕ) : ℕ → ℕ → State → List ℕ
  | 0, _, _ => []
  | left + 1, i, s =>
    let (x, s) := GetBetween random s i size
    (x.toNat - 1) :: positions size left (i + 1) s

theorem length_positions (size left i : ℕ) : (positions random size left i s).length = left := by
  induction left generalizing i s with
  | zero => rfl
  | succ left ih => simp [positions, ih]

/-- **Each cell is one of those that are left.** -/
theorem positions_within {size left i : ℕ} (h : i + left ≤ size) :
    Within size i (positions random size left (i + 1) s) := by
  induction left generalizing i s with
  | zero => trivial
  | succ left ih =>
    have hi : ((i + 1 : ℕ) : ℤ) ≤ (size : ℕ) := by
      push_cast
      omega
    obtain ⟨h1, h2⟩ := getBetween_bounds random s hi
    simp only [positions, Within]
    exact ⟨by omega, by omega, ih _ (by omega)⟩

/-- The loop does not look at the numbers. -/
theorem exchanges_fst (size left i : ℕ) (t : List ℤ) :
    (exchanges random size left (i + 1) t s).1 = swapped t i (positions random size left (i + 1) s) := by
  induction left generalizing i t s with
  | zero => rfl
  | succ left ih => simp only [exchanges, positions, swapped, Nat.add_sub_cancel, ih]

/-! ## The numbers -/

/-- What `GetRange(m, n, k)` gives where the cells are `xs`. -/
def picked (m n : ℤ) (xs : List ℕ) : List ℤ := (swapped (range m n) 0 xs).take xs.length

theorem length_range (m n : ℤ) : (range m n).length = (n - m + 1).toNat := by simp [range]

theorem nodup_range (m n : ℤ) : (range m n).Nodup :=
  List.nodup_range.map fun _ _ h => by simpa using h

theorem mem_range {m n a : ℤ} : a ∈ range m n ↔ m ≤ a ∧ a ≤ n := by
  simp only [range, List.mem_map, List.mem_range]
  constructor
  · rintro ⟨i, hi, rfl⟩
    omega
  · rintro ⟨h1, h2⟩
    exact ⟨(a - m).toNat, by omega, by omega⟩

theorem picked_eq_taken {m n : ℤ} {xs : List ℕ} (h : Within (range m n).length 0 xs) :
    picked m n xs = taken (range m n) 0 xs := by
  have h' : Within (([] : List ℤ).length + (range m n).length) ([] : List ℤ).length xs := by
    rwa [List.length_nil, Nat.zero_add]
  simpa [picked] using Shuffle.take_swapped h'

theorem getRange_eq_picked (m n : ℤ) (k : ℕ) :
    (GetRange random s m n k).1 = picked m n (positions random (range m n).length k 1 s) := by
  simp only [GetRange, exchanges_fst, picked, length_positions]

/-- **`GetRange` gives distinct numbers of the range, and none is preferred.** For every
draw there are `k` of them; they are those of the cells that `Get` gives, of which the
`i`-th is one of the cells from `i` on; and every choice of `k` distinct numbers, in every
order, comes from exactly one choice of such cells. -/
theorem getRange_uniform (m n : ℤ) (k : ℕ) (hk : (k : ℤ) ≤ n - m + 1) :
    (∀ random s, (GetRange random s m n k).1.length = k ∧ (GetRange random s m n k).1.Nodup ∧
      (∀ a ∈ (GetRange random s m n k).1, m ≤ a ∧ a ≤ n) ∧
      (positions random (range m n).length k 1 s).length = k ∧
      Within (n - m + 1).toNat 0 (positions random (range m n).length k 1 s) ∧
      (GetRange random s m n k).1 = picked m n (positions random (range m n).length k 1 s)) ∧
    ∀ r : List ℤ, r.length = k → r.Nodup → (∀ a ∈ r, m ≤ a ∧ a ≤ n) →
      ∃! xs, xs.length = k ∧ Within (n - m + 1).toNat 0 xs ∧ picked m n xs = r := by
  have hsize := length_range m n
  refine ⟨fun random s => ?_, fun r hlen hnodup hmem => ?_⟩
  · have hwithin : Within (range m n).length 0 (positions random (range m n).length k 1 s) :=
      positions_within random s (by omega)
    have hwithin' : Within (0 + (range m n).length) 0 (positions random (range m n).length k 1 s) := by
      rwa [Nat.zero_add]
    have hpicked := getRange_eq_picked random s m n k
    have htaken := hpicked.trans (picked_eq_taken hwithin)
    have hsub := Shuffle.taken_subperm hwithin'
    refine ⟨?_, ?_, ?_, length_positions random s _ k 1, hsize ▸ hwithin, hpicked⟩
    · rw [htaken, Shuffle.length_taken hwithin', length_positions]
    · rw [htaken]
      exact Shuffle.nodup_taken (nodup_range m n) hwithin'
    · intro a ha
      exact mem_range.1 (hsub.subset (htaken ▸ ha))
  · have hsub : r ⊆ range m n := fun a ha => mem_range.2 (hmem a ha)
    obtain ⟨xs, ⟨hxs, hwithin, htaken⟩, huniq⟩ :=
      Shuffle.exists_unique_taken (nodup_range m n) hnodup hsub 0
    rw [Nat.zero_add] at hwithin
    refine ⟨xs, ⟨hxs.trans hlen, hsize ▸ hwithin, ?_⟩, ?_⟩
    · rw [picked_eq_taken hwithin, htaken]
    · rintro ys ⟨hys, hwithin', hpicked⟩
      rw [← hsize] at hwithin'
      refine huniq ys ⟨hys.trans hlen.symm, by rwa [Nat.zero_add], ?_⟩
      rw [← picked_eq_taken hwithin', hpicked]

/-- A half is a number that `math.random` gives. -/
theorem half_between : (0 : ℚ) ≤ 1 / 2 ∧ (1 / 2 : ℚ) < 1 := by
  norm_num

/-- A generator that always gives a half. -/
def halves (_ : ℕ) : Draw := ⟨1 / 2, half_between⟩

/-- It takes the third number of four, and then the first,
which has gone to the third place; and one choice of the cells gives the last before the
first. -/
theorem getRange_uniform_four :
    (GetRange halves ⟨none, 0⟩ 5 8 2).1 = [7, 5] ∧
    ∃! xs, xs.length = 2 ∧ Within 4 0 xs ∧ picked 5 8 xs = [8, 5] := by
  have hcells : positions halves 4 2 1 ⟨none, 0⟩ = [2, 2] := by decide +kernel
  refine ⟨?_, (getRange_uniform 5 8 2 (by decide)).2 [8, 5] rfl (by decide) (by decide)⟩
  obtain ⟨-, -, -, -, -, hrange⟩ := (getRange_uniform 5 8 2 (by decide)).1 halves ⟨none, 0⟩
  have hsize : (range 5 8).length = 4 := rfl
  rw [hrange, hsize, hcells]
  rfl

end Random

end Athena
