import Mathlib.Data.List.Basic
import Mathlib.Logic.Function.Basic
import Mathlib.Tactic.Common
/-!
# Ring buffers that grow

A ring holds its entries in `cap` cells, from `head` up to `tail`, around the end.
It is empty where the two meet. An entry that would make them meet from behind
fills the last cell, and the ring is copied into a larger one that starts at zero
(`push`), so no entry is ever overwritten: the entries are a list to which `push`
adds at the end (`toList_push`) and from which `pop` takes at the front
(`pop_eq_some`).
-/

namespace Athena

variable {α : Type*}

/-- **A ring buffer**, with `head` and `tail` among its cells. -/
structure Ring (α : Type*) where
  cap : ℕ
  head : ℕ
  tail : ℕ
  queue : ℕ → α
  head_lt : head < cap
  tail_lt : tail < cap

namespace Ring

variable {r s : Ring α} {x : α} {l : List α} {i n : ℕ}

theorem cap_pos (r : Ring α) : 0 < r.cap := Nat.lt_of_le_of_lt (Nat.zero_le _) r.head_lt

/-- The cell after a cell. -/
def after (r : Ring α) (i : ℕ) : ℕ := if r.cap ≤ i + 1 then 0 else i + 1

theorem after_lt (r : Ring α) (i : ℕ) : r.after i < r.cap := by
  have := r.cap_pos
  unfold after
  split <;> omega

theorem after_cases (hi : i < r.cap) :
    r.after i = i + 1 ∧ i + 1 < r.cap ∨ r.after i = 0 ∧ i + 1 = r.cap := by
  unfold after
  split <;> omega

/-- An empty ring. -/
def empty (cap : ℕ) (h : 0 < cap) (queue : ℕ → α) : Ring α := ⟨cap, 0, 0, queue, h, h⟩

/-- The number of entries. -/
def length (r : Ring α) : ℕ := if r.head ≤ r.tail then r.tail - r.head else r.tail + r.cap - r.head

/-- The place of an entry. -/
def place (r : Ring α) (i : ℕ) : ℕ := (r.head + i) % r.cap

/-- **The entries**, the oldest first. -/
def toList (r : Ring α) : List α := (List.range r.length).map fun i => r.queue (r.place i)

/-- An entry is written to the first free cell. -/
def store (r : Ring α) (x : α) : Ring α :=
  { r with queue := Function.update r.queue r.tail x, tail := r.after r.tail, tail_lt := r.after_lt r.tail }

/-- All cells are copied to the front of a larger ring; what is behind them is
never read. -/
def expand (r : Ring α) (extra : ℕ) (h : 0 < extra) : Ring α where
  cap := r.cap + extra
  head := 0
  tail := r.cap
  queue i := r.queue (r.place i)
  head_lt := by omega
  tail_lt := by omega

/-- **An entry is added**; the ring that is full then grows. -/
def push (r : Ring α) (x : α) (extra : ℕ) (h : 0 < extra) : Ring α :=
  if (r.store x).head = (r.store x).tail then (r.store x).expand extra h else r.store x

/-- The ring from the next entry on. -/
def skip (r : Ring α) : Ring α := { r with head := r.after r.head, head_lt := r.after_lt r.head }

/-- **The oldest entry is taken.** -/
def pop (r : Ring α) : Option (α × Ring α) :=
  if r.head = r.tail then none else some (r.queue r.head, r.skip)

@[simp] theorem store_head : (r.store x).head = r.head := rfl

@[simp] theorem store_tail : (r.store x).tail = r.after r.tail := rfl

@[simp] theorem store_cap : (r.store x).cap = r.cap := rfl

@[simp] theorem skip_head : r.skip.head = r.after r.head := rfl

@[simp] theorem skip_tail : r.skip.tail = r.tail := rfl

@[simp] theorem skip_cap : r.skip.cap = r.cap := rfl

/-! ## Places -/

/-- Where the entries lie: in one piece, or around the end. -/
theorem length_cases (r : Ring α) : r.head ≤ r.tail ∧ r.head + r.length = r.tail ∨
    r.tail < r.head ∧ r.head + r.length = r.tail + r.cap := by
  have := r.head_lt
  unfold length
  split <;> omega

theorem length_lt (r : Ring α) : r.length < r.cap := by
  have := r.head_lt
  have := r.tail_lt
  have := r.length_cases
  omega

@[simp] theorem length_toList : r.toList.length = r.length := by simp [toList]

theorem place_eq (r : Ring α) (hi : i < r.cap) :
    r.place i = if r.head + i < r.cap then r.head + i else r.head + i - r.cap := by
  have := r.head_lt
  unfold place
  split
  · rename_i hlt
    exact Nat.mod_eq_of_lt hlt
  · rename_i hle
    rw [Nat.mod_eq_sub_mod (by omega), Nat.mod_eq_of_lt (by omega)]

/-- The first free cell is behind the entries, -/
theorem place_length (r : Ring α) : r.place r.length = r.tail := by
  have := r.head_lt
  have := r.tail_lt
  have := r.length_cases
  rw [r.place_eq r.length_lt]
  split <;> omega

/-- and none of theirs. -/
theorem place_ne (r : Ring α) (hi : i < r.length) : r.place i ≠ r.tail := by
  have := r.head_lt
  have := r.tail_lt
  have hlt := r.length_lt
  have := r.length_cases
  rw [r.place_eq (by omega)]
  split <;> omega

/-- A list from its entries by number. -/
theorem toList_eq (hlen : s.length = n) {f : ℕ → α} (h : ∀ i < n, s.queue (s.place i) = f i) :
    s.toList = (List.range n).map f := by
  rw [toList, hlen]
  exact List.map_congr_left fun i hi => h i (List.mem_range.mp hi)

/-! ## Adding -/

/-- The entries are those before and the new one. -/
theorem snoc_eq (r : Ring α) (x : α) : r.toList ++ [x] =
    (List.range (r.length + 1)).map fun i => (r.store x).queue (r.place i) := by
  rw [List.range_succ, List.map_append, toList]
  refine congrArg₂ (· ++ ·) (List.map_congr_left fun i hi => ?_) ?_
  · exact (Function.update_of_ne (r.place_ne (List.mem_range.mp hi)) _ _).symm
  · rw [List.map_singleton, place_length]
    exact congrArg (fun y => [y]) (Function.update_self r.tail x r.queue).symm

theorem length_store (hroom : (r.store x).head ≠ (r.store x).tail) : (r.store x).length = r.length + 1 := by
  have hr := r.length_cases
  have hs := (r.store x).length_cases
  have := r.head_lt
  have := after_cases r.tail_lt
  simp only [store_head, store_tail, store_cap] at hroom hs
  omega

theorem length_full (hfull : (r.store x).head = (r.store x).tail) : r.length + 1 = r.cap := by
  have hr := r.length_cases
  have := r.head_lt
  have := after_cases r.tail_lt
  simp only [store_head, store_tail] at hfull
  omega

/-- **`push` adds at the end**, whether the ring grows or not. -/
theorem toList_push (r : Ring α) (x : α) (extra : ℕ) (h : 0 < extra) :
    (r.push x extra h).toList = r.toList ++ [x] := by
  have hplace : (r.store x).place = r.place := rfl
  rw [snoc_eq, push]
  split
  · rename_i hfull
    have hcap : r.length + 1 = r.cap := length_full hfull
    refine toList_eq (by rw [hcap]; exact Nat.sub_zero _) fun i hi => ?_
    have hi' : ((r.store x).expand extra h).place i = i := by
      change (0 + i) % (r.cap + extra) = i
      rw [Nat.zero_add, Nat.mod_eq_of_lt (by omega)]
    rw [hi']
    rfl
  · rename_i hroom
    exact toList_eq (length_store hroom) fun i _ => by rw [hplace]

/-! ## Taking -/

@[simp] theorem toList_empty {cap : ℕ} {h : 0 < cap} {queue : ℕ → α} : (empty cap h queue).toList = [] := by
  simp [toList, length, empty]

theorem length_eq_zero : r.length = 0 ↔ r.head = r.tail := by
  have := r.head_lt
  have := r.length_cases
  omega

/-- **`pop` finds nothing in an empty ring only.** -/
theorem pop_eq_none : r.pop = none ↔ r.toList = [] := by
  rw [← List.length_eq_zero_iff, length_toList, length_eq_zero, pop]
  split
  · rename_i h
    simp [h]
  · rename_i h
    simp [h]

/-- **`pop` takes the oldest entry** and leaves the others. -/
theorem pop_eq_some (h : r.pop = some (x, s)) : r.toList = x :: s.toList := by
  have hhead := r.head_lt
  have htail := r.tail_lt
  unfold pop at h
  split at h
  · cases h
  · rename_i hne
    obtain ⟨rfl, rfl⟩ := Prod.mk.inj (Option.some.inj h)
    have hlen : r.length = r.skip.length + 1 := by
      have hr := r.length_cases
      have hs := r.skip.length_cases
      have := after_cases hhead
      simp only [skip_head, skip_tail, skip_cap] at hs
      omega
    rw [toList, hlen, List.range_succ_eq_map, List.map_cons, List.map_map, toList]
    have hlt := r.length_lt
    refine congrArg₂ List.cons ?_ (List.map_congr_left fun i hi => ?_)
    · rw [place, Nat.add_zero, Nat.mod_eq_of_lt hhead]
    · have hi := List.mem_range.mp hi
      refine congrArg r.queue ?_
      change r.place (i + 1) = (r.after r.head + i) % r.cap
      rw [place]
      rcases after_cases hhead with ⟨hafter, -⟩ | ⟨hafter, hlast⟩
      · rw [hafter, Nat.add_right_comm, Nat.add_assoc]
      · rw [hafter, Nat.zero_add, ← Nat.add_assoc, Nat.add_right_comm, hlast, Nat.add_mod_left]

end Ring

end Athena
