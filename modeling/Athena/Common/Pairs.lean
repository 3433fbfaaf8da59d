import Mathlib.Data.Int.Notation
import Mathlib.Data.List.Nodup
import Mathlib.Data.List.TakeDrop
/-!
# Alternating lists

A list of keys and values in turn, `[k₁, v₁, k₂, v₂, …]`, is the flat form
of a list of pairs. A search goes over the odd places; what stands at
the place it finds is set or removed in the flat list, and the pairs
change there and nowhere else. A window of pairs is a stretch of the
flat list, and a loop over its odd places visits its keys.
-/

namespace Athena

namespace Pairs

variable {α β : Type*}

/-- The flat form. -/
def flat (l : List (α × α)) : List α := l.flatMap fun e => [e.1, e.2]

@[simp] theorem flat_nil : flat ([] : List (α × α)) = [] := rfl

@[simp] theorem flat_cons (e : α × α) (l : List (α × α)) :
    flat (e :: l) = e.1 :: e.2 :: flat l := rfl

@[simp] theorem flat_append (l m : List (α × α)) : flat (l ++ m) = flat l ++ flat m := by
  simp [flat]

@[simp] theorem length_flat (l : List (α × α)) : (flat l).length = 2 * l.length := by
  induction l with
  | nil => rfl
  | cons e l ih =>
    simp only [flat_cons, List.length_cons, ih]
    omega

theorem mem_flat {l : List (α × α)} {a : α} : a ∈ flat l ↔ ∃ e ∈ l, a = e.1 ∨ a = e.2 := by
  simp [flat]

/-! ## A search over the odd places -/

/-- The first odd place whose entry passes the test, counted from zero. -/
def firstKey (p : α → Bool) : List α → Option ℕ
  | [] => none
  | [k] => if p k then some 0 else none
  | k :: _ :: l => if p k then some 0 else (firstKey p l).map (· + 2)

variable {p : α → Bool} {l l₁ l₂ : List (α × α)} {k v : α}

theorem firstKey_eq_none (h : ∀ e ∈ l, p e.1 = false) : firstKey p (flat l) = none := by
  induction l with
  | nil => rfl
  | cons e l ih =>
    simp [firstKey, h e (by simp), ih fun e he => h e (List.mem_cons_of_mem _ he)]

/-- **The search finds the first pair that passes.** -/
theorem firstKey_append (h : ∀ e ∈ l₁, p e.1 = false) (hk : p k = true) :
    firstKey p (flat (l₁ ++ (k, v) :: l₂)) = some (2 * l₁.length) := by
  induction l₁ with
  | nil => simp [firstKey, hk]
  | cons e l₁ ih =>
    have ih := ih fun e he => h e (List.mem_cons_of_mem _ he)
    simp only [List.cons_append, flat_cons, firstKey, h e (by simp), ih, Bool.false_eq_true, if_false,
      Option.map_some, List.length_cons]
    congr 1

/-! ## The place that was found -/

theorem getElem?_value : (flat (l₁ ++ (k, v) :: l₂))[2 * l₁.length + 1]? = some v := by
  rw [flat_append, List.getElem?_append_right (by simp)]
  simp

theorem getElem?_key : (flat (l₁ ++ (k, v) :: l₂))[2 * l₁.length]? = some k := by
  rw [flat_append, List.getElem?_append_right (by simp)]
  simp

/-- Setting the value there. -/
theorem set_value (w : α) :
    (flat (l₁ ++ (k, v) :: l₂)).set (2 * l₁.length + 1) w = flat (l₁ ++ (k, w) :: l₂) := by
  rw [flat_append, flat_append, List.set_append_right _ _ (by simp)]
  simp

/-- Removing the value and then the key. -/
theorem erase_pair :
    ((flat (l₁ ++ (k, v) :: l₂)).eraseIdx (2 * l₁.length + 1)).eraseIdx (2 * l₁.length) =
      flat (l₁ ++ l₂) := by
  rw [flat_append, flat_append, List.eraseIdx_append_of_length_le (by simp),
    List.eraseIdx_append_of_length_le (by simp)]
  simp

/-! ## Keys that occur once -/

/-- **Either no pair has the key, or one has and the others have not.** -/
theorem key_cases [DecidableEq β] {γ : Type*} {m : List (β × γ)} (hn : (m.map Prod.fst).Nodup) (k : β) :
    (∀ e ∈ m, e.1 ≠ k) ∨
      ∃ m₁ v m₂, m = m₁ ++ (k, v) :: m₂ ∧ (∀ e ∈ m₁, e.1 ≠ k) ∧ ∀ e ∈ m₂, e.1 ≠ k := by
  by_cases h : ∃ e ∈ m, e.1 = k
  · obtain ⟨⟨_, v⟩, he, rfl⟩ := h
    obtain ⟨m₁, m₂, rfl⟩ := List.mem_iff_append.mp he
    refine Or.inr ⟨m₁, v, m₂, rfl, ?_, ?_⟩
    · rintro e he' rfl
      simp only [List.map_append, List.map_cons, List.nodup_append] at hn
      exact hn.2.2 _ (List.mem_map_of_mem he') _ (by simp) rfl
    · rintro e he' heq
      simp only [List.map_append, List.map_cons, List.nodup_append, List.nodup_cons] at hn
      exact hn.2.1.1 (List.mem_map.mpr ⟨e, he', heq⟩)
  · push Not at h
    exact Or.inl h

/-! ## A loop over the odd places -/

/-- `for i = start, limit, 2`. -/
def oddPlaces (start limit : ℤ) : List ℤ :=
  (List.range ((limit - start) / 2 + 1).toNat).map fun n : ℕ => start + 2 * (n : ℤ)

/-- `arr[i]`, counted from one. -/
def entry (arr : List α) (i : ℤ) : Option α := if 1 ≤ i then arr[(i - 1).toNat]? else none

/-- A pair is its key and then its value. -/
theorem getElem?_flat (l : List (α × α)) (n : ℕ) :
    (flat l)[2 * n]? = l[n]?.map Prod.fst ∧ (flat l)[2 * n + 1]? = l[n]?.map Prod.snd := by
  induction l generalizing n with
  | nil => exact ⟨rfl, rfl⟩
  | cons e l ih =>
    cases n with
    | zero => simp
    | succ n =>
      rw [Nat.mul_add_one, flat_cons, List.getElem?_cons_succ, List.getElem?_cons_succ,
        List.getElem?_cons_succ, List.getElem?_cons_succ, List.getElem?_cons_succ]
      exact ih n

/-- The key of the pair at a place. -/
theorem entry_flat (l : List (α × α)) (z : ℤ) :
    entry (flat l) (2 * z - 1) = (entry l z).map Prod.fst := by
  unfold entry
  by_cases hz : 1 ≤ z
  · rw [if_pos (by omega), if_pos hz]
    have hplace : (2 * z - 1 - 1).toNat = 2 * (z - 1).toNat := by omega
    rw [hplace]
    exact (getElem?_flat l _).1
  · rw [if_neg (by omega), if_neg hz]
    rfl

/-- The value of the pair at a place. -/
theorem entry_flat_value (l : List (α × α)) (z : ℤ) :
    entry (flat l) (2 * z) = (entry l z).map Prod.snd := by
  unfold entry
  by_cases hz : 1 ≤ z
  · rw [if_pos (by omega), if_pos hz]
    have hplace : (2 * z - 1).toNat = 2 * (z - 1).toNat + 1 := by omega
    rw [hplace]
    exact (getElem?_flat l _).2
  · rw [if_neg (by omega), if_neg hz]
    rfl

/-- The pairs from place `b` to place `e`. -/
def window (l : List β) (b e : ℤ) : List β := (l.take e.toNat).drop (b - 1).toNat

/-- **The entries that a loop meets are the pairs of a window.** -/
theorem filterMap_entry (l : List β) (b : ℤ) (n : ℕ) :
    (List.range n).filterMap (fun i : ℕ => entry l (b + i)) = window l b (b - 1 + n) := by
  induction n with
  | zero => simp [window]
  | succ n ih =>
    rw [List.range_succ, List.filterMap_append, ih]
    unfold window
    by_cases hpos : 1 ≤ b + n
    · have hnext : (b - 1 + ((n + 1 : ℕ) : ℤ)).toNat = (b - 1 + (n : ℤ)).toNat + 1 := by
        push_cast
        omega
      have hentry : entry l (b + n) = l[(b - 1 + (n : ℤ)).toNat]? := by
        rw [entry, if_pos hpos, show b + (n : ℤ) - 1 = b - 1 + n by omega]
      rw [hnext, List.take_add_one, List.filterMap_cons, List.filterMap_nil, hentry]
      by_cases hlen : (b - 1 + (n : ℤ)).toNat < l.length
      · rw [List.drop_append_of_le_length (by rw [List.length_take]; omega)]
        simp [hlen]
      · simp [List.getElem?_eq_none (Nat.le_of_not_lt hlen)]
    · -- before the first place there is no entry and nothing is taken
      have hnow : (b - 1 + (n : ℤ)).toNat = 0 := by omega
      have hnext : (b - 1 + ((n + 1 : ℕ) : ℤ)).toNat = 0 := by
        push_cast
        omega
      have hentry : entry l (b + n) = none := if_neg hpos
      rw [hnow, hnext, List.filterMap_cons, List.filterMap_nil, hentry]
      simp

/-- The entries of the places from `b` to `e` that there are. -/
theorem filterMap_window (l : List β) (b e : ℤ) :
    (List.range (min e (l.length : ℤ) - b + 1).toNat).filterMap (fun n : ℕ => entry l (b + n)) = window l b e := by
  rw [filterMap_entry]
  unfold window
  by_cases hbe : b ≤ min e l.length
  · rw [show b - 1 + ((min e (l.length : ℤ) - b + 1).toNat : ℤ) = min e l.length by omega]
    rcases Int.le_total e l.length with he | he
    · rw [Int.min_eq_left he]
    · rw [Int.min_eq_right he, List.take_of_length_le (by omega), List.take_of_length_le (by omega)]
  · rw [List.drop_eq_nil_of_le, List.drop_eq_nil_of_le] <;> rw [List.length_take] <;> omega

/-- **A loop over the odd places from the key of place `b` on** meets the
keys of the window. -/
theorem filterMap_oddPlaces (l : List (α × α)) (b e : ℤ) :
    (oddPlaces (2 * b - 1) (min (2 * e) (flat l).length)).filterMap (entry (flat l)) =
      (window l b e).map Prod.fst := by
  have hcount : ((min (2 * e) ((flat l).length : ℤ) - (2 * b - 1)) / 2 + 1).toNat =
      (min e l.length - b + 1).toNat := by
    rw [length_flat]
    push_cast
    omega
  have hplace : ∀ n : ℕ, entry (flat l) (2 * b - 1 + 2 * n) = (entry l (b + n)).map Prod.fst := by
    intro n
    rw [← entry_flat]
    congr 1
    omega
  rw [oddPlaces, hcount, List.filterMap_map]
  calc (List.range (min e (l.length : ℤ) - b + 1).toNat).filterMap
        (entry (flat l) ∘ fun n : ℕ => 2 * b - 1 + 2 * (n : ℤ))
      = (List.range (min e (l.length : ℤ) - b + 1).toNat).filterMap
          (fun n : ℕ => (entry l (b + n)).map Prod.fst) := List.filterMap_congr fun n _ => hplace n
    _ = ((List.range (min e (l.length : ℤ) - b + 1).toNat).filterMap
          fun n : ℕ => entry l (b + n)).map Prod.fst := List.map_filterMap.symm
    _ = (window l b e).map Prod.fst := by
        rw [filterMap_window]

/-- The pairs that are not in the window. -/
def outside (l : List β) (b e : ℤ) : List β :=
  l.take (b - 1).toNat ++ l.drop (max (b - 1).toNat e.toNat)

theorem window_map {γ : Type*} (f : β → γ) (l : List β) (b e : ℤ) :
    window (l.map f) b e = (window l b e).map f := by
  simp [window, List.map_drop, List.map_take]

theorem length_window (l : List β) (b e : ℤ) :
    (window l b e).length = min e.toNat l.length - (b - 1).toNat := by
  rw [window, List.length_drop, List.length_take]

/-- A window of two lists, one behind the other. -/
theorem window_append (l m : List β) (b e : ℤ) :
    window (l ++ m) b e = window l b e ++ window m (b - l.length) (e - l.length) := by
  have hb : (b - l.length - 1).toNat = (b - 1).toNat - l.length := by omega
  have he : (e - l.length).toNat = e.toNat - l.length := by omega
  unfold window
  rw [List.take_append, List.drop_append, List.length_take, hb, he]
  rcases Nat.le_total e.toNat l.length with h | h
  · simp [Nat.sub_eq_zero_of_le h]
  · rw [Nat.min_eq_right h]

/-- Two windows, one behind the other. -/
theorem window_window (l : List β) {b e e' : ℤ} (hbe : b ≤ e + 1) (hee : e ≤ e') :
    window l b e ++ window l (e + 1) e' = window l b e' := by
  have htake : l.take e.toNat = (l.take e'.toNat).take e.toNat := by
    rw [List.take_take, Nat.min_eq_left (by omega)]
  have hdrop : (e + 1 - 1).toNat = e.toNat := by omega
  unfold window
  rw [htake, hdrop]
  generalize l.take e'.toNat = m
  have hsplit := congrArg (List.drop (b - 1).toNat) (List.take_append_drop e.toNat m)
  rw [← hsplit]
  by_cases hlen : e.toNat ≤ m.length
  · rw [List.drop_append_of_le_length (by rw [List.length_take]; omega)]
  · rw [List.drop_eq_nil_of_le (show m.length ≤ e.toNat by omega), List.append_nil, List.append_nil]

/-- A window, what is before it and what is after it. -/
theorem window_split (l : List β) (b e : ℤ) :
    l.take (b - 1).toNat ++ window l b e ++ l.drop (max (b - 1).toNat e.toNat) = l := by
  unfold window
  rcases Nat.le_total (b - 1).toNat e.toNat with h | h
  · have htake : l.take (b - 1).toNat = (l.take e.toNat).take (b - 1).toNat := by
      rw [List.take_take, Nat.min_eq_left h]
    rw [Nat.max_eq_right h, htake, List.take_append_drop, List.take_append_drop]
  · rw [Nat.max_eq_left h, List.drop_eq_nil_of_le (by rw [List.length_take]; omega), List.append_nil,
      List.take_append_drop]

/-- So the two together are the list, in another order. -/
theorem window_perm (l : List β) (b e : ℤ) : (outside l b e ++ window l b e).Perm l := by
  refine List.Perm.trans ?_ (List.Perm.of_eq (window_split l b e))
  rw [outside, List.append_assoc, List.append_assoc]
  exact List.Perm.append_left _ List.perm_append_comm

end Pairs

end Athena
