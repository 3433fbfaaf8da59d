import Athena.Chips.Lists
import Athena.Chips.Sale
import Mathlib.Algebra.Order.BigOperators.Group.List
/-!
# Chips — chips that are taken from a list

A list loses a number of chips at its first entry of a kind. What an entry cannot
cover is refused, and the list is as it was. A run of such requests leaves each
kind what its own requests leave of it, and the chips of other kinds are not
touched.
-/

namespace Athena

namespace Chips

variable {p q : Chip → Bool} {l : List Chip} {c : Chip} {n a : ℤ} {as ns : List ℤ} {key : ℕ}

/-! ## At the first entry of a kind -/

/-- The number of an entry does not matter. -/
def Blind (p : Chip → Bool) : Prop := ∀ c n, p { c with number := n } = p c

/-- **A list without some chips** of its first entry of a kind. -/
def less (p : Chip → Bool) (n : ℤ) (l : List Chip) : List Chip := remove_key l (l.findIdx? p) n

theorem remove_number_cons (d : Chip) (l : List Chip) (key : ℕ) (n : ℤ) :
    remove_number (d :: l) (key + 1) n = d :: remove_number l key n := by
  simp only [remove_number, List.getElem?_cons_succ]
  cases l[key]? with
  | none => rfl
  | some c =>
    cases hc : c.number with
    | none => simp [hc]
    | some m =>
      simp only [hc]
      split
      · simp
      · split
        · simp
        · rfl

theorem remove_number_append (l₁ l : List Chip) (n : ℤ) :
    remove_number (l₁ ++ l) l₁.length n = l₁ ++ remove_number l 0 n := by
  induction l₁ with
  | nil => rfl
  | cons d l₁ ih => rw [List.cons_append, List.length_cons, remove_number_cons, ih, List.cons_append]

/-- An entry without a number goes. -/
theorem remove_head_none (h : c.number = none) : remove_number (c :: l) 0 n = l := by
  simp [remove_number, h]

/-- **An entry with a number** has less, goes, or stays where it has too few. -/
theorem remove_head_some (h : c.number = some a) : remove_number (c :: l) 0 n =
    if n < a then { c with number := some (a - n) } :: l else if a = n then l else c :: l := by
  simp only [remove_number, List.getElem?_cons_zero, h]
  split
  · simp
  · split <;> simp

/-- **The first entry of the kind** is changed, or there is none. -/
theorem less_cases (p : Chip → Bool) (n : ℤ) (l : List Chip) :
    ((∀ c ∈ l, p c = false) ∧ less p n l = l) ∨
      ∃ l₁ c l₂, l = l₁ ++ c :: l₂ ∧ p c = true ∧ (∀ d ∈ l₁, p d = false) ∧
        less p n l = l₁ ++ remove_number (c :: l₂) 0 n := by
  unfold less
  cases h : l.findIdx? p with
  | none =>
    exact Or.inl ⟨fun c hc => by simpa using List.findIdx?_eq_none_iff.mp h c hc, rfl⟩
  | some key =>
    obtain ⟨hlt, hp, hbefore⟩ := List.findIdx?_eq_some_iff_getElem.mp h
    have hsplit : l = l.take key ++ l[key] :: l.drop (key + 1) := by
      rw [← List.drop_eq_getElem_cons hlt, List.take_append_drop]
    refine Or.inr ⟨l.take key, l[key], l.drop (key + 1), hsplit, hp, fun d hd => ?_, ?_⟩
    · obtain ⟨i, hi, rfl⟩ := List.getElem_of_mem hd
      rw [List.length_take] at hi
      rw [List.getElem_take]
      simpa using hbefore i (by omega)
    · have hkey : (l.take key).length = key := List.length_take_of_le hlt.le
      have happend := remove_number_append (l.take key) (l[key] :: l.drop (key + 1)) n
      rw [← hsplit, hkey] at happend
      exact happend

theorem less_append {l₁ l₂ : List Chip} (h : ∀ d ∈ l₁, p d = false) (hc : p c = true) :
    less p n (l₁ ++ c :: l₂) = l₁ ++ remove_number (c :: l₂) 0 n := by
  have hnone : l₁.findIdx? p = none := List.findIdx?_eq_none_iff.mpr fun d hd => by simpa using h d hd
  have hkey : (l₁ ++ c :: l₂).findIdx? p = some l₁.length := by
    simp [List.findIdx?_append, hnone, List.findIdx?_cons, hc]
  rw [less, hkey, remove_key, remove_number_append]

theorem less_none (h : ∀ d ∈ l, p d = false) : less p n l = l := by
  rw [less, List.findIdx?_eq_none_iff.mpr fun d hd => by simpa using h d hd]
  rfl

theorem less_filter (hq : Blind q) (hc : q c = false) : (remove_number (c :: l) 0 n).filter q =
    l.filter q := by
  have hskip : ∀ m : Option ℤ, q { c with number := m } = false := fun m => (hq c m).trans hc
  cases h : c.number with
  | none => rw [remove_head_none h]
  | some a =>
    rw [remove_head_some h]
    split
    · rw [List.filter_cons_of_neg (by simp [hskip])]
    · split
      · rfl
      · rw [List.filter_cons_of_neg (by simp [hc])]

/-- **Chips of another kind** are not touched. -/
theorem filter_less_of_disjoint (hq : Blind q) (hpq : ∀ c, p c = true → q c = false) :
    (less p n l).filter q = l.filter q := by
  rcases less_cases p n l with ⟨-, h⟩ | ⟨l₁, c, l₂, hl, hc, -, h⟩
  · rw [h]
  · rw [h, hl, List.filter_append, List.filter_append, less_filter hq (hpq c hc),
      List.filter_cons_of_neg (by simp [hpq c hc])]

/-- **The chips of a kind that has this one in it** lose it among them. -/
theorem filter_less {r : Chip → Bool} (hq : Blind q) (h : ∀ c, p c = (q c && r c)) :
    (less p n l).filter q = less r n (l.filter q) := by
  rcases less_cases p n l with ⟨hnone, hl⟩ | ⟨l₁, c, l₂, hl, hc, hbefore, hless⟩
  · rw [hl, less_none]
    intro d hd
    obtain ⟨hmem, hqd⟩ := List.mem_filter.mp hd
    have := hnone d hmem
    rw [h, hqd, Bool.true_and] at this
    exact this
  · obtain ⟨hqc, hrc⟩ : q c = true ∧ r c = true := by simpa [h] using hc
    have hkeep : ∀ l : List Chip, (remove_number (c :: l) 0 n).filter q =
        remove_number (c :: l.filter q) 0 n := by
      intro l
      cases hn : c.number with
      | none => rw [remove_head_none hn, remove_head_none hn]
      | some a =>
        have hblind : q { c with number := some (a - n) } = true := (hq c _).trans hqc
        rw [remove_head_some hn, remove_head_some hn]
        split
        · rw [List.filter_cons_of_pos hblind]
        · split
          · rfl
          · rw [List.filter_cons_of_pos hqc]
    rw [hless, hl, List.filter_append, List.filter_append, hkeep, List.filter_cons_of_pos hqc,
      less_append _ hrc]
    intro d hd
    obtain ⟨hmem, hqd⟩ := List.mem_filter.mp hd
    have := hbefore d hmem
    rw [h, hqd, Bool.true_and] at this
    exact this

/-- The chips of the kind lose at their first entry. -/
theorem filter_less_self (hp : Blind p) : (less p n l).filter p = remove_number (l.filter p) 0 n := by
  rw [filter_less (r := fun _ => true) hp (by simp)]
  cases l.filter p with
  | nil => rfl
  | cons c l =>
    have hless : less (fun _ => true) n ([] ++ c :: l) = [] ++ remove_number (c :: l) 0 n :=
      less_append (by simp) rfl
    exact hless

theorem mem_less {d : Chip} (hd : d ∈ less p n l) : d ∈ l ∨ ∃ c ∈ l, ∃ m, c.number = some m ∧ n < m ∧
    d = { c with number := some (m - n) } := by
  rcases less_cases p n l with ⟨-, h⟩ | ⟨l₁, c, l₂, hl, -, -, h⟩
  · rw [h] at hd
    exact Or.inl hd
  · rw [h] at hd
    rw [hl]
    rcases List.mem_append.mp hd with hd | hd
    · exact Or.inl (List.mem_append_left _ hd)
    · cases hn : c.number with
      | none =>
        rw [remove_head_none hn] at hd
        exact Or.inl (by simp [hd])
      | some m =>
        rw [remove_head_some hn] at hd
        split at hd
        · rename_i hlt
          rcases List.mem_cons.mp hd with rfl | hd
          · exact Or.inr ⟨c, by simp, m, hn, hlt, rfl⟩
          · exact Or.inl (by simp [hd])
        · split at hd
          · exact Or.inl (by simp [hd])
          · exact Or.inl (List.mem_append_right _ hd)

/-- Numbers stay positive. -/
theorem Numbered.less (h : Numbered l) : Numbered (less p n l) := by
  intro d hd
  rcases mem_less hd with hd | ⟨c, -, m, -, hlt, rfl⟩
  · exact h d hd
  · exact ⟨m - n, rfl, by omega⟩

theorem plain_less (h : ∀ c ∈ l, c.number = none) : ∀ c ∈ Chips.less p n l, c.number = none := by
  intro d hd
  rcases mem_less hd with hd | ⟨c, hc, m, hm, -, -⟩
  · exact h d hd
  · rw [h c hc] at hm
    cases hm

/-! ## The numbers of a kind -/

/-- The numbers of some entries; one without a number is one chip. -/
def numbers (l : List Chip) : List ℤ := l.map fun c => c.number.getD 1

/-- What is left of the numbers of a kind when one is taken from the first. -/
def takenumber : List ℤ → ℤ → List ℤ
  | [], _ => []
  | a :: as, n => if n < a then (a - n) :: as else if a = n then as else a :: as

/-- The first number covers another. -/
def covers : List ℤ → ℤ → Bool
  | [], _ => false
  | a :: _, n => n ≤ a

/-- **What is refused** of some numbers that are taken one after another, in all. -/
def refused : List ℤ → List ℤ → ℤ
  | _, [] => 0
  | as, n :: ns => (if covers as n then 0 else n) + refused (takenumber as n) ns

theorem sum_takenumber (as : List ℤ) (n : ℤ) :
    (takenumber as n).sum = as.sum - if covers as n then n else 0 := by
  cases as with
  | nil => simp [takenumber, covers]
  | cons a as =>
    rcases lt_trichotomy n a with hlt | rfl | hlt
    · simp only [takenumber, covers, hlt, hlt.le, decide_true, if_true, List.sum_cons]
      omega
    · simp [takenumber, covers]
    · simp [takenumber, covers, not_le.mpr hlt, not_lt.mpr hlt.le, hlt.ne]

/-- **What is left of a kind.** -/
theorem sum_foldl_takenumber (as ns : List ℤ) :
    (ns.foldl takenumber as).sum = as.sum - ns.sum + refused as ns := by
  induction ns generalizing as with
  | nil => simp [refused]
  | cons n ns ih =>
    rw [List.foldl_cons, ih, sum_takenumber, refused, List.sum_cons]
    split <;> omega

theorem numbers_remove (h : Numbered l) : numbers (remove_number l 0 n) = takenumber (numbers l) n := by
  cases l with
  | nil => rfl
  | cons c l =>
    obtain ⟨a, ha, -⟩ := h c List.mem_cons_self
    simp only [numbers, List.map_cons, ha, Option.getD_some, takenumber]
    rw [remove_head_some ha]
    split
    · simp
    · split
      · rfl
      · simp [ha]

/-- A fitted chip goes as a whole. -/
theorem remove_plain (h : ∀ c ∈ l, c.number = none) : remove_number l 0 n = l.tail := by
  cases l with
  | nil => rfl
  | cons c l => exact remove_head_none (h c List.mem_cons_self)

theorem numbers_plain (h : ∀ c ∈ l, c.number = none) : (numbers l).sum = l.length := by
  induction l with
  | nil => rfl
  | cons c l ih =>
    have hl := ih fun d hd => h d (List.mem_cons_of_mem c hd)
    rw [numbers] at hl
    rw [numbers, List.map_cons, List.sum_cons, hl, h c List.mem_cons_self, List.length_cons]
    push_cast
    simp only [Option.getD_none]
    ring

theorem numbers_nonneg (h : ∀ c ∈ l, 0 ≤ c.number.getD 1) : 0 ≤ (numbers l).sum := by
  refine List.sum_nonneg fun n hn => ?_
  obtain ⟨c, hc, rfl⟩ := List.mem_map.mp hn
  exact h c hc

theorem Numbered.filter (h : Numbered l) : Numbered (l.filter p) :=
  fun c hc => h c (List.mem_of_mem_filter hc)

end Chips

end Athena
