import Athena.Warehouse.Items
import Mathlib.Algebra.Order.BigOperators.Group.List
/-!
# Materials and props — the accounts

What the two texts of a kind stand for is a `Stock`: two lists of
entries in which no cfgid comes twice and every number is positive. A
text that spells a stock is read by every request as the list it is,
so a request changes the stock the way its name says: an addition
raises the one entry of the cfgid or puts a new one at the end, a removal
lowers it or takes it away, and looking at new entries moves a window
of them.
-/

namespace Athena

namespace Warehouse

namespace Items

open Lua Pairs

/-! ## Stocks -/

/-- An entry: a cfgid and its number. -/
abbrev Entry := Int64 × Int64

/-- Entries of which no two have one cfgid, with positive numbers. -/
structure Good (l : List Entry) : Prop where
  nodup : (l.map Prod.fst).Nodup
  pos : ∀ e ∈ l, 0 < e.2.toInt

/-- **What a player has of a kind.** -/
structure Stock where
  seen : List Entry
  fresh : List Entry
  good : Good (seen ++ fresh)

/-- An entry as it stands in an array. -/
def text (e : Entry) : Str × Str := (tostring (.int e.1), tostring (.int e.2))

def texts (l : List Entry) : List Str := flat (l.map text)

/-- **The texts of a kind spell a stock.** -/
def Spells (b : Bag) (st : Stock) : Prop :=
  splitComma b.seen = texts st.seen ∧ splitComma b.fresh = texts st.fresh

/-- The lists are as they should be: every entry has its number, no cfgid
comes twice in the two lists, and every number is positive. -/
def Sound (b : Bag) : Prop := ∃ st, Spells b st

/-- The total of a cfgid in some entries. -/
def total (l : List Entry) (cfgid : Int64) : ℤ :=
  ((l.filter fun e => e.1 = cfgid).map fun e => e.2.toInt).sum

/-- An array as entries, those that are integers. -/
def entries : List Str → List Entry
  | k :: v :: arr =>
    match tonumber k, tonumber v with
    | some (.int i), some (.int n) => (i, n) :: entries arr
    | _, _ => entries arr
  | _ => []

/-- **The total of a cfgid** over both lists. -/
def held (b : Bag) (cfgid : Int64) : ℤ :=
  total (entries (splitComma b.seen) ++ entries (splitComma b.fresh)) cfgid

section

variable {l l₁ l₂ : List Entry} {i j n m : Int64} {b : Bag} {st : Stock}

@[simp] theorem entries_texts (l : List Entry) : entries (texts l) = l := by
  induction l with
  | nil => rfl
  | cons e l ih =>
    change entries (tostring (.int e.1) :: tostring (.int e.2) :: texts l) = _
    simp only [entries, tonumber_tostring_int, ih]

theorem Spells.held_eq (h : Spells b st) (i : Int64) : held b i = total (st.seen ++ st.fresh) i := by
  rw [held, h.1, h.2, entries_texts, entries_texts]

@[simp] theorem total_nil (i : Int64) : total [] i = 0 := rfl

@[simp] theorem total_append (l m : List Entry) (i : Int64) :
    total (l ++ m) i = total l i + total m i := by
  simp [total]

@[simp] theorem total_cons (e : Entry) (l : List Entry) (i : Int64) :
    total (e :: l) i = (if e.1 = i then e.2.toInt else 0) + total l i := by
  unfold total
  by_cases h : e.1 = i
  · simp [h]
  · simp [h]

theorem total_eq_zero (h : ∀ e ∈ l, e.1 ≠ i) : total l i = 0 := by
  have : l.filter (fun e => e.1 = i) = [] := by
    rw [List.filter_eq_nil_iff]
    intro e he
    simpa using h e he
  rw [total, this]
  rfl

theorem total_perm (h : l₁.Perm l₂) (i : Int64) : total l₁ i = total l₂ i :=
  ((h.filter _).map _).sum_eq

theorem total_nonneg (h : ∀ e ∈ l, 0 < e.2.toInt) (i : Int64) : 0 ≤ total l i := by
  refine List.sum_nonneg fun x hx => ?_
  obtain ⟨e, he, rfl⟩ := List.mem_map.mp hx
  exact (h e (List.mem_filter.mp he).1).le

/-! ## Reading the texts of a stock -/

theorem texts_append (l₁ l₂ : List Entry) (i n : Int64) :
    texts (l₁ ++ (i, n) :: l₂) =
      flat (l₁.map text ++ (tostring (.int i), tostring (.int n)) :: l₂.map text) := by
  simp [texts, text]

theorem length_map_text (l : List Entry) : (l.map text).length = l.length := List.length_map _

/-- **The round trip**: what is stored of a list of entries is read back. -/
@[simp] theorem splitComma_join_texts (l : List Entry) : splitComma (join (texts l)) = texts l := by
  refine splitComma_join fun f hf => ?_
  obtain ⟨e, he, hf⟩ := mem_flat.mp hf
  obtain ⟨x, -, rfl⟩ := List.mem_map.mp he
  rcases hf with rfl | rfl
  · exact field_tostring _
  · exact field_tostring _

theorem find_none (h : ∀ e ∈ l, e.1 ≠ i) : find_materials i (texts l) = none := by
  refine firstKey_eq_none fun e he => ?_
  obtain ⟨x, hx, rfl⟩ := List.mem_map.mp he
  exact decide_eq_false fun heq => h x hx (tostring_int_injective heq)

theorem find_some (h : ∀ e ∈ l₁, e.1 ≠ i) :
    find_materials i (texts (l₁ ++ (i, n) :: l₂)) = some (2 * l₁.length) := by
  rw [texts_append, find_materials, firstKey_append, List.length_map]
  · intro e he
    obtain ⟨x, hx, rfl⟩ := List.mem_map.mp he
    exact decide_eq_false fun heq => h x hx (tostring_int_injective heq)
  · exact decide_eq_true rfl

theorem amount_texts : amount (texts (l₁ ++ (i, n) :: l₂)) (2 * l₁.length) = some (.int n) := by
  rw [texts_append, amount, ← length_map_text l₁, getElem?_value]
  exact tonumber_tostring_int n

theorem set_texts : (texts (l₁ ++ (i, n) :: l₂)).set (2 * l₁.length + 1) (tostring (.int m)) =
    texts (l₁ ++ (i, m) :: l₂) := by
  rw [texts_append, texts_append, ← length_map_text l₁, set_value]

theorem remove_texts : remove (texts (l₁ ++ (i, n) :: l₂)) (2 * l₁.length) = texts (l₁ ++ l₂) := by
  rw [texts_append, remove, ← length_map_text l₁, erase_pair, texts, List.map_append]

/-! ## Good lists stay good -/

theorem Good.perm (h : Good l₁) (hp : l₁.Perm l₂) : Good l₂ :=
  ⟨(hp.map _).nodup_iff.mp h.nodup, fun e he => h.pos e (hp.mem_iff.mpr he)⟩

theorem Good.set (h : Good (l₁ ++ (i, n) :: l₂)) (hm : 0 < m.toInt) :
    Good (l₁ ++ (i, m) :: l₂) := by
  refine ⟨by simpa using h.nodup, fun e he => ?_⟩
  rcases List.mem_append.mp he with he | he
  · exact h.pos e (List.mem_append_left _ he)
  · rcases List.mem_cons.mp he with rfl | he
    · exact hm
    · exact h.pos e (List.mem_append_right _ (List.mem_cons_of_mem _ he))

theorem Good.sublist (h : Good l₂) (hs : l₁.Sublist l₂) : Good l₁ :=
  ⟨h.nodup.sublist (hs.map _), fun e he => h.pos e (hs.subset he)⟩

theorem Good.remove (h : Good (l₁ ++ (i, n) :: l₂)) : Good (l₁ ++ l₂) :=
  h.sublist ((List.sublist_cons_self _ _).append_left _)

theorem Good.concat (h : Good l) (hi : ∀ e ∈ l, e.1 ≠ i) (hn : 0 < n.toInt) :
    Good (l ++ [(i, n)]) := by
  refine ⟨?_, fun e he => ?_⟩
  · rw [List.map_append, List.nodup_append]
    refine ⟨h.nodup, by simp, ?_⟩
    rintro a ha b hb rfl
    obtain ⟨e, he, rfl⟩ := List.mem_map.mp ha
    exact hi e he (by simpa using hb)
  · rcases List.mem_append.mp he with he | he
    · exact h.pos e he
    · rw [List.mem_singleton.mp he]
      exact hn

/-- **Where a cfgid is**: in the one list, in the other, or in none. -/
inductive Place (st : Stock) (i : Int64) : Prop
  | seen {l₁ l₂ : List Entry} {n : Int64} (heq : st.seen = l₁ ++ (i, n) :: l₂)
      (h₁ : ∀ e ∈ l₁, e.1 ≠ i) (h₂ : ∀ e ∈ l₂, e.1 ≠ i) (hf : ∀ e ∈ st.fresh, e.1 ≠ i)
  | fresh {l₁ l₂ : List Entry} {n : Int64} (heq : st.fresh = l₁ ++ (i, n) :: l₂)
      (h₁ : ∀ e ∈ l₁, e.1 ≠ i) (h₂ : ∀ e ∈ l₂, e.1 ≠ i) (hs : ∀ e ∈ st.seen, e.1 ≠ i)
  | none (hs : ∀ e ∈ st.seen, e.1 ≠ i) (hf : ∀ e ∈ st.fresh, e.1 ≠ i)

theorem Stock.place (st : Stock) (i : Int64) : Place st i := by
  have hn := st.good.nodup
  rw [List.map_append, List.nodup_append] at hn
  obtain ⟨hseen, hfresh, hdisj⟩ := hn
  rcases key_cases hseen i with hs | ⟨l₁, n, l₂, heq, h₁, h₂⟩
  · rcases key_cases hfresh i with hf | ⟨l₁, n, l₂, heq, h₁, h₂⟩
    · exact .none hs hf
    · exact .fresh heq h₁ h₂ hs
  · refine .seen heq h₁ h₂ fun e he hei => ?_
    exact hdisj i (by simp [heq]) e.1 (List.mem_map_of_mem he) hei.symm

/-! ## Adding -/

variable {known : Int64 → Bool}

theorem raise_texts (hn : 0 < n.toInt) (hm : 0 < m.toInt) (hfit : n.toInt + m.toInt ≤ 2 ^ 53) :
    raise (texts (l₁ ++ (i, n) :: l₂)) (2 * l₁.length) m =
      some (texts (l₁ ++ (i, n + m) :: l₂)) := by
  rw [raise, amount_texts, Option.map_some, Number.ceilSum_int, set_texts] <;> omega

theorem texts_concat (l : List Entry) (i n : Int64) :
    texts l ++ [tostring (.int i), tostring (.int n)] = texts (l ++ [(i, n)]) := by
  simp [texts, text]

/-- **The sum of an addition is exact**: nothing is added, or there is no entry to
add to, or the new total is one that doubles have. -/
def Exact (b : Bag) (cfgid number : Int64) : Prop :=
  0 < number.toInt → 0 < held b cfgid → held b cfgid + number.toInt ≤ 2 ^ 53

instance (b : Bag) (cfgid number : Int64) : Decidable (Exact b cfgid number) :=
  inferInstanceAs (Decidable (_ → _ → _))

/-- **An addition** raises the total of its cfgid and no other. -/
theorem add_spec (h : Spells b st) (hk : known i = true) (hn : 0 < n.toInt) (hfit : Exact b i n) :
    ∃ b' st', add known b i n = some (true, b') ∧ Spells b' st' ∧
      ∀ j, total (st'.seen ++ st'.fresh) j =
        total (st.seen ++ st.fresh) j + if i = j then n.toInt else 0 := by
  have hne : n ≠ 0 := by
    rintro rfl
    exact absurd hn (by decide)
  unfold Exact at hfit
  rw [h.held_eq] at hfit
  have hgood := st.good
  rw [add, if_neg (by omega), if_neg hne, if_pos hk, h.1, h.2]
  cases st.place i with
  | @seen l₁ l₂ m heq h₁ h₂ hf =>
    have hm : 0 < m.toInt := hgood.pos (i, m) (by simp [heq])
    have htotal : total (st.seen ++ st.fresh) i = m.toInt := by
      simp [heq, total_eq_zero h₁, total_eq_zero h₂, total_eq_zero hf]
    rw [htotal] at hfit
    have hle := hfit hn hm
    have hmn : (m + n).toInt = m.toInt + n.toInt := Number.toInt_add (by omega) (by omega)
    rw [heq]
    simp only [find_some h₁, raise_texts hm hn hle]
    rw [heq, List.append_assoc, List.cons_append] at hgood
    refine ⟨_, ⟨l₁ ++ (i, m + n) :: l₂, st.fresh, ?_⟩, rfl,
      ⟨splitComma_join_texts _, h.2⟩, fun j => ?_⟩
    · rw [List.append_assoc, List.cons_append]
      exact hgood.set (by omega)
    · simp only [total_append, total_cons, hmn]
      split <;> omega
  | @fresh l₁ l₂ m heq h₁ h₂ hs =>
    have hm : 0 < m.toInt := hgood.pos (i, m) (by simp [heq])
    have htotal : total (st.seen ++ st.fresh) i = m.toInt := by
      simp [heq, total_eq_zero h₁, total_eq_zero h₂, total_eq_zero hs]
    rw [htotal] at hfit
    have hle := hfit hn hm
    have hmn : (m + n).toInt = m.toInt + n.toInt := Number.toInt_add (by omega) (by omega)
    rw [find_none hs, heq]
    simp only [find_some h₁, raise_texts hm hn hle]
    rw [heq, ← List.append_assoc] at hgood
    refine ⟨_, ⟨st.seen, l₁ ++ (i, m + n) :: l₂, ?_⟩, rfl,
      ⟨h.1, splitComma_join_texts _⟩, fun j => ?_⟩
    · rw [← List.append_assoc]
      exact hgood.set (by omega)
    · simp only [total_append, total_cons, hmn]
      split <;> omega
  | none hs hf =>
    rw [find_none hs]
    simp only [find_none hf, texts_concat]
    refine ⟨_, ⟨st.seen, st.fresh ++ [(i, n)], ?_⟩, rfl,
      ⟨h.1, splitComma_join_texts _⟩, fun j => ?_⟩
    · rw [← List.append_assoc]
      refine hgood.concat (fun e he => ?_) hn
      rcases List.mem_append.mp he with he | he
      · exact hs e he
      · exact hf e he
    · simp only [total_append, total_cons, total_nil]
      omega

/-! ## Removing -/

/-- The entries with `m` left of the one between `l₁` and `l₂`. -/
def left (l₁ l₂ : List Entry) (i m : Int64) : List Entry :=
  if m = 0 then l₁ ++ l₂ else l₁ ++ (i, m) :: l₂

theorem leave_texts : leave (texts (l₁ ++ (i, n) :: l₂)) (2 * l₁.length) (.int m) =
    texts (left l₁ l₂ i m) := by
  unfold leave left
  simp only [Number.eq_int, decide_eq_true_eq]
  split
  · exact remove_texts
  · exact set_texts

theorem total_left (j : Int64) :
    total (left l₁ l₂ i m) j = total (l₁ ++ l₂) j + if i = j then m.toInt else 0 := by
  unfold left
  split
  · rename_i hm
    simp [hm]
  · simp only [total_append, total_cons]
    omega

theorem Good.left {a c : List Entry} (h : Good (a ++ (l₁ ++ (i, n) :: l₂) ++ c))
    (hm : 0 ≤ m.toInt) : Good (a ++ Items.left l₁ l₂ i m ++ c) := by
  have hassoc : ∀ x, a ++ (l₁ ++ x :: l₂) ++ c = a ++ l₁ ++ x :: (l₂ ++ c) := by
    intro x
    simp only [List.append_assoc, List.cons_append]
  rw [hassoc] at h
  unfold Items.left
  split
  · have := h.remove
    simpa only [List.append_assoc] using this
  · rename_i hne
    rw [hassoc]
    refine h.set ?_
    have : m.toInt ≠ 0 := fun h0 => hne (Int64.toInt_inj.mp h0)
    omega

/-- **A removal** answers no where there are too few. Otherwise it lowers
the total of its cfgid and no other. -/
theorem rem_spec (h : Spells b st) (hk : known i = true) (hn : 0 < n.toInt) :
    (held b i < n.toInt ∧ rem known b i n = some (false, b)) ∨
    (n.toInt ≤ held b i ∧ ∃ b' st', rem known b i n = some (true, b') ∧ Spells b' st' ∧
      ∀ j, total (st'.seen ++ st'.fresh) j =
        total (st.seen ++ st.fresh) j - if i = j then n.toInt else 0) := by
  have hne : n ≠ 0 := by
    rintro rfl
    exact absurd hn (by decide)
  rw [h.held_eq]
  have hgood := st.good
  have hsub : ∀ m : Int64, 0 < m.toInt → (m - n).toInt = m.toInt - n.toInt := by
    intro m hm
    have := Int64.toInt_lt m
    have := Int64.toInt_lt n
    exact Number.toInt_sub (by omega) (by omega)
  rw [rem, if_neg (by omega), if_neg hne, if_pos hk, h.1, h.2]
  cases st.place i with
  | @seen l₁ l₂ m heq h₁ h₂ hf =>
    have hm : 0 < m.toInt := hgood.pos (i, m) (by simp [heq])
    have htotal : total (st.seen ++ st.fresh) i = m.toInt := by
      simp [heq, total_eq_zero h₁, total_eq_zero h₂, total_eq_zero hf]
    rw [htotal, heq]
    simp only [find_some h₁, find_none hf, amount_texts, Option.map_some, Number.sub_int,
      Number.lt_int, Int64.toInt_zero, decide_eq_true_eq, hsub m hm, leave_texts]
    by_cases hlt : m.toInt < n.toInt
    · exact Or.inl ⟨hlt, by rw [if_pos (by omega)]⟩
    · rw [if_neg (by omega)]
      refine Or.inr ⟨by omega, _, ⟨left l₁ l₂ i (m - n), st.fresh, ?_⟩, rfl,
        ⟨splitComma_join_texts _, splitComma_join_texts _⟩, fun j => ?_⟩
      · rw [heq] at hgood
        exact Good.left (a := []) hgood (by rw [hsub m hm]; omega)
      · simp only [total_append, total_left, total_cons, hsub m hm]
        split <;> omega
  | @fresh l₁ l₂ m heq h₁ h₂ hs =>
    have hm : 0 < m.toInt := hgood.pos (i, m) (by simp [heq])
    have htotal : total (st.seen ++ st.fresh) i = m.toInt := by
      simp [heq, total_eq_zero h₁, total_eq_zero h₂, total_eq_zero hs]
    rw [htotal, heq]
    simp only [find_some h₁, find_none hs, amount_texts, Option.map_some, Number.sub_int,
      Number.lt_int, Int64.toInt_zero, decide_eq_true_eq, hsub m hm, leave_texts]
    by_cases hlt : m.toInt < n.toInt
    · exact Or.inl ⟨hlt, by rw [if_pos (by omega)]⟩
    · rw [if_neg (by omega)]
      refine Or.inr ⟨by omega, _, ⟨st.seen, left l₁ l₂ i (m - n), ?_⟩, rfl,
        ⟨splitComma_join_texts _, splitComma_join_texts _⟩, fun j => ?_⟩
      · rw [heq, ← List.append_nil (st.seen ++ _)] at hgood
        rw [← List.append_nil (st.seen ++ _)]
        exact hgood.left (by rw [hsub m hm]; omega)
      · simp only [total_append, total_left, total_cons, hsub m hm]
        split <;> omega
  | none hs hf =>
    refine Or.inl ⟨?_, ?_⟩
    · simpa [total_eq_zero hs, total_eq_zero hf] using hn
    · simp only [find_none hs, find_none hf]

/-! ## Matching -/

theorem any_eq_tostring (k : Int64) :
    ((tonumber (tostring (.int k))).any fun x => x.eq (.int i)) = decide (k = i) := by
  rw [tonumber_tostring_int, Option.any_some, Number.eq_int]

theorem sumnumber_texts (h : Good l) :
    ∃ x : Int64, sumnumber i (texts l) = some (.int x) ∧ x.toInt = total l i := by
  rcases key_cases h.nodup i with hnone | ⟨l₁, n, l₂, rfl, h₁, h₂⟩
  · refine ⟨0, ?_, ?_⟩
    · rw [sumnumber, texts, firstKey_eq_none]
      intro e he
      obtain ⟨x, hx, rfl⟩ := List.mem_map.mp he
      rw [text, any_eq_tostring, decide_eq_false (hnone x hx)]
    · rw [total_eq_zero hnone, Int64.toInt_zero]
  · refine ⟨n, ?_, ?_⟩
    · rw [sumnumber, texts_append, firstKey_append, ← texts_append, List.length_map]
      · exact amount_texts
      · intro e he
        obtain ⟨x, hx, rfl⟩ := List.mem_map.mp he
        rw [text, any_eq_tostring, decide_eq_false (h₁ x hx)]
      · rw [any_eq_tostring, decide_eq_true rfl]
    · simp [total_eq_zero h₁, total_eq_zero h₂]

/-- **Matching compares with the total.** -/
theorem matchnumber_spec (h : Spells b st) (hn : 0 < n.toInt) :
    matchnumber b i n = some (decide (n.toInt ≤ held b i)) := by
  have hne : n ≠ 0 := by
    rintro rfl
    exact absurd hn (by decide)
  obtain ⟨x, hx, hxt⟩ := sumnumber_texts (i := i) (st.good.sublist (List.sublist_append_left _ _))
  obtain ⟨y, hy, hyt⟩ := sumnumber_texts (i := i) (st.good.sublist (List.sublist_append_right _ _))
  -- one of the two is zero, so the sum fits
  have hsum : (x + y).toInt = x.toInt + y.toInt := by
    have hx0 := Int64.toInt_lt x
    have hy0 := Int64.toInt_lt y
    have hxn := total_nonneg (fun e he => st.good.pos e (List.mem_append_left _ he)) i
    have hyn := total_nonneg (fun e he => st.good.pos e (List.mem_append_right _ he)) i
    have hzero : x.toInt = 0 ∨ y.toInt = 0 := by
      rw [hxt, hyt]
      cases st.place i with
      | seen _ _ _ hf => exact Or.inr (total_eq_zero hf)
      | fresh _ _ _ hs => exact Or.inl (total_eq_zero hs)
      | none hs _ => exact Or.inl (total_eq_zero hs)
    exact Number.toInt_add (by omega) (by omega)
  rw [matchnumber, if_neg (by omega), if_neg hne, h.1, h.2, hx, hy, h.held_eq, total_append]
  simp only [Number.add_int, Number.le_int, hsum, hxt, hyt]

/-! ## Looking at new entries -/

variable {a c w : List Entry} {e : Entry} {m : List Str}

theorem moveFirst_texts (h : ∀ x ∈ a, x.1 ≠ e.1) :
    moveFirst (m, texts (a ++ e :: c)) (tostring (.int e.1)) = (m ++ texts [e], texts (a ++ c)) := by
  obtain ⟨k, v⟩ := e
  have hfind : firstKey (fun s => decide (s = tostring (.int k))) (texts (a ++ (k, v) :: c)) =
      some (2 * a.length) := find_some h
  have hkey : (texts (a ++ (k, v) :: c))[2 * a.length]? = some (tostring (.int k)) := by
    rw [texts_append, ← length_map_text a, getElem?_key]
  have hvalue : (texts (a ++ (k, v) :: c))[2 * a.length + 1]? = some (tostring (.int v)) := by
    rw [texts_append, ← length_map_text a, getElem?_value]
  simp only [moveFirst, hfind, hkey, hvalue, remove_texts]
  simp [texts, text]

/-- The outer loop moves the entries one by one, each from where the ones
before it were. -/
theorem foldl_moveFirst (h : ((a ++ w ++ c).map Prod.fst).Nodup) :
    (w.map fun e => tostring (.int e.1)).foldl moveFirst (m, texts (a ++ w ++ c)) =
      (m ++ texts w, texts (a ++ c)) := by
  induction w generalizing m with
  | nil => simp [texts]
  | cons e w ih =>
    have hne : ∀ x ∈ a, x.1 ≠ e.1 := by
      intro x hx heq
      simp only [List.append_assoc, List.map_append, List.nodup_append] at h
      exact h.2.2 x.1 (List.mem_map_of_mem hx) e.1 (by simp) heq
    have hrest : ((a ++ w ++ c).map Prod.fst).Nodup := by
      refine h.sublist (List.Sublist.map _ ?_)
      rw [List.append_assoc, List.append_assoc]
      exact (List.sublist_cons_self _ _).append_left _
    rw [List.map_cons, List.foldl_cons, List.append_assoc, List.cons_append, moveFirst_texts hne,
      ← List.append_assoc, ih hrest]
    simp [texts, text]

theorem map_fst_texts (l : List Entry) :
    (l.map text).map Prod.fst = l.map fun e => tostring (.int e.1) := by
  rw [List.map_map]
  rfl

/-- **A look at new entries** moves the ones of the window, in their order,
to the end of the others. -/
theorem update_info_spec {beginindex endindex : Int64} (h : Spells b st)
    (hb : -2 ^ 62 < beginindex.toInt ∧ beginindex.toInt ≤ 2 ^ 62)
    (he : -2 ^ 62 ≤ endindex.toInt ∧ endindex.toInt < 2 ^ 62) :
    splitComma (update_info b beginindex endindex).seen =
        texts (st.seen ++ window st.fresh beginindex.toInt endindex.toInt) ∧
      splitComma (update_info b beginindex endindex).fresh =
        texts (outside st.fresh beginindex.toInt endindex.toInt) := by
  -- the product may wrap around, the difference comes back
  have hstart : (beginindex * 2 - 1).toInt = 2 * beginindex.toInt - 1 := by
    rw [Int64.toInt_sub, Int64.toInt_mul, Int.bmod_sub_bmod]
    exact (Int.bmod_eq_of_le (by simp; omega) (by simp; omega)).trans (by simp; omega)
  have hlimit : (endindex * 2).toInt = 2 * endindex.toInt := by
    rw [Number.toInt_mul] <;> simp <;> omega
  have hkeys : (oddPlaces (beginindex * 2 - 1).toInt
      (min (endindex * 2).toInt (texts st.fresh).length)).filterMap (entry (texts st.fresh)) =
      (window st.fresh beginindex.toInt endindex.toInt).map fun e => tostring (.int e.1) := by
    rw [hstart, hlimit, texts, filterMap_oddPlaces, window_map, map_fst_texts]
  have hnodup : (st.fresh.map Prod.fst).Nodup :=
    (st.good.sublist (List.sublist_append_right _ _)).nodup
  have hmove := foldl_moveFirst (m := texts st.seen)
    (a := st.fresh.take (beginindex.toInt - 1).toNat)
    (w := window st.fresh beginindex.toInt endindex.toInt)
    (c := st.fresh.drop (max (beginindex.toInt - 1).toNat endindex.toInt.toNat))
    (by rwa [window_split])
  rw [window_split] at hmove
  unfold update_info
  simp only [h.2, h.1]
  split
  · rename_i hnil
    have hfresh : st.fresh = [] := by
      rw [← entries_texts st.fresh, hnil]
      rfl
    constructor
    · rw [h.1, hfresh]
      simp [window]
    · rw [h.2, hfresh]
      simp [outside]
  · rw [hkeys, hmove]
    constructor
    · have : texts st.seen ++ texts (window st.fresh beginindex.toInt endindex.toInt) =
          texts (st.seen ++ window st.fresh beginindex.toInt endindex.toInt) := by
        simp [texts]
      rw [this, splitComma_join_texts]
    · exact splitComma_join_texts _

/-! ## Sound lists -/

theorem Sound.even (h : Sound b) :
    2 ∣ (splitComma b.seen).length ∧ 2 ∣ (splitComma b.fresh).length := by
  obtain ⟨st, hseen, hfresh⟩ := h
  rw [hseen, hfresh]
  simp [texts]

/-- What is known of a request on one kind: it keeps the lists sound, and
changes them only with a yes, when the total of the cfgid moves by
`d`. -/
structure Moves (b : Bag) (i : Int64) (d : ℤ) (ok : Bool) (b' : Bag) : Prop where
  sound : Sound b'
  unchanged : ok = false → b' = b
  held : ok = true → ∀ j, held b' j = held b j + if i = j then d else 0

theorem Moves.of_spells {st' : Stock} {b' : Bag} {d : ℤ} (h : Spells b st) (h' : Spells b' st')
    (ht : ∀ j, total (st'.seen ++ st'.fresh) j =
      total (st.seen ++ st.fresh) j + if i = j then d else 0) : Moves b i d true b' := by
  refine ⟨⟨st', h'⟩, fun hf => (Bool.noConfusion hf), fun _ j => ?_⟩
  rw [h.held_eq, h'.held_eq, ht]

theorem Moves.refl (h : Sound b) {ok : Bool} {d : ℤ} (hd : ok = true → d = 0) :
    Moves b i d ok b := by
  refine ⟨h, fun _ => rfl, fun hok j => ?_⟩
  rw [hd hok]
  simp

theorem add_moves (known : Int64 → Bool) (h : Sound b) (hfit : Exact b i n) :
    ∃ ok b', add known b i n = some (ok, b') ∧ Moves b i n.toInt ok b' := by
  by_cases hneg : n.toInt < 0
  · exact ⟨false, b, if_pos hneg, .refl h nofun⟩
  · by_cases hzero : n = 0
    · refine ⟨true, b, (if_neg hneg).trans (if_pos hzero), .refl h fun _ => ?_⟩
      rw [hzero, Int64.toInt_zero]
    · by_cases hk : known i = true
      · have hpos : 0 < n.toInt := by
          have : n.toInt ≠ 0 := fun h0 => hzero (Int64.toInt_inj.mp h0)
          omega
        obtain ⟨st, hst⟩ := h
        obtain ⟨b', st', hadd, hst', htotal⟩ := add_spec hst hk hpos hfit
        exact ⟨true, b', hadd, .of_spells hst hst' htotal⟩
      · refine ⟨false, b, ?_, .refl h nofun⟩
        rw [add, if_neg hneg, if_neg hzero, if_neg hk]

theorem rem_moves (known : Int64 → Bool) (i n : Int64) (h : Sound b) :
    ∃ ok b', rem known b i n = some (ok, b') ∧ Moves b i (-n.toInt) ok b' := by
  by_cases hneg : n.toInt < 0
  · exact ⟨false, b, if_pos hneg, .refl h nofun⟩
  · by_cases hzero : n = 0
    · refine ⟨true, b, (if_neg hneg).trans (if_pos hzero), .refl h fun _ => ?_⟩
      rw [hzero, Int64.toInt_zero, neg_zero]
    · by_cases hk : known i = true
      · have hpos : 0 < n.toInt := by
          have : n.toInt ≠ 0 := fun h0 => hzero (Int64.toInt_inj.mp h0)
          omega
        obtain ⟨st, hst⟩ := h
        rcases rem_spec hst hk hpos with ⟨-, hrem⟩ | ⟨-, b', st', hrem, hst', htotal⟩
        · exact ⟨false, b, hrem, .refl ⟨st, hst⟩ nofun⟩
        · refine ⟨true, b', hrem, .of_spells hst hst' fun j => ?_⟩
          rw [htotal]
          split <;> omega
      · refine ⟨false, b, ?_, .refl h nofun⟩
        rw [rem, if_neg hneg, if_neg hzero, if_neg hk]

/-- **Matching says whether a removal would succeed.** -/
theorem matchnumber_iff (h : Sound b) (hk : known i = true) :
    matchnumber b i n = some true ↔ ∃ b', rem known b i n = some (true, b') := by
  by_cases hneg : n.toInt < 0
  · simp [matchnumber, rem, hneg]
  · by_cases hzero : n = 0
    · subst hzero
      simp [matchnumber, rem]
    · have hpos : 0 < n.toInt := by
        have : n.toInt ≠ 0 := fun h0 => hzero (Int64.toInt_inj.mp h0)
        omega
      obtain ⟨st, hst⟩ := h
      rw [matchnumber_spec hst hpos, Option.some_inj, decide_eq_true_eq]
      rcases rem_spec hst hk hpos with ⟨hlt, hrem⟩ | ⟨hle, b', -, hrem, -⟩
      · constructor
        · intro hle
          omega
        · rintro ⟨b', hb'⟩
          rw [hrem] at hb'
          cases hb'
      · exact ⟨fun _ => ⟨b', hrem⟩, fun _ => hle⟩

/-- What a look at new entries moves: a window of them. -/
def Looked (b b' : Bag) (first last : ℤ) : Prop :=
  entries (splitComma b'.seen) =
      entries (splitComma b.seen) ++ window (entries (splitComma b.fresh)) first last ∧
    entries (splitComma b'.fresh) = outside (entries (splitComma b.fresh)) first last

theorem update_info_looked {beginindex endindex : Int64} (h : Sound b)
    (hb : -2 ^ 62 < beginindex.toInt ∧ beginindex.toInt ≤ 2 ^ 62)
    (he : -2 ^ 62 ≤ endindex.toInt ∧ endindex.toInt < 2 ^ 62) :
    Sound (update_info b beginindex endindex) ∧
      (∀ j, held (update_info b beginindex endindex) j = held b j) ∧
      Looked b (update_info b beginindex endindex) beginindex.toInt endindex.toInt := by
  obtain ⟨st, hst⟩ := h
  have hspec := update_info_spec hst hb he
  have hperm : (st.seen ++ window st.fresh beginindex.toInt endindex.toInt ++
      outside st.fresh beginindex.toInt endindex.toInt).Perm (st.seen ++ st.fresh) := by
    rw [List.append_assoc]
    exact (List.perm_append_comm.trans (window_perm _ _ _)).append_left _
  have hst' : Spells (update_info b beginindex endindex)
      ⟨_, outside st.fresh beginindex.toInt endindex.toInt, st.good.perm hperm.symm⟩ := hspec
  refine ⟨⟨_, hst'⟩, fun j => ?_, ?_⟩
  · rw [hst.held_eq, hst'.held_eq, total_perm hperm]
  · simp only [Looked, hspec.1, hspec.2, hst.1, hst.2, entries_texts, and_self]

end

/-! ## Every run -/

/-- What a yes to a request adds to the total of a cfgid. -/
def Request.change (r : Request) (k : Kind) (i : Int64) : ℤ :=
  match r with
  | .addmaterials cfgid number => if k = .material ∧ cfgid = i then number.toInt else 0
  | .remmaterials cfgid number => if k = .material ∧ cfgid = i then -number.toInt else 0
  | .addprop cfgid number => if k = .prop ∧ cfgid = i then number.toInt else 0
  | .remprop cfgid number => if k = .prop ∧ cfgid = i then -number.toInt else 0
  | .updatenew _ _ _ => 0

/-- The arithmetic of a request is exact: the new total of an addition is one that
doubles have, and the places of the entries of a window are integers. -/
def Fits (s : State) : Request → Prop
  | .addmaterials cfgid number => Exact (s .material) cfgid number
  | .addprop cfgid number => Exact (s .prop) cfgid number
  | .updatenew _ (some b) (some e) =>
    -2 ^ 62 < b.toInt ∧ b.toInt ≤ 2 ^ 62 ∧ (lastindex b e).toInt < 2 ^ 62
  | _ => True

/-- The window a request asks for is what it moves, of the kind it asks
for. -/
def Request.Window (r : Request) (s t : State) : Prop :=
  match r with
  | .updatenew (some i) (some b) (some e) =>
    ∀ k, if i = k.warehousetype then Looked (s k) (t k) b.toInt (lastindex b e).toInt else t k = s k
  | _ => True

/-- **What is asked of the answer to a request.** -/
structure Accounted (s : State) (r : Request) (ok : Bool) (t : State) : Prop where
  unchanged : ok = false → t = s
  held : ok = true → ∀ k i, held (t k) i = held (s k) i + r.change k i
  window : ok = true → r.Window s t

variable (known : Kind → Int64 → Bool)

/-- A request on one kind leaves the other alone. -/
theorem on_accounted {s : State} (hs : ∀ k, Sound (s k)) {k : Kind} {i : Int64} {d : ℤ}
    {r : Option (Bool × Bag)} {ok : Bool} {b : Bag} (hr : r = some (ok, b))
    (h : Moves (s k) i d ok b) :
    on s k r = some (ok, Function.update s k b) ∧ (∀ k', Sound (Function.update s k b k')) ∧
      (ok = false → Function.update s k b = s) ∧
      (ok = true → ∀ k' j, Items.held (Function.update s k b k') j =
        Items.held (s k') j + if k' = k ∧ i = j then d else 0) := by
  refine ⟨by rw [hr]; rfl, fun k' => ?_, fun hok => ?_, fun hok k' j => ?_⟩
  · by_cases hk : k' = k
    · rw [hk, Function.update_self]
      exact h.sound
    · rw [Function.update_of_ne hk]
      exact hs k'
  · rw [h.unchanged hok, Function.update_eq_self]
  · by_cases hk : k' = k
    · rw [hk, Function.update_self, h.held hok]
      simp
    · rw [Function.update_of_ne hk]
      simp [hk]

theorem lastindex_ge {b e : Int64} (hb : -2 ^ 62 < b.toInt) : -2 ^ 62 ≤ (lastindex b e).toInt := by
  unfold lastindex
  split
  · decide
  · omega

/-- `updatenew` moves the window of its kind. -/
theorem updatenew_accounted {s : State} (hs : ∀ k, Sound (s k)) {index b e : Int64}
    (hfit : Fits s (.updatenew (some index) (some b) (some e))) :
    (∀ k, Sound ((updatenew s (some index) (some b) (some e)).2 k)) ∧
      Accounted s (.updatenew (some index) (some b) (some e))
        (updatenew s (some index) (some b) (some e)).1
        (updatenew s (some index) (some b) (some e)).2 := by
  obtain ⟨hb₁, hb₂, he⟩ := hfit
  have hlook := fun k => update_info_looked (hs k) ⟨hb₁, hb₂⟩ ⟨lastindex_ge hb₁, he⟩
  simp only [updatenew]
  split
  · exact ⟨hs, fun _ => rfl, nofun, nofun⟩
  · refine ⟨fun k => ?_, nofun, fun _ k j => ?_, fun _ k => ?_⟩
    · dsimp only
      split
      · exact (hlook k).1
      · exact hs k
    · dsimp only [Request.change]
      split
      · rw [(hlook k).2.1, add_zero]
      · rw [add_zero]
    · dsimp only
      split
      · exact (hlook k).2.2
      · rfl

/-- **One request** on sound lists is answered, keeps them sound and is
accounted for. -/
theorem serve_accounted {s : State} (hs : ∀ k, Sound (s k)) {r : Request} (hfit : Fits s r) :
    ∃ ok t, serve known s r = some (ok, t) ∧ (∀ k, Sound (t k)) ∧ Accounted s r ok t := by
  have hrefused : ∀ index b e, updatenew s index b e = (false, s) →
      ∃ ok t, serve known s (.updatenew index b e) = some (ok, t) ∧ (∀ k, Sound (t k)) ∧
        Accounted s (.updatenew index b e) ok t := fun index b e h =>
    ⟨false, s, congrArg some h, hs, fun _ => rfl, nofun, nofun⟩
  cases r with
  | addmaterials cfgid number =>
    obtain ⟨ok, b, hr, hm⟩ := add_moves (known .material) (hs .material) hfit
    obtain ⟨h, hsound, hno, hyes⟩ := on_accounted hs hr hm
    exact ⟨ok, _, h, hsound, hno, hyes, fun _ => trivial⟩
  | remmaterials cfgid number =>
    obtain ⟨ok, b, hr, hm⟩ := rem_moves (known .material) cfgid number (hs .material)
    obtain ⟨h, hsound, hno, hyes⟩ := on_accounted hs hr hm
    exact ⟨ok, _, h, hsound, hno, hyes, fun _ => trivial⟩
  | addprop cfgid number =>
    obtain ⟨ok, b, hr, hm⟩ := add_moves (known .prop) (hs .prop) hfit
    obtain ⟨h, hsound, hno, hyes⟩ := on_accounted hs hr hm
    exact ⟨ok, _, h, hsound, hno, hyes, fun _ => trivial⟩
  | remprop cfgid number =>
    obtain ⟨ok, b, hr, hm⟩ := rem_moves (known .prop) cfgid number (hs .prop)
    obtain ⟨h, hsound, hno, hyes⟩ := on_accounted hs hr hm
    exact ⟨ok, _, h, hsound, hno, hyes, fun _ => trivial⟩
  | updatenew index b e =>
    obtain _ | index := index
    · exact hrefused _ _ _ rfl
    · obtain _ | b := b
      · exact hrefused _ _ _ rfl
      · obtain _ | e := e
        · exact hrefused _ _ _ rfl
        · exact ⟨_, _, rfl, updatenew_accounted hs hfit⟩

/-- The requests of a run whose arithmetic is exact. -/
def fitting : System State (Request × Bool) := (system known).restrict fun s l => Fits s l.1

/-- Sound lists stay sound. -/
theorem sound_of_path {s t : State} {labels : List (Request × Bool)}
    (h : (fitting known).Path s labels t) (hs : ∀ k, Sound (s k)) : ∀ k, Sound (t k) := by
  refine h.invariant (P := fun s => ∀ k, Sound (s k)) (fun s l t hstep hs => ?_) hs
  obtain ⟨ok, t', hserve, hsound, -⟩ := serve_accounted known hs hstep.2
  have heq : some (l.2, t) = some (ok, t') := hstep.1.symm.trans hserve
  cases heq
  exact hsound

/-- **The accounts of materials and props.** After every run from sound
lists they are sound, each request is accounted for, and matching says
whether a removal would succeed. -/
theorem accounts {s t : State} {labels : List (Request × Bool)}
    (h : (fitting known).Path s labels t) (hs : ∀ k, Sound (s k)) :
    (∀ k, Sound (t k)) ∧
    (∀ r, Fits t r → ∃ ok u, serve known t r = some (ok, u) ∧ Accounted t r ok u) ∧
    (∀ cfgid number, known .material cfgid = true →
      (matchmaterial t cfgid number = some true ↔
        ∃ u, remmaterials known t cfgid number = some (true, u))) ∧
    (∀ cfgid number, known .prop cfgid = true →
      (matchprop t cfgid number = some true ↔
        ∃ u, remprop known t cfgid number = some (true, u))) := by
  have hsound := sound_of_path known h hs
  have hmatch : ∀ k cfgid number, known k cfgid = true →
      (matchnumber (t k) cfgid number = some true ↔
        ∃ u, on t k (rem (known k) (t k) cfgid number) = some (true, u)) := by
    intro k cfgid number hk
    rw [matchnumber_iff (hsound k) hk]
    constructor
    · rintro ⟨b, hb⟩
      exact ⟨_, by rw [hb]; rfl⟩
    · rintro ⟨u, hu⟩
      obtain ⟨⟨ok, b⟩, hb, heq⟩ := Option.map_eq_some_iff.mp hu
      cases heq
      exact ⟨b, hb⟩
  refine ⟨hsound, fun r hfit => ?_, hmatch .material, hmatch .prop⟩
  obtain ⟨ok, u, hserve, -, hacc⟩ := serve_accounted known hsound hfit
  exact ⟨ok, u, hserve, hacc⟩

/-- A player with materials and no props. -/
def chest (seen fresh : String) : State :=
  Function.update (fun _ => ⟨[], []⟩) .material ⟨seen.toList, fresh.toList⟩

theorem good_chest : Good ([(1, 5)] ++ [(2, 7), (3, 1)]) where
  nodup := by decide
  pos e he := by
    simp only [List.cons_append, List.nil_append, List.mem_cons, List.not_mem_nil, or_false] at he
    obtain rfl | rfl | rfl := he <;> decide

/-- More of an old material, a new one, a removal that ends an entry, a look at the first
new entry and a removal of more than there is. -/
theorem accounts_chest :
    let t := chest "1,8,3,1" "4,2"
    (∀ k, Sound (t k)) ∧
    (∃ ok u, serve (fun _ _ => true) t (.remmaterials 1 8) = some (ok, u) ∧
      Accounted t (.remmaterials 1 8) ok u) ∧
    (matchmaterial t 1 9 = some true ↔
      ∃ u, remmaterials (fun _ _ => true) t 1 9 = some (true, u)) := by
  intro t
  have hadd : ∀ (a b c d : String) (i n : Int64),
      add (fun _ => true) ⟨a.toList, b.toList⟩ i n = some (true, ⟨c.toList, d.toList⟩) →
      serve (fun _ _ => true) (chest a b) (.addmaterials i n) = some (true, chest c d) := by
    intro a b c d i n hr
    simp only [serve, addmaterials, chest, Function.update_self, hr, on, Option.map_some,
      Function.update_idem]
  have hrem : ∀ (a b c d : String) (i n : Int64) (ok : Bool),
      rem (fun _ => true) ⟨a.toList, b.toList⟩ i n = some (ok, ⟨c.toList, d.toList⟩) →
      serve (fun _ _ => true) (chest a b) (.remmaterials i n) = some (ok, chest c d) := by
    intro a b c d i n ok hr
    simp only [serve, remmaterials, chest, Function.update_self, hr, on, Option.map_some,
      Function.update_idem]
  have hlook : updatenew (chest "1,8" "3,1,4,2") (some 7) (some 1) (some 1) = (true, t) := by
    refine Prod.ext rfl (funext fun k => ?_)
    cases k <;> decide +kernel
  have hsound : ∀ k, Sound (chest "1,5" "2,7,3,1" k) := by
    intro k
    cases k with
    | material => exact ⟨⟨[(1, 5)], [(2, 7), (3, 1)], good_chest⟩, by decide +kernel, by decide +kernel⟩
    | prop => exact ⟨⟨[], [], ⟨by simp, by simp⟩⟩, rfl, rfl⟩
  have h1 : (fitting fun _ _ => true).step (chest "1,5" "2,7,3,1") (.addmaterials 1 3, true)
      (chest "1,8" "2,7,3,1") :=
    ⟨hadd _ _ _ _ _ _ (by decide +kernel),
      (by decide +kernel : Exact (chest "1,5" "2,7,3,1" .material) 1 3)⟩
  have h2 : (fitting fun _ _ => true).step (chest "1,8" "2,7,3,1") (.addmaterials 4 2, true)
      (chest "1,8" "2,7,3,1,4,2") :=
    ⟨hadd _ _ _ _ _ _ (by decide +kernel),
      (by decide +kernel : Exact (chest "1,8" "2,7,3,1" .material) 4 2)⟩
  have h3 : (fitting fun _ _ => true).step (chest "1,8" "2,7,3,1,4,2") (.remmaterials 2 7, true)
      (chest "1,8" "3,1,4,2") :=
    ⟨hrem _ _ _ _ _ _ _ (by decide +kernel), trivial⟩
  have h4 : (fitting fun _ _ => true).step (chest "1,8" "3,1,4,2")
      (.updatenew (some 7) (some 1) (some 1), true) t :=
    ⟨congrArg some hlook, (by decide : -2 ^ 62 < (1 : Int64).toInt ∧ (1 : Int64).toInt ≤ 2 ^ 62 ∧
      (lastindex 1 1).toInt < 2 ^ 62)⟩
  have h5 : (fitting fun _ _ => true).step t (.remmaterials 1 9, false) t :=
    ⟨hrem _ _ _ _ _ _ _ (by decide +kernel), trivial⟩
  have h := accounts (fun _ _ => true)
    (.cons h1 (.cons h2 (.cons h3 (.cons h4 (.cons h5 (.nil t)))))) hsound
  exact ⟨h.1, h.2.1 _ trivial, h.2.2.1 1 9 rfl⟩

/-- A window from the second entry to the first has no entry. It is read
as one to the end, and the second entry moves. One more of a number that doubles do not
have makes one less. -/
theorem accounts_beyond :
    window (entries (splitComma "1,5,2,7".toList)) 2 1 = [] ∧
    (updatenew (fun _ => ⟨[], "1,5,2,7".toList⟩) (some 7) (some 2) (some 1)).1 = true ∧
    (updatenew (fun _ => ⟨[], "1,5,2,7".toList⟩) (some 7) (some 2) (some 1)).2 .material =
      ⟨"2,7".toList, "1,5".toList⟩ ∧
    add (fun _ => true) ⟨[], "1,9007199254740993".toList⟩ 1 1 =
      some (true, ⟨[], "1,9007199254740992".toList⟩) ∧
    held ⟨[], "1,9007199254740992".toList⟩ 1 ≠
      held ⟨[], "1,9007199254740993".toList⟩ 1 + 1 := by
  decide +kernel

end Items

end Warehouse

end Athena
