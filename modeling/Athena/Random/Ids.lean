import Athena.Random.Model
import Mathlib.Algebra.Order.BigOperators.Group.List
/-!
# Random numbers — items chosen by their rates

`GetIds` looks for each item from the first cell on, where the items that it picked
before still are. It never picks a cell twice for what it gives, but the item that it
exchanges is the one that the rates of those that are left ask for only where the number
passes what was picked, and no sum of their rates is just below it.
-/

namespace Athena

namespace Random

open Shuffle (exchange leave swapped)

/-! ## Sums of rates -/

/-- The sum of the rates. -/
def total (r : List Item) : ℚ := (r.map Item.rate).sum

/-- Every rate is positive. -/
def Positive (r : List Item) : Prop := ∀ a ∈ r, 0 < a.rate

@[simp] theorem total_nil : total [] = 0 := rfl

@[simp] theorem total_cons (a : Item) (r : List Item) : total (a :: r) = a.rate + total r := by
  simp [total]

@[simp] theorem total_append (p r : List Item) : total (p ++ r) = total p + total r := by
  simp [total]

theorem total_perm {r r' : List Item} (h : r.Perm r') : total r = total r' :=
  (h.map Item.rate).sum_eq

theorem Positive.perm {r r' : List Item} (hr : Positive r) (h : r'.Perm r) : Positive r' :=
  fun a ha => hr a (h.mem_iff.1 ha)

theorem total_nonneg {r : List Item} (h : Positive r) : 0 ≤ total r := by
  refine List.sum_nonneg fun q hq => ?_
  obtain ⟨a, ha, rfl⟩ := List.mem_map.1 hq
  exact (h a ha).le

/-- The sums grow. -/
theorem total_take_le {r : List Item} (h : Positive r) {d e : ℕ} (hde : d ≤ e) :
    total (r.take d) ≤ total (r.take e) := by
  obtain ⟨c, rfl⟩ := Nat.exists_eq_add_of_le hde
  rw [List.take_add, total_append]
  have := total_nonneg (r := (r.drop d).take c) fun a ha => h a (List.mem_of_mem_drop (List.mem_of_mem_take ha))
  linarith

/-! ## The search -/

/-- **The first item at which the rates reach `y`.** -/
structure First (y : ℚ) (r : List Item) (d : ℕ) : Prop where
  lt : d < r.length
  reaches : y ≤ total (r.take (d + 1))
  below : ∀ e < d, total (r.take (e + 1)) < y

theorem first_cons {y : ℚ} {a : Item} {r : List Item} {d : ℕ} (h : a.rate < y) :
    First y (a :: r) (d + 1) ↔ First (y - a.rate) r d := by
  constructor
  · rintro ⟨h1, h2, h3⟩
    refine ⟨by simpa using h1, ?_, fun e he => ?_⟩
    · rw [List.take_succ_cons, total_cons] at h2
      linarith
    · have := h3 (e + 1) (by omega)
      rw [List.take_succ_cons, total_cons] at this
      linarith
  · rintro ⟨h1, h2, h3⟩
    refine ⟨by simpa using h1, ?_, fun e he => ?_⟩
    · rw [List.take_succ_cons, total_cons]
      linarith
    · cases e with
      | zero => simpa using h
      | succ e =>
        have := h3 e (by omega)
        rw [List.take_succ_cons, total_cons]
        linarith

theorem reach_iff {x rate : ℚ} {t : List Item} {n : ℕ} :
    reach x rate t = some n ↔ First (x - rate) t n := by
  induction t generalizing rate n with
  | nil => simp only [reach, reduceCtorEq, false_iff]; exact fun h => absurd h.lt (Nat.not_lt_zero _)
  | cons a t ih =>
    simp only [reach]
    by_cases hx : x ≤ rate + a.rate
    · rw [if_pos hx, Option.some_inj]
      constructor
      · rintro rfl
        exact ⟨by simp, by simp; linarith, fun e he => absurd he (Nat.not_lt_zero _)⟩
      · intro h
        rcases Nat.eq_zero_or_pos n with rfl | hn
        · rfl
        · have := h.below 0 hn
          simp at this
          linarith
    · rw [if_neg hx]
      cases n with
      | zero =>
        constructor
        · intro h
          cases hr : reach x (rate + a.rate) t <;> simp [hr] at h
        · intro h
          have := h.reaches
          simp at this
          linarith
      | succ n =>
        rw [first_cons (by linarith), sub_sub, ← ih]
        simp

theorem First.unique {y : ℚ} {r : List Item} {d e : ℕ} (h : First y r d) (h' : First y r e) : d = e := by
  rcases Nat.lt_trichotomy d e with hde | hde | hde
  · exact absurd (h'.below d hde) (not_lt.2 h.reaches)
  · exact hde
  · exact absurd (h.below e hde) (not_lt.2 h'.reaches)

theorem exists_first {y : ℚ} {r : List Item} (hne : r ≠ []) (hy : y ≤ total r) : ∃ d, First y r d := by
  induction r generalizing y with
  | nil => exact absurd rfl hne
  | cons a r ih =>
    by_cases ha : y ≤ a.rate
    · exact ⟨0, by simp, by simpa using ha, fun e he => absurd he (Nat.not_lt_zero _)⟩
    · rw [total_cons] at hy
      have hr : r ≠ [] := by
        rintro rfl
        rw [total_nil, add_zero] at hy
        exact ha hy
      obtain ⟨d, hd⟩ := ih hr (show y - a.rate ≤ total r by linarith)
      exact ⟨d + 1, (first_cons (not_le.1 ha)).2 hd⟩

/-- Behind items that are passed the search goes on with what is left of `y`. -/
theorem first_append {y : ℚ} {p : List Item} (hp : Positive p) (r : List Item) (d : ℕ) :
    First y (p ++ r) (p.length + d) ↔ (p = [] ∨ total p < y) ∧ First (y - total p) r d := by
  induction p generalizing y with
  | nil => simp
  | cons a p ih =>
    have ha : 0 < a.rate := hp a List.mem_cons_self
    have hp' : Positive p := fun b hb => hp b (List.mem_cons_of_mem a hb)
    have hnonneg := total_nonneg hp'
    rw [List.cons_append, List.length_cons, show p.length + 1 + d = p.length + d + 1 by omega]
    by_cases hay : a.rate < y
    · have htotal : p = [] ∨ total p < y - a.rate ↔ a :: p = [] ∨ total (a :: p) < y := by
        rw [total_cons]
        constructor
        · rintro (rfl | h)
          · right
            simpa using hay
          · right
            linarith
        · rintro (h | h)
          · simp at h
          · right
            linarith
      rw [first_cons hay, ih hp', htotal, total_cons, sub_sub]
    · constructor
      · intro h
        have := h.below 0 (by omega)
        simp at this
        exact absurd this hay
      · rintro ⟨h | h, -⟩
        · simp at h
        · rw [total_cons] at h
          linarith

/-- **When the search from the first cell on finds the item that is asked for**: `p` are
the items that are picked and `r` those that are left. -/
theorem first_append_iff {y : ℚ} {p r : List Item} (hp : Positive p) (hr : Positive r) {d : ℕ}
    (h : First y r d) :
    First y (p ++ r) (p.length + d) ↔
      (p = [] ∨ total p < y) ∧ ∀ e, total (r.take e) < y → total p + total (r.take e) < y := by
  rw [first_append hp]
  refine and_congr_right fun hpy => ⟨fun h' e he => ?_, fun h' => ⟨h.lt, ?_, fun e he => ?_⟩⟩
  · cases e with
    | zero =>
      rcases hpy with rfl | hpy
      · simpa using he
      · simpa using hpy
    | succ e =>
      have hed : e < d := by
        by_contra hde
        have hle := total_take_le hr (show d + 1 ≤ e + 1 by omega)
        linarith [h.reaches]
      have := h'.below e hed
      linarith
  · have := total_nonneg hp
    linarith [h.reaches]
  · have := h' (e + 1) (h.below e he)
    linarith

/-! ## The turns -/

/-- The numbers of `k` calls of `Random.Get`. -/
def gets (random : ℕ → Draw) : ℕ → State → List Draw
  | 0, _ => []
  | k + 1, s => (Get random s).1 :: gets random k (Get random s).2

/-- The turns of `GetIds` for the numbers `xs`, where `i` items are picked. -/
def turns : List Draw → ℕ → ℚ → List Item → Option (List Item)
  | [], _, _, t => some t
  | x :: xs, i, rate_left, t => (choose x (i + 1) rate_left t).bind fun (t, rate_left) => turns xs (i + 1) rate_left t

theorem choices_fst (random : ℕ → Draw) (left i : ℕ) (rate_left : ℚ) (t : List Item) (s : State) :
    (choices random left (i + 1) rate_left t s).1 = turns (gets random left s) i rate_left t := by
  induction left generalizing i rate_left t s with
  | zero => rfl
  | succ left ih =>
    simp only [choices, gets, turns]
    cases choose (Get random s).1 (i + 1) rate_left t with
    | none => rfl
    | some p => exact ih ..

theorem length_gets (random : ℕ → Draw) (k : ℕ) (s : State) : (gets random k s).length = k := by
  induction k generalizing s with
  | zero => rfl
  | succ k ih => simp [gets, ih]

/-- **In every turn the item is picked that the rates ask for**: of the items that are
left, in their order, the first at which their rates reach the number's part of them. -/
def Picks : List Draw → ℕ → ℚ → List Item → Prop
  | [], _, _, _ => True
  | x :: xs, i, rate_left, t =>
    ∃ d t' rate_left', First (x.1 * total (t.drop i)) (t.drop i) d ∧
      reach (x.1 * rate_left) 0 t = some (i + d) ∧ choose x (i + 1) rate_left t = some (t', rate_left') ∧
      Picks xs (i + 1) rate_left' t'

/-- **The condition**, along the turns as they should be: `p` are the items that are picked
and `r` those that are left. -/
def Clear : List Draw → List Item → List Item → Prop
  | [], _, _ => True
  | x :: xs, p, r =>
    (p = [] ∨ total p < x.1 * total r) ∧
      (∀ e, total (r.take e) < x.1 * total r → total p + total (r.take e) < x.1 * total r) ∧
      ∀ d a, First (x.1 * total r) r d → r[d]? = some a → Clear xs (p ++ [a]) (leave r d)

theorem choose_append {x : Draw} {p r : List Item} {rate_left : ℚ} {d : ℕ} (hd : d < r.length)
    (h : reach (x.1 * rate_left) 0 (p ++ r) = some (p.length + d)) :
    choose x (p.length + 1) rate_left (p ++ r) = some (p ++ r[d] :: leave r d, rate_left - r[d].rate) := by
  simp [choose, h, Shuffle.exchange_append p r hd]

theorem mul_total_le {x : Draw} {r : List Item} (hr : Positive r) : x.1 * total r ≤ total r :=
  mul_le_of_le_one_left (total_nonneg hr) x.2.2.le

/-- **The turns are right exactly where the condition holds.** As long as they are, what is
left of the rate is the total of the items that are left. -/
theorem picks_iff {xs : List Draw} {p r : List Item} (hp : Positive p) (hr : Positive r)
    (hlen : xs.length ≤ r.length) : Picks xs p.length (total r) (p ++ r) ↔ Clear xs p r := by
  induction xs generalizing p r with
  | nil => exact Iff.rfl
  | cons x xs ih =>
    have hne : r ≠ [] := by
      rintro rfl
      simp at hlen
    obtain ⟨d, hd⟩ := exists_first hne (mul_total_le (x := x) hr)
    have hlt := hd.lt
    have hperm := Shuffle.perm_leave hlt
    have hp' : Positive (p ++ [r[d]]) := by
      intro a ha
      rcases List.mem_append.1 ha with ha | ha
      · exact hp a ha
      · exact List.mem_singleton.1 ha ▸ hr _ (List.getElem_mem hlt)
    have hr' : Positive (leave r d) := fun a ha => hr a (hperm.mem_iff.1 (List.mem_cons_of_mem _ ha))
    have hleft : total r - r[d].rate = total (leave r d) := by
      have := total_perm hperm
      rw [total_cons] at this
      linarith
    have hih := ih hp' hr' (by
      rw [Shuffle.length_leave]
      simp only [List.length_cons] at hlen
      omega)
    have hstep := first_append_iff hp hr hd
    rw [List.append_assoc, List.singleton_append, List.length_append, List.length_singleton] at hih
    simp only [Picks, Clear, List.drop_left, reach_iff, sub_zero]
    constructor
    · rintro ⟨e, t', left', he, hreach, hchoose, hrest⟩
      obtain rfl := he.unique hd
      obtain ⟨h1, h2⟩ := hstep.1 hreach
      rw [choose_append hd.lt (reach_iff.2 (by rwa [sub_zero])), hleft, Option.some_inj, Prod.mk.injEq] at hchoose
      obtain ⟨rfl, rfl⟩ := hchoose
      refine ⟨h1, h2, fun e' a he' ha => ?_⟩
      obtain rfl := he'.unique hd
      rw [List.getElem?_eq_getElem hd.lt, Option.some_inj] at ha
      exact ha ▸ hih.1 hrest
    · rintro ⟨h1, h2, hrest⟩
      have hreach := hstep.2 ⟨h1, h2⟩
      refine ⟨d, _, _, hd, hreach, choose_append hd.lt (reach_iff.2 (by rwa [sub_zero])), ?_⟩
      rw [hleft]
      exact hih.2 (hrest d _ hd (List.getElem?_eq_getElem hd.lt))

/-! ## The positions -/

/-- A turn raises nothing, whatever the turns before picked. -/
theorem choose_eq_some {x : Draw} {i : ℕ} {rate_left : ℚ} {t : List Item} (ht : Positive t)
    (hle : rate_left ≤ total t) (hi : i < t.length) :
    ∃ n rate_left', choose x (i + 1) rate_left t = some (exchange t i n, rate_left') ∧ rate_left' ≤ total t := by
  have hne : t ≠ [] := by
    rintro rfl
    simp at hi
  have hy : x.1 * rate_left ≤ total t := by
    rcases le_total rate_left 0 with h | h
    · exact (mul_nonpos_of_nonneg_of_nonpos x.2.1 h).trans (total_nonneg ht)
    · exact (mul_le_of_le_one_left h x.2.2.le).trans hle
  obtain ⟨n, hn⟩ := exists_first hne hy
  have hreach : reach (x.1 * rate_left) 0 t = some n := reach_iff.2 (by rwa [sub_zero])
  have hlen : i < (exchange t i n).length := by rwa [(Shuffle.perm_exchange t i n).length_eq]
  refine ⟨n, rate_left - (exchange t i n)[i].rate, by simp [choose, hreach, hlen], ?_⟩
  have hrate := ht _ ((Shuffle.perm_exchange t i n).mem_iff.1 (List.getElem_mem hlen))
  linarith

theorem turns_eq_some {xs : List Draw} {i : ℕ} {rate_left : ℚ} {t : List Item} (ht : Positive t)
    (hle : rate_left ≤ total t) (hi : i + xs.length ≤ t.length) :
    ∃ ns, turns xs i rate_left t = some (swapped t i ns) := by
  induction xs generalizing i rate_left t with
  | nil => exact ⟨[], rfl⟩
  | cons x xs ih =>
    simp only [List.length_cons] at hi
    obtain ⟨n, rate_left', hchoose, hle'⟩ := choose_eq_some (x := x) ht hle (show i < t.length by omega)
    have hperm := Shuffle.perm_exchange t i n
    obtain ⟨ns, hns⟩ := ih (ht.perm hperm) (total_perm hperm ▸ hle') (i := i + 1) (by rw [hperm.length_eq]; omega)
    refine ⟨n :: ns, ?_⟩
    rw [turns, hchoose, Option.bind_some]
    exact hns

/-- What `GetIds` gives for the numbers `xs`. -/
def ids (t : List Item) (xs : List Draw) : Option (List ℤ) :=
  (turns xs 0 1 t).map fun t => (t.take xs.length).map Item.id

theorem getIds_fst (random : ℕ → Draw) (s : State) (t : List Item) (k : ℕ) :
    (GetIds random s t k).1 = ids t (gets random k s) := by
  simp only [GetIds, choices_fst, ids, length_gets]

/-- They are the ids of `k` different positions. -/
def FromPositions (t : List Item) (k : ℕ) (ids : Option (List ℤ)) : Prop :=
  ∃ ps : List ℕ, ps.length = k ∧ ps.Nodup ∧ (∀ p ∈ ps, p < t.length) ∧
    ids = some (ps.filterMap fun p => (t[p]?).map Item.id)

/-- **The ids are those of different positions**, whatever the turns pick. -/
theorem ids_positions {t : List Item} {xs : List Draw} (ht : Positive t) (hsum : total t = 1)
    (hlen : xs.length ≤ t.length) : FromPositions t xs.length (ids t xs) := by
  obtain ⟨ns, hns⟩ := turns_eq_some (i := 0) ht hsum.ge (by rwa [Nat.zero_add])
  have hperm := Shuffle.perm_swapped (List.range t.length) 0 ns
  -- The exchanges do the same to the positions as to the items.
  have hmap := Shuffle.swapped_map (fun p => t[p]?) (List.range t.length) 0 ns
  have hrange : (List.range t.length).map (fun p => t[p]?) = t.map some := by
    refine List.ext_getElem? fun p => ?_
    simp only [List.getElem?_map]
    by_cases hp : p < t.length <;> simp [hp]
  rw [hrange, Shuffle.swapped_map] at hmap
  have htake : ((swapped t 0 ns).take xs.length).map some =
      ((swapped (List.range t.length) 0 ns).take xs.length).map fun p => t[p]? := by
    rw [List.map_take, hmap, List.map_take]
  refine ⟨(swapped (List.range t.length) 0 ns).take xs.length, ?_, ?_, fun p hp => ?_, ?_⟩
  · rw [List.length_take, hperm.length_eq, List.length_range, min_eq_left hlen]
  · exact (hperm.nodup_iff.2 List.nodup_range).sublist (List.take_sublist _ _)
  · exact List.mem_range.1 (hperm.mem_iff.1 (List.mem_of_mem_take hp))
  · rw [ids, hns, Option.map_some, Option.some_inj]
    calc ((swapped t 0 ns).take xs.length).map Item.id
        = (((swapped t 0 ns).take xs.length).map some).filterMap fun a => a.map Item.id := by
          rw [List.filterMap_map, ← List.filterMap_eq_map]
          rfl
      _ = _ := by
          rw [htake, List.filterMap_map]
          rfl

/-- **`GetIds` chooses by the rates, without repetition.** -/
structure Chooses (t : List Item) (xs : List Draw) : Prop where
  positions : FromPositions t xs.length (ids t xs)
  picks : Picks xs 0 1 t

/-- **The choice of items is right exactly where the condition holds.** The positions are
different in any case. What the first number picks is right; a later one has to pass the
rates of what is picked already, and no sum of the rates that are left, in their order, is
below it by no more than those. -/
theorem chooses_iff (t : List Item) (ht : Positive t) (hsum : total t = 1) :
    (∀ random s k, (GetIds random s t k).1 = ids t (gets random k s)) ∧
    ∀ xs : List Draw, xs.length ≤ t.length →
      FromPositions t xs.length (ids t xs) ∧ (Chooses t xs ↔ Clear xs [] t) := by
  refine ⟨fun random s k => getIds_fst random s t k, fun xs hlen => ?_⟩
  have hpositions := ids_positions ht hsum hlen
  have hpicks := picks_iff (p := []) (fun a ha => absurd ha List.not_mem_nil) ht hlen
  rw [hsum, List.nil_append, List.length_nil] at hpicks
  exact ⟨hpositions, fun h => hpicks.1 h.picks, fun h => ⟨hpositions, hpicks.2 h⟩⟩

/-- The number 1/2. -/
def half : Draw := ⟨1 / 2, half_between⟩

/-- Two of three items: the second is picked, and then the first, which the second one's
rate does not hide. -/
theorem chooses_iff_three : Chooses [⟨1, 2 / 5⟩, ⟨2, 1 / 5⟩, ⟨3, 2 / 5⟩] [half, half] := by
  refine ((chooses_iff [⟨1, 2 / 5⟩, ⟨2, 1 / 5⟩, ⟨3, 2 / 5⟩] ?_ ?_).2 [half, half] (by decide)).2.2 ?_
  · simp [Positive]
  · norm_num
  · refine ⟨.inl rfl, fun e he => by simpa using he, fun d a hd ha => ?_⟩
    have hsecond : First (half.1 * total [⟨1, 2 / 5⟩, ⟨2, 1 / 5⟩, ⟨3, 2 / 5⟩])
        [⟨1, 2 / 5⟩, ⟨2, 1 / 5⟩, ⟨3, 2 / 5⟩] 1 := by
      refine ⟨by decide, by norm_num [half], fun e he => ?_⟩
      obtain rfl : e = 0 := by omega
      norm_num [half]
    obtain rfl := hd.unique hsecond
    simp only [List.getElem?_cons_succ, List.getElem?_cons_zero, Option.some_inj] at ha
    subst ha
    refine ⟨.inr (by norm_num [half, leave]), fun e he => ?_, fun _ _ _ _ => trivial⟩
    obtain rfl | rfl | ⟨e, rfl⟩ : e = 0 ∨ e = 1 ∨ ∃ n, e = n + 2 := by
      rcases Nat.lt_or_ge e 2 with hlt | hge
      · omega
      · exact .inr (.inr ⟨e - 2, by omega⟩)
    · norm_num [half, leave]
    · norm_num [half, leave] at he
    · norm_num [half, leave] at he

/-- Where `math.random` gives one number, so does `Random.Get`. -/
theorem gets_const (x : Draw) (k called : ℕ) :
    gets (fun _ => x) k ⟨some (Vector.replicate tablesize x), called⟩ = List.replicate k x := by
  induction k generalizing called with
  | zero => rfl
  | succ k ih =>
    have hget : Get (fun _ => x) ⟨some (Vector.replicate tablesize x), called⟩ =
        (x, ⟨some (Vector.replicate tablesize x), called + 1⟩) := by
      simp [Get, fill]
    rw [gets, hget, ih, List.replicate_succ]

/-- Two items, of which the first is picked twice. -/
theorem picked_again :
    ∃ random s, gets random 2 s = [half, half] ∧ ¬ Chooses [⟨1, 9 / 10⟩, ⟨2, 1 / 10⟩] (gets random 2 s) := by
  refine ⟨_, _, gets_const half 2 0, ?_⟩
  rw [gets_const]
  rintro ⟨-, d, t, rate_left, -, -, hchoose, e, -, -, -, hreach, -⟩
  norm_num [choose, reach, exchange, half] at hchoose
  obtain ⟨rfl, rfl⟩ := hchoose
  norm_num [reach, half] at hreach
  omega

end Random

end Athena
