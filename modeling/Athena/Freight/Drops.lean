import Athena.Freight.Producers
import Mathlib.Data.List.Forall2
import Mathlib.Algebra.BigOperators.Option
import Mathlib.Algebra.BigOperators.Ring.Finset
import Mathlib.Algebra.Order.BigOperators.Group.List
/-!
# Freight — what drops

A roll falls to the last entry of a package for which it is between the rate before and
the entry's own. The rates are not added up, so two entries share the low rolls, and each
has as many rolls as its rate only where one entry at most has any. Of a material or a chip
there is the first number, and up to the second one more.
-/

namespace Athena

namespace Freight

open Lua

/-! ## Packages -/

/-- The last number that passes. -/
theorem getLast?_filter_range {p : ℕ → Bool} {n i : ℕ} :
    ((List.range n).filter p).getLast? = some i ↔
      i < n ∧ p i = true ∧ ∀ j, i < j → j < n → p j = false := by
  induction n with
  | zero => simp
  | succ n ih =>
    rw [List.range_succ, List.filter_append]
    cases hn : p n with
    | true =>
      rw [List.filter_cons_of_pos hn, List.filter_nil, List.getLast?_concat, Option.some_inj]
      constructor
      · rintro rfl
        exact ⟨by omega, hn, fun j _ _ => by omega⟩
      · rintro ⟨hi, -, hlast⟩
        by_contra hne
        have := hlast n (by omega) (by omega)
        rw [hn] at this
        cases this
    | false =>
      rw [List.filter_cons_of_neg (by rw [hn]; exact Bool.false_ne_true), List.filter_nil, List.append_nil, ih]
      constructor
      · rintro ⟨hi, hp, hlast⟩
        refine ⟨by omega, hp, fun j hij hj => ?_⟩
        rcases Nat.lt_succ_iff_lt_or_eq.1 hj with hj | rfl
        · exact hlast j hij hj
        · exact hn
      · rintro ⟨hi, hp, hlast⟩
        have hne : i ≠ n := by
          rintro rfl
          rw [hn] at hp
          cases hp
        exact ⟨by omega, hp, fun j hij hj => hlast j hij (by omega)⟩

/-- The rate of an entry, and 0 before the first. -/
def rateBefore (drop_rate : List Rate) (i : ℕ) : ℤ := (0 :: drop_rate.map Rate.rollrate)[i]?.getD 0

def rateOf (drop_rate : List Rate) (i : ℕ) : ℤ := rateBefore drop_rate (i + 1)

variable {drop_rate : List Rate}

theorem rateOf_eq {i : ℕ} {rate : Rate} (h : drop_rate[i]? = some rate) : rateOf drop_rate i = rate.rollrate := by
  simp [rateOf, rateBefore, h]

theorem randindex_eq_some {radindex : ℤ} {i : ℕ} :
    randindex_bypackage drop_rate radindex = some i ↔
      i < drop_rate.length ∧ (rateBefore drop_rate i ≤ radindex ∧ radindex ≤ rateOf drop_rate i) ∧
        ∀ j, i < j → j < drop_rate.length → ¬(rateBefore drop_rate j ≤ radindex ∧ radindex ≤ rateOf drop_rate j) := by
  unfold randindex_bypackage
  simp only [getLast?_filter_range, Bool.and_eq_true, decide_eq_true_eq, ← Bool.not_eq_true]
  rfl

/-- The numbers from 1 to `n`. -/
def upto (n : ℕ) : Finset ℤ := (Finset.range n).map ⟨fun k : ℕ => (k : ℤ) + 1, fun a b h => by simpa using h⟩

theorem mem_upto {n : ℕ} {k : ℤ} : k ∈ upto n ↔ 1 ≤ k ∧ k ≤ n := by
  have hmem : k ∈ upto n ↔ ∃ a : ℕ, a < n ∧ (a : ℤ) + 1 = k := by
    simp only [upto, Finset.mem_map, Finset.mem_range]
    rfl
  rw [hmem]
  constructor
  · rintro ⟨a, ha, rfl⟩
    omega
  · intro hk
    exact ⟨(k - 1).toNat, by omega, by omega⟩

theorem card_upto (n : ℕ) : (upto n).card = n := by rw [upto, Finset.card_map, Finset.card_range]

/-- What `math.random(1, 1000)` comes up with. -/
def numbers : Finset ℤ := upto 1000

/-- The rolls that fall to an entry. -/
def rolls (drop_rate : List Rate) (i : ℕ) : Finset ℤ :=
  numbers.filter fun radindex => randindex_bypackage drop_rate radindex = some i

/-- **Each entry has as many rolls as its rate.** -/
def Exact (drop_rate : List Rate) : Prop :=
  ∀ i, i < drop_rate.length → ((rolls drop_rate i).card : ℤ) = rateOf drop_rate i

/-- One entry at most has a rate. -/
def Single (drop_rate : List Rate) : Prop :=
  ∀ i j, i < drop_rate.length → j < drop_rate.length → 0 < rateOf drop_rate i → 0 < rateOf drop_rate j → i = j

/-- No rate is negative, and together they are a thousand at most. -/
structure Weights (drop_rate : List Rate) : Prop where
  nonneg : ∀ i, 0 ≤ rateBefore drop_rate i
  sum_le : (drop_rate.map Rate.rollrate).sum ≤ 1000

theorem Weights.rateOf_le (h : Weights drop_rate) {i : ℕ} (hi : i < drop_rate.length) : rateOf drop_rate i ≤ 1000 := by
  have hrate : rateOf drop_rate i = drop_rate[i].rollrate := rateOf_eq (List.getElem?_eq_getElem hi)
  have hmem : rateOf drop_rate i ∈ drop_rate.map Rate.rollrate := by
    rw [hrate]
    exact List.mem_map_of_mem (List.getElem_mem hi)
  refine (List.single_le_sum (fun q hq => ?_) _ hmem).trans h.sum_le
  obtain ⟨rate, hrate, rfl⟩ := List.mem_map.1 hq
  obtain ⟨j, hj, rfl⟩ := List.getElem_of_mem hrate
  have := h.nonneg (j + 1)
  rwa [← rateOf, rateOf_eq (List.getElem?_eq_getElem hj)] at this

theorem mem_rolls {i : ℕ} {radindex : ℤ} :
    radindex ∈ rolls drop_rate i ↔
      (1 ≤ radindex ∧ radindex ≤ 1000) ∧ randindex_bypackage drop_rate radindex = some i := by
  rw [rolls, Finset.mem_filter, numbers, mem_upto, Nat.cast_ofNat]

/-- An entry has no rolls above its rate. -/
theorem rolls_subset (i : ℕ) : rolls drop_rate i ⊆ upto (rateOf drop_rate i).toNat := by
  intro radindex h
  rw [mem_rolls, randindex_eq_some] at h
  exact mem_upto.2 (by omega)

theorem card_rateOf (h : Weights drop_rate) (i : ℕ) :
    ((upto (rateOf drop_rate i).toNat).card : ℤ) = rateOf drop_rate i := by
  rw [card_upto]
  exact Int.toNat_of_nonneg (h.nonneg (i + 1))

/-- **Where one entry at most has a rate**, it has all the rolls up to it. -/
theorem rolls_of_single (h : Weights drop_rate) (hs : Single drop_rate) {i : ℕ} (hi : i < drop_rate.length) :
    rolls drop_rate i = upto (rateOf drop_rate i).toNat := by
  refine Finset.Subset.antisymm (rolls_subset i) fun radindex hr => ?_
  rw [mem_upto] at hr
  have hle := h.rateOf_le hi
  have hbefore : rateBefore drop_rate i = 0 := by
    cases i with
    | zero => rfl
    | succ j =>
      by_contra hne
      have hpos := h.nonneg (j + 1)
      have := hs j (j + 1) (by omega) hi (show 0 < rateBefore drop_rate (j + 1) by omega) (by omega)
      omega
  rw [mem_rolls, randindex_eq_some]
  refine ⟨⟨hr.1, by omega⟩, hi, ⟨by omega, by omega⟩, fun j hij hj hin => ?_⟩
  have := hs i j hi hj (by omega) (by omega)
  omega

/-- **Exactly then each entry has as many rolls as its rate**: of two entries with a rate
each would have the first roll. -/
theorem exact_iff (h : Weights drop_rate) : Exact drop_rate ↔ Single drop_rate := by
  constructor
  · intro hexact i j hi hj hposi hposj
    have hfirst : ∀ k, k < drop_rate.length → 0 < rateOf drop_rate k → randindex_bypackage drop_rate 1 = some k := by
      intro k hk hpos
      have hall : rolls drop_rate k = upto (rateOf drop_rate k).toNat := by
        refine Finset.eq_of_subset_of_card_le (rolls_subset k) ?_
        have h1 := hexact k hk
        have h2 := card_rateOf h k
        omega
      have hmem : (1 : ℤ) ∈ rolls drop_rate k := by
        rw [hall, mem_upto]
        omega
      exact (mem_rolls.1 hmem).2
    exact Option.some_inj.1 ((hfirst i hi hposi).symm.trans (hfirst j hj hposj))
  · intro hs i hi
    rw [rolls_of_single h hs hi, card_rateOf h]

/-- The other rolls give nothing. -/
theorem card_none (hexact : Exact drop_rate) :
    ((numbers.filter fun radindex => randindex_bypackage drop_rate radindex = none).card : ℤ) =
      1000 - ∑ i ∈ Finset.range drop_rate.length, rateOf drop_rate i := by
  have hmaps : ∀ radindex ∈ numbers,
      randindex_bypackage drop_rate radindex ∈ Finset.insertNone (Finset.range drop_rate.length) := by
    intro radindex _
    cases hr : randindex_bypackage drop_rate radindex with
    | none => exact Finset.none_mem_insertNone
    | some i => exact Finset.some_mem_insertNone.2 (Finset.mem_range.2 (randindex_eq_some.1 hr).1)
  have hcount := Finset.card_eq_sum_card_fiberwise hmaps
  rw [Finset.sum_insertNone, numbers, card_upto] at hcount
  have hsum : ((∑ i ∈ Finset.range drop_rate.length, (rolls drop_rate i).card : ℕ) : ℤ) =
      ∑ i ∈ Finset.range drop_rate.length, rateOf drop_rate i := by
    rw [Nat.cast_sum]
    exact Finset.sum_congr rfl fun i hi => hexact i (Finset.mem_range.1 hi)
  rw [← hsum]
  unfold rolls numbers
  omega

/-! ## Amounts -/

/-- What a material or a chip of a droplist comes to: nothing where the amount is 0. -/
def Gives (drop : Drop) (part : List Queue.PropReward) : Prop :=
  ∀ type, type = Shop.material ∨ type = chip → isType drop.droptype type = true →
    ∃ number, drop.min ≤ number ∧ number ≤ drop.min + drop.max ∧
      part = if number = 0 then [] else [⟨type.toInt, drop.normalmatId.wire, some 0, number, none⟩]

variable {drop_package : Value → Option (List Rate)} {rand : ℕ → ℤ} {fuel : ℕ}

/-- **The draws are what `math.random(0, max)` may answer**, for each material and chip. -/
def Lawful (drop_package : Value → Option (List Rate)) (rand : ℕ → ℤ) (fuel : ℕ) (droplist : List Drop) : Prop :=
  ∀ before drop after r, droplist = before ++ drop :: after →
    getreward_mat drop_package rand fuel before = some r →
    isType drop.droptype Shop.material = true ∨ isType drop.droptype chip = true →
    0 ≤ rand r.draws ∧ rand r.draws ≤ drop.max

theorem Lawful.init {droplist : List Drop} {drop : Drop} (h : Lawful drop_package rand fuel (droplist ++ [drop])) :
    Lawful drop_package rand fuel droplist := by
  intro before d after r heq
  exact h before d (after ++ [drop]) r (by rw [heq, List.append_assoc, List.cons_append])

theorem isType_unique {droptype : Value} {type type' : Int64} (h : isType droptype type = true)
    (h' : isType droptype type' = true) : type = type' := by
  simp only [isType, decide_eq_true_eq] at h h'
  rw [h] at h'
  simpa using h'

/-- The amount of a material or a chip. -/
theorem gives_drawn {drop : Drop} {type : Int64} {draw : ℤ} (htype : isType drop.droptype type = true)
    (h : 0 ≤ draw ∧ draw ≤ drop.max) :
    Gives drop (if drop.min + draw = 0 then []
      else [⟨type.toInt, drop.normalmatId.wire, some 0, drop.min + draw, none⟩]) := by
  intro type' _ htype'
  obtain rfl := isType_unique htype htype'
  exact ⟨drop.min + draw, by omega, by omega, rfl⟩

/-- Of the other types nothing is said. -/
theorem gives_other {drop : Drop} {part : List Queue.PropReward} (hmat : ¬isType drop.droptype Shop.material = true)
    (hchip : ¬isType drop.droptype chip = true) : Gives drop part := by
  rintro type (rfl | rfl) htype
  · exact absurd htype hmat
  · exact absurd htype hchip

theorem addprop_proprewardlist (r : Rolled) (type : Int64) (cfgid : Str) (number : ℤ) :
    (if number ≠ 0 then r.addprop type cfgid number else r).proprewardlist =
      r.proprewardlist ++ if number = 0 then [] else [⟨type.toInt, cfgid, some 0, number, none⟩] := by
  by_cases h : number = 0
  · rw [if_neg (not_not.2 h), if_pos h, List.append_nil]
  · rw [if_pos h, if_neg h]
    rfl

/-- One turn adds what its entry gives. -/
theorem getreward_mat_concat {droplist : List Drop} {drop : Drop} {r : Rolled}
    (hlawful : Lawful drop_package rand fuel (droplist ++ [drop]))
    (h : getreward_mat drop_package rand fuel (droplist ++ [drop]) = some r) :
    ∃ r₀ part, getreward_mat drop_package rand fuel droplist = some r₀ ∧
      r.proprewardlist = r₀.proprewardlist ++ part ∧ Gives drop part := by
  unfold getreward_mat at h
  rw [List.foldlM_append] at h
  obtain ⟨r₀, hr₀, hstep⟩ := Option.bind_eq_some_iff.1 h
  have hdraw := hlawful droplist drop [] r₀ rfl hr₀
  simp only [List.foldlM_cons, List.foldlM_nil, Option.bind_eq_bind, Option.pure_def, Option.bind_fun_some] at hstep
  by_cases hmat : isType drop.droptype Shop.material = true
  · rw [if_pos hmat, Option.some_inj] at hstep
    refine ⟨r₀, _, hr₀, ?_, gives_drawn hmat (hdraw (.inl hmat))⟩
    rw [← hstep, addprop_proprewardlist]
  rw [if_neg hmat] at hstep
  by_cases hpackage : isType drop.droptype package = true
  · rw [if_pos hpackage] at hstep
    obtain ⟨other, -, rfl⟩ := Option.map_eq_some_iff.1 hstep
    refine ⟨r₀, other.proprewardlist, hr₀, rfl, gives_other hmat fun hchip => ?_⟩
    exact absurd (isType_unique hpackage hchip) (by decide)
  rw [if_neg hpackage] at hstep
  by_cases hchip : isType drop.droptype chip = true
  · rw [if_pos hchip, Option.some_inj] at hstep
    refine ⟨r₀, _, hr₀, ?_, gives_drawn hchip (hdraw (.inr hchip))⟩
    rw [← hstep, addprop_proprewardlist]
  · rw [if_neg hchip] at hstep
    refine ⟨r₀, [], hr₀, ?_, gives_other hmat hchip⟩
    split at hstep <;> cases hstep <;> simp [Rolled.addbp]

/-- **Each material and chip of a droplist has its amount**, whatever is drawn. -/
theorem getreward_mat_gives {droplist : List Drop} {r : Rolled} (hlawful : Lawful drop_package rand fuel droplist)
    (h : getreward_mat drop_package rand fuel droplist = some r) :
    ∃ parts : List (List Queue.PropReward), r.proprewardlist = parts.flatten ∧ List.Forall₂ Gives droplist parts := by
  induction droplist using List.reverseRecOn generalizing r with
  | nil =>
    obtain rfl := Option.some_inj.1 h
    exact ⟨[], rfl, .nil⟩
  | append_singleton droplist drop ih =>
    obtain ⟨r₀, part, hr₀, happ, hgives⟩ := getreward_mat_concat hlawful h
    obtain ⟨parts, hparts, hall⟩ := ih hlawful.init hr₀
    refine ⟨parts ++ [part], ?_, List.rel_append hall (.cons hgives .nil)⟩
    rw [happ, hparts, List.flatten_append, List.flatten_singleton]

/-! ## Enough fuel -/

/-- **A package that is in the table**, and so are those it holds, down to the last. -/
inductive Grounded (drop_package : Value → Option (List Rate)) : Value → Prop
  | intro {packageid : Value} {drop_rate : List Rate} (h : drop_package packageid = some drop_rate)
      (hin : ∀ rate ∈ drop_rate, isType rate.droptype package = true →
        Grounded drop_package rate.normalmatId) : Grounded drop_package packageid

/-- What holds of each of a list from some number on holds of all from one on. -/
theorem exists_bound {α : Type} {l : List α} {P : α → ℕ → Prop}
    (h : ∀ a ∈ l, ∃ depth, ∀ fuel, depth ≤ fuel → P a fuel) :
    ∃ depth, ∀ a ∈ l, ∀ fuel, depth ≤ fuel → P a fuel := by
  induction l with
  | nil => exact ⟨0, by simp⟩
  | cons a l ih =>
    obtain ⟨n, hn⟩ := h a List.mem_cons_self
    obtain ⟨m, hm⟩ := ih fun b hb => h b (List.mem_cons_of_mem _ hb)
    refine ⟨max n m, fun b hb fuel hfuel => ?_⟩
    rcases List.mem_cons.1 hb with rfl | hb
    · exact hn fuel (le_of_max_le_left hfuel)
    · exact hm b hb fuel (le_of_max_le_right hfuel)

/-- A loop whose turns all answer comes to its end. -/
theorem foldlM_answers {α β : Type} {f : β → α → Option β} {l : List α}
    (h : ∀ a ∈ l, ∀ b, ∃ b', f b a = some b') (b : β) : ∃ b', l.foldlM f b = some b' := by
  induction l generalizing b with
  | nil => exact ⟨b, rfl⟩
  | cons a l ih =>
    obtain ⟨c, hc⟩ := h a List.mem_cons_self b
    obtain ⟨d, hd⟩ := ih (fun a' ha' => h a' (List.mem_cons_of_mem _ ha')) c
    exact ⟨d, by rw [List.foldlM_cons, hc]; exact hd⟩

/-- **A package that is grounded answers**, whatever is drawn, by induction on how deep it
goes. -/
theorem Grounded.answers (rand : ℕ → ℤ) {packageid : Value} (h : Grounded drop_package packageid) :
    ∃ depth, ∀ fuel, depth ≤ fuel → ∀ rolltimes draws,
      ∃ r, getmat_bypackage drop_package rand fuel packageid rolltimes draws = some r := by
  induction h with
  | @intro packageid drop_rate htable _ ih =>
    obtain ⟨depth, hdepth⟩ := exists_bound (l := drop_rate.filter fun rate => isType rate.droptype package)
      fun rate hrate => ih rate (List.mem_filter.1 hrate).1 (List.mem_filter.1 hrate).2
    refine ⟨depth + 1, fun fuel hfuel rolltimes draws => ?_⟩
    obtain ⟨fuel, rfl⟩ : ∃ n, fuel = n + 1 := ⟨fuel - 1, by omega⟩
    rw [getmat_bypackage, htable, Option.bind_some]
    refine foldlM_answers (fun index hindex b => ?_) _
    -- what is rolled is a place of the package
    obtain ⟨j, -, hroll⟩ := List.mem_filterMap.1 (List.mem_eraseDups.1 hindex)
    have hlt := (randindex_eq_some.1 hroll).1
    rw [List.getElem?_eq_getElem hlt, Option.bind_some]
    dsimp only
    split
    · exact ⟨_, rfl⟩
    split
    · rename_i hpackage
      obtain ⟨r, hr⟩ := hdepth _ (List.mem_filter.2 ⟨List.getElem_mem hlt, hpackage⟩) fuel (by omega) 1 b.draws
      exact ⟨_, by rw [hr, Option.map_some]⟩
    split
    · exact ⟨_, rfl⟩
    split
    · exact ⟨_, rfl⟩
    · exact ⟨_, rfl⟩

/-- The packages of a droplist are grounded. -/
def Stocked (drop_package : Value → Option (List Rate)) (droplist : List Drop) : Prop :=
  ∀ drop ∈ droplist, isType drop.droptype package = true → Grounded drop_package drop.normalmatId

/-- **A droplist of grounded packages answers.** -/
theorem getreward_mat_answers {droplist : List Drop} (h : Stocked drop_package droplist) :
    ∃ depth, ∀ fuel, depth ≤ fuel → ∃ r, getreward_mat drop_package rand fuel droplist = some r := by
  obtain ⟨depth, hdepth⟩ := exists_bound (l := droplist.filter fun drop => isType drop.droptype package)
    fun drop hdrop => (h drop (List.mem_filter.1 hdrop).1 (List.mem_filter.1 hdrop).2).answers rand
  refine ⟨depth, fun fuel hfuel => foldlM_answers (fun drop hdrop b => ?_) _⟩
  dsimp only
  split
  · exact ⟨_, rfl⟩
  split
  · rename_i hpackage
    obtain ⟨r, hr⟩ := hdepth _ (List.mem_filter.2 ⟨hdrop, hpackage⟩) fuel hfuel 1 b.draws
    exact ⟨_, by rw [hr, Option.map_some]⟩
  split
  · exact ⟨_, rfl⟩
  split
  · exact ⟨_, rfl⟩
  · exact ⟨_, rfl⟩

/-- **What drops.** Where one entry of a package at most has a rate, each entry has as
many of the thousand rolls as its rate and the others give nothing. A droplist whose
packages are grounded has its rewards, whatever is drawn, and there is of each of its
materials and chips an amount from the first number to the sum of the two, where an amount
of 0 is left out. -/
theorem drops (drop_package : Value → Option (List Rate)) (rand : ℕ → ℤ) :
    (∀ drop_rate, Weights drop_rate → Single drop_rate → Exact drop_rate ∧
      ((numbers.filter fun radindex => randindex_bypackage drop_rate radindex = none).card : ℤ) =
        1000 - ∑ i ∈ Finset.range drop_rate.length, rateOf drop_rate i) ∧
    (∀ droplist, Stocked drop_package droplist → ∃ depth, ∀ fuel, depth ≤ fuel →
      ∃ r, getreward_mat drop_package rand fuel droplist = some r) ∧
    ∀ fuel droplist r, Lawful drop_package rand fuel droplist →
      getreward_mat drop_package rand fuel droplist = some r →
      ∃ parts : List (List Queue.PropReward), r.proprewardlist = parts.flatten ∧ List.Forall₂ Gives droplist parts :=
  ⟨fun _ h hs => ⟨(exact_iff h).2 hs, card_none ((exact_iff h).2 hs)⟩, fun _ => getreward_mat_answers,
    fun _ _ _ => getreward_mat_gives⟩

/-- A table with one package, of one blueprint. -/
def onepackage (packageid : Value) : Option (List Rate) :=
  if packageid = .num (.int 10001) then some [⟨.str ['B', '1'], .num (.int 4), 300⟩] else none

/-- A material and the package. -/
def onebattle : List Drop := [⟨.num (.int 10001), .num (.int 7), 22, 6⟩, ⟨.num (.int 10001), .num (.int 14), 0, 1⟩]

theorem onebattle_stocked : Stocked onepackage onebattle := by
  intro drop hdrop hpackage
  have hid : drop.normalmatId = .num (.int 10001) := by
    rcases List.mem_cons.1 hdrop with rfl | hdrop
    · rfl
    · rw [List.mem_singleton.1 hdrop]
  rw [hid]
  refine .intro rfl fun rate hrate hin => ?_
  rw [List.mem_singleton.1 hrate] at hin
  exact absurd hin (by decide)

/-- The package has its rolls, and the battle its rewards, where every draw is 3. -/
theorem drops_onebattle : Exact [⟨.str ['B', '1'], .num (.int 4), 300⟩] ∧
    ∃ fuel r parts, getreward_mat onepackage (fun _ => 3) fuel onebattle = some r ∧
      r.proprewardlist = List.flatten parts ∧ List.Forall₂ Gives onebattle parts := by
  obtain ⟨hrolls, hanswers, hgives⟩ := drops onepackage fun _ => 3
  refine ⟨(hrolls _ ⟨fun i => ?_, by decide⟩ fun i j hi hj _ _ => ?_).1, ?_⟩
  · match i with
    | 0 | 1 => decide
    | i + 2 => simp [rateBefore]
  · simp only [List.length_cons, List.length_nil] at hi hj
    omega
  · obtain ⟨fuel, hfuel⟩ := hanswers onebattle onebattle_stocked
    obtain ⟨r, hr⟩ := hfuel fuel le_rfl
    have hlawful : Lawful onepackage (fun _ => 3) fuel onebattle := by
      intro before drop after _ heq _ htype
      have hdrop : drop ∈ onebattle := by
        rw [heq]
        simp
      rcases List.mem_cons.1 hdrop with rfl | hdrop
      · exact ⟨(by decide : (0 : ℤ) ≤ 3), (by decide : (3 : ℤ) ≤ 6)⟩
      · rw [List.mem_singleton.1 hdrop] at htype
        exact absurd htype (by decide)
    obtain ⟨parts, hparts, hall⟩ := hgives fuel onebattle r hlawful hr
    exact ⟨fuel, r, parts, hr, hparts, hall⟩

/-- Two entries of 500, and a material with the numbers 22 and 6, of which 22 are given. -/
theorem not_exact_halves :
    ¬Exact [⟨.str ['1'], .num (.int 7), 500⟩, ⟨.str ['2'], .num (.int 7), 500⟩] ∧
      ((getreward_mat (fun _ => none) (fun _ => 0) 0 [⟨.num (.int 10001), .num (.int 7), 22, 6⟩]).map fun r =>
        r.proprewardlist.map Queue.PropReward.number) = some [22] := by
  refine ⟨fun hexact => ?_, by decide⟩
  have hweights : Weights [⟨.str ['1'], .num (.int 7), 500⟩, ⟨.str ['2'], .num (.int 7), 500⟩] := by
    refine ⟨fun i => ?_, by decide⟩
    match i with
    | 0 | 1 | 2 => decide
    | i + 3 => simp [rateBefore]
  exact absurd ((exact_iff hweights).1 hexact 0 1 (by decide) (by decide) (by decide) (by decide)) (by decide)

end Freight

end Athena
