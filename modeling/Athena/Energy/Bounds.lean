import Athena.Energy.Model
/-!
# The energy of the fighters — bounds

The estimates of the server stay between zero and what there was (`floor_clamp`,
`ceil_clamp`); a reported number is bounded only where it is compared with them. So
the energy is kept in its bounds by the messages whose number is refused or is not
above it (`Meets`), and by a cost that is not negative.
-/

namespace Athena

namespace Energy

open Lua (Number)

variable {cfg : Battle} {s t u : State} {uid : Id} {a b : Attribute} {x : Number}

/-! ## The estimates -/

/-- The number is an integer between two bounds. -/
def Between (x : Number) (lo hi : ℤ) : Prop := ∃ i : Int64, x = .int i ∧ lo ≤ i.toInt ∧ i.toInt ≤ hi

/-- **What a clamp from zero can be.** -/
theorem clamp_cases (v : Number) (m : Int64) :
    v = .nan ∧ clamp v (.int 0) (.int m) = .nan ∨
    clamp v (.int 0) (.int m) = .int 0 ∨
    (Number.int m).lt v = true ∧ clamp v (.int 0) (.int m) = .int m ∨
    (∃ i : Int64, v = .int i ∧ 0 ≤ i.toInt ∧ i.toInt ≤ m.toInt ∧ clamp v (.int 0) (.int m) = .int i) ∨
    ∃ q : ℚ, v = .flt q ∧ 0 ≤ q ∧ q ≤ m.toInt ∧ clamp v (.int 0) (.int m) = .flt q := by
  have hzero : (0 : Int64).toInt = 0 := rfl
  unfold clamp
  by_cases hlow : v.lt (.int 0) = true
  · exact Or.inr (Or.inl (if_pos hlow))
  by_cases hhigh : (Number.int m).lt v = true
  · exact Or.inr (Or.inr (Or.inl ⟨hhigh, by rw [if_neg hlow, if_pos hhigh]⟩))
  rw [if_neg hlow, if_neg hhigh]
  cases v with
  | nan => exact Or.inl ⟨rfl, rfl⟩
  | inf neg =>
    rw [Number.lt_inf_int] at hlow
    rw [Number.lt_int_inf] at hhigh
    exact absurd hhigh (by simp [hlow])
  | int i =>
    rw [Number.lt_int, decide_eq_true_eq] at hlow hhigh
    exact Or.inr (Or.inr (Or.inr (Or.inl ⟨i, rfl, by omega, by omega, rfl⟩)))
  | flt q =>
    rw [Number.lt_flt_int, decide_eq_true_eq, hzero] at hlow
    rw [Number.lt_int_flt, decide_eq_true_eq] at hhigh
    exact Or.inr (Or.inr (Or.inr (Or.inr ⟨q, rfl, by simpa using hlow, by simpa using hhigh, rfl⟩)))

/-- **The floor of a clamp.** -/
theorem floor_clamp (v : Number) {m : Int64} (hm : 0 ≤ m.toInt) :
    (clamp v (.int 0) (.int m)).floor = .nan ∨ Between (clamp v (.int 0) (.int m)).floor 0 m.toInt := by
  have hlt := Int64.toInt_lt m
  rcases clamp_cases v m with ⟨-, h⟩ | h | ⟨-, h⟩ | ⟨i, -, h0, hi, h⟩ | ⟨q, -, h0, hq, h⟩
  · rw [h]
    exact Or.inl rfl
  · rw [h]
    exact Or.inr ⟨0, rfl, le_refl _, hm⟩
  · rw [h]
    exact Or.inr ⟨m, rfl, hm, le_refl _⟩
  · rw [h]
    exact Or.inr ⟨i, rfl, h0, hi⟩
  · have hfloor0 : 0 ≤ ⌊q⌋ := Int.floor_nonneg.mpr h0
    have hfloor : ⌊q⌋ ≤ m.toInt := by exact_mod_cast (Int.floor_le q).trans hq
    have hval := Lua.toInt_ofInt_of_nonneg hfloor0 (by omega)
    rw [h, Number.floor, if_pos ⟨by omega, by omega⟩]
    exact Or.inr ⟨_, rfl, by omega, by omega⟩

/-- **The ceiling of a clamp**: within the clamp, and not above an integer that the
number is not above. -/
theorem ceil_clamp {v : Number} (hv : v ≠ .nan) {m : Int64} (hm : 0 ≤ m.toInt) :
    ∃ n : Int64, (clamp v (.int 0) (.int m)).ceil = .int n ∧ 0 ≤ n.toInt ∧ n.toInt ≤ m.toInt ∧
      ∀ e : Int64, 0 ≤ e.toInt → v.le (.int e) = true → n.toInt ≤ e.toInt := by
  have hlt := Int64.toInt_lt m
  rcases clamp_cases v m with ⟨h, -⟩ | h | ⟨hmv, h⟩ | ⟨i, rfl, h0, hi, h⟩ | ⟨q, rfl, h0, hq, h⟩
  · exact absurd h hv
  · rw [h]
    exact ⟨0, rfl, le_refl _, hm, fun e he _ => he⟩
  · rw [h]
    exact ⟨m, rfl, hm, le_refl _, fun e _ hve => (Number.toInt_lt_of_lt_of_le hmv hve).le⟩
  · rw [h]
    refine ⟨i, rfl, h0, hi, fun e _ hve => ?_⟩
    rwa [Number.le_int, decide_eq_true_eq] at hve
  · have hceil0 : 0 ≤ ⌈q⌉ := Int.ceil_nonneg h0
    have hceil : ⌈q⌉ ≤ m.toInt := Int.ceil_le.mpr hq
    have hval := Lua.toInt_ofInt_of_nonneg hceil0 (by omega)
    rw [h, Number.ceil, if_pos ⟨by omega, by omega⟩]
    refine ⟨_, rfl, by omega, by omega, fun e _ hve => ?_⟩
    rw [Number.le_flt_int, decide_eq_true_eq] at hve
    rw [hval]
    exact Int.ceil_le.mpr hve

/-! ## The cost of a shot -/

theorem float_of_le {i : Int64} (h0 : 0 ≤ i.toInt) (h : i.toInt ≤ 2 ^ 53) :
    (Number.int i).float = .flt i.toInt :=
  Lua.toDouble_intCast h0 h

theorem float_neg_one : (Number.int (-1)).float = .flt (-1) := by
  have h := Lua.toDouble_neg 1
  rw [show Lua.toDouble 1 = .flt 1 from by exact_mod_cast Lua.toDouble_natCast (n := 1) (by omega)] at h
  exact h

/-- `cost * -1`, of a float. -/
theorem flt_mul_neg_one (q : ℚ) : (Number.flt q).mul (.int (-1)) = Lua.toDouble (-q) := by
  show (Number.flt q).mulFloat (Number.int (-1)).float = _
  rw [float_neg_one]
  show Lua.toDouble (q * -1) = _
  rw [mul_neg_one]

theorem inf_mul_neg_one (neg : Bool) : (Number.inf neg).mul (.int (-1)) = .inf !neg := by
  show (Number.inf neg).mulFloat (Number.int (-1)).float = _
  rw [float_neg_one]
  cases neg with
  | true => norm_num [Number.mulFloat]
  | false => norm_num [Number.mulFloat]

/-- A double that was rounded is not `nan`. -/
theorem toDouble_ne_nan (q : ℚ) : Lua.toDouble q ≠ .nan := by
  intro h
  have := Lua.toDouble_ext q
  rw [h] at this
  cases this

/-- What is left after a cost that is a number. -/
theorem left_ne_nan {e : Int64} (h0 : 0 ≤ e.toInt) (he : e.toInt ≤ 2 ^ 53) {cost : Number}
    (hcost : cost ≠ .nan) : (Number.int e).add (cost.mul (.int (-1))) ≠ .nan := by
  have hfloat := float_of_le h0 he
  cases cost with
  | nan => exact absurd rfl hcost
  | int c => exact nofun
  | inf neg =>
    rw [inf_mul_neg_one]
    show (Number.int e).float.addFloat (.inf !neg) ≠ .nan
    rw [hfloat]
    exact nofun
  | flt q =>
    rw [flt_mul_neg_one]
    cases hq : Lua.toDouble (-q) with
    | nan => exact absurd hq (toDouble_ne_nan _)
    | int c => exact nofun
    | inf neg =>
      show (Number.int e).float.addFloat (.inf neg) ≠ .nan
      rw [hfloat]
      exact nofun
    | flt p =>
      show (Number.int e).float.addFloat (.flt p) ≠ .nan
      rw [hfloat]
      exact toDouble_ne_nan _

theorem inf_true_le (i : Int64) : (Number.inf true).le (.int i) = true := by
  simp [Number.le, Number.ext]

/-- **A cost that is not negative leaves no more than there was.** Here the rounding of
doubles matters, which is exact up to `2 ^ 53`. -/
theorem left_le {e : Int64} (h0 : 0 ≤ e.toInt) (he : e.toInt ≤ 2 ^ 53) {cost : Number}
    (hcost : (Number.int 0).le cost = true) :
    ((Number.int e).add (cost.mul (.int (-1)))).le (.int e) = true := by
  have hfloat := float_of_le h0 he
  have hzero : (0 : Int64).toInt = 0 := rfl
  cases cost with
  | nan => cases hcost
  | int c =>
    have hone : (-1 : Int64).toInt = -1 := rfl
    rw [Number.le_int, decide_eq_true_eq] at hcost
    have hlt := Int64.toInt_lt c
    have hmul : (c * -1).toInt = c.toInt * -1 := by
      have h := @Number.toInt_mul c (-1)
      rw [hone] at h
      exact h (by omega) (by omega)
    have hadd : (e + c * -1).toInt = e.toInt - c.toInt := by
      rw [Number.toInt_add (by omega) (by omega)]
      omega
    rw [Number.mul_int, Number.add_int, Number.le_int, decide_eq_true_eq]
    omega
  | inf neg =>
    have hneg : neg = false := by
      by_contra hneg
      obtain rfl : neg = true := by simpa using hneg
      simp [Number.le, Number.ext] at hcost
    subst hneg
    rw [inf_mul_neg_one]
    show ((Number.int e).float.addFloat (.inf true)).le (.int e) = true
    rw [hfloat]
    exact inf_true_le e
  | flt q =>
    rw [Number.le_int_flt, decide_eq_true_eq, hzero, Int.cast_zero] at hcost
    rw [flt_mul_neg_one]
    rcases Lua.toDouble_le (q := -q) (n := 0) (by simpa using hcost) (by omega) with hq | ⟨p, hq, hp⟩
    · rw [hq]
      show ((Number.int e).float.addFloat (.inf true)).le (.int e) = true
      rw [hfloat]
      exact inf_true_le e
    · rw [hq]
      show ((Number.int e).float.addFloat (.flt p)).le (.int e) = true
      rw [hfloat]
      show (Lua.toDouble (e.toInt + p)).le (.int e) = true
      obtain ⟨n, hn⟩ := Int.eq_ofNat_of_zero_le h0
      have hsum : (e.toInt : ℚ) + p ≤ n := by
        rw [hn]
        push_cast at hp ⊢
        linarith
      rcases Lua.toDouble_le hsum (by omega) with hr | ⟨r, hr, hle⟩
      · rw [hr]
        exact inf_true_le e
      · rw [hr, Number.le_flt_int, decide_eq_true_eq, hn]
        exact_mod_cast hle

end Energy

end Athena
