import Athena.Lua.Number
/-!
# Arithmetic

`+`, `-`, `*` and `/` of Lua numbers, `math.floor`, `math.ceil`, `math.abs`, `math.max`
and `math.min`. Two integers give an integer, modulo `2 ^ 64`; with a float on one
side the operation is the one on doubles, and `/` always is.
-/

namespace Athena

namespace Lua

namespace Number

/-- A number as a double. -/
def float : Number → Number
  | int i => toDouble i.toInt
  | x => x

/-- The sum of two doubles. -/
def addFloat : Number → Number → Number
  | flt p, flt q => toDouble (p + q)
  | inf a, inf b => if a = b then inf a else nan
  | inf a, flt _ => inf a
  | flt _, inf b => inf b
  | _, _ => nan

/-- The product of two doubles. -/
def mulFloat : Number → Number → Number
  | flt p, flt q => toDouble (p * q)
  | inf a, inf b => inf (a != b)
  | inf a, flt q => if q = 0 then nan else inf (a != decide (q < 0))
  | flt p, inf b => if p = 0 then nan else inf (decide (p < 0) != b)
  | _, _ => nan

def neg : Number → Number
  | int i => int (-i)
  | flt q => flt (-q)
  | inf a => inf !a
  | nan => nan

/-- `a + b`. -/
def add : Number → Number → Number
  | int i, int j => int (i + j)
  | a, b => a.float.addFloat b.float

/-- `a - b`. -/
def sub : Number → Number → Number
  | int i, int j => int (i - j)
  | a, b => a.float.addFloat b.float.neg

/-- `a * b`. -/
def mul : Number → Number → Number
  | int i, int j => int (i * j)
  | a, b => a.float.mulFloat b.float

/-- `math.floor`, an integer where there is one. -/
def floor : Number → Number
  | flt q => if -2 ^ 63 ≤ ⌊q⌋ ∧ ⌊q⌋ < 2 ^ 63 then int (Int64.ofInt ⌊q⌋) else flt ⌊q⌋
  | x => x

/-- `math.ceil`. -/
def ceil : Number → Number
  | flt q => if -2 ^ 63 ≤ ⌈q⌉ ∧ ⌈q⌉ < 2 ^ 63 then int (Int64.ofInt ⌈q⌉) else flt ⌈q⌉
  | x => x

/-- `lua_tointegerx`. -/
def toInteger : Number → Option Int64
  | int i => some i
  | flt q => if (⌊q⌋ : ℚ) = q ∧ -2 ^ 63 ≤ ⌊q⌋ ∧ ⌊q⌋ < 2 ^ 63 then some (Int64.ofInt ⌊q⌋) else none
  | _ => none

/-- `math.max`. -/
def max (a b : Number) : Number := if a.lt b then b else a

/-- `math.min`. -/
def min (a b : Number) : Number := if b.lt a then b else a

/-- `math.abs`. -/
def abs : Number → Number
  | int i => int (if i < 0 then -i else i)
  | flt q => flt |q|
  | inf _ => inf false
  | nan => nan

/-- The quotient of two doubles. A zero is one above zero. -/
def divFloat : Number → Number → Number
  | flt p, flt q =>
    if q = 0 then (if p = 0 then nan else inf (decide (p < 0))) else toDouble (p / q)
  | inf a, flt q => inf (a != decide (q < 0))
  | flt _, inf _ => flt 0
  | _, _ => nan

/-- `a / b`, always of doubles. -/
def div (a b : Number) : Number := a.float.divFloat b.float

/-- `a == b`. -/
def eq (a b : Number) : Bool := a.le b && b.le a

/-- `math.ceil(a + b)` where one of the two is a text that spells the number: the sum
is one of doubles. -/
def ceilSum (a b : Number) : Number := (a.float.addFloat b.float).ceil

variable {i j : Int64}

@[simp] theorem add_int : add (int i) (int j) = int (i + j) := rfl

@[simp] theorem sub_int : sub (int i) (int j) = int (i - j) := rfl

@[simp] theorem mul_int : mul (int i) (int j) = int (i * j) := rfl

@[simp] theorem floor_int : floor (int i) = int i := rfl

@[simp] theorem ceil_int : ceil (int i) = int i := rfl

/-- Integers compare as integers. -/
theorem lt_int : (int i).lt (int j) = decide (i.toInt < j.toInt) := by
  simp [lt, ext]

theorem le_int : (int i).le (int j) = decide (i.toInt ≤ j.toInt) := by
  simp [le, ext]

theorem eq_int : (int i).eq (int j) = decide (i = j) := by
  rw [eq, le_int, le_int, ← Bool.decide_and]
  refine decide_eq_decide.mpr ?_
  rw [← Int64.toInt_inj]
  omega

variable {q : ℚ}

/-- A float compares with an integer by value. -/
theorem lt_flt_int : (flt q).lt (int i) = decide (q < i.toInt) := by
  simp [lt, ext]

theorem lt_int_flt : (int i).lt (flt q) = decide ((i.toInt : ℚ) < q) := by
  simp [lt, ext]

theorem le_flt_int : (flt q).le (int i) = decide (q ≤ i.toInt) := by
  simp [le, ext]

theorem le_int_flt : (int i).le (flt q) = decide ((i.toInt : ℚ) ≤ q) := by
  simp [le, ext]

/-- An infinity lies beyond every integer. -/
theorem lt_inf_int {b : Bool} : (inf b).lt (int i) = b := by
  cases b with
  | true => simp [lt, ext]
  | false => simp [lt, ext]

theorem lt_int_inf {b : Bool} : (int i).lt (inf b) = !b := by
  cases b with
  | true => simp [lt, ext]
  | false =>
    simp only [lt, ext, Bool.not_false, decide_eq_true_eq]
    exact WithBot.coe_lt_coe.mpr (WithTop.coe_lt_top _)

/-- What lies above an integer and not above another. -/
theorem toInt_lt_of_lt_of_le {x : Number} (h₁ : (int i).lt x = true) (h₂ : x.le (int j) = true) :
    i.toInt < j.toInt := by
  obtain ⟨a, b, ha, hb, hab⟩ := lt_iff.mp h₁
  obtain ⟨b', c, hb', hc, hbc⟩ := le_iff.mp h₂
  obtain rfl := Option.some.inj (hb.symm.trans hb')
  have hac := hab.trans_le hbc
  cases ha
  cases hc
  exact_mod_cast WithTop.coe_lt_coe.mp (WithBot.coe_lt_coe.mp hac)

/-! ## Results that fit -/

theorem toInt_add (h₁ : -2 ^ 63 ≤ i.toInt + j.toInt) (h₂ : i.toInt + j.toInt < 2 ^ 63) :
    (i + j).toInt = i.toInt + j.toInt := by
  rw [Int64.toInt_add]
  exact Int.bmod_eq_of_le (by omega) (by omega)

theorem toInt_sub (h₁ : -2 ^ 63 ≤ i.toInt - j.toInt) (h₂ : i.toInt - j.toInt < 2 ^ 63) :
    (i - j).toInt = i.toInt - j.toInt := by
  rw [Int64.toInt_sub]
  exact Int.bmod_eq_of_le (by omega) (by omega)

theorem toInt_mul (h₁ : -2 ^ 63 ≤ i.toInt * j.toInt) (h₂ : i.toInt * j.toInt < 2 ^ 63) :
    (i * j).toInt = i.toInt * j.toInt := by
  rw [Int64.toInt_mul]
  exact Int.bmod_eq_of_le (by omega) (by omega)

/-- Past the range the sum is `2 ^ 64` less. -/
theorem toInt_add_over (h : 2 ^ 63 ≤ i.toInt + j.toInt) :
    (i + j).toInt = i.toInt + j.toInt - 2 ^ 64 := by
  have hi := Int64.toInt_lt i
  have hj := Int64.toInt_lt j
  have hsum : i.toInt + j.toInt = (i.toInt + j.toInt - 2 ^ 64) + ((2 ^ 64 : ℕ) : ℤ) := by
    push_cast
    omega
  calc (i + j).toInt = (i.toInt + j.toInt).bmod (2 ^ 64) := Int64.toInt_add i j
    _ = (i.toInt + j.toInt - 2 ^ 64).bmod (2 ^ 64) := by rw [hsum, Int.add_bmod_right]; simp
    _ = i.toInt + j.toInt - 2 ^ 64 := Int.bmod_eq_of_le (by omega) (by omega)

/-- Below the range the difference is `2 ^ 64` more. -/
theorem toInt_sub_under (h : i.toInt - j.toInt < -2 ^ 63) :
    (i - j).toInt = i.toInt - j.toInt + 2 ^ 64 := by
  have hi := Int64.le_toInt i
  have hj := Int64.toInt_lt j
  calc (i - j).toInt = (i.toInt - j.toInt).bmod (2 ^ 64) := Int64.toInt_sub i j
    _ = (i.toInt - j.toInt + ((2 ^ 64 : ℕ) : ℤ)).bmod (2 ^ 64) := (Int.add_bmod_right _ _).symm
    _ = i.toInt - j.toInt + 2 ^ 64 := Int.bmod_eq_of_le (by push_cast; omega) (by push_cast; omega)

end Number

/-- An integer of Lua. -/
def wrap (n : ℤ) : ℤ := (Int64.ofInt n).toInt

theorem wrap_eq {n : ℤ} (h : -2 ^ 63 ≤ n) (h' : n < 2 ^ 63) : wrap n = n := Int64.toInt_ofInt_of_le h h'

@[simp] theorem wrap_zero : wrap 0 = 0 := rfl

/-- What goes round once goes round as well at the end. -/
theorem wrap_wrap_add_wrap (m n : ℤ) : wrap (wrap m + wrap n) = wrap (m + n) := by
  simp only [wrap, Int64.ofInt_add, Int64.ofInt_toInt]

/-! ## Integers that are doubles -/

theorem roundEven_intCast (n : ℤ) : roundEven n = n := by
  simp [roundEven]

/-- **A double has every integer up to `2 ^ 53`.** -/
theorem toDouble_natCast {n : ℕ} (h : n ≤ 2 ^ 53) : toDouble n = .flt n := by
  rcases Nat.eq_zero_or_pos n with rfl | hpos
  · rfl
  have hq : (0 : ℚ) < n := by exact_mod_cast hpos
  have hlog : Nat.log 2 n ≤ 53 := (Nat.log_mono_right h).trans (Nat.log_pow one_lt_two 53).le
  -- the number is a multiple of the last bit
  obtain ⟨m, hm⟩ : ∃ m : ℤ, (n : ℚ) / 2 ^ ((Nat.log 2 n : ℤ) - 52) = m := by
    rcases hlog.lt_or_eq with hlt | heq
    · refine ⟨n * 2 ^ (52 - Nat.log 2 n), ?_⟩
      rw [show (Nat.log 2 n : ℤ) - 52 = -((52 - Nat.log 2 n : ℕ) : ℤ) by omega, zpow_neg, div_inv_eq_mul]
      push_cast
      rw [zpow_natCast]
    · have hn : n = 2 ^ 53 := by
        have := Nat.pow_log_le_self 2 hpos.ne'
        rw [heq] at this
        omega
      refine ⟨2 ^ 52, ?_⟩
      rw [heq, hn]
      norm_num
  have he : max ((Nat.log 2 n : ℤ) - 52) (-1074) = (Nat.log 2 n : ℤ) - 52 := by omega
  have hback : (m : ℚ) * 2 ^ ((Nat.log 2 n : ℤ) - 52) = n := by
    rw [← hm, div_mul_cancel₀ _ (zpow_pos two_pos _).ne']
  have hsmall : ¬ (2 : ℚ) ^ 1024 ≤ n := by
    have hle : (n : ℚ) ≤ 2 ^ 53 := by exact_mod_cast h
    exact not_le.mpr (hle.trans_lt (pow_lt_pow_right₀ one_lt_two (by omega)))
  unfold toDouble
  rw [if_neg hq.ne']
  simp only [abs_of_pos hq, Int.log_natCast, he, hm, roundEven_intCast, hback, if_neg hsmall,
    if_neg (not_lt.mpr hq.le)]

theorem toDouble_intCast {n : ℤ} (h0 : 0 ≤ n) (h : n ≤ 2 ^ 53) : toDouble n = .flt n := by
  obtain ⟨k, rfl⟩ := Int.eq_ofNat_of_zero_le h0
  exact toDouble_natCast (by exact_mod_cast h)

/-! ## Rounding and order -/

/-- Rounding is the same on both sides of zero. -/
theorem toDouble_neg (q : ℚ) : toDouble (-q) = (toDouble q).neg := by
  unfold toDouble
  by_cases hq : q = 0
  · simp [hq, Number.neg]
  · rcases lt_or_gt_of_ne hq with hneg | hpos
    · have h1 : ¬ -q < 0 := by linarith
      simp only [neg_eq_zero, hq, if_false, abs_neg, h1, hneg, if_true, decide_true, decide_false]
      split_ifs
      · rfl
      · simp [Number.neg]
    · have h1 : -q < 0 := by linarith
      simp only [neg_eq_zero, hq, if_false, abs_neg, h1, hpos.not_gt, if_true, decide_true, decide_false]
      split_ifs
      · rfl
      · simp [Number.neg]

theorem toDouble_of_abs_le {n : ℤ} (h₁ : -2 ^ 53 ≤ n) (h₂ : n ≤ 2 ^ 53) : toDouble n = .flt n := by
  rcases le_or_gt 0 n with h0 | h0
  · exact toDouble_intCast h0 h₂
  · have hneg := toDouble_neg (((-n : ℤ) : ℚ))
    rw [toDouble_intCast (by omega) (by omega), Number.neg] at hneg
    simpa using hneg

/-- **A sum of doubles is exact** where it and its terms are integers up to `2 ^ 53`. -/
theorem Number.ceilSum_int {i j : Int64} (hi₁ : -2 ^ 53 ≤ i.toInt) (hi₂ : i.toInt ≤ 2 ^ 53)
    (hj₁ : -2 ^ 53 ≤ j.toInt) (hj₂ : j.toInt ≤ 2 ^ 53) (h₁ : -2 ^ 53 ≤ i.toInt + j.toInt)
    (h₂ : i.toInt + j.toInt ≤ 2 ^ 53) : (int i).ceilSum (int j) = int (i + j) := by
  have hsum : ((i.toInt : ℚ) + j.toInt) = ((i + j).toInt : ℤ) := by
    rw [Number.toInt_add (by omega) (by omega)]
    push_cast
    rfl
  have htoInt := Number.toInt_add (i := i) (j := j) (by omega) (by omega)
  rw [ceilSum, Number.float, Number.float, toDouble_of_abs_le hi₁ hi₂, toDouble_of_abs_le hj₁ hj₂,
    addFloat, hsum, toDouble_of_abs_le (by omega) (by omega), ceil, Int.ceil_intCast,
    if_pos ⟨by omega, by omega⟩, Int64.ofInt_toInt]

/-- Rounding stays below an integer that is above. -/
theorem roundEven_le {q : ℚ} {n : ℤ} (h : q ≤ n) : roundEven q ≤ n := by
  have hfloor : ⌊q⌋ ≤ n := by exact_mod_cast (Int.floor_le q).trans h
  have hup : ¬ q - ⌊q⌋ < 1 / 2 → ⌊q⌋ + 1 ≤ n := by
    intro hhalf
    have hlt : (⌊q⌋ : ℚ) < n := by linarith
    exact_mod_cast hlt
  unfold roundEven
  dsimp only
  split_ifs with hlow
  · exact hfloor
  · exact hup hlow
  · exact hfloor
  · exact hup hlow

theorem le_roundEven (q : ℚ) : ⌊q⌋ ≤ roundEven q := by
  unfold roundEven
  dsimp only
  split_ifs
  · exact le_refl _
  · omega
  · exact le_refl _
  · omega

/-- A double that is read as one does not lie above an integer its value is below. -/
theorem toDouble_le {q : ℚ} {n : ℕ} (hq : q ≤ n) (hn : n ≤ 2 ^ 53) :
    toDouble q = .inf true ∨ ∃ p, toDouble q = .flt p ∧ p ≤ n := by
  have hn0 : (0 : ℚ) ≤ n := Nat.cast_nonneg n
  rcases lt_trichotomy q 0 with hneg | rfl | hpos
  · have hfloor : 0 ≤ ⌊|q| / 2 ^ max (Int.log 2 |q| - 52) (-1074)⌋ :=
      Int.floor_nonneg.mpr (div_nonneg (abs_nonneg q) (zpow_nonneg zero_le_two _))
    have hround : (0 : ℚ) ≤ roundEven (|q| / 2 ^ max (Int.log 2 |q| - 52) (-1074)) := by
      exact_mod_cast hfloor.trans (le_roundEven _)
    unfold toDouble
    rw [if_neg hneg.ne]
    dsimp only
    rw [decide_eq_true hneg, if_pos hneg]
    split_ifs
    · exact Or.inl rfl
    · refine Or.inr ⟨_, rfl, ?_⟩
      have hv := mul_nonneg hround (zpow_nonneg (zero_le_two (α := ℚ)) (max (Int.log 2 |q| - 52) (-1074)))
      linarith
  · exact Or.inr ⟨0, rfl, hn0⟩
  · have hlog : Int.log 2 q ≤ 53 := by
      have h2 : (2 : ℚ) ^ Int.log 2 q ≤ 2 ^ (53 : ℤ) := by
        refine (Int.zpow_log_le_self (by decide) hpos).trans (hq.trans ?_)
        exact_mod_cast hn
      exact (zpow_le_zpow_iff_right₀ one_lt_two).mp h2
    rcases hlog.lt_or_eq with hlt | heq
    · -- the integer is a multiple of the last bit
      have he : max (Int.log 2 q - 52) (-1074) ≤ 0 := by omega
      obtain ⟨k, hk⟩ := Int.eq_ofNat_of_zero_le (neg_nonneg.mpr he)
      have hpow : (2 : ℚ) ^ max (Int.log 2 q - 52) (-1074) = (2 ^ k)⁻¹ := by
        rw [show max (Int.log 2 q - 52) (-1074) = -(k : ℤ) by omega, zpow_neg, zpow_natCast]
      have hround : roundEven (q / (2 ^ k)⁻¹) ≤ ((n * 2 ^ k : ℕ) : ℤ) := by
        refine roundEven_le ?_
        rw [div_inv_eq_mul]
        push_cast
        exact mul_le_mul_of_nonneg_right hq (by positivity)
      have hv : (roundEven (q / (2 ^ k)⁻¹) : ℚ) * (2 ^ k)⁻¹ ≤ n := by
        rw [← div_eq_mul_inv, div_le_iff₀ (by positivity)]
        exact_mod_cast hround
      have hsmall : ¬ (2 : ℚ) ^ 1024 ≤ roundEven (q / (2 ^ k)⁻¹) * (2 ^ k)⁻¹ := by
        have hle : (n : ℚ) ≤ 2 ^ 53 := by exact_mod_cast hn
        exact not_le.mpr ((hv.trans hle).trans_lt (pow_lt_pow_right₀ one_lt_two (by omega)))
      refine Or.inr ⟨_, ?_, hv⟩
      unfold toDouble
      rw [if_neg hpos.ne']
      simp only [abs_of_pos hpos, hpow, if_neg hsmall, if_neg hpos.not_gt]
    · have hge : (2 : ℚ) ^ 53 ≤ q := by
        have := Int.zpow_log_le_self (b := 2) (by decide) hpos
        rw [heq] at this
        exact_mod_cast this
      have hle : (n : ℚ) ≤ 2 ^ 53 := by exact_mod_cast hn
      obtain rfl : q = n := le_antisymm hq (hle.trans hge)
      exact Or.inr ⟨n, toDouble_natCast hn, le_refl _⟩

/-! ## The nearest double -/

/-- The double nearest to a number that is not too large for one. -/
def double (q : ℚ) : ℚ :=
  match toDouble q with
  | .flt p => p
  | _ => q

@[simp] theorem double_zero : double 0 = 0 := rfl

theorem double_intCast {n : ℤ} (h₁ : -2 ^ 53 ≤ n) (h₂ : n ≤ 2 ^ 53) : double n = n := by
  rw [double, toDouble_of_abs_le h₁ h₂]

theorem double_nonneg {q : ℚ} (h : 0 ≤ q) : 0 ≤ double q := by
  rcases h.eq_or_lt with rfl | hpos
  · exact le_rfl
  have hunit : (0 : ℚ) < 2 ^ max (Int.log 2 q - 52) (-1074) := zpow_pos two_pos _
  have hround : (0 : ℤ) ≤ roundEven (q / 2 ^ max (Int.log 2 q - 52) (-1074)) :=
    (Int.floor_nonneg.mpr (div_nonneg h hunit.le)).trans (le_roundEven _)
  unfold double toDouble
  rw [if_neg hpos.ne']
  simp only [abs_of_pos hpos, if_neg hpos.not_gt]
  split
  · rename_i p hp
    split_ifs at hp
    cases hp
    exact mul_nonneg (by exact_mod_cast hround) hunit.le
  · exact h

/-- **A power of two that lies below stays below.** -/
theorem le_double {q : ℚ} {m : ℤ} (hm : -1074 ≤ m) (h : (2 : ℚ) ^ m ≤ q) : (2 : ℚ) ^ m ≤ double q := by
  have hpos : 0 < q := (zpow_pos two_pos m).trans_le h
  have hlog : m ≤ Int.log 2 q := (Int.zpow_le_iff_le_log (by decide) hpos).mp (by exact_mod_cast h)
  -- the number in units of the last bit
  obtain ⟨e, he⟩ : ∃ e, e = max (Int.log 2 q - 52) (-1074) := ⟨_, rfl⟩
  have hunit : (0 : ℚ) < 2 ^ e := zpow_pos two_pos e
  have hround : (2 : ℚ) ^ m ≤ roundEven (q / 2 ^ e) * 2 ^ e := by
    obtain ⟨k, hk, hkq, hkm⟩ : ∃ k : ℤ, (k : ℚ) ≤ q / 2 ^ e ∧ k ≤ ⌊q / 2 ^ e⌋ ∧ (2 : ℚ) ^ m ≤ k * 2 ^ e := by
      rcases le_total e m with hle | hle
      · obtain ⟨j, hj⟩ := Int.eq_ofNat_of_zero_le (sub_nonneg.mpr hle)
        have hsplit : (2 : ℚ) ^ m = 2 ^ j * 2 ^ e := by
          rw [← zpow_natCast, ← zpow_add₀ two_ne_zero]
          congr 1
          omega
        have hkq : (((2 ^ j : ℤ)) : ℚ) ≤ q / 2 ^ e := by
          rw [le_div_iff₀ hunit]
          push_cast
          rw [← hsplit]
          exact h
        refine ⟨2 ^ j, hkq, Int.le_floor.mpr hkq, ?_⟩
        push_cast
        rw [hsplit]
      · have hone : ((1 : ℤ) : ℚ) ≤ q / 2 ^ e := by
          rw [le_div_iff₀ hunit, Int.cast_one, one_mul]
          have hpow : (2 : ℚ) ^ e ≤ 2 ^ Int.log 2 q := zpow_le_zpow_right₀ one_le_two (by omega)
          exact hpow.trans (by exact_mod_cast Int.zpow_log_le_self (b := 2) (by decide) hpos)
        refine ⟨1, hone, Int.le_floor.mpr hone, ?_⟩
        rw [Int.cast_one, one_mul]
        exact zpow_le_zpow_right₀ one_le_two hle
    have hcast : (k : ℚ) ≤ roundEven (q / 2 ^ e) := by
      exact_mod_cast hkq.trans (le_roundEven _)
    exact hkm.trans (mul_le_mul_of_nonneg_right hcast hunit.le)
  unfold double toDouble
  rw [if_neg hpos.ne']
  simp only [abs_of_pos hpos, ← he, if_neg hpos.not_gt]
  split
  · rename_i p hp
    split_ifs at hp
    cases hp
    exact hround
  · exact h

theorem one_le_double {q : ℚ} (h : 1 ≤ q) : 1 ≤ double q := by
  have := le_double (m := 0) (by omega) (by simpa using h)
  simpa using this

end Lua

end Athena
