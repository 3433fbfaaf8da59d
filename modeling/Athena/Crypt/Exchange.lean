import Athena.Crypt.Des
import Mathlib.Data.Nat.ModEq
import Mathlib.Tactic.NormNum.GCD
/-!
# A secret for two

`randomkey`, `dhexchange` and `dhsecret` of `lua-crypt.c`. The arithmetic is that of
`uint64_t`, modulo the largest prime below `2 ^ 64`, in which a product or a double
can be too large: `mul_mod_p` is nevertheless the product (`mul_mod_p_eq`) and
`powmodp` the power. So two sides that send each other what `dhexchange` makes of
their keys have the same secret (`dhsecret_comm`).
-/

namespace Athena

namespace Crypt

open Lua (Str)

/-! ## Keys -/

/-- `random() & 0xff`, eight times. -/
abbrev Random := Fin 8 → Fin 256

/-- **`randomkey`**, which is not all zero. -/
def randomkey (random : Random) : Str :=
  let tmp := List.ofFn fun i => (random i).val
  let x := tmp.foldl (· ^^^ ·) 0
  (if x = 0 then tmp.modifyHead (· ||| 1) else tmp).map Char.ofNat

/-- The words of `read64`, as one number. -/
def word64 (x : Str) : ℕ := x.foldr (fun c v => c.toNat + 256 * v) 0

/-- `push64`. -/
def push64 (r : ℕ) : Str := (List.range 8).map fun i => Char.ofNat (r / 256 ^ i % 256)

/-! ## Arithmetic -/

/-- `P`. -/
def p : ℕ := 0xffffffffffffffc5

/-- `uint64_t`. -/
def uint64 (n : ℕ) : ℕ := n % 2 ^ 64

/-- `a - b` of `uint64_t`. -/
def sub64 (a b : ℕ) : ℕ := uint64 (a + (2 ^ 64 - b))

/-- The loop of `mul_mod_p`, of which `n` turns are left. -/
def mulLoop : ℕ → ℕ → ℕ → ℕ → ℕ
  | 0, m, _, _ => m
  | n + 1, m, a, b =>
    if b = 0 then m
    else
      let m :=
        if b &&& 1 = 1 then
          let t := sub64 p a
          if t ≤ m then sub64 m t else uint64 (m + a)
        else m
      let a := if sub64 p a ≤ a then sub64 (uint64 (a * 2)) p else uint64 (a * 2)
      mulLoop n m a (b >>> 1)

/-- **`mul_mod_p`**: a `uint64_t` is zero after 64 turns. -/
def mul_mod_p (a b : ℕ) : ℕ := mulLoop 64 0 a b

/-- `pow_mod_p`, for a depth of the recursion, which ends at one. -/
def powLoop : ℕ → ℕ → ℕ → Option ℕ
  | 0, _, _ => none
  | n + 1, a, b =>
    if b = 1 then some a
    else do
      let t ← powLoop n a (b >>> 1)
      let t := mul_mod_p t t
      pure (if b % 2 ≠ 0 then mul_mod_p t a else t)

/-- **`powmodp`**: a positive `uint64_t` is one after 63 halves. -/
def powmodp (a b : ℕ) : Option ℕ := powLoop 64 (if p < a then a % p else a) b

/-- **`dhexchange`.** The inner `none` is a recursion without end. -/
def dhexchange (x : Str) : Except Failure (Option Str) :=
  if x.length ≠ 8 then .error .dhKey
  else if word64 x = 0 then .error .zero
  else .ok ((powmodp 5 (word64 x)).map push64)

/-- **`dhsecret`.** -/
def dhsecret (x y : Str) : Except Failure (Option Str) :=
  if x.length ≠ 8 then .error .uint64X
  else if y.length ≠ 8 then .error .uint64Y
  else if word64 x = 0 ∨ word64 y = 0 then .error .zero
  else .ok ((powmodp (word64 x) (word64 y)).map push64)

/-! ## The product and the power -/

/-- A difference that is there does not wrap. -/
theorem sub64_eq {a b : ℕ} (ha : a < 2 ^ 64) (hb : b ≤ a) : sub64 a b = a - b := by
  unfold sub64 uint64
  omega

/-- **A turn of the loop** keeps `m + a * b`. -/
theorem mulLoop_eq (n m a b : ℕ) (hm : m < p) (ha : a ≤ p) (hb : b < 2 ^ n) :
    mulLoop n m a b = (m + a * b) % p := by
  have hp : p < 2 ^ 64 := by decide
  induction n generalizing m a b with
  | zero =>
    obtain rfl : b = 0 := by omega
    rw [mulLoop, Nat.mul_zero, Nat.add_zero, Nat.mod_eq_of_lt hm]
  | succ n ih =>
    rw [mulLoop]
    by_cases hzero : b = 0
    · rw [if_pos hzero, hzero, Nat.mul_zero, Nat.add_zero, Nat.mod_eq_of_lt hm]
    · rw [if_neg hzero, Nat.and_one_is_mod, Nat.shiftRight_eq_div_pow, Nat.pow_one]
      have hsub : sub64 p a = p - a := sub64_eq hp ha
      -- The double.
      have hdouble : ∃ a', (if sub64 p a ≤ a then sub64 (uint64 (a * 2)) p else uint64 (a * 2)) = a' ∧ a' ≤ p ∧
          a' ≡ a * 2 [MOD p] := by
        rw [hsub]
        split
        · refine ⟨a * 2 - p, ?_, by omega, ?_⟩
          · unfold sub64 uint64
            omega
          · exact (Nat.modEq_iff_dvd' (by omega)).mpr ⟨1, by omega⟩
        · refine ⟨a * 2, ?_, by omega, rfl⟩
          unfold uint64
          omega
      -- The sum.
      have hsum : ∃ m', (if b % 2 = 1 then if sub64 p a ≤ m then sub64 m (sub64 p a) else uint64 (m + a) else m) = m' ∧
          m' < p ∧ m' ≡ m + a * (b % 2) [MOD p] := by
        rw [hsub]
        split
        · rename_i hodd
          rw [hodd, Nat.mul_one]
          split
          · refine ⟨m + a - p, ?_, by omega, (Nat.modEq_iff_dvd' (by omega)).mpr ⟨1, by omega⟩⟩
            rw [sub64_eq (by omega) (by omega)]
            omega
          · refine ⟨m + a, ?_, by omega, rfl⟩
            unfold uint64
            omega
        · rename_i heven
          have hmod : b % 2 = 0 := by omega
          exact ⟨m, rfl, hm, by rw [hmod, Nat.mul_zero, Nat.add_zero]⟩
      obtain ⟨a', ha', hle, hmoda⟩ := hdouble
      obtain ⟨m', hm', hlt, hmodm⟩ := hsum
      rw [ha', hm', ih m' a' (b / 2) hlt hle (by rw [Nat.pow_succ] at hb; omega)]
      calc m' + a' * (b / 2) ≡ m + a * (b % 2) + a * 2 * (b / 2) [MOD p] := hmodm.add (hmoda.mul_right _)
        _ = m + a * (b % 2 + 2 * (b / 2)) := by ring
        _ = m + a * b := by rw [Nat.mod_add_div]

/-- **`mul_mod_p` is the product**, in spite of the 64 bits. -/
theorem mul_mod_p_eq {a b : ℕ} (ha : a ≤ p) (hb : b < 2 ^ 64) : mul_mod_p a b = a * b % p := by
  rw [mul_mod_p, mulLoop_eq 64 0 a b (by decide) ha hb, Nat.zero_add]

/-- **`pow_mod_p` is the power**, and ends. -/
theorem powLoop_eq {n a b : ℕ} (ha : a ≤ p) (hpos : 0 < b) (hb : b < 2 ^ n) :
    ∃ r, powLoop n a b = some r ∧ r ≤ p ∧ r ≡ a ^ b [MOD p] ∧ (r = p → a = p) := by
  have hp : p < 2 ^ 64 := by decide
  have hp0 : 0 < p := by decide
  induction n generalizing b with
  | zero => omega
  | succ n ih =>
    rw [powLoop]
    by_cases hone : b = 1
    · rw [if_pos hone, hone, Nat.pow_one]
      exact ⟨a, rfl, ha, rfl, id⟩
    · rw [if_neg hone, Nat.shiftRight_eq_div_pow, Nat.pow_one]
      obtain ⟨t, ht, hle, hmod, -⟩ := ih (b := b / 2) (by omega) (by rw [Nat.pow_succ] at hb; omega)
      rw [ht]
      have hsq : mul_mod_p t t = t * t % p := mul_mod_p_eq hle (by omega)
      have hlt : t * t % p < p := Nat.mod_lt _ hp0
      have hhalf : t * t % p ≡ a ^ (b / 2 + b / 2) [MOD p] := by
        rw [pow_add]
        exact (Nat.mod_modEq _ _).trans (hmod.mul hmod)
      simp only [Option.bind_eq_bind, Option.bind_some, hsq]
      by_cases hodd : b % 2 ≠ 0
      · rw [if_pos hodd, mul_mod_p_eq (by omega) (by omega)]
        have hlt' := Nat.mod_lt (t * t % p * a) hp0
        refine ⟨_, rfl, hlt'.le, ?_, fun heq => absurd heq hlt'.ne⟩
        have hb' : a ^ b = a ^ (b / 2 + b / 2) * a := by
          rw [← pow_succ]
          exact congrArg (a ^ ·) (by omega)
        rw [hb']
        exact (Nat.mod_modEq _ _).trans (hhalf.mul_right a)
      · rw [if_neg hodd]
        have hb' : a ^ b = a ^ (b / 2 + b / 2) := congrArg (a ^ ·) (by omega)
        refine ⟨_, rfl, hlt.le, ?_, fun heq => absurd heq hlt.ne⟩
        rw [hb']
        exact hhalf

/-- **`powmodp` is the power modulo the prime.** -/
theorem powmodp_eq {a b : ℕ} (ha : a < p) (hpos : 0 < b) (hb : b < 2 ^ 64) : powmodp a b = some (a ^ b % p) := by
  obtain ⟨r, hr, hle, hmod, hne⟩ := powLoop_eq (n := 64) ha.le hpos hb
  have hlt : r < p := by
    rcases Nat.lt_or_eq_of_le hle with hlt | heq
    · exact hlt
    · exact absurd (hne heq) ha.ne
  rw [powmodp, if_neg (by omega), hr]
  exact congrArg some ((Nat.mod_eq_of_lt hlt).symm.trans hmod)

/-! ## Bytes -/

/-- Bytes make a number below their power of 256. -/
theorem word64_lt {x : Str} (h : Bytes x) : word64 x < 256 ^ x.length := by
  induction x with
  | nil => decide
  | cons c x ih =>
    have hc := h c List.mem_cons_self
    have hx := ih fun d hd => h d (List.mem_cons_of_mem _ hd)
    rw [List.length_cons, Nat.pow_succ]
    change c.toNat + 256 * word64 x < _
    omega

/-- A number is written in eight bytes, -/
theorem length_push64 (r : ℕ) : (push64 r).length = 8 := by simp [push64]

theorem bytes_push64 (r : ℕ) : Bytes (push64 r) := by
  intro c hc
  obtain ⟨i, -, rfl⟩ := List.mem_map.mp hc
  rw [toNat_ofNat (by omega)]
  omega

/-- and is read back. -/
theorem word64_push64 {r : ℕ} (hr : r < 2 ^ 64) : word64 (push64 r) = r := by
  have hbytes : push64 r = [Char.ofNat (r % 256), Char.ofNat (r / 256 % 256), Char.ofNat (r / 65536 % 256),
      Char.ofNat (r / 16777216 % 256), Char.ofNat (r / 4294967296 % 256), Char.ofNat (r / 1099511627776 % 256),
      Char.ofNat (r / 281474976710656 % 256), Char.ofNat (r / 72057594037927936 % 256)] := by
    rw [← Nat.div_one r]
    simp [push64, List.range_succ]
  rw [hbytes]
  simp only [word64, List.foldr_cons, List.foldr_nil]
  rw [toNat_ofNat (by omega), toNat_ofNat (by omega), toNat_ofNat (by omega), toNat_ofNat (by omega),
    toNat_ofNat (by omega), toNat_ofNat (by omega), toNat_ofNat (by omega), toNat_ofNat (by omega)]
  omega

/-! ## Agreement -/

/-- The prime does not divide 5, -/
theorem coprime_five : Nat.Coprime 5 p := by
  unfold p
  norm_num

/-- so no power of 5 is 0 modulo it. -/
theorem pow_five_pos (x : ℕ) : 0 < 5 ^ x % p := by
  rcases Nat.eq_zero_or_pos (5 ^ x % p) with hzero | hpos
  · have hdvd : p ∣ 5 ^ x := Nat.dvd_of_mod_eq_zero hzero
    have hone := Nat.Coprime.eq_one_of_dvd (coprime_five.symm.pow_right x) hdvd
    exact absurd hone (by decide)
  · exact hpos

/-- A key that is exchanged. -/
structure Key (x : Str) : Prop where
  length : x.length = 8
  bytes : Bytes x
  ne : word64 x ≠ 0

/-- A key is a number of 64 bits. -/
theorem Key.lt {x : Str} (h : Key x) : word64 x < 2 ^ 64 := by
  have hlt := word64_lt h.bytes
  rw [h.length] at hlt
  exact lt_of_lt_of_le hlt (by decide)

/-- **What is sent is the power of 5**, -/
theorem dhexchange_eq {x : Str} (h : Key x) : dhexchange x = .ok (some (push64 (5 ^ word64 x % p))) := by
  have hpow := powmodp_eq (a := 5) (by decide) (Nat.pos_of_ne_zero h.ne) h.lt
  rw [dhexchange, if_neg (not_not_intro h.length), if_neg h.ne, hpow]
  rfl

/-- **and the secret its power.** -/
theorem dhsecret_eq (x : Str) {y : Str} (hy : Key y) :
    dhsecret (push64 (5 ^ word64 x % p)) y = .ok (some (push64 (5 ^ (word64 x * word64 y) % p))) := by
  have hp : 0 < p := by decide
  have hlt : 5 ^ word64 x % p < p := Nat.mod_lt _ hp
  have hword : word64 (push64 (5 ^ word64 x % p)) = 5 ^ word64 x % p :=
    word64_push64 (hlt.trans (by decide))
  have hne : ¬ (5 ^ word64 x % p = 0 ∨ word64 y = 0) := by
    rintro (hzero | hzero)
    · exact (pow_five_pos _).ne' hzero
    · exact hy.ne hzero
  rw [dhsecret, if_neg (not_not_intro (length_push64 _)), if_neg (not_not_intro hy.length), hword, if_neg hne,
    powmodp_eq hlt (Nat.pos_of_ne_zero hy.ne) hy.lt, ← Nat.pow_mod, ← pow_mul]
  rfl

/-- Only zeros make the number 0. -/
theorem word64_eq_zero {l : List ℕ} (hl : ∀ n ∈ l, n < 256) (h : word64 (l.map Char.ofNat) = 0) : ∀ n ∈ l, n = 0 := by
  induction l with
  | nil => exact fun n hn => absurd hn List.not_mem_nil
  | cons a l ih =>
    have hcons : word64 ((a :: l).map Char.ofNat) = (Char.ofNat a).toNat + 256 * word64 (l.map Char.ofNat) := rfl
    rw [hcons, toNat_ofNat (hl a List.mem_cons_self)] at h
    intro n hn
    rcases List.mem_cons.mp hn with rfl | hn
    · omega
    · exact ih (fun n hn => hl n (List.mem_cons_of_mem _ hn)) (by omega) n hn

/-- **`randomkey` is a key**, whatever `random` returns. -/
theorem key_randomkey (random : Random) : Key (randomkey random) := by
  unfold randomkey
  have htmp : ∀ n ∈ List.ofFn fun i => (random i).val, n < 256 := by
    intro n hn
    obtain ⟨i, rfl⟩ := List.mem_ofFn.mp hn
    exact (random i).isLt
  have hlen : (List.ofFn fun i => (random i).val).length = 8 := List.length_ofFn
  generalize (List.ofFn fun i => (random i).val) = tmp at htmp hlen ⊢
  have hkey : ∀ l : List ℕ, l.length = 8 → (∀ n ∈ l, n < 256) → (∃ n ∈ l, n ≠ 0) → Key (l.map Char.ofNat) := by
    intro l hl hlt ⟨n, hn, hne⟩
    refine ⟨by rw [List.length_map, hl], fun c hc => ?_, fun hzero => hne (word64_eq_zero hlt hzero n hn)⟩
    obtain ⟨n, hn, rfl⟩ := List.mem_map.mp hc
    rw [toNat_ofNat (hlt n hn)]
    exact hlt n hn
  dsimp only
  split
  · cases tmp with
    | nil => cases hlen
    | cons a tmp =>
      have ha := htmp a List.mem_cons_self
      have hor : a ||| 1 < 2 ^ 8 := Nat.or_lt_two_pow ha (by decide)
      refine hkey _ hlen (fun n hn => ?_) ⟨a ||| 1, List.mem_cons_self, fun hzero => ?_⟩
      · rcases List.mem_cons.mp hn with rfl | hn
        · exact hor
        · exact htmp n (List.mem_cons_of_mem _ hn)
      · have hbit := congrArg (fun n => n.testBit 0) hzero
        simp at hbit
  · rename_i hx
    refine hkey tmp hlen htmp ?_
    by_contra hall
    push Not at hall
    -- The sum of zeros is zero.
    have hfold : ∀ l : List ℕ, (∀ n ∈ l, n = 0) → l.foldl (· ^^^ ·) 0 = 0 := by
      intro l hl
      induction l with
      | nil => rfl
      | cons a l ih =>
        rw [List.foldl_cons, hl a List.mem_cons_self, Nat.xor_self]
        exact ih fun n hn => hl n (List.mem_cons_of_mem _ hn)
    exact hx (hfold tmp hall)

/-- **Both sides have one secret**, whatever `random` returns: the product and the power do not
overflow, what is sent is the power of 5 to a key, and the secret that to the product of both
keys. -/
theorem dhsecret_comm (random random' : Random) :
    ((∀ a b, a ≤ p → b < 2 ^ 64 → mul_mod_p a b = a * b % p) ∧
      ∀ a b, a < p → 0 < b → b < 2 ^ 64 → powmodp a b = some (a ^ b % p)) ∧
    (randomkey random).length = 8 ∧
    ∃ X Y secret, dhexchange (randomkey random) = .ok (some X) ∧ dhexchange (randomkey random') = .ok (some Y) ∧
      dhsecret X (randomkey random') = .ok (some secret) ∧ dhsecret Y (randomkey random) = .ok (some secret) ∧
      (X = push64 (5 ^ word64 (randomkey random) % p) ∧ word64 X = 5 ^ word64 (randomkey random) % p) ∧
      (secret = push64 (5 ^ (word64 (randomkey random) * word64 (randomkey random')) % p) ∧
        word64 secret = 5 ^ (word64 (randomkey random) * word64 (randomkey random')) % p) ∧
      X.length = 8 ∧ secret.length = 8 := by
  have hx := key_randomkey random
  have hy := key_randomkey random'
  have hword : ∀ n, word64 (push64 (n % p)) = n % p := by
    intro n
    have hlt : n % p < p := Nat.mod_lt _ (by decide)
    exact word64_push64 (hlt.trans (by decide))
  refine ⟨⟨fun a b => mul_mod_p_eq, fun a b => powmodp_eq⟩, hx.length, _, _, _, dhexchange_eq hx,
    dhexchange_eq hy, dhsecret_eq _ hy, ?_, ⟨rfl, hword _⟩, ⟨rfl, hword _⟩, length_push64 _, length_push64 _⟩
  rw [dhsecret_eq _ hx, Nat.mul_comm]

/-- Eight zeros, of which `randomkey` makes 1, and the bytes from 1 to 8. -/
theorem dhsecret_comm_zeros : ∃ X Y secret, dhexchange (push64 1) = .ok (some X) ∧
    dhexchange (push64 0x0807060504030201) = .ok (some Y) ∧
    dhsecret X (push64 0x0807060504030201) = .ok (some secret) ∧ dhsecret Y (push64 1) = .ok (some secret) ∧
    (word64 X = 5 ∧ X.length = 8) ∧ word64 secret = 5 ^ 0x0807060504030201 % p ∧ secret.length = 8 := by
  have hx : randomkey (fun _ => 0) = push64 1 := by decide +kernel
  have hy : randomkey (fun i => ⟨i + 1, by omega⟩) = push64 0x0807060504030201 := by decide +kernel
  obtain ⟨-, -, X, Y, secret, hX, hY, hs, hs', ⟨-, hword⟩, ⟨-, hwords⟩, hlen, hlens⟩ :=
    dhsecret_comm (fun _ => 0) fun i => ⟨i + 1, by omega⟩
  have hone : word64 (push64 1) = 1 := word64_push64 (by decide)
  have hother : word64 (push64 0x0807060504030201) = 0x0807060504030201 := word64_push64 (by decide)
  rw [hx] at hX hs' hword hwords
  rw [hy] at hY hs hwords
  rw [hone] at hword hwords
  rw [hother, Nat.one_mul] at hwords
  exact ⟨X, Y, secret, hX, hY, hs, hs', ⟨hword, hlen⟩, hwords, hlens⟩

end Crypt

end Athena
