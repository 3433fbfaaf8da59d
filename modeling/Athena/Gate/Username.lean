import Athena.Lua.Number
/-!
# The gate — usernames

`server.username` of `lualib/snax/msg_server.lua` over `base64encode` of
`lua-crypt.c`. A username names the uid and the subid of its session:
on one server two sessions have the same username only if they are the
same in both (`username_inj`). Strings are bytes, so the characters of a
text are below 256.
-/

namespace Athena

namespace Gate

open Lua

/-- `encoding[v]`. -/
def encoding (v : ℕ) : Char :=
  "ABCDEFGHIJKLMNOPQRSTUVWXYZabcdefghijklmnopqrstuvwxyz0123456789+/".toList.getD v 'A'

/-- **`base64encode`**: three bytes to four characters, the rest padded. -/
def base64encode : Str → Str
  | a :: b :: c :: text =>
    let v := a.toNat * 65536 + b.toNat * 256 + c.toNat
    encoding (v / 262144) :: encoding (v / 4096 % 64) :: encoding (v / 64 % 64) ::
      encoding (v % 64) :: base64encode text
  | [a, b] =>
    let v := a.toNat * 256 + b.toNat
    [encoding (v / 1024), encoding (v / 16 % 64), encoding (v % 16 * 4), '=']
  | [a] => [encoding (a.toNat / 4), encoding (a.toNat % 4 * 16), '=', '=']
  | [] => []

/-- **`server.username`.** -/
def username (uid : Int64) (subid : ℕ) (servername : Str) : Str :=
  base64encode (tostring (.int uid)) ++
    '@' :: (base64encode servername ++ '#' :: base64encode (intText subid))

/-! ## The encoding -/

set_option maxRecDepth 4000 in
theorem encoding_ne {v : ℕ} (h : v < 64) : encoding v ≠ '=' ∧ encoding v ≠ '@' := by
  have : ∀ u : Fin 64, encoding u ≠ '=' ∧ encoding u ≠ '@' := by decide
  exact this ⟨v, h⟩

set_option maxRecDepth 4000 in
theorem encoding_inj {v w : ℕ} (hv : v < 64) (hw : w < 64) (h : encoding v = encoding w) :
    v = w := by
  -- the place of a character in the alphabet
  have hidx : ∀ u : Fin 64,
      "ABCDEFGHIJKLMNOPQRSTUVWXYZabcdefghijklmnopqrstuvwxyz0123456789+/".toList.idxOf
        (encoding u) = u := by decide
  have h1 := hidx ⟨v, hv⟩
  have h2 := hidx ⟨w, hw⟩
  simp only at h1 h2
  rw [← h1, ← h2, h]

/-- The bytes of a text. -/
def Bytes (s : Str) : Prop := ∀ c ∈ s, c.toNat < 256

theorem at_not_mem_base64encode {s : Str} (h : Bytes s) : '@' ∉ base64encode s := by
  fun_induction base64encode s with
  | case1 a b c text v ih =>
    have ha := h a (by simp)
    have hb := h b (by simp)
    have hc := h c (by simp)
    have hv : v / 262144 < 64 := by omega
    have := ih fun x hx => h x (by simp [hx])
    simp only [List.mem_cons, not_or]
    exact ⟨(encoding_ne hv).2.symm, (encoding_ne (Nat.mod_lt _ (by omega))).2.symm,
      (encoding_ne (Nat.mod_lt _ (by omega))).2.symm,
      (encoding_ne (Nat.mod_lt _ (by omega))).2.symm, this⟩
  | case2 a b v =>
    have ha := h a (by simp)
    have hb := h b (by simp)
    simp only [List.mem_cons, List.not_mem_nil, or_false, not_or]
    exact ⟨(encoding_ne (by omega)).2.symm, (encoding_ne (by omega)).2.symm,
      (encoding_ne (by omega)).2.symm, by decide⟩
  | case3 a =>
    have ha := h a (by simp)
    simp only [List.mem_cons, List.not_mem_nil, or_false, not_or]
    exact ⟨(encoding_ne (by omega)).2.symm, (encoding_ne (by omega)).2.symm, by decide, by decide⟩
  | case4 => simp

/-- Bytes of equal codes are equal. -/
theorem eq_of_toNat_eq {a b : Char} (h : a.toNat = b.toNat) : a = b := Char.toNat_inj.mp h

/-- **The encoding loses nothing.** -/
theorem base64encode_inj {s t : Str} (hs : Bytes s) (ht : Bytes t)
    (h : base64encode s = base64encode t) : s = t := by
  induction s using base64encode.induct generalizing t with
  | case1 a b c text ih =>
    have ha := hs a (by simp)
    have hb := hs b (by simp)
    have hc := hs c (by simp)
    -- three bytes leave no `=`, so `t` has three as well
    match t with
    | [] => simp [base64encode] at h
    | [x] =>
      simp only [base64encode, List.cons.injEq] at h
      exact absurd h.2.2.1 (encoding_ne (Nat.mod_lt _ (by omega))).1
    | [x, y] =>
      simp only [base64encode, List.cons.injEq] at h
      exact absurd h.2.2.2.1 (encoding_ne (Nat.mod_lt _ (by omega))).1
    | x :: y :: z :: rest =>
      have hx := ht x (by simp)
      have hy := ht y (by simp)
      have hz := ht z (by simp)
      simp only [base64encode, List.cons.injEq] at h
      obtain ⟨h1, h2, h3, h4, h5⟩ := h
      have e1 := encoding_inj (by omega) (by omega) h1
      have e2 := encoding_inj (Nat.mod_lt _ (by omega)) (Nat.mod_lt _ (by omega)) h2
      have e3 := encoding_inj (Nat.mod_lt _ (by omega)) (Nat.mod_lt _ (by omega)) h3
      have e4 := encoding_inj (Nat.mod_lt _ (by omega)) (Nat.mod_lt _ (by omega)) h4
      rw [eq_of_toNat_eq (a := a) (b := x) (by omega), eq_of_toNat_eq (a := b) (b := y) (by omega),
        eq_of_toNat_eq (a := c) (b := z) (by omega),
        ih (fun d hd => hs d (by simp [hd])) (fun d hd => ht d (by simp [hd])) h5]
  | case2 a b =>
    have ha := hs a (by simp)
    have hb := hs b (by simp)
    match t with
    | [] => simp [base64encode] at h
    | [x] =>
      simp only [base64encode, List.cons.injEq] at h
      exact absurd h.2.2.1 (encoding_ne (by omega)).1
    | [x, y] =>
      have hx := ht x (by simp)
      have hy := ht y (by simp)
      simp only [base64encode, List.cons.injEq] at h
      obtain ⟨h1, h2, h3, -⟩ := h
      have e1 := encoding_inj (by omega) (by omega) h1
      have e2 := encoding_inj (by omega) (by omega) h2
      have e3 := encoding_inj (by omega) (by omega) h3
      rw [eq_of_toNat_eq (a := a) (b := x) (by omega), eq_of_toNat_eq (a := b) (b := y) (by omega)]
    | x :: y :: z :: rest =>
      simp only [base64encode, List.cons.injEq] at h
      exact absurd h.2.2.2.1.symm (encoding_ne (Nat.mod_lt _ (by omega))).1
  | case3 a =>
    have ha := hs a (by simp)
    match t with
    | [] => simp [base64encode] at h
    | [x] =>
      have hx := ht x (by simp)
      simp only [base64encode, List.cons.injEq] at h
      have e1 := encoding_inj (by omega) (by omega) h.1
      have e2 := encoding_inj (by omega) (by omega) h.2.1
      rw [eq_of_toNat_eq (a := a) (b := x) (by omega)]
    | [x, y] =>
      have hx := ht x (by simp)
      have hy := ht y (by simp)
      simp only [base64encode, List.cons.injEq] at h
      exact absurd h.2.2.1.symm (encoding_ne (by omega)).1
    | x :: y :: z :: rest =>
      simp only [base64encode, List.cons.injEq] at h
      exact absurd h.2.2.1.symm (encoding_ne (Nat.mod_lt _ (by omega))).1
  | case4 =>
    match t with
    | [] => rfl
    | [x] => simp [base64encode] at h
    | [x, y] => simp [base64encode] at h
    | x :: y :: z :: rest => simp [base64encode] at h

/-! ## Usernames -/

theorem bytes_intText (i : ℤ) : Bytes (intText i) := by
  intro c hc
  have h := isNumeral_intText i c hc
  simp only [isNumeral, Bool.or_eq_true, List.mem_cons, List.not_mem_nil, or_false,
    decide_eq_true_eq, Char.isDigit, Bool.and_eq_true] at h
  rcases h with ⟨-, h⟩ | rfl | rfl | rfl | rfl | rfl | rfl | rfl | rfl
  · have : c.toNat ≤ 57 := h
    omega
  all_goals decide

/-- Two texts with a mark that is in neither of their heads. -/
theorem append_cons_inj {a b s t : Str} {c : Char} (ha : c ∉ a) (hb : c ∉ b)
    (h : a ++ c :: s = b ++ c :: t) : a = b ∧ s = t := by
  induction a generalizing b with
  | nil =>
    cases b with
    | nil => exact ⟨rfl, (List.cons.inj h).2⟩
    | cons d b =>
      obtain ⟨rfl, -⟩ := List.cons.inj h
      exact absurd List.mem_cons_self hb
  | cons d a ih =>
    cases b with
    | nil =>
      obtain ⟨rfl, -⟩ := List.cons.inj h
      exact absurd List.mem_cons_self ha
    | cons e b =>
      obtain ⟨rfl, htail⟩ := List.cons.inj h
      obtain ⟨rfl, hst⟩ := ih (fun hc => ha (List.mem_cons_of_mem _ hc))
        (fun hc => hb (List.mem_cons_of_mem _ hc)) htail
      exact ⟨rfl, hst⟩

/-- **A username names its session.** -/
theorem username_inj {uid uid' : Int64} {subid subid' : ℕ} {servername : Str}
    (h : username uid subid servername = username uid' subid' servername) :
    uid = uid' ∧ subid = subid' := by
  obtain ⟨hu, hs⟩ := append_cons_inj (at_not_mem_base64encode (bytes_intText _))
    (at_not_mem_base64encode (bytes_intText _)) h
  have hs := (List.cons.inj (List.append_cancel_left hs)).2
  refine ⟨tostring_int_injective (base64encode_inj (bytes_intText _) (bytes_intText _) hu), ?_⟩
  exact intText_inj (base64encode_inj (bytes_intText _) (bytes_intText _) hs)

end Gate

end Athena
