import Athena.Gate.Model
import Athena.Gate.Username
import Athena.Lua.Pattern
import Athena.Lua.Value
/-!
# The gate — reading usernames

`server.userid` takes a username apart with a pattern and decodes its
three fields, and `do_auth` takes the text of a handshake apart with
another. No separator of the two is in the alphabet of `base64encode`,
so each field ends where the text says, whatever it holds, and
`base64decode` of `lua-crypt.c` gives its bytes back.
-/

namespace Athena

namespace Gate

open Lua
open Lua.Pattern (matchHere matchHere_until matchHere_star find find_eq_matchHere Found)

/-! ## Decoding -/

/-- What `b64index` says of a byte. -/
inductive Code
  /-- `-1`: it is skipped. -/
  | skip
  /-- `-2`: the padding. -/
  | padding
  | value (v : ℕ)
  deriving DecidableEq

/-- `b64index`. -/
def b64index (c : Char) : Code :=
  let decoding : List ℤ :=
    [62, -1, -1, -1, 63, 52, 53, 54, 55, 56, 57, 58, 59, 60, 61, -1, -1, -1, -2, -1, -1, -1, 0, 1, 2, 3,
      4, 5, 6, 7, 8, 9, 10, 11, 12, 13, 14, 15, 16, 17, 18, 19, 20, 21, 22, 23, 24, 25, -1, -1, -1, -1,
      -1, -1, 26, 27, 28, 29, 30, 31, 32, 33, 34, 35, 36, 37, 38, 39, 40, 41, 42, 43, 44, 45, 46, 47, 48,
      49, 50, 51]
  if c.toNat < 43 then .skip
  else
    match decoding.getD (c.toNat - 43) (-1) with
    | -1 => .skip
    | -2 => .padding
    | v => .value v.toNat

/-- The inner loop of `base64decode`, with `j` codes still to read: a code
that is none is the padding. -/
def readCodes : ℕ → Str → Option (List (Option ℕ) × Str)
  | 0, s => some ([], s)
  | _ + 1, [] => none
  | j + 1, c :: s =>
    match b64index c with
    | .skip => readCodes (j + 1) s
    | .padding => (readCodes j s).map fun r => (none :: r.1, r.2)
    | .value v => (readCodes j s).map fun r => (some v :: r.1, r.2)

/-- The bytes of four codes, by their padding. -/
def bytesOf : List (Option ℕ) → Option Str
  | [some a, some b, some c, some d] =>
    let v := a * 262144 + b * 4096 + c * 64 + d
    some [Char.ofNat (v / 65536), Char.ofNat (v / 256 % 256), Char.ofNat (v % 256)]
  | [some a, some b, some c, none] =>
    if c % 4 = 0 then
      let v := a * 1024 + b * 16 + c / 4
      some [Char.ofNat (v / 256), Char.ofNat (v % 256)]
    else none
  | [some a, some b, none, none] =>
    if b % 16 = 0 then some [Char.ofNat (a * 4 + b / 16)] else none
  | _ => none

/-- The outer loop, for a number of turns. -/
def decodeLoop : ℕ → Str → Option Str
  | _, [] => some []
  | 0, _ => none
  | n + 1, s => do
    let (codes, rest) ← readCodes 4 s
    let bytes ← bytesOf codes
    let text ← decodeLoop n rest
    pure (bytes ++ text)

/-- **`base64decode`**, which raises on an invalid text. -/
def base64decode (s : Str) : Option Str := decodeLoop s.length s

/-! ## Usernames -/

/-- **`server.username`**, of any uid that is a string. -/
def usernameOf (uid : Str) (subid : Value) (servername : Str) : Str :=
  base64encode uid ++ '@' :: (base64encode servername ++ '#' :: base64encode subid.wire)

/-- `"([^@]*)@([^#]*)#(.*)"` -/
def useridPattern : Pattern Char :=
  [⟨(· ≠ '@'), .star, true⟩, ⟨(· = '@'), .one, false⟩, ⟨(· ≠ '#'), .star, true⟩,
    ⟨(· = '#'), .one, false⟩, ⟨fun _ => true, .star, true⟩]

/-- **`server.userid`**: the uid, the subid and the server name. -/
def userid (username : Str) : Option (Str × Str × Str) :=
  match find useridPattern username with
  | some [uid, servername, subid] => do
    let uid ← base64decode uid
    let subid ← base64decode subid
    let servername ← base64decode servername
    pure (uid, subid, servername)
  | _ => none

/-- `"([^:]*):([^:]*):([^:]*)"` -/
def authPattern : Pattern Char :=
  [⟨(· ≠ ':'), .star, true⟩, ⟨(· = ':'), .one, false⟩, ⟨(· ≠ ':'), .star, true⟩,
    ⟨(· = ':'), .one, false⟩, ⟨(· ≠ ':'), .star, true⟩]

/-! ## The encoding and back -/

set_option maxRecDepth 4000 in
theorem b64index_encoding {v : ℕ} (h : v < 64) : b64index (encoding v) = .value v := by
  have : ∀ u : Fin 64, b64index (encoding u) = .value u := by decide
  exact this ⟨v, h⟩

theorem b64index_padding : b64index '=' = .padding := by decide

theorem readCodes_encoding {v j : ℕ} {s : Str} (h : v < 64) :
    readCodes (j + 1) (encoding v :: s) = (readCodes j s).map fun r => (some v :: r.1, r.2) := by
  rw [readCodes, b64index_encoding h]

theorem readCodes_padding {j : ℕ} {s : Str} :
    readCodes (j + 1) ('=' :: s) = (readCodes j s).map fun r => (none :: r.1, r.2) := by
  rw [readCodes, b64index_padding]

theorem readCodes_zero (s : Str) : readCodes 0 s = some ([], s) := by
  rw [readCodes]

/-- A turn of the decoder. -/
theorem decodeLoop_succ {n : ℕ} {s rest bytes : Str} {codes : List (Option ℕ)} (hs : s ≠ [])
    (hcodes : readCodes 4 s = some (codes, rest)) (hbytes : bytesOf codes = some bytes) :
    decodeLoop (n + 1) s = (decodeLoop n rest).map (bytes ++ ·) := by
  cases s with
  | nil => exact absurd rfl hs
  | cons c s =>
    simp only [decodeLoop, hcodes, Option.bind_eq_bind, Option.bind_some, hbytes]
    cases decodeLoop n rest <;> rfl

theorem ofNat_toNat (a : Char) {v : ℕ} (h : v = a.toNat) : Char.ofNat v = a := by
  rw [h, Char.ofNat_toNat]

/-- **The decoder undoes the encoder.** -/
theorem decodeLoop_base64encode {s : Str} (h : Bytes s) :
    ∀ n, (base64encode s).length ≤ n → decodeLoop n (base64encode s) = some s := by
  fun_induction base64encode s with
  | case1 a b c text v ih =>
    intro n hn
    have ha := h a (by simp)
    have hb := h b (by simp)
    have hc := h c (by simp)
    have hv : v = a.toNat * 65536 + b.toNat * 256 + c.toNat := rfl
    obtain ⟨n, rfl⟩ : ∃ m, n = m + 1 := ⟨n - 1, by simp only [List.length_cons] at hn; omega⟩
    have hcodes : readCodes 4 (encoding (v / 262144) :: encoding (v / 4096 % 64) ::
        encoding (v / 64 % 64) :: encoding (v % 64) :: base64encode text) =
        some ([some (v / 262144), some (v / 4096 % 64), some (v / 64 % 64), some (v % 64)],
          base64encode text) := by
      rw [readCodes_encoding (by omega), readCodes_encoding (by omega), readCodes_encoding (by omega),
        readCodes_encoding (by omega), readCodes_zero]
      rfl
    have hbytes : bytesOf [some (v / 262144), some (v / 4096 % 64), some (v / 64 % 64), some (v % 64)] =
        some [a, b, c] := by
      rw [bytesOf, ofNat_toNat a (by omega), ofNat_toNat b (by omega), ofNat_toNat c (by omega)]
    rw [decodeLoop_succ (List.cons_ne_nil _ _) hcodes hbytes,
      ih (fun x hx => h x (by simp [hx])) n (by simp only [List.length_cons] at hn; omega)]
    rfl
  | case2 a b v =>
    intro n hn
    have ha := h a (by simp)
    have hb := h b (by simp)
    have hv : v = a.toNat * 256 + b.toNat := rfl
    obtain ⟨n, rfl⟩ : ∃ m, n = m + 1 := ⟨n - 1, by simp only [List.length_cons] at hn; omega⟩
    have hcodes : readCodes 4 [encoding (v / 1024), encoding (v / 16 % 64), encoding (v % 16 * 4), '='] =
        some ([some (v / 1024), some (v / 16 % 64), some (v % 16 * 4), none], []) := by
      rw [readCodes_encoding (by omega), readCodes_encoding (by omega), readCodes_encoding (by omega),
        readCodes_padding, readCodes_zero]
      rfl
    have hbytes : bytesOf [some (v / 1024), some (v / 16 % 64), some (v % 16 * 4), none] =
        some [a, b] := by
      rw [bytesOf, if_pos (by omega)]
      dsimp only
      rw [ofNat_toNat a (by omega), ofNat_toNat b (by omega)]
    rw [decodeLoop_succ (List.cons_ne_nil _ _) hcodes hbytes]
    cases n <;> rfl
  | case3 a =>
    intro n hn
    have ha := h a (by simp)
    obtain ⟨n, rfl⟩ : ∃ m, n = m + 1 := ⟨n - 1, by simp only [List.length_cons] at hn; omega⟩
    have hcodes : readCodes 4 [encoding (a.toNat / 4), encoding (a.toNat % 4 * 16), '=', '='] =
        some ([some (a.toNat / 4), some (a.toNat % 4 * 16), none, none], []) := by
      rw [readCodes_encoding (by omega), readCodes_encoding (by omega), readCodes_padding,
        readCodes_padding, readCodes_zero]
      rfl
    have hbytes : bytesOf [some (a.toNat / 4), some (a.toNat % 4 * 16), none, none] = some [a] := by
      rw [bytesOf, if_pos (by omega), ofNat_toNat a (by omega)]
    rw [decodeLoop_succ (List.cons_ne_nil _ _) hcodes hbytes]
    cases n <;> rfl
  | case4 =>
    intro n _
    cases n <;> rfl

/-- **What is encoded is decoded.** -/
theorem base64decode_base64encode {s : Str} (h : Bytes s) :
    base64decode (base64encode s) = some s :=
  decodeLoop_base64encode h _ (Nat.le_refl _)

/-- The alphabet of the encoder, with its padding. -/
def InAlphabet (c : Char) : Prop := c = '=' ∨ ∃ v < 64, c = encoding v

theorem inAlphabet_of_mem {s : Str} (h : Bytes s) : ∀ c ∈ base64encode s, InAlphabet c := by
  fun_induction base64encode s with
  | case1 a b c text v ih =>
    have ha := h a (by simp)
    have hb := h b (by simp)
    have hc := h c (by simp)
    have hv : v = a.toNat * 65536 + b.toNat * 256 + c.toNat := rfl
    have := ih fun x hx => h x (by simp [hx])
    simp only [List.mem_cons, forall_eq_or_imp]
    exact ⟨Or.inr ⟨_, by omega, rfl⟩, Or.inr ⟨_, by omega, rfl⟩, Or.inr ⟨_, by omega, rfl⟩,
      Or.inr ⟨_, by omega, rfl⟩, this⟩
  | case2 a b v =>
    have ha := h a (by simp)
    have hb := h b (by simp)
    have hv : v = a.toNat * 256 + b.toNat := rfl
    simp only [List.mem_cons, forall_eq_or_imp]
    exact ⟨Or.inr ⟨_, by omega, rfl⟩, Or.inr ⟨_, by omega, rfl⟩, Or.inr ⟨_, by omega, rfl⟩,
      Or.inl rfl, fun c hc => by cases hc⟩
  | case3 a =>
    have ha := h a (by simp)
    simp only [List.mem_cons, forall_eq_or_imp]
    exact ⟨Or.inr ⟨_, by omega, rfl⟩, Or.inr ⟨_, by omega, rfl⟩, Or.inl rfl, Or.inl rfl,
      fun c hc => by cases hc⟩
  | case4 =>
    intro c hc
    cases hc

set_option maxRecDepth 4000 in
/-- No separator is in the alphabet. -/
theorem InAlphabet.ne {c : Char} (h : InAlphabet c) : c ≠ '@' ∧ c ≠ '#' ∧ c ≠ ':' := by
  have halph : ∀ u : Fin 64, encoding u ≠ '@' ∧ encoding u ≠ '#' ∧ encoding u ≠ ':' := by decide
  rcases h with rfl | ⟨v, hv, rfl⟩
  · decide
  · exact halph ⟨v, hv⟩

instance (s : Str) : Decidable (Bytes s) :=
  decidable_of_iff (s.all (fun c => decide (c.toNat < 256)) = true) <| by
    rw [List.all_eq_true]
    exact forall_congr' fun c => forall_congr' fun _ => decide_eq_true_iff

/-! ## Taking texts apart -/

/-- A field that ends at the first mark after it. -/
theorem matchHere_field {mark : Char} {cap : Bool} {p : Pattern Char} (s : Str) :
    matchHere (⟨(· ≠ mark), .star, cap⟩ :: ⟨(· = mark), .one, false⟩ :: p) s =
      match s.dropWhile (· ≠ mark) with
      | _ :: t =>
        (matchHere p t).map (Pattern.Item.keep ⟨(· ≠ mark), .star, cap⟩ (s.takeWhile (· ≠ mark)))
      | [] => none := by
  rw [matchHere_until (by simp)]
  cases hs : s.dropWhile (· ≠ mark) with
  | nil => rfl
  | cons c t =>
    -- what stops the repetition is the mark
    have hmark : decide (c = mark) = true := by
      have := List.head?_dropWhile_not (fun c => decide (c ≠ mark)) s
      rw [hs] at this
      simpa using this
    simp only [hmark, if_true]

/-- The field of a text that is written with its mark. -/
theorem matchHere_field_append {mark : Char} {p : Pattern Char} {field : Str} (h : mark ∉ field)
    (s : Str) :
    matchHere (⟨(· ≠ mark), .star, true⟩ :: ⟨(· = mark), .one, false⟩ :: p) (field ++ mark :: s) =
      (matchHere p s).map fun r => (field :: r.1, r.2) := by
  have hcls : ∀ c ∈ field, decide (c ≠ mark) = true := fun c hc => by
    simpa using fun heq : c = mark => h (heq ▸ hc)
  have hdrop : (field ++ mark :: s).dropWhile (· ≠ mark) = mark :: s := by
    rw [List.dropWhile_append_of_pos hcls]
    simp
  have htake : (field ++ mark :: s).takeWhile (· ≠ mark) = field := by
    rw [List.takeWhile_append_of_pos hcls]
    simp
  rw [matchHere_field, hdrop, htake]
  rfl

/-- A field at the end of a text. -/
theorem matchHere_last {mark : Char} {field : Str} (h : mark ∉ field) :
    matchHere [⟨(· ≠ mark), .star, true⟩] field = some ([field], []) := by
  have hcls : ∀ c ∈ field, decide (c ≠ mark) = true := fun c hc => by
    simpa using fun heq : c = mark => h (heq ▸ hc)
  rw [matchHere_star, List.takeWhile_eq_self_iff.mpr hcls, List.dropWhile_eq_nil_iff.mpr hcls]
  rfl

/-- A match at the head is the one that `string.match` finds. -/
theorem find_of_matchHere {α : Type} {p : Pattern α} {s : List α} {r : Found α}
    (h : matchHere p s = some r) : find p s = some r.1 := by
  cases s with
  | nil => rw [find, h]; rfl
  | cons c s => rw [find, h]

/-- **The two fields of `server.userid`** and what is behind them. -/
theorem find_useridPattern {uid servername : Str} (hu : '@' ∉ uid) (hs : '#' ∉ servername)
    (subid : Str) :
    find useridPattern (uid ++ '@' :: (servername ++ '#' :: subid)) =
      some [uid, servername, subid] := by
  refine find_of_matchHere (r := ([uid, servername, subid], [])) ?_
  rw [useridPattern, matchHere_field_append hu, matchHere_field_append hs, matchHere_star]
  have hall : ∀ c ∈ subid, (fun _ : Char => true) c = true := fun _ _ => rfl
  rw [List.takeWhile_eq_self_iff.mpr hall, List.dropWhile_eq_nil_iff.mpr hall]
  rfl

/-- **The three fields of a handshake.** -/
theorem find_authPattern {username index mac : Str} (hu : ':' ∉ username) (hi : ':' ∉ index)
    (hm : ':' ∉ mac) :
    find authPattern (username ++ ':' :: (index ++ ':' :: mac)) = some [username, index, mac] := by
  refine find_of_matchHere (r := ([username, index, mac], [])) ?_
  rw [authPattern, matchHere_field_append hu, matchHere_field_append hi, matchHere_last hm]
  rfl

/-- `do_auth` reads what its pattern finds. -/
theorem find_authPattern_eq (s : Str) :
    find authPattern s = (matchFields s).map fun f => [f.1, f.2.1, f.2.2] := by
  have heq : ∀ s, matchHere authPattern s = (matchFields s).map fun f =>
      ([f.1, f.2.1, f.2.2], (((s.dropWhile (· ≠ ':')).tail.dropWhile (· ≠ ':')).tail).dropWhile
        (· ≠ ':')) := by
    intro s
    rw [authPattern, matchHere_field, matchFields]
    cases s.dropWhile (· ≠ ':') with
    | nil => rfl
    | cons c r =>
      simp only [matchHere_field, List.tail_cons]
      cases r.dropWhile (· ≠ ':') with
      | nil => rfl
      | cons d t =>
        simp only [matchHere_star, Option.map_some]
        rfl
  rw [find_eq_matchHere, heq, Option.map_map]
  · rfl
  · intro c s h
    rw [heq, Option.map_eq_none_iff] at h ⊢
    by_contra hne
    -- two colons behind the first character are two colons
    rw [matchFields] at hne
    rw [matchFields, List.dropWhile_cons] at h
    cases hs : s.dropWhile (· ≠ ':') with
    | nil =>
      rw [hs] at hne
      exact hne rfl
    | cons d r =>
      rw [hs] at hne h
      cases hr : r.dropWhile (· ≠ ':') with
      | nil =>
        dsimp only at hne
        rw [hr] at hne
        exact hne rfl
      | cons e t =>
        split_ifs at h
        · dsimp only at h
          rw [hr] at h
          cases h
        · dsimp only at h
          rw [hs] at h
          cases h

/-! ## Usernames -/

theorem mark_not_mem_base64encode {s : Str} (h : Bytes s) :
    '@' ∉ base64encode s ∧ '#' ∉ base64encode s ∧ ':' ∉ base64encode s :=
  ⟨fun hc => (inAlphabet_of_mem h _ hc).ne.1 rfl, fun hc => (inAlphabet_of_mem h _ hc).ne.2.1 rfl,
    fun hc => (inAlphabet_of_mem h _ hc).ne.2.2 rfl⟩

/-- A username has no colon. -/
theorem colon_not_mem_usernameOf {uid servername : Str} {subid : Value} (hu : Bytes uid)
    (hs : Bytes servername) (hi : Bytes subid.wire) : ':' ∉ usernameOf uid subid servername := by
  simp only [usernameOf, List.mem_append, List.mem_cons, not_or]
  exact ⟨(mark_not_mem_base64encode hu).2.2, by decide, (mark_not_mem_base64encode hs).2.2, by decide,
    (mark_not_mem_base64encode hi).2.2⟩

theorem userid_usernameOf {uid servername : Str} {subid : Value} (hu : Bytes uid)
    (hs : Bytes servername) (hi : Bytes subid.wire) :
    userid (usernameOf uid subid servername) = some (uid, subid.wire, servername) := by
  rw [userid, usernameOf,
    find_useridPattern (mark_not_mem_base64encode hu).1 (mark_not_mem_base64encode hs).2.1]
  simp only [base64decode_base64encode hu, base64decode_base64encode hi, base64decode_base64encode hs,
    Option.bind_eq_bind, Option.bind_some]
  rfl

/-- **Usernames identify sessions.** A username gives back the uid, the
text of the subid and the server name it was made of, so no two triples
share one; and a handshake of it gives back its three fields. -/
theorem usernames_identify {uid uid' servername servername' index mac : Str} {subid subid' : Value}
    (hu : Bytes uid) (hu' : Bytes uid') (hs : Bytes servername) (hs' : Bytes servername')
    (hi : Bytes subid.wire) (hi' : Bytes subid'.wire) (hindex : ':' ∉ index) (hmac : Bytes mac) :
    userid (usernameOf uid subid servername) = some (uid, subid.wire, servername) ∧
    (usernameOf uid subid servername = usernameOf uid' subid' servername' →
      uid = uid' ∧ subid.wire = subid'.wire ∧ servername = servername') ∧
    (∀ i j : Int64, usernameOf uid (.num (.int i)) servername = usernameOf uid' (.num (.int j)) servername' →
      uid = uid' ∧ i = j ∧ servername = servername') ∧
    find authPattern (usernameOf uid subid servername ++ ':' :: (index ++ ':' :: base64encode mac)) =
      some [usernameOf uid subid servername, index, base64encode mac] ∧
    base64decode (base64encode mac) = some mac := by
  have hinj : ∀ {v w : Value}, Bytes v.wire → Bytes w.wire →
      usernameOf uid v servername = usernameOf uid' w servername' →
      uid = uid' ∧ v.wire = w.wire ∧ servername = servername' := by
    intro v w hv hw h
    have hread := userid_usernameOf hu hs hv
    rw [h, userid_usernameOf hu' hs' hw] at hread
    obtain ⟨rfl, htail⟩ := Prod.mk.inj (Option.some.inj hread)
    obtain ⟨hwire, rfl⟩ := Prod.mk.inj htail
    exact ⟨rfl, hwire.symm, rfl⟩
  refine ⟨userid_usernameOf hu hs hi, hinj hi hi', fun i j h => ?_,
    find_authPattern (colon_not_mem_usernameOf hu hs hi) hindex (mark_not_mem_base64encode hmac).2.2,
    base64decode_base64encode hmac⟩
  have hbytes : ∀ i : Int64, Bytes (Value.num (.int i)).wire := fun i => bytes_intText i.toInt
  obtain ⟨huid, hwire, hserver⟩ := hinj (hbytes i) (hbytes j) h
  exact ⟨huid, tostring_int_injective hwire, hserver⟩

/-- The first session of a user, on a server whose name has separators in
it. -/
theorem usernames_identify_first :
    userid (usernameOf "42".toList (.num (.int 1)) "a@b#c:d".toList) =
        some ("42".toList, "1".toList, "a@b#c:d".toList) ∧
      find authPattern (usernameOf "42".toList (.num (.int 1)) "a@b#c:d".toList ++
          ':' :: ("7".toList ++ ':' :: base64encode "mac".toList)) =
        some [usernameOf "42".toList (.num (.int 1)) "a@b#c:d".toList, "7".toList,
          base64encode "mac".toList] :=
  have h := @usernames_identify "42".toList "43".toList "a@b#c:d".toList [] "7".toList "mac".toList
    (.num (.int 1)) (.num (.int 2)) (by decide) (by decide) (by decide) (by decide) (by decide)
    (by decide) (by decide) (by decide)
  ⟨h.1, h.2.2.2.1⟩

end Gate

end Athena
