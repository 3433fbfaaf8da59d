import Athena.Lua.Number
import Mathlib.Data.List.AList
/-!
# Lua values and tables

What a row holds: numbers, strings and booleans. A table with string keys
is an association list without repeated keys; the order of its entries is
the order in which `pairs` visits them, so what is proved for every table
holds for every such order.
-/

namespace Athena

namespace Lua

/-- **A value of a field.** -/
inductive Value
  | num (n : Number)
  | str (s : Str)
  | bool (b : Bool)
  deriving DecidableEq

/-- What a call raises. -/
inductive Fault
  /-- Concatenation with a boolean or a nil. -/
  | concat
  /-- Arithmetic on something that is no number. -/
  | arith
  /-- A nil is indexed, or a table is at a nil or a nan. -/
  | index
  /-- Iteration over something that is no table. -/
  | iterate
  /-- An assertion does not hold. -/
  | assertion
  /-- A server answered with an error. -/
  | reply
  deriving DecidableEq

/-- **A table with string keys.** -/
abbrev Table (α : Type) : Type := AList (fun _ : Str => α)

/-- **A row**: its fields and their values. -/
abbrev Row := Table Value

/-! ## Texts -/

/-- What `..` inserts for a value. -/
def Value.text : Value → Except Fault Str
  | .num n => .ok (tostring n)
  | .str s => .ok s
  | .bool _ => .error .concat

/-- `..` at a place that may hold a nil. -/
def textOf : Option Value → Except Fault Str
  | some v => v.text
  | none => .error .concat

/-- `tostring`, as a client library writes a value on the wire. -/
def Value.wire : Value → Str
  | .num n => tostring n
  | .str s => s
  | .bool true => ['t', 'r', 'u', 'e']
  | .bool false => ['f', 'a', 'l', 's', 'e']

/-- `tonumber` of a value. -/
def Value.tonumber : Value → Option Number
  | .num n => some n
  | .str s => Lua.tonumber s
  | .bool _ => none

/-- `v % m` as the index of a table, for a positive integer `m`.
Arithmetic reads a string as a number. -/
def Value.floorMod (v : Value) (m : ℕ) : Option ℕ :=
  match v.tonumber with
  | some (.int i) => some (i.toInt % m).toNat
  | some (.flt q) => if q.den = 1 then some (q.num % m).toNat else none
  | _ => none

/-- Where a table looks a key up: a float with an integer value is that
integer. -/
def Value.asKey : Value → Value
  | .num (.flt q) =>
    if q.den = 1 ∧ -2 ^ 63 ≤ q.num ∧ q.num < 2 ^ 63 then .num (.int (Int64.ofInt q.num))
    else .num (.flt q)
  | v => v

/-- `string.split(s, ",")`: without its white space, what stands between
the commas. -/
def splitComma (s : Str) : List Str :=
  ((s.filter fun c => !isSpace c).splitOnP fun c => c = ',').filter fun f => f ≠ []

/-- `s:trim(",")`. -/
def trimComma (s : Str) : Str :=
  ((s.dropWhile fun c => c = ',').reverse.dropWhile fun c => c = ',').reverse

/-! ## Tables -/

namespace Table

variable {α β : Type} {k : Str}

/-- `t[k] = v`, where a nil removes the key. -/
def set (t : Table α) (k : Str) : Option α → Table α
  | some v => t.insert k v
  | none => t.erase k

theorem lookup_set (t : Table α) (k' : Str) (v : Option α) :
    (t.set k v).lookup k' = if k' = k then v else t.lookup k' := by
  split
  · subst k'
    cases v with
    | some v => exact AList.lookup_insert t
    | none => exact AList.lookup_erase k t
  · rename_i hne
    cases v with
    | some v => exact AList.lookup_insert_ne hne
    | none => exact AList.lookup_erase_ne hne

/-- What a loop over `pairs` makes of every value. -/
def entriesMap (f : Str → α → Option β) (l : List (Sigma fun _ : Str => α)) :
    List (Sigma fun _ : Str => β) :=
  l.filterMap fun e => (f e.1 e.2).map fun v => ⟨e.1, v⟩

theorem keys_entriesMap_sublist (f : Str → α → Option β) (l : List (Sigma fun _ : Str => α)) :
    (entriesMap f l).keys.Sublist l.keys := by
  induction l with
  | nil => exact List.Sublist.refl _
  | cons e l ih =>
    simp only [entriesMap, List.filterMap_cons]
    cases f e.1 e.2 with
    | none => exact ih.trans (List.sublist_cons_self _ _)
    | some v => exact ih.cons_cons e.1

/-- `for k, v in pairs(t) do t[k] = f(k, v) end`. -/
def mapValues (f : Str → α → Option β) (t : Table α) : Table β :=
  ⟨entriesMap f t.entries, t.keys_nodup.sublist (keys_entriesMap_sublist f t.entries)⟩

@[simp] theorem lookup_mapValues (f : Str → α → Option β) (t : Table α) :
    (t.mapValues f).lookup k = (t.lookup k).bind (f k) := by
  obtain ⟨l, hl⟩ := t
  simp only [AList.lookup, mapValues]
  induction l with
  | nil => rfl
  | cons e l ih =>
    obtain ⟨k', v⟩ := e
    obtain ⟨hnot, hl'⟩ := List.nodupKeys_cons.mp hl
    have ih := ih hl'
    simp only [entriesMap, List.filterMap_cons] at ih ⊢
    by_cases hk : k = k'
    · subst hk
      rw [List.dlookup_cons_eq, Option.bind_some]
      cases hf : f k v with
      | some w => exact List.dlookup_cons_eq _ _ _
      | none =>
        refine List.dlookup_eq_none.mpr fun hmem => hnot ?_
        exact (keys_entriesMap_sublist f l).subset hmem
    · rw [List.dlookup_cons_ne _ _ hk]
      cases hf : f k' v with
      | some w => exact (List.dlookup_cons_ne _ _ hk).trans ih
      | none => exact ih

/-- Tables with the same values at all keys. -/
def Same (t u : Table α) : Prop := ∀ k, t.lookup k = u.lookup k

end Table

end Lua

/-!
## UTF-8 texts as strings of Lua

A string of Lua is a list of bytes. Here a list of code points is written as one, and the
bytes of a code point are told apart by how many they are.
-/

namespace Lua

/-- The bytes of a code point. -/
def utf8 (c : Char) : Str := (String.utf8EncodeChar c).map fun b => Char.ofNat b.toNat

/-- **A text of UTF-8**, from its code points. -/
def encode (cs : List Char) : Str := cs.flatMap utf8

@[simp] theorem encode_nil : encode [] = [] := rfl

@[simp] theorem encode_cons (c : Char) (cs : List Char) : encode (c :: cs) = utf8 c ++ encode cs :=
  rfl

theorem toNat_ofNat_byte {b : ℕ} (h : b < 256) : (Char.ofNat b).toNat = b := by
  rw [Char.ofNat, dif_pos (Or.inl (by omega))]
  rfl

/-- **The bytes of a code point**, one to four of them. -/
theorem utf8_cases (c : Char) :
    (c.toNat < 128 ∧ utf8 c = [c]) ∨
    (128 ≤ c.toNat ∧ c.toNat < 2048 ∧
      utf8 c = [Char.ofNat (c.toNat / 64 + 192), Char.ofNat (c.toNat % 64 + 128)]) ∨
    (2048 ≤ c.toNat ∧ c.toNat < 65536 ∧
      utf8 c = [Char.ofNat (c.toNat / 4096 + 224), Char.ofNat (c.toNat / 64 % 64 + 128),
        Char.ofNat (c.toNat % 64 + 128)]) ∨
    (65536 ≤ c.toNat ∧ c.toNat < 1114112 ∧
      utf8 c = [Char.ofNat (c.toNat / 262144 + 240), Char.ofNat (c.toNat / 4096 % 64 + 128),
        Char.ofNat (c.toNat / 64 % 64 + 128), Char.ofNat (c.toNat % 64 + 128)]) := by
  have hc : c.toNat < 1114112 := by
    have := c.valid
    simp only [UInt32.isValidChar, Nat.isValidChar] at this
    show c.val.toNat < _
    omega
  have hval : c.val.toNat = c.toNat := rfl
  by_cases h1 : c.toNat ≤ 127
  · left
    refine ⟨by omega, ?_⟩
    simp only [utf8, String.utf8EncodeChar, hval, if_pos h1, List.map_cons, List.map_nil,
      UInt8.toNat_ofNat']
    rw [Nat.mod_eq_of_lt (by omega), Char.ofNat_toNat]
  by_cases h2 : c.toNat ≤ 2047
  · right; left
    refine ⟨by omega, by omega, ?_⟩
    have e1 : (c.toNat / 64 % 0x20 + 0xc0) % 2 ^ 8 = c.toNat / 64 + 192 := by omega
    have e2 : (c.toNat % 0x40 + 0x80) % 2 ^ 8 = c.toNat % 64 + 128 := by omega
    simp only [utf8, String.utf8EncodeChar, hval, if_neg h1, if_pos h2, List.map_cons, List.map_nil,
      UInt8.toNat_ofNat', e1, e2]
  by_cases h3 : c.toNat ≤ 65535
  · right; right; left
    refine ⟨by omega, by omega, ?_⟩
    have e1 : (c.toNat / 4096 % 0x10 + 0xe0) % 2 ^ 8 = c.toNat / 4096 + 224 := by omega
    have e2 : (c.toNat / 64 % 0x40 + 0x80) % 2 ^ 8 = c.toNat / 64 % 64 + 128 := by omega
    have e3 : (c.toNat % 0x40 + 0x80) % 2 ^ 8 = c.toNat % 64 + 128 := by omega
    simp only [utf8, String.utf8EncodeChar, hval, if_neg h1, if_neg h2, if_pos h3, List.map_cons,
      List.map_nil, UInt8.toNat_ofNat', e1, e2, e3]
  · right; right; right
    refine ⟨by omega, hc, ?_⟩
    have e1 : (c.toNat / 262144 % 0x08 + 0xf0) % 2 ^ 8 = c.toNat / 262144 + 240 := by omega
    have e2 : (c.toNat / 4096 % 0x40 + 0x80) % 2 ^ 8 = c.toNat / 4096 % 64 + 128 := by omega
    have e3 : (c.toNat / 64 % 0x40 + 0x80) % 2 ^ 8 = c.toNat / 64 % 64 + 128 := by omega
    have e4 : (c.toNat % 0x40 + 0x80) % 2 ^ 8 = c.toNat % 64 + 128 := by omega
    simp only [utf8, String.utf8EncodeChar, hval, if_neg h1, if_neg h2, if_neg h3, List.map_cons,
      List.map_nil, UInt8.toNat_ofNat', e1, e2, e3, e4]

end Lua

end Athena
