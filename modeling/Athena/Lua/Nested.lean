import Athena.Lua.Value
import Mathlib.Logic.Relation
/-!
# Nested tables

`table.equal` and `table.copy` of `global/luaext.lua`, over a heap: a table
is an address, what it holds at a key is a value or another table, and
`==` of two tables compares their addresses. The heap has no cycles.
Metatables are carried along; they have no metamethods.

The global `copy` that `table.copy` calls for an inner table is not there,
and `table.equal` compares inner tables with `~=` after it has gone
through them. So a copy is made of a table without inner tables only
(`copies_iff`), and tables are equal only where they share theirs
(`equal_iff`).
-/

namespace Athena

namespace Lua

namespace Nested

/-- A value that is no table: what a field holds, or a function, a userdata
or a thread by its identity. -/
inductive Leaf
  | value (v : Value)
  | object (n : ℕ)
  deriving DecidableEq

/-- `a == b`. -/
def Leaf.eq : Leaf → Leaf → Bool
  | .value v, .value w => v ≠ .num .nan && v.asKey = w.asKey
  | .object m, .object n => m = n
  | _, _ => false

/-- A table is never found at a nan, and at the integer of a float. -/
def Leaf.IsKey : Leaf → Prop
  | .value v => v ≠ .num .nan ∧ v.asKey = v
  | .object _ => True

instance : DecidablePred Leaf.IsKey
  | .value _ => inferInstanceAs (Decidable (_ ∧ _))
  | .object _ => inferInstanceAs (Decidable True)

/-- **A key of a table.** A table that is one counts by its identity. -/
abbrev Key := {l : Leaf // l.IsKey}

/-- What a table holds at a key. -/
inductive Slot
  | leaf (l : Leaf)
  | table (a : ℕ)
  deriving DecidableEq

/-- `a == b`, for tables by their addresses. -/
def Slot.eq : Slot → Slot → Bool
  | .leaf l, .leaf l' => l.eq l'
  | .table a, .table b => a = b
  | _, _ => false

/-- **A table**: its entries in the order of `pairs`, and its metatable. -/
structure Node where
  entries : AList (fun _ : Key => Slot)
  metatable : Option ℕ

/-- **The tables of a service**, without cycles: an inner table has a lower
rank. The addresses below `size` are in use. -/
structure Heap where
  node : ℕ → Node
  size : ℕ
  rank : ℕ → ℕ
  acyclic : ∀ {a b k}, (node a).entries.lookup k = some (.table b) → rank b < rank a
  closed : ∀ {a b k}, a < size → (node a).entries.lookup k = some (.table b) → b < size

variable {h h' : Heap} {len : ℕ → ℕ} {a b c t t' : ℕ} {k : Key} {v w : Slot}

/-- `t[k]`. -/
def Heap.get (h : Heap) (a : ℕ) (k : Key) : Option Slot := (h.node a).entries.lookup k

theorem Heap.rank_lt_of_mem {e : Sigma fun _ : Key => Slot} (he : e ∈ (h.node a).entries.entries)
    (hv : e.2 = .table b) : h.rank b < h.rank a :=
  h.acyclic (k := e.1) (AList.mem_lookup_iff.mpr (by rw [← hv]; exact he))

/-- **`table.equal`**, where `#` answers `len`. The value `a[k]` is the one
of the entry. -/
def equal (h : Heap) (len : ℕ → ℕ) : Slot → Slot → Bool
  | .table a, .table b =>
    len a = len b && (h.node a).entries.entries.attach.all fun e =>
      match h.get b e.1.1 with
      | none => false
      | some w =>
        match he : e.1.2 with
        | .table c =>
          have : h.rank c < h.rank a := Heap.rank_lt_of_mem e.2 he
          equal h len (.table c) w && Slot.eq (.table c) w
        | .leaf l => Slot.eq (.leaf l) w
  | _, _ => false
termination_by s => match s with
  | .table a => h.rank a
  | .leaf _ => 0

/-- A table without inner tables. -/
structure Flat where
  entries : AList (fun _ : Key => Slot)
  flat : ∀ {k b}, entries.lookup k ≠ some (.table b)

/-- `result[k] = v`, for a `v` that is no table. -/
def Flat.set (r : Flat) (k : Key) (l : Leaf) : Flat where
  entries := r.entries.insert k (.leaf l)
  flat := by
    intro k' b
    by_cases hk : k' = k
    · subst hk
      simp
    · rw [AList.lookup_insert_ne hk]
      exact r.flat

/-- The loop of `table.copy`: `copy(v)` calls a nil. -/
def copyLoop (result : Flat) : List (Sigma fun _ : Key => Slot) → Option Flat
  | [] => some result
  | ⟨k, .leaf l⟩ :: es => copyLoop (result.set k l) es
  | ⟨_, .table _⟩ :: _ => none

/-- A new table. -/
def Heap.alloc (h : Heap) (r : Flat) (metatable : Option ℕ) : Heap where
  node := Function.update h.node h.size ⟨r.entries, metatable⟩
  size := h.size + 1
  rank := h.rank
  acyclic := by
    intro a b k hab
    by_cases ha : a = h.size
    · subst ha
      rw [Function.update_self] at hab
      exact absurd hab r.flat
    · rw [Function.update_of_ne ha] at hab
      exact h.acyclic hab
  closed := by
    intro a b k hlt hab
    by_cases ha : a = h.size
    · subst ha
      rw [Function.update_self] at hab
      exact absurd hab r.flat
    · rw [Function.update_of_ne ha] at hab
      have := h.closed (by omega) hab
      omega

/-- **`table.copy`**, which raises where it calls a nil. -/
def copy (h : Heap) (t : ℕ) (nometa : Bool) : Option (Heap × ℕ) :=
  (copyLoop ⟨∅, by simp⟩ (h.node t).entries.entries).map fun result =>
    (h.alloc result (if nometa then none else (h.node t).metatable), h.size)

/-! ## What the two are for -/

/-- `b` is an inner table of `a`. -/
def Inner (h : Heap) (a b : ℕ) : Prop := ∃ k, h.get a k = some (.table b)

/-- At any depth. -/
def Within (h : Heap) : ℕ → ℕ → Prop := Relation.TransGen (Inner h)

/-- **The same keys with equal leaves**, at every depth. -/
inductive Same (h : Heap) : Slot → Slot → Prop
  | leaf {l l' : Leaf} (heq : l.eq l' = true) : Same h (.leaf l) (.leaf l')
  | table {a b : ℕ} (hkeys : ∀ k, (h.get a k).isSome = (h.get b k).isSome)
      (hitems : ∀ k v w, h.get a k = some v → h.get b k = some w → Same h v w) :
      Same h (.table a) (.table b)

/-- No leaf is a nan. -/
inductive Proper (h : Heap) : Slot → Prop
  | leaf {l : Leaf} (heq : l.eq l = true) : Proper h (.leaf l)
  | table {a : ℕ} (hitems : ∀ k v, h.get a k = some v → Proper h v) : Proper h (.table a)

/-- **What `table.equal` goes by**: `b` holds at every key of `a` an equal
leaf, or the very table that `a` holds. -/
def Holds (h : Heap) (a b : ℕ) : Prop :=
  ∀ k v, h.get a k = some v → ∃ w, h.get b k = some w ∧ v.eq w = true ∧ Proper h v

/-- The inner tables of two tables are the same ones. -/
def Shares (h : Heap) (a b : ℕ) : Prop :=
  ∀ k c d, h.get a k = some (.table c) → h.get b k = some (.table d) → c = d

/-! ## Equality -/

/-- **One level of `table.equal`.** -/
theorem equal_table : equal h len (.table a) (.table b) = true ↔
    len a = len b ∧ ∀ k v, h.get a k = some v →
      ∃ w, h.get b k = some w ∧ v.eq w = true ∧ (∀ c, v = .table c → equal h len v w = true) := by
  rw [equal, Bool.and_eq_true, decide_eq_true_eq, List.all_eq_true]
  refine and_congr_right fun _ => ⟨fun hall k v hv => ?_, fun hall e he => ?_⟩
  · have hmem : (⟨k, v⟩ : Sigma fun _ : Key => Slot) ∈ (h.node a).entries.entries :=
      AList.mem_lookup_iff.mp hv
    have hentry := hall ⟨⟨k, v⟩, hmem⟩ (List.mem_attach _ _)
    dsimp only at hentry
    split at hentry
    · cases hentry
    · rename_i w hw
      refine ⟨w, hw, ?_⟩
      cases v with
      | leaf l => exact ⟨hentry, fun c hc => by cases hc⟩
      | table c =>
        obtain ⟨hrec, heq⟩ := Bool.and_eq_true_iff.mp hentry
        exact ⟨heq, fun c' hc' => hrec⟩
  · obtain ⟨⟨k, v⟩, hmem⟩ := e
    obtain ⟨w, hw, heq, hrec⟩ := hall k v (AList.mem_lookup_iff.mpr hmem)
    dsimp only
    rw [hw]
    cases v with
    | leaf l => exact heq
    | table c => exact Bool.and_eq_true_iff.mpr ⟨hrec c rfl, heq⟩

theorem asKey_eq_nan {v : Value} (hv : v.asKey = .num .nan) : v = .num .nan := by
  unfold Value.asKey at hv
  split at hv
  · split_ifs at hv <;> cases hv
  · exact hv

/-- What is equal to anything is no nan. -/
theorem Leaf.eq_symm {l l' : Leaf} (heq : l.eq l' = true) : l'.eq l = true := by
  match l, l', heq with
  | .value v, .value w, heq =>
    simp only [Leaf.eq, Bool.and_eq_true, decide_eq_true_eq] at heq ⊢
    refine ⟨?_, heq.2.symm⟩
    rintro rfl
    exact heq.1 (asKey_eq_nan heq.2)
  | .object m, .object n, heq =>
    simp only [Leaf.eq, decide_eq_true_eq] at heq ⊢
    exact heq.symm

theorem Leaf.eq_self {l l' : Leaf} (heq : l.eq l' = true) : l.eq l = true := by
  match l, l', heq with
  | .value v, .value w, heq =>
    simp only [Leaf.eq, Bool.and_eq_true, decide_eq_true_eq] at heq ⊢
    exact ⟨heq.1, trivial⟩
  | .object m, .object n, heq => exact decide_eq_true rfl

/-- A table is equal to itself as a value. -/
theorem Slot.eq_table : (Slot.table a).eq v = true ↔ v = .table a := by
  cases v with
  | leaf l => simp [Slot.eq]
  | table b => simp [Slot.eq, eq_comm]

theorem Slot.eq_leaf {l : Leaf} : (Slot.leaf l).eq v = true ↔ ∃ l', v = .leaf l' ∧ l.eq l' = true := by
  cases v with
  | leaf l' => simp [Slot.eq]
  | table b => simp [Slot.eq]

/-- **A table is equal to itself** where no leaf of it is a nan. -/
theorem equal_self : equal h len (.table a) (.table a) = true ↔ Proper h (.table a) := by
  induction hr : h.rank a using Nat.strongRecOn generalizing a with
  | ind r ih =>
    rw [equal_table]
    constructor
    · rintro ⟨-, hall⟩
      refine .table fun k v hv => ?_
      obtain ⟨w, hw, heq, hrec⟩ := hall k v hv
      obtain rfl : v = w := Option.some.inj (hv.symm.trans hw)
      cases v with
      | leaf l => exact .leaf heq
      | table c => exact (ih _ (hr ▸ h.acyclic hv) rfl).mp (hrec c rfl)
    · intro hp
      cases hp with
      | table hitems =>
        refine ⟨rfl, fun k v hv => ⟨v, hv, ?_, ?_⟩⟩
        · cases hitems k v hv with
          | leaf heq => exact heq
          | table _ => exact Slot.eq_table.mpr rfl
        · rintro c rfl
          exact (ih _ (hr ▸ h.acyclic hv) rfl).mpr (hitems k _ hv)

/-- **What `table.equal` says**: that `#` answers the same, and that the
second table holds what the first one does. -/
theorem equal_iff : equal h len (.table a) (.table b) = true ↔ len a = len b ∧ Holds h a b := by
  rw [equal_table]
  refine and_congr_right fun _ => ⟨fun hall k v hv => ?_, fun hall k v hv => ?_⟩
  · obtain ⟨w, hw, heq, hrec⟩ := hall k v hv
    refine ⟨w, hw, heq, ?_⟩
    cases v with
    | leaf l =>
      obtain ⟨l', -, hl⟩ := Slot.eq_leaf.mp heq
      exact .leaf (Leaf.eq_self hl)
    | table c =>
      obtain rfl := Slot.eq_table.mp heq
      exact equal_self.mp (hrec c rfl)
  · obtain ⟨w, hw, heq, hp⟩ := hall k v hv
    refine ⟨w, hw, heq, ?_⟩
    rintro c rfl
    obtain rfl := Slot.eq_table.mp heq
    exact equal_self.mpr hp

/-! ## The same contents -/

theorem Same.symm (hs : Same h v w) : Same h w v := by
  induction hs with
  | leaf heq => exact .leaf (Leaf.eq_symm heq)
  | table hkeys _ ih => exact .table (fun k => (hkeys k).symm) fun k v w hv hw => ih k w v hw hv

/-- What has the same contents as anything has no nan. -/
theorem Same.proper (hs : Same h v w) : Proper h v := by
  induction hs with
  | leaf heq => exact .leaf (Leaf.eq_self heq)
  | @table a b hkeys _ ih =>
    refine .table fun k v hv => ?_
    have hsome : (h.get b k).isSome = true := by
      rw [← hkeys k, hv]
      rfl
    obtain ⟨w, hw⟩ := Option.isSome_iff_exists.mp hsome
    exact ih k v w hv hw

/-- Tables with the same contents hold what the other does where they hold
the same tables. -/
theorem holds_of_same (hs : Same h (.table a) (.table b)) (hshares : Shares h a b) : Holds h a b := by
  intro k v hv
  cases hs with
  | table hkeys hitems =>
    have hsome : (h.get b k).isSome = true := by
      rw [← hkeys k, hv]
      rfl
    obtain ⟨w, hw⟩ := Option.isSome_iff_exists.mp hsome
    have hvw := hitems k v w hv hw
    refine ⟨w, hw, ?_, hvw.proper⟩
    cases hvw with
    | leaf heq => exact heq
    | @table c d _ _ =>
      obtain rfl := hshares k c d hv hw
      exact Slot.eq_table.mpr rfl

theorem shares_of_holds (hh : Holds h a b) : Shares h a b := by
  intro k c d hc hd
  obtain ⟨w, hw, heq, -⟩ := hh k _ hc
  obtain rfl : Slot.table d = w := Option.some.inj (hd.symm.trans hw)
  exact (Slot.table.inj (Slot.eq_table.mp heq)).symm

theorem Shares.symm (hs : Shares h a b) : Shares h b a := fun k c d hc hd => (hs k d c hd hc).symm

/-- **Where `table.equal` is what it should be**, both ways round: for tables
with the same contents, where they hold the very same inner tables; for
others, where neither holds all that the other does. -/
theorem exact_iff :
    ((equal h len (.table a) (.table b) = equal h len (.table b) (.table a)) ∧
      (equal h len (.table a) (.table b) = true ↔ Same h (.table a) (.table b))) ↔
    (Same h (.table a) (.table b) → len a = len b ∧ Shares h a b) ∧
    (¬ Same h (.table a) (.table b) → len a = len b → ¬ Holds h a b ∧ ¬ Holds h b a) := by
  rw [Bool.eq_iff_iff, equal_iff, equal_iff]
  constructor
  · rintro ⟨hsymm, hexact⟩
    refine ⟨fun hs => ?_, fun hs hlen => ⟨fun hh => hs (hexact.mp ⟨hlen, hh⟩), fun hh => ?_⟩⟩
    · obtain ⟨hlen, hh⟩ := hexact.mpr hs
      exact ⟨hlen, shares_of_holds hh⟩
    · exact hs (hexact.mp (hsymm.mpr ⟨hlen.symm, hh⟩))
  · rintro ⟨hsame, hother⟩
    by_cases hs : Same h (.table a) (.table b)
    · obtain ⟨hlen, hshares⟩ := hsame hs
      have hab := holds_of_same hs hshares
      have hba := holds_of_same hs.symm hshares.symm
      exact ⟨⟨fun _ => ⟨hlen.symm, hba⟩, fun _ => ⟨hlen, hab⟩⟩, fun _ => hs, fun _ => ⟨hlen, hab⟩⟩
    · refine ⟨⟨fun hab => ?_, fun hba => ?_⟩, fun hab => ?_, fun h => absurd h hs⟩
      · exact absurd hab.2 (hother hs hab.1).1
      · exact absurd hba.2 (hother hs hba.1.symm).2
      · exact absurd hab.2 (hother hs hab.1).1

/-! ## Copies -/

/-- **The loop of `table.copy`** goes through where it meets no table, and
has put every entry into its result then. -/
theorem copyLoop_spec {es : List (Sigma fun _ : Key => Slot)} (hes : es.NodupKeys) (r : Flat) :
    (∀ r', copyLoop r es = some r' → (∀ k c, es.dlookup k ≠ some (.table c)) ∧
      ∀ k, r'.entries.lookup k = (es.dlookup k).or (r.entries.lookup k)) ∧
    ((∀ k c, es.dlookup k ≠ some (.table c)) → (copyLoop r es).isSome) := by
  induction es generalizing r with
  | nil =>
    refine ⟨fun r' hr' => ?_, fun _ => rfl⟩
    cases hr'
    exact ⟨fun k c => by simp, fun k => rfl⟩
  | cons e es ih =>
    obtain ⟨k, v⟩ := e
    obtain ⟨hk, hrest⟩ := List.nodupKeys_cons.mp hes
    have hnone : es.dlookup k = none := List.dlookup_eq_none.mpr hk
    cases v with
    | table c =>
      refine ⟨fun r' hr' => ?_, fun hall => ?_⟩
      · cases hr'
      · exact absurd (List.dlookup_cons_eq _ _ _) (hall k c)
    | leaf l =>
      obtain ⟨hsome, hall⟩ := ih hrest (r.set k l)
      refine ⟨fun r' hr' => ?_, fun hall' => hall fun k' c hc => ?_⟩
      · obtain ⟨hflat, hlookup⟩ := hsome r' hr'
        constructor
        · intro k' c
          by_cases hkk : k' = k
          · subst hkk
            rw [List.dlookup_cons_eq]
            simp
          · rw [List.dlookup_cons_ne _ _ hkk]
            exact hflat k' c
        · intro k'
          rw [hlookup k', Flat.set]
          by_cases hkk : k' = k
          · subst hkk
            rw [hnone, List.dlookup_cons_eq, AList.lookup_insert]
            rfl
          · rw [AList.lookup_insert_ne hkk, List.dlookup_cons_ne _ _ hkk]
      · by_cases hkk : k' = k
        · subst hkk
          rw [hnone] at hc
          cases hc
        · exact hall' k' c ((List.dlookup_cons_ne _ _ hkk).trans hc)

/-- **What `table.copy` does**: where it does not raise, the table has no
inner tables, and the new one has its entries. -/
theorem copy_spec {nometa : Bool} :
    (∀ h' t', copy h t nometa = some (h', t') → (∀ c, ¬ Inner h t c) ∧ t' = h.size ∧
      (∀ k, h'.get t' k = h.get t k) ∧ ∀ a k, a ≠ h.size → h'.get a k = h.get a k) ∧
    ((∀ c, ¬ Inner h t c) → (copy h t nometa).isSome) := by
  obtain ⟨hsome, hall⟩ := copyLoop_spec (h.node t).entries.nodupKeys ⟨∅, by simp⟩
  refine ⟨fun h' t' hcopy => ?_, fun hflat => ?_⟩
  · obtain ⟨r, hr, heq⟩ := Option.map_eq_some_iff.mp hcopy
    obtain ⟨rfl, rfl⟩ := Prod.mk.inj heq
    obtain ⟨hflat, hlookup⟩ := hsome r hr
    refine ⟨?_, rfl, fun k => ?_, fun a k ha => ?_⟩
    · rintro c ⟨k, hk⟩
      exact hflat k c hk
    · have hnew : (h.alloc r (if nometa then none else (h.node t).metatable)).get h.size k =
          r.entries.lookup k := by
        simp only [Heap.get, Heap.alloc, Function.update_self]
      rw [hnew, hlookup k]
      exact Option.or_none
    · simp only [Heap.get, Heap.alloc, Function.update_of_ne ha]
  · rw [copy, Option.isSome_map]
    exact hall fun k c hk => hflat c ⟨k, hk⟩

/-- **Which tables are copied**: those without inner tables and without a
nan, where `#` answers the same for the copy. -/
theorem copies_iff (ht : t < h.size) (nometa : Bool) :
    (∃ h' t', copy h t nometa = some (h', t') ∧ t' ≠ t ∧
      (∀ c, ¬ (Within h' t c ∧ Within h' t' c)) ∧ equal h' len (.table t) (.table t') = true) ↔
    (∀ c, ¬ Inner h t c) ∧ Proper h (.table t) ∧ len t = len h.size := by
  obtain ⟨hsome, hall⟩ := @copy_spec h t nometa
  have hne : t ≠ h.size := Nat.ne_of_lt ht
  constructor
  · rintro ⟨h', t', hcopy, -, -, hequal⟩
    obtain ⟨hflat, rfl, hnew, hold⟩ := hsome h' t' hcopy
    obtain ⟨hlen, hholds⟩ := equal_iff.mp hequal
    refine ⟨hflat, .table fun k v hv => ?_, hlen⟩
    obtain ⟨w, -, heq, -⟩ := hholds k v ((hold t k hne).trans hv)
    cases v with
    | leaf l =>
      obtain ⟨l', -, hl⟩ := Slot.eq_leaf.mp heq
      exact .leaf (Leaf.eq_self hl)
    | table c => exact absurd ⟨k, hv⟩ (hflat c)
  · rintro ⟨hflat, hp, hlen⟩
    obtain ⟨⟨h', t'⟩, hcopy⟩ := Option.isSome_iff_exists.mp (hall hflat)
    obtain ⟨-, rfl, hnew, hold⟩ := hsome h' t' hcopy
    refine ⟨h', h.size, hcopy, hne.symm, ?_, equal_iff.mpr ⟨hlen, fun k v hv => ?_⟩⟩
    · -- the table has no inner tables to share
      rintro c ⟨hc, -⟩
      obtain ⟨d, ⟨k, hk⟩, -⟩ := Relation.TransGen.head'_iff.mp hc
      exact hflat d ⟨k, (hold t k hne).symm.trans hk⟩
    · have hv' : h.get t k = some v := (hold t k hne).symm.trans hv
      refine ⟨v, (hnew k).trans hv', ?_⟩
      cases hp with
      | table hitems =>
        cases v with
        | leaf l =>
          cases hitems k _ hv' with
          | leaf heq => exact ⟨heq, .leaf heq⟩
        | table c => exact absurd ⟨k, hv'⟩ (hflat c)

/-! ## Sequences -/

/-- The key `i` of an array. -/
def intKey (i : ℕ) : Key := ⟨.value (.num (.int (Int64.ofNat i))), by simp, rfl⟩

/-- A border of a table, which is what `#` answers. -/
structure Border (h : Heap) (a n : ℕ) : Prop where
  lt : n + 1 < 2 ^ 63
  last : n = 0 ∨ (h.get a (intKey n)).isSome
  next : (h.get a (intKey (n + 1))).isSome = false

/-- **A sequence**: of the positive integers it has those up to `n`. -/
def Sequence (h : Heap) (a n : ℕ) : Prop :=
  ∀ i, 0 < i → i < 2 ^ 63 → ((h.get a (intKey i)).isSome ↔ i ≤ n)

/-- A sequence has one border. -/
theorem Sequence.border {n m : ℕ} (hseq : Sequence h a n) (hm : Border h a m) : m = n := by
  have hnext : ¬ m + 1 ≤ n := by
    rw [← hseq (m + 1) (by omega) hm.lt, hm.next]
    exact Bool.false_ne_true
  rcases hm.last with h0 | hlast
  · omega
  · by_cases h0 : m = 0
    · omega
    · have := (hseq m (by omega) (by have := hm.lt; omega)).mp hlast
      omega

/-- **A sequence is copied** where it has no inner tables and no nan. -/
theorem copies_sequence {n : ℕ} {nometa : Bool} (ht : t < h.size) (hseq : Sequence h t n)
    (hlen : Border h t (len t))
    (hnew : ∀ h' t', copy h t nometa = some (h', t') → Border h' t' (len t')) :
    (∃ h' t', copy h t nometa = some (h', t') ∧ t' ≠ t ∧
      (∀ c, ¬ (Within h' t c ∧ Within h' t' c)) ∧ equal h' len (.table t) (.table t') = true) ↔
    (∀ c, ¬ Inner h t c) ∧ Proper h (.table t) := by
  rw [copies_iff ht nometa]
  refine ⟨fun hall => ⟨hall.1, hall.2.1⟩, fun hall => ⟨hall.1, hall.2, ?_⟩⟩
  obtain ⟨hsome, hcopies⟩ := @copy_spec h t nometa
  obtain ⟨⟨h', t'⟩, hcopy⟩ := Option.isSome_iff_exists.mp (hcopies hall.1)
  obtain ⟨-, rfl, hentries, -⟩ := hsome h' t' hcopy
  have hseq' : Sequence h' h.size n := fun i hi hlt => by
    rw [hentries]
    exact hseq i hi hlt
  rw [hseq.border hlen, hseq'.border (hnew h' h.size hcopy)]

/-! ## Both functions -/

/-- **When copying and comparing are as they should be.** -/
theorem copy_equal_iff (ht : t < h.size) (len : ℕ → ℕ) (nometa : Bool) :
    ((∃ h' t', copy h t nometa = some (h', t') ∧ t' ≠ t ∧
        (∀ c, ¬ (Within h' t c ∧ Within h' t' c)) ∧ equal h' len (.table t) (.table t') = true) ↔
      (∀ c, ¬ Inner h t c) ∧ Proper h (.table t) ∧ len t = len h.size) ∧
    (∀ a, equal h len (.table a) (.table a) = true ↔ Proper h (.table a)) ∧
    ∀ a b, ((equal h len (.table a) (.table b) = equal h len (.table b) (.table a)) ∧
        (equal h len (.table a) (.table b) = true ↔ Same h (.table a) (.table b))) ↔
      (Same h (.table a) (.table b) → len a = len b ∧ Shares h a b) ∧
      (¬ Same h (.table a) (.table b) → len a = len b → ¬ Holds h a b ∧ ¬ Holds h b a) :=
  ⟨copies_iff ht nometa, fun _ => equal_self, fun _ _ => exact_iff⟩

/-- A table of one entry. -/
def single (k : Key) (v : Slot) : Node := ⟨AList.singleton k v, none⟩

theorem lookup_single {k k' : Key} {v w : Slot} (hw : (single k v).entries.lookup k' = some w) :
    k' = k ∧ w = v := by
  have hone : List.dlookup k' ([⟨k, v⟩] : List (Sigma fun _ : Key => Slot)) = some w := hw
  by_cases hk : k' = k
  · subst hk
    rw [List.dlookup_cons_eq] at hone
    exact ⟨rfl, (Option.some.inj hone).symm⟩
  · rw [List.dlookup_cons_ne _ _ hk] at hone
    cases hone

/-- The key `x`. -/
def xKey : Key := ⟨.value (.str ['x']), by simp, rfl⟩

/-- The tables `{}`, `{{}}`, `{}`, `{{}}` and `{x = 1}`. -/
def five : Heap where
  node a := if a = 1 then single (intKey 1) (.table 0) else if a = 3 then single (intKey 1) (.table 2)
    else if a = 4 then single xKey (.leaf (.value (.num (.int 1)))) else ⟨∅, none⟩
  size := 5
  rank a := a
  acyclic := by
    intro a b k hab
    split_ifs at hab
    · obtain ⟨-, hb⟩ := lookup_single hab
      cases hb
      omega
    · obtain ⟨-, hb⟩ := lookup_single hab
      cases hb
      omega
    · cases (lookup_single hab).2
    · cases hab
  closed := by
    intro a b k _ hab
    split_ifs at hab
    · cases (lookup_single hab).2
      omega
    · cases (lookup_single hab).2
      omega
    · cases (lookup_single hab).2
    · cases hab

/-- What `#` answers for them. -/
def fiveLen (a : ℕ) : ℕ := if a = 1 ∨ a = 3 then 1 else 0

/-- The table `{x = 1}` is copied. -/
theorem copy_equal_iff_x :
    ∃ h' t', copy five 4 false = some (h', t') ∧ t' ≠ 4 ∧
      (∀ c, ¬ (Within h' 4 c ∧ Within h' t' c)) ∧
      equal h' fiveLen (.table 4) (.table t') = true := by
  refine (copy_equal_iff (h := five) (by decide) fiveLen false).1.mpr ⟨?_, ?_, rfl⟩
  · rintro c ⟨k, hk⟩
    cases (lookup_single hk).2
  · refine .table fun k v hv => ?_
    cases (lookup_single hv).2
    exact .leaf rfl

/-- A table with an inner one is not copied, two tables with equal inner ones
are not equal, and the empty table is equal to one with a field, but not the
other way round. -/
theorem inner_table_not_copied :
    copy five 1 false = none ∧
      Same five (.table 1) (.table 3) ∧ equal five fiveLen (.table 1) (.table 3) = false ∧
      equal five fiveLen (.table 0) (.table 4) = true ∧
      equal five fiveLen (.table 4) (.table 0) = false ∧
      ¬ Same five (.table 0) (.table 4) := by
  have hempty : ∀ k v, five.get 0 k ≠ some v := fun k v hv => by cases hv
  have hx : five.get 4 xKey = some (.leaf (.value (.num (.int 1)))) := rfl
  have hother : ∀ k v, k ≠ intKey 1 → (single (intKey 1) v).entries.lookup k = none := fun k v hk =>
    Option.eq_none_iff_forall_ne_some.mpr fun w hw => hk (lookup_single hw).1
  refine ⟨rfl, ?_, ?_, ?_, ?_, ?_⟩
  · refine .table (fun k => ?_) fun k v w hv hw => ?_
    · by_cases hk : k = intKey 1
      · subst hk
        rfl
      · have h1 : five.get 1 k = none := hother k _ hk
        have h3 : five.get 3 k = none := hother k _ hk
        rw [h1, h3]
    · obtain ⟨-, rfl⟩ := lookup_single hv
      obtain ⟨-, rfl⟩ := lookup_single hw
      exact .table (fun k => rfl) fun k v w hv _ => by cases hv
  · rw [Bool.eq_false_iff]
    intro heq
    obtain ⟨w, hw, hvw, -⟩ := (equal_iff.mp heq).2 (intKey 1) (.table 0) rfl
    cases (lookup_single hw).2
    cases hvw
  · exact equal_iff.mpr ⟨rfl, fun k v hv => absurd hv (hempty k v)⟩
  · rw [Bool.eq_false_iff]
    intro heq
    obtain ⟨w, hw, -⟩ := (equal_iff.mp heq).2 xKey _ hx
    exact hempty _ _ hw
  · rintro (_ | ⟨hkeys, -⟩)
    have := hkeys xKey
    rw [hx] at this
    cases this

end Nested

end Lua

end Athena
