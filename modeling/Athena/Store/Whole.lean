import Athena.Store.Cache
import Athena.Store.Encoding
/-!
# The data services — a whole table

`load_data_impl` puts every row of a table into redis, page by page, and
`get_common` reads them back through the index. Where the rows have
distinct keys and distinct indexes, a connection that had none of them is
filled with them (`loadDataImpl_filled`), and what is read of it is
`readBack` of each row and of nothing else (`getCommon_filled`).
-/

namespace Athena

namespace Store

open Lua

variable {E : Env} {s t : State} {c : Config} {ik : Str} {key index : Row → Str}
  {rows done : List Row} {row : Row} {db : Db}

/-- **A table that can be loaded**: each row has a key and an index, under
names that are not taken. -/
structure Loadable (E : Env) (c : Config) (ik : Str) (key index : Row → Str) (rows : List Row) :
    Prop where
  nonempty : ∀ row ∈ rows, row.entries ≠ []
  keyed : ∀ row ∈ rows, ∃ v, makeRediskey row c.key = .ok (some v) ∧ v.text = .ok (key row)
  indexed : ∀ row ∈ rows, ∃ w, makeRediskey row ik = .ok (some w) ∧ w.text = .ok (index row)
  key_nodup : (rows.map key).Nodup
  index_nodup : (rows.map index).Nodup
  key_ne_pk : ∀ row ∈ rows, key row ≠ (E.schema c.name).pk
  key_not_index : ∀ row ∈ rows, indexTail.isPrefixOf (key row) = false

/-- The name of a row's hash. -/
abbrev hashName (c : Config) (key : Row → Str) (row : Row) : Str := c.name ++ ':' :: key row

/-- The name of a row's index. -/
abbrev zsetName (c : Config) (index : Row → Str) (row : Row) : Str :=
  c.name ++ ':' :: (indexTail ++ index row)

/-- **A connection that has some rows**: their hashes, an index for each,
and of the table's keys nothing else but its counter. -/
structure Filled (E : Env) (c : Config) (key index : Row → Str) (rows : List Row) (db : Db) : Prop where
  hash : ∀ row ∈ rows, db.lookup (hashName c key row) = some (.hash (wireRow row))
  zset : ∀ row ∈ rows, db.lookup (zsetName c index row) = some (.zset [key row])
  only : ∀ k ∈ db, (∃ row ∈ rows, k = hashName c key row) ∨
    (∃ row ∈ rows, k = zsetName c index row) ∨
    k = c.name ++ ':' :: (E.schema c.name).pk

theorem filled_nil : Filled E c key index [] ∅ := by
  refine ⟨by simp, by simp, fun k hk => ?_⟩
  exact absurd hk (AList.notMem_empty k)

theorem Loadable.of_perm (h : Loadable E c ik key index rows) {l : List Row} (hl : l.Perm rows) :
    Loadable E c ik key index l where
  nonempty row hrow := h.nonempty row (hl.mem_iff.mp hrow)
  keyed row hrow := h.keyed row (hl.mem_iff.mp hrow)
  indexed row hrow := h.indexed row (hl.mem_iff.mp hrow)
  key_nodup := (hl.map key).nodup_iff.mpr h.key_nodup
  index_nodup := (hl.map index).nodup_iff.mpr h.index_nodup
  key_ne_pk row hrow := h.key_ne_pk row (hl.mem_iff.mp hrow)
  key_not_index row hrow := h.key_not_index row (hl.mem_iff.mp hrow)

theorem Loadable.of_append {l l' : List Row} (h : Loadable E c ik key index (l ++ l')) :
    Loadable E c ik key index l where
  nonempty row hrow := h.nonempty row (List.mem_append_left l' hrow)
  keyed row hrow := h.keyed row (List.mem_append_left l' hrow)
  indexed row hrow := h.indexed row (List.mem_append_left l' hrow)
  key_nodup := h.key_nodup.sublist ((List.sublist_append_left l l').map key)
  index_nodup := h.index_nodup.sublist ((List.sublist_append_left l l').map index)
  key_ne_pk row hrow := h.key_ne_pk row (List.mem_append_left l' hrow)
  key_not_index row hrow := h.key_not_index row (List.mem_append_left l' hrow)

/-! ## Names -/

theorem name_inj {a b : Str} : c.name ++ ':' :: a = c.name ++ ':' :: b ↔ a = b := by simp

/-- A text that begins like an index is not one that does not. -/
theorem ne_indexTail {a b : Str} (h : indexTail.isPrefixOf a = false) : a ≠ indexTail ++ b := by
  rintro rfl
  rw [isPrefixOf_iff.mpr (List.prefix_append indexTail b)] at h
  cases h

/-! ## Loading -/

section one

variable (h : Loadable E c ik key index (done ++ [row])) (hdone : Filled E c key index done db)
  (hpk : indexTail.isPrefixOf (E.schema c.name).pk = false)

include h

theorem Loadable.key_ne {r : Row} (hr : r ∈ done) : key r ≠ key row := by
  have hnodup : (done.map key ++ [key row]).Nodup := by simpa using h.key_nodup
  exact (List.nodup_append.mp hnodup).2.2 _ (List.mem_map_of_mem hr) _ (List.mem_singleton_self _)

theorem Loadable.index_ne {r : Row} (hr : r ∈ done) : index r ≠ index row := by
  have hnodup : (done.map index ++ [index row]).Nodup := by simpa using h.index_nodup
  exact (List.nodup_append.mp hnodup).2.2 _ (List.mem_map_of_mem hr) _ (List.mem_singleton_self _)

theorem Loadable.hashName_ne {r r' : Row} (hr : r ∈ done ++ [row]) :
    hashName c key r ≠ zsetName c index r' := fun heq =>
  ne_indexTail (h.key_not_index r hr) (name_inj.mp heq)

include hdone

/-- The hash of the next row is not there. -/
theorem Filled.hash_fresh : db.lookup (hashName c key row) = none := by
  refine AList.lookup_eq_none.mpr fun hmem => ?_
  rcases hdone.only _ hmem with ⟨r, hr, heq⟩ | ⟨r, hr, heq⟩ | heq
  · exact h.key_ne hr (name_inj.mp heq).symm
  · exact h.hashName_ne (by simp) heq
  · exact h.key_ne_pk row (by simp) (name_inj.mp heq)

include hpk

/-- Nor is its index. -/
theorem Filled.zset_fresh : db.lookup (zsetName c index row) = none := by
  refine AList.lookup_eq_none.mpr fun hmem => ?_
  rcases hdone.only _ hmem with ⟨r, hr, heq⟩ | ⟨r, hr, heq⟩ | heq
  · exact h.hashName_ne (List.mem_append_left _ hr) heq.symm
  · exact h.index_ne hr (List.append_cancel_left (name_inj.mp heq)).symm
  · exact ne_indexTail hpk (name_inj.mp heq).symm

omit hpk

/-- **One row more.** -/
theorem Filled.insert : Filled E c key index (done ++ [row])
    ((db.insert (hashName c key row) (.hash (wireRow row))).insert (zsetName c index row)
      (.zset [key row])) := by
  constructor
  · intro r hr
    rw [AList.lookup_insert_ne (h.hashName_ne hr)]
    rcases List.mem_append.mp hr with hr | hr
    · rw [AList.lookup_insert_ne fun heq => h.key_ne hr (name_inj.mp heq)]
      exact hdone.hash r hr
    · obtain rfl := List.mem_singleton.mp hr
      exact AList.lookup_insert _
  · intro r hr
    rcases List.mem_append.mp hr with hr | hr
    · rw [AList.lookup_insert_ne fun heq => h.index_ne hr (List.append_cancel_left (name_inj.mp heq)),
        AList.lookup_insert_ne (h.hashName_ne (by simp)).symm]
      exact hdone.zset r hr
    · obtain rfl := List.mem_singleton.mp hr
      exact AList.lookup_insert _
  · intro k hk
    rcases (AList.mem_insert _).mp hk with rfl | hk
    · exact Or.inr (Or.inl ⟨row, by simp, rfl⟩)
    rcases (AList.mem_insert _).mp hk with rfl | hk
    · exact Or.inl ⟨row, by simp, rfl⟩
    rcases hdone.only k hk with ⟨r, hr, heq⟩ | ⟨r, hr, heq⟩ | heq
    · exact Or.inl ⟨r, List.mem_append_left _ hr, heq⟩
    · exact Or.inr (Or.inl ⟨r, List.mem_append_left _ hr, heq⟩)
    · exact Or.inr (Or.inr heq)

end one

/-- **A row is loaded.** -/
theorem loadRow_filled (hik : c.indexkey = some ik)
    (hpk : indexTail.isPrefixOf (E.schema c.name).pk = false)
    (h : Loadable E c ik key index (done ++ [row])) (hdone : Filled E c key index done (s.pool 1)) :
    ∃ t, loadRow E c none row s = (.ok (), t) ∧ Filled E c key index (done ++ [row]) (t.pool 1) ∧
      t.mysql = s.mysql := by
  obtain ⟨v, hv, hvt⟩ := h.keyed row (by simp)
  obtain ⟨w, hw, hwt⟩ := h.indexed row (by simp)
  have hkey : hashKey c.name (some v) = .ok (hashName c key row) := by
    simp only [hashKey, textOf, hvt, bind, Except.bind, pure, Except.pure]
  have hname : indexName c.name (some w) = .ok (zsetName c index row) := by
    simp only [indexName, textOf, hwt, bind, Except.bind, pure, Except.pure, indexWord_append]
  have hset := hmset_eq (E := E) getconn_none (h.nonempty row (by simp))
    (Or.inr ⟨hdone.hash_fresh h, rfl⟩)
  rw [AList.union_empty] at hset
  set db := (s.pool 1).insert (hashName c key row) (.hash (wireRow row))
  have hfresh : ((s.setDb 1 db).pool 1).lookup (zsetName c index row) = none := by
    rw [State.setDb_pool_self, AList.lookup_insert_ne (h.hashName_ne (by simp)).symm]
    exact hdone.zset_fresh h hpk
  have hadd : doRedis E (.zadd (zsetName c index row) v) none (s.setDb 1 db) =
      (.ok (.int 1), (s.setDb 1 db).setDb 1 (db.insert (zsetName c index row) (.zset [key row]))) := by
    rw [zadd_of_none getconn_none hfresh, State.setDb_pool_self, ← text_eq_wire hvt]
  refine ⟨(s.setDb 1 db).setDb 1 (db.insert (zsetName c index row) (.zset [key row])), ?_, ?_, rfl⟩
  · rw [loadRow, Act.lift_bind_ok hv, Act.lift_bind_ok hkey, Option.map_none, Act.bind_ok hset]
    simp only [addIndex, hik]
    rw [Act.lift_bind_ok hw, Act.lift_bind_ok hname, Act.bind_ok hadd]
    rfl
  · rw [State.setDb_pool_self]
    exact hdone.insert h

/-- **Some rows more.** -/
theorem loadRows_filled (hik : c.indexkey = some ik)
    (hpk : indexTail.isPrefixOf (E.schema c.name).pk = false)
    (h : Loadable E c ik key index (done ++ rows)) (hdone : Filled E c key index done (s.pool 1)) :
    ∃ t, loadRows E c none rows s = (.ok (), t) ∧ Filled E c key index (done ++ rows) (t.pool 1) ∧
      t.mysql = s.mysql := by
  induction rows generalizing done s with
  | nil => exact ⟨s, rfl, by simpa using hdone, rfl⟩
  | cons row rows ih =>
    have happ : done ++ row :: rows = done ++ [row] ++ rows := by simp
    rw [happ] at h ⊢
    obtain ⟨t, ht, hfilled, hmysql⟩ := loadRow_filled hik hpk h.of_append hdone
    obtain ⟨u, hu, hfilled', hmysql'⟩ := ih h hfilled
    exact ⟨u, by rw [loadRows, Act.bind_ok ht, hu], hfilled', hmysql'.trans hmysql⟩

/-- **The pages**, of which a thousand rows at a time are loaded. -/
theorem loadPages_filled (hik : c.indexkey = some ik)
    (hpk : indexTail.isPrefixOf (E.schema c.name).pk = false) {n offset : ℕ} {data : List Row}
    (h : Loadable E c ik key index (select E c none s))
    (hn : ((select E c none s).drop offset).length < n)
    (hdone : Filled E c key index ((select E c none s).take offset) (s.pool 1)) :
    ∃ data' t, loadPages E c none n offset data s = (.ok data', t) ∧
      Filled E c key index (select E c none s) (t.pool 1) ∧ t.mysql = s.mysql := by
  induction n generalizing offset data s with
  | zero => omega
  | succ n ih =>
    generalize hl : select E c none s = l at h hn hdone ⊢
    have hsplit : l.take offset ++ (l.drop offset).take 1000 = l.take (offset + 1000) :=
      List.take_add.symm
    have hpage : Loadable E c ik key index (l.take offset ++ (l.drop offset).take 1000) := by
      rw [hsplit]
      exact ((List.take_append_drop (offset + 1000) l).symm ▸ h).of_append
    obtain ⟨t, ht, hfilled, hmysql⟩ := loadRows_filled hik hpk hpage hdone
    rw [hsplit] at hfilled
    have hselect : select E c none t = l := by
      rw [← hl]
      simp only [select, hmysql]
    rw [loadPages, Act.get_bind_apply, hl]
    by_cases hnil : ((l.drop offset).take 1000).length ≤ 0
    · -- the page before was the last
      have hend : l.take offset = l := by
        refine List.take_of_length_le ?_
        simp only [List.length_take, List.length_drop] at hnil
        omega
      rw [if_pos hnil]
      exact ⟨data, s, rfl, hend ▸ hdone, rfl⟩
    · rw [if_neg hnil, Act.bind_ok ht]
      by_cases hshort : ((l.drop offset).take 1000).length < 1000
      · have hend : l.take (offset + 1000) = l := by
          refine List.take_of_length_le ?_
          simp only [List.length_take, List.length_drop] at hshort
          omega
        rw [if_pos hshort]
        exact ⟨_, t, rfl, hend ▸ hfilled, hmysql⟩
      · rw [if_neg hshort]
        have hfewer : (l.drop (offset + 1000)).length < n := by
          simp only [List.length_drop] at hn ⊢
          simp only [List.length_take, List.length_drop] at hnil
          omega
        rw [← hselect] at h hfewer hfilled
        obtain ⟨data', u, hu, hfilled', hmysql'⟩ := ih h hfewer hfilled
        rw [hselect] at hfilled'
        exact ⟨data', u, hu, hfilled', hmysql'.trans hmysql⟩

theorem select_perm : (select E c none s).Perm (s.mysql c.name) := List.perm_insertionSort _ _

/-- **A load of a whole table**, into a connection without any of it. -/
theorem loadDataImpl_filled (hik : c.indexkey = some ik)
    (hpk : indexTail.isPrefixOf (E.schema c.name).pk = false)
    (h : Loadable E c ik key index (s.mysql c.name)) (hempty : s.pool 1 = ∅) :
    ∃ data t, loadDataImpl E c none s = (.ok data, t) ∧
      Filled E c key index (s.mysql c.name) (t.pool 1) ∧ t.mysql = s.mysql := by
  have hall : ((select E c none s).drop 0).length < (s.mysql c.name).length + 1 := by
    rw [List.drop_zero, select_perm.length_eq]
    omega
  have hnil : Filled E c key index ((select E c none s).take 0) (s.pool 1) := by
    rw [List.take_zero, hempty]
    exact filled_nil
  obtain ⟨data, t, ht, hfilled, hmysql⟩ : ∃ data t,
      loadPages E c none ((s.mysql c.name).length + 1) 0 [] s = (.ok data, t) ∧
        Filled E c key index (select E c none s) (t.pool 1) ∧ t.mysql = s.mysql :=
    loadPages_filled hik hpk (h.of_perm select_perm) hall hnil
  refine ⟨data, t, ?_, ?_, hmysql⟩
  · rw [loadDataImpl, Act.get_bind_apply, ht]
  · have hmem : ∀ r, r ∈ select E c none s ↔ r ∈ s.mysql c.name := fun r => select_perm.mem_iff
    exact ⟨fun r hr => hfilled.hash r ((hmem r).mpr hr), fun r hr => hfilled.zset r ((hmem r).mpr hr),
      by simpa only [hmem] using hfilled.only⟩

/-- The counter of the table, beside its rows. -/
theorem Filled.counter (h : Filled E c key index rows db) (hrows : Loadable E c ik key index rows)
    (hpk : indexTail.isPrefixOf (E.schema c.name).pk = false) (x : Entry) :
    Filled E c key index rows (db.insert (c.name ++ ':' :: (E.schema c.name).pk) x) where
  hash r hr := by
    rw [AList.lookup_insert_ne fun heq => hrows.key_ne_pk r hr (name_inj.mp heq)]
    exact h.hash r hr
  zset r hr := by
    rw [AList.lookup_insert_ne fun heq => ne_indexTail hpk (name_inj.mp heq).symm]
    exact h.zset r hr
  only k hk := by
    rcases (AList.mem_insert _).mp hk with rfl | hk
    · exact Or.inr (Or.inr rfl)
    · exact h.only k hk

/-! ## Reading -/

/-- The members of some of its indexes. -/
theorem memberKeys_filled (h : Filled E c key index rows (t.pool 1)) {l : List Str}
    (hl : ∀ x ∈ l, ∃ row ∈ rows, x = zsetName c index row) :
    ∃ ks, memberKeys E c.name l t = (.ok ks, t) ∧
      (∀ k ∈ ks, ∃ row ∈ rows, k = hashName c key row) ∧
      ∀ x ∈ l, ∃ row ∈ rows, x = zsetName c index row ∧
        hashName c key row ∈ ks := by
  induction l with
  | nil => exact ⟨[], rfl, by simp, by simp⟩
  | cons x l ih =>
    obtain ⟨row, hrow, rfl⟩ := hl x List.mem_cons_self
    obtain ⟨ks, hks, honly, hall⟩ := ih fun y hy => hl y (List.mem_cons_of_mem _ hy)
    refine ⟨(hashName c key row) :: ks, ?_, ?_, ?_⟩
    · rw [memberKeys, Act.bind_ok (zrange_of_zset getconn_none (h.zset row hrow)), Act.bind_ok hks]
      rfl
    · intro k hk
      rcases List.mem_cons.mp hk with rfl | hk
      · exact ⟨row, hrow, rfl⟩
      · exact honly k hk
    · intro y hy
      rcases List.mem_cons.mp hy with rfl | hy
      · exact ⟨row, hrow, rfl, List.mem_cons_self⟩
      · obtain ⟨r, hr, heq, hmem⟩ := hall y hy
        exact ⟨r, hr, heq, List.mem_cons_of_mem _ hmem⟩

/-- **Where the rows are again** after they were read back. -/
def Back (E : Env) (c : Config) (place : Row → Value) (rows : List Row) : Prop :=
  ∀ row ∈ rows, ∃ v, makeRediskey (readBack (E.schema c.name) row) c.key = .ok (some v) ∧
    v ≠ .num .nan ∧ v.asKey = place row

variable {place : Row → Value}

/-- The rows under some keys: each is there, and nothing else has come. -/
theorem readKeys_filled (h : Filled E c key index rows (t.pool 1))
    (hrows : Loadable E c ik key index rows) (hback : Back E c place rows)
    (hplace : (rows.map place).Nodup) {ks : List Str}
    (hks : ∀ k ∈ ks, ∃ row ∈ rows, k = hashName c key row) (data : Keyed) :
    ∃ data', readKeys E c data ks t = (.ok data', t) ∧
      (∀ row ∈ rows, hashName c key row ∈ ks ∨
          data.lookup (place row) = some (readBack (E.schema c.name) row) →
        data'.lookup (place row) = some (readBack (E.schema c.name) row)) ∧
      ∀ v r, data'.lookup v = some r → data.lookup v = some r ∨
        ∃ row ∈ rows, v = place row ∧ r = readBack (E.schema c.name) row := by
  induction ks generalizing data with
  | nil => exact ⟨data, rfl, by simp, fun v r hr => Or.inl hr⟩
  | cons k ks ih =>
    obtain ⟨row, hrow, rfl⟩ := hks k List.mem_cons_self
    obtain ⟨v, hv, hnan, hat⟩ := hback row hrow
    obtain ⟨data', hread, hall, honly⟩ := ih (fun k hk => hks k (List.mem_cons_of_mem _ hk))
      (data.insert (place row) (readBack (E.schema c.name) row))
    refine ⟨data', ?_, fun r hr hin => ?_, fun u r hr => ?_⟩
    · have hput := asKey_ne_nan hnan data (readBack (E.schema c.name) row)
      rw [hat] at hput
      rw [readKeys, if_pos (by simpa using hrows.key_ne_pk row hrow),
        Act.bind_ok (readHash_of_hash getconn_none (h.hash row hrow))]
      rw [← rawBack, ← readBack, Act.lift_bind_ok hv, Act.lift_bind_ok hput]
      exact hread
    · by_cases hsame : place r = place row
      · obtain rfl := List.inj_on_of_nodup_map hplace hr hrow hsame
        exact hall r hr (Or.inr (AList.lookup_insert _))
      · refine hall r hr ?_
        rcases hin with hin | hin
        · rcases List.mem_cons.mp hin with heq | hin
          · have hkey : key r = key row := name_inj.mp heq
            obtain rfl := List.inj_on_of_nodup_map hrows.key_nodup hr hrow hkey
            exact absurd rfl hsame
          · exact Or.inl hin
        · exact Or.inr (by rw [AList.lookup_insert_ne hsame]; exact hin)
    · rcases honly u r hr with hold | hnew
      · by_cases hu : u = place row
        · subst hu
          rw [AList.lookup_insert] at hold
          exact Or.inr ⟨row, hrow, rfl, (Option.some.inj hold).symm⟩
        · rw [AList.lookup_insert_ne hu] at hold
          exact Or.inl hold
      · exact Or.inr hnew

/-- **`get_common` of a table that was loaded.** -/
theorem getCommon_filled (hc : E.configs .common c.name = some c)
    (hpk : indexTail.isPrefixOf (E.schema c.name).pk = false)
    (h : Filled E c key index rows (t.pool 1)) (hrows : Loadable E c ik key index rows)
    (hback : Back E c place rows) (hplace : (rows.map place).Nodup) :
    ∃ data, getCommon E c.name t = (.ok data, t) ∧
      (∀ row ∈ rows, data.lookup (place row) = some (readBack (E.schema c.name) row)) ∧
      ∀ v r, data.lookup v = some r →
        ∃ row ∈ rows, v = place row ∧ r = readBack (E.schema c.name) row := by
  have hpattern : c.name ++ indexWord ++ ['*'] = (c.name ++ ':' :: indexTail) ++ ['*'] := by
    rw [indexWord_append]
    simp
  have hbegins : ∀ b, (c.name ++ ':' :: indexTail).isPrefixOf (c.name ++ ':' :: b) =
      indexTail.isPrefixOf b := fun b => isPrefixOf_colon
  -- the scan for indexes finds those of the rows: no row's key, and not the counter
  have hindexes : ∀ x, x ∈ (t.pool 1).keys.filter (matchesPattern ((c.name ++ ':' :: indexTail) ++ ['*'])) ↔
      ∃ row ∈ rows, x = zsetName c index row := by
    intro x
    simp only [List.mem_filter, matchesPattern_star]
    constructor
    · rintro ⟨hmem, hx⟩
      rcases h.only x hmem with ⟨r, hr, rfl⟩ | hr | rfl
      · rw [hbegins, hrows.key_not_index r hr] at hx
        cases hx
      · exact hr
      · rw [hbegins, hpk] at hx
        cases hx
    · rintro ⟨r, hr, rfl⟩
      refine ⟨?_, ?_⟩
      · exact AList.lookup_isSome.mp (by rw [h.zset r hr]; rfl)
      · rw [hbegins]
        exact isPrefixOf_iff.mpr (List.prefix_append _ _)
  obtain ⟨ks, hks, honly, hall⟩ := memberKeys_filled h fun x hx => (hindexes x).mp hx
  have hmembers : ∀ row ∈ rows, hashName c key row ∈ ks := by
    intro row hrow
    obtain ⟨r, hr, heq, hmem⟩ := hall _ ((hindexes _).mpr ⟨row, hrow, rfl⟩)
    have hsame : index row = index r := List.append_cancel_left (name_inj.mp heq)
    obtain rfl := List.inj_on_of_nodup_map hrows.index_nodup hrow hr hsame
    exact hmem
  obtain ⟨data, hread, hin, hout⟩ := readKeys_filled h hrows hback hplace honly ∅
  have hfrom : ∀ v r, data.lookup v = some r →
      ∃ row ∈ rows, v = place row ∧ r = readBack (E.schema c.name) row := by
    intro v r hr
    rcases hout v r hr with hold | hnew
    · simp at hold
    · exact hnew
  rw [getCommon, Act.bind_ok (configOf_eq hc), readTable, Act.bind_ok (keys_eq _ getconn_none), hpattern,
    Reply.elems, Act.bind_ok hks]
  by_cases hnil : ks = []
  · -- a table without rows: of its keys there is the counter alone
    have hrows : rows = [] := by
      refine List.eq_nil_iff_forall_not_mem.mpr fun row hrow => ?_
      have := hmembers row hrow
      rw [hnil] at this
      cases this
    subst hrows
    have hskip : ∀ l : List Str, (∀ k ∈ l, k ∈ t.pool 1) → readKeys E c ∅ l t = (.ok ∅, t) := by
      intro l hl
      induction l with
      | nil => rfl
      | cons k l ih =>
        have hk : k = c.name ++ ':' :: (E.schema c.name).pk := by
          simpa using h.only k (hl k List.mem_cons_self)
        rw [readKeys, if_neg (by simpa using hk)]
        exact ih fun k hk => hl k (List.mem_cons_of_mem _ hk)
    refine ⟨∅, ?_, by simp, by simp⟩
    rw [if_pos hnil, Act.bind_ok (keys_eq _ getconn_none)]
    exact hskip _ fun k hk => (List.mem_filter.mp hk).1
  · rw [if_neg hnil]
    exact ⟨data, hread, fun row hrow => hin row hrow (Or.inl (hmembers row hrow)), hfrom⟩

end Store

end Athena
