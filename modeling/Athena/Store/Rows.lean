import Athena.Store.Cache
import Athena.Store.Encoding
/-!
# The data services — one row through all levels

A row of the table's types whose values survive is in MySQL as it was
sent: `CMD.add` appends it (`execute_insert`), and `CMD.update` puts its
fields over those of the row that has its primary key
(`execute_update`). A user's row that redis has not is loaded from MySQL
and is in redis then (`getUserSingle_of_row`); one that redis has whole
is read from there as it was (`Whole.decode`).
-/

namespace Athena

namespace Store

open Lua
open Sql (IsWord)

variable {E : Env} {sch : Schema} {tb pk : Str} {row : Row} {rows : List Row} {v : Value}
  {tables : Str → List Row}

/-! ## The literals of a row -/

/-- What a column keeps of a literal is the value it was written for. -/
theorem columnValue_literalOf {kind : Kind} (hkind : kindOf v = some kind) (h : Survives v) :
    columnValue kind (literalOf v) = some v := by
  cases v with
  | num n =>
    cases hkind
    have hn : Lua.tonumber (tostring n) = some n := h
    simp [columnValue, literalOf, Literal.contents, Value.wire, hn]
  | str s =>
    cases hkind
    rfl
  | bool b => cases hkind

/-- **The columns and literals of a row** are the row again. -/
theorem columnValues_entries (htyped : Typed sch row) (h : ∀ e ∈ row.entries, Survives e.2) :
    columnValues sch (row.entries.map fun e => (e.1, literalOf e.2)) = some row := by
  obtain ⟨l, hl⟩ := row
  induction l with
  | nil => rfl
  | cons e l ih =>
    obtain ⟨c, v⟩ := e
    obtain ⟨hnot, hl'⟩ := List.nodupKeys_cons.mp hl
    have hrest := ih hl' (fun e he => htyped e (List.mem_cons_of_mem _ he))
      fun e he => h e (List.mem_cons_of_mem _ he)
    obtain ⟨hkind, hsome⟩ := htyped ⟨c, v⟩ List.mem_cons_self
    obtain ⟨kind, hv⟩ := Option.isSome_iff_exists.mp hsome
    have hvalue := columnValue_literalOf hv (h ⟨c, v⟩ List.mem_cons_self)
    have hout : c ∉ (⟨l, hl'⟩ : Row) := hnot
    simp only [List.map_cons, columnValues, bind, Option.bind, hkind.symm.trans hv, hvalue] at hrest ⊢
    simp only [hrest, if_neg hout, Option.some.injEq]
    exact AList.insert_of_notMem hout

/-! ## The statements of a row -/

/-- **The row is appended**, where its primary key is a new one. -/
theorem execute_insert {sql : Str} (hread : Sql.read sql = some (insertOf tb row))
    (htyped : Typed (E.schema tb) row) (h : ∀ e ∈ row.entries, Survives e.2)
    (hkeyed : keyed (E.schema tb) (tables tb ++ [row]) = true) :
    execute E tables sql = Function.update tables tb (tables tb ++ [row]) := by
  have hzip : (row.entries.map fun e => e.1).zip (row.entries.map fun e => literalOf e.2) =
      row.entries.map fun e => (e.1, literalOf e.2) := List.zip_map' ..
  have hrun : runStatement (E.schema tb) (tables tb) (insertOf tb row) = some (tables tb ++ [row]) := by
    simp only [runStatement, insertOf, List.length_map, if_true, hzip, columnValues_entries htyped h,
      Option.map_some]
  have htable : tableOf (insertOf tb row) = tb := rfl
  simp only [execute, hread, htable, hrun, hkeyed, if_true]

/-- The rows of a table after an update. -/
def updated (pk : Str) (row : Row) (v : Value) (rows : List Row) : List Row :=
  rows.map fun r => if r.lookup pk = some v then row ∪ r else r

/-- **The fields are put over those of the row** with the primary key. -/
theorem execute_update {sql : Str} {kind : Kind} (hread : Sql.read sql = some (updateOf tb pk row v))
    (htyped : Typed (E.schema tb) row) (h : ∀ e ∈ row.entries, Survives e.2)
    (hpk : (E.schema tb).fields pk = some kind) (hv : row.lookup pk = some v)
    (hkeyed : keyed (E.schema tb) (updated pk row v (tables tb)) = true) :
    execute E tables sql = Function.update tables tb (updated pk row v (tables tb)) := by
  have hkind : kindOf v = some kind := (htyped.of_lookup hv).1.trans hpk
  have hvalue := columnValue_literalOf hkind (h ⟨pk, v⟩ (AList.mem_lookup_iff.mp hv))
  have hrun : runStatement (E.schema tb) (tables tb) (updateOf tb pk row v) =
      some (updated pk row v (tables tb)) := by
    simp only [runStatement, updateOf, columnValues_entries htyped h, hpk, hvalue, bind, Option.bind,
      updated]
  have htable : tableOf (updateOf tb pk row v) = tb := rfl
  simp only [execute, hread, htable, hrun, hkeyed, if_true]

/-! ## Primary keys -/

theorem keyed_iff : keyed sch rows = true ↔
    (rows.map (AList.lookup sch.pk)).Nodup ∧ ∀ r ∈ rows, r.lookup sch.pk ≠ none := by
  simp [keyed]

/-- An update writes no other primary key. -/
theorem lookup_pk_updated (hv : row.lookup pk = some v) :
    (updated pk row v rows).map (AList.lookup pk) = rows.map (AList.lookup pk) := by
  rw [updated, List.map_map]
  refine List.map_congr_left fun r _ => ?_
  show AList.lookup pk (if r.lookup pk = some v then row ∪ r else r) = r.lookup pk
  split_ifs with hr
  · rw [AList.lookup_union_left (AList.lookup_isSome.mp (by rw [hv]; rfl)), hv, hr]
  · rfl

/-! ## Commands that fail -/

/-- A command that raises has done nothing. -/
theorem doRedis_error {cmd : Command} {uid : Option Value} {s t : State} {e : Fault}
    (h : doRedis E cmd uid s = (.error e, t)) : t = s := by
  unfold doRedis at h
  split at h
  · exact (Prod.mk.inj h).2.symm
  · split at h
    · exact (Prod.mk.inj h).2.symm
    · split at h
      · exact (Prod.mk.inj h).2.symm
      · simp at h

/-! ## Reading a row -/

variable {c : Config} {uid : Option Int64} {n : Int64} {s : State} {i : ℕ} {h : Table Str}

/-- **A hash with all fields of a row** and no other. -/
def Whole (h : Table Str) (f : Str → Option Value) : Prop := ∀ k, h.lookup k = (f k).map Value.wire

theorem whole_wireRow : Whole (wireRow row) fun k => row.lookup k := fun _ => lookup_wireRow

/-- A whole hash reads as its row. -/
theorem Whole.decode (hw : Whole h fun k => row.lookup k) (htyped : Typed sch row)
    (hsafe : ∀ e ∈ row.entries, CacheSafe e.2) :
    Table.Same (convertRecord sch (makePairsTable ∅ (flatten h))) row := by
  intro k
  have hk : h.lookup k = (row.lookup k).map Value.wire := hw k
  rw [← (readBack_same_iff htyped).mpr hsafe k, readBack, lookup_convertRecord, lookup_convertRecord,
    lookup_makePairsTable, hk, lookup_rawBack]
  cases row.lookup k <;> rfl

/-- A hash with a whole number is read as a row that is not empty. -/
theorem decode_ne_nil {k : Str} (hk : h.lookup k = some (tostring (.int n))) :
    (makePairsTable ∅ (flatten h)).entries ≠ [] := by
  intro hnil
  have hnone : (makePairsTable ∅ (flatten h)).lookup k = none := by simp [AList.lookup, hnil]
  have htext := tonumber_isnumber (tostring (.int n))
  rw [lookup_makePairsTable, hk, Option.bind_some] at hnone
  rw [hnone, tonumber_tostring_int] at htext
  cases htext

/-- A row that redis has is read from there. -/
theorem getUserSingle_of_cached {k : Str} (hi : E.getconn (some (uidValue n)) = some i)
    (hh : (s.pool i).lookup (tb ++ ':' :: tostring (.int n)) = some (.hash h))
    (hk : h.lookup k = some (tostring (.int n))) :
    getUserSingle E tb n s = (.ok (convertRecord (E.schema tb) (makePairsTable ∅ (flatten h))), s) :=
  getUserSingle_of_hash hi hh (decode_ne_nil hk)

theorem loadRow_eq {x : Value} {a : Str} (hkey : makeRediskey row c.key = .ok (some x))
    (ha : x.text = .ok a) (hik : c.indexkey = none) (hi : E.getconn (uid.map uidValue) = some i)
    (hne : row.entries ≠ []) (hh : (s.pool i).lookup (c.name ++ ':' :: a) = none) :
    loadRow E c uid row s =
      (.ok (), s.setDb i ((s.pool i).insert (c.name ++ ':' :: a) (.hash (wireRow row)))) := by
  have hname : hashKey c.name (some x) = .ok (c.name ++ ':' :: a) := by
    simp only [hashKey, textOf, ha, bind, Except.bind, pure, Except.pure]
  rw [loadRow, Act.lift_bind_ok hkey, Act.lift_bind_ok hname,
    Act.bind_ok (hmset_eq hi hne (Or.inr ⟨hh, rfl⟩)), AList.union_empty]
  simp only [addIndex, hik]
  rfl

theorem loadDataImpl_of_nil (hsel : select E c uid s = []) : loadDataImpl E c uid s = (.ok [], s) := by
  rw [loadDataImpl, Act.get_bind_apply, loadPages, Act.get_bind_apply, hsel]
  rfl

theorem loadDataImpl_of_one {t : State} (hsel : select E c uid s = [row])
    (hload : loadRow E c uid row s = (.ok (), t)) : loadDataImpl E c uid s = (.ok [row], t) := by
  have hrows : loadRows E c uid [row] s = (.ok (), t) := by
    rw [loadRows, Act.bind_ok hload]
    rfl
  rw [loadDataImpl, Act.get_bind_apply, loadPages, Act.get_bind_apply, hsel]
  simp only [List.drop_zero, List.take_succ_cons, List.take_nil, List.length_cons, List.length_nil,
    Nat.zero_add, List.nil_append]
  rw [if_neg (by omega), Act.bind_ok hrows, if_pos (by omega)]
  rfl

/-- **A user without a row** anywhere. -/
theorem getUserSingle_of_absent (hc : E.configs .user tb = some c)
    (hi : E.getconn (some (uidValue n)) = some i)
    (hh : (s.pool i).lookup (tb ++ ':' :: tostring (.int n)) = none) (hsel : select E c (some n) s = []) :
    getUserSingle E tb n s = (.ok (convertRecord (E.schema tb) ∅), s) := by
  have hload : loadUserSingle E tb n s = (.ok ∅, s) := by
    rw [loadUserSingle, Act.bind_ok (configOf_eq hc), Act.bind_ok (loadDataImpl_of_nil hsel)]
    rfl
  rw [getUserSingle, Act.bind_ok (readHash_of_none hi hh), if_pos AList.empty_entries, Act.bind_ok hload]
  rfl

/-- **A row that redis has not** is read from MySQL, and redis has it then. -/
theorem getUserSingle_of_row (hc : E.configs .user tb = some c) (hik : c.indexkey = none)
    (hkey : splitComma c.key = [c.key]) (hi : E.getconn (some (uidValue n)) = some i)
    (hh : (s.pool i).lookup (tb ++ ':' :: tostring (.int n)) = none)
    (hsel : select E c (some n) s = [row]) :
    getUserSingle E tb n s = (.ok (convertRecord (E.schema tb) row),
      s.setDb i ((s.pool i).insert (tb ++ ':' :: tostring (.int n)) (.hash (wireRow row)))) := by
  obtain rfl := E.name_eq hc
  have hid : row.lookup c.key = some (uidValue n) :=
    lookup_of_select (E := E) (s := s) (by rw [hsel]; exact List.mem_singleton_self _)
  have hrediskey : makeRediskey row c.key = .ok (some (uidValue n)) := by
    simp only [makeRediskey, hkey, List.foldlM_nil, hid]
    rfl
  have hne : row.entries ≠ [] := List.ne_nil_of_mem (AList.mem_lookup_iff.mp hid)
  have hrow : loadRow E c (some n) row s = (.ok (),
      s.setDb i ((s.pool i).insert (c.name ++ ':' :: tostring (.int n)) (.hash (wireRow row)))) :=
    loadRow_eq hrediskey rfl hik hi hne hh
  have hload : loadUserSingle E c.name n s = (.ok row,
      s.setDb i ((s.pool i).insert (c.name ++ ':' :: tostring (.int n)) (.hash (wireRow row)))) := by
    rw [loadUserSingle, Act.bind_ok (configOf_eq hc), Act.bind_ok (loadDataImpl_of_one hsel hrow)]
    rfl
  rw [getUserSingle, Act.bind_ok (readHash_of_none hi hh), if_pos AList.empty_entries, Act.bind_ok hload]
  rfl

end Store

end Athena
