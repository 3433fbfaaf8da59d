import Athena.Store.Codec
/-!
# The data services — reading through the cache

What the commands do to a connection, and what the readers answer from
it. A row that was just loaded is answered again as `readBack` of it by
every reader but one: `CMD.get_user_multi` for one row answers `rawBack`.
-/

namespace Athena

namespace Store

open Lua

variable {E : Env} {s t : State} {c : Config} {tb : Str} {row : Row} {uid : Option Value} {i : ℕ}

/-! ## Commands -/

/-- The state with another content of a connection. -/
def State.setDb (s : State) (i : ℕ) (db : Db) : State :=
  { s with pool := Function.update s.pool i db }

@[simp] theorem State.setDb_pool_self (s : State) (i : ℕ) (db : Db) : (s.setDb i db).pool i = db :=
  Function.update_self _ _ _

theorem State.setDb_pool_of_ne {i j : ℕ} (h : j ≠ i) (db : Db) : (s.setDb i db).pool j = s.pool j :=
  Function.update_of_ne h _ _

@[simp] theorem State.setDb_self (s : State) (i : ℕ) : s.setDb i (s.pool i) = s := by
  rw [State.setDb, Function.update_eq_self]

/-- **A command that runs**, on the connection of its uid. -/
theorem doRedis_of_handler {cmd : Command} {f : Db → Except Fault (Reply × Db)} {r : Reply} {db : Db}
    (hf : handler cmd = some f) (hi : E.getconn uid = some i) (h : f (s.pool i) = .ok (r, db)) :
    doRedis E cmd uid s = (.ok r, s.setDb i db) := by
  simp only [doRedis, hf, hi, h]
  rfl

theorem hgetall_of_hash {key : Str} {h : Table Str} (hi : E.getconn uid = some i)
    (hh : (s.pool i).lookup key = some (.hash h)) :
    doRedis E (.hgetall key) uid s = (.ok (.list (flatten h)), s) := by
  rw [doRedis_of_handler rfl hi (by simp only [hh]; rfl), State.setDb_self]

theorem hgetall_of_none {key : Str} (hi : E.getconn uid = some i)
    (hh : (s.pool i).lookup key = none) :
    doRedis E (.hgetall key) uid s = (.ok (.list []), s) := by
  rw [doRedis_of_handler rfl hi (by simp only [hh]; rfl), State.setDb_self]

theorem zrange_of_zset {key : Str} {ms : List Str} (hi : E.getconn uid = some i)
    (hh : (s.pool i).lookup key = some (.zset ms)) :
    doRedis E (.zrange key) uid s = (.ok (.list ms), s) := by
  rw [doRedis_of_handler rfl hi (by simp only [hh]; rfl), State.setDb_self]

theorem keys_eq (pattern : Str) (hi : E.getconn uid = some i) :
    doRedis E (.keys pattern) uid s =
      (.ok (.list ((s.pool i).keys.filter (matchesPattern pattern))), s) := by
  rw [doRedis_of_handler rfl hi rfl, State.setDb_self]

/-- `hmset` adds its fields to the hash there is. -/
theorem hmset_eq {key : Str} {h : Table Str} (hi : E.getconn uid = some i) (hne : row.entries ≠ [])
    (hh : (s.pool i).lookup key = some (.hash h) ∨ (s.pool i).lookup key = none ∧ h = ∅) :
    doRedis E (.hmset key row) uid s =
      (.ok .done, s.setDb i ((s.pool i).insert key (.hash (wireRow row ∪ h)))) := by
  refine doRedis_of_handler rfl hi ?_
  rcases hh with hh | ⟨hh, rfl⟩
  · simp only [if_neg hne, hh]
  · simp only [if_neg hne, hh, AList.union_empty]

/-- `zadd` to an index that is not there. -/
theorem zadd_of_none {key : Str} {member : Value} (hi : E.getconn uid = some i)
    (hh : (s.pool i).lookup key = none) :
    doRedis E (.zadd key member) uid s =
      (.ok (.int 1), s.setDb i ((s.pool i).insert key (.zset [member.wire]))) :=
  doRedis_of_handler rfl hi (by simp only [hh])

theorem getconn_none : E.getconn none = some 1 := rfl

/-- A whole number always has a connection. -/
theorem getconn_uid (uid : Int64) : ∃ i, E.getconn (some (uidValue uid)) = some i := by
  simp only [Env.getconn, uidValue]
  split_ifs
  · exact ⟨1, rfl⟩
  · exact ⟨_, rfl⟩

/-! ## Reading a hash -/

theorem readHash_of_hash {key : Str} {h : Table Str} (hi : E.getconn uid = some i)
    (hh : (s.pool i).lookup key = some (.hash h)) :
    readHash E key uid s = (.ok (makePairsTable ∅ (flatten h)), s) := by
  rw [readHash, Act.bind_ok (hgetall_of_hash hi hh)]
  rfl

theorem readHash_of_none {key : Str} (hi : E.getconn uid = some i)
    (hh : (s.pool i).lookup key = none) : readHash E key uid s = (.ok ∅, s) := by
  rw [readHash, Act.bind_ok (hgetall_of_none hi hh)]
  rfl

/-- **A single row out of redis.** -/
theorem getUserSingle_of_hash {uid : Int64} {h : Table Str}
    (hi : E.getconn (some (uidValue uid)) = some i)
    (hh : (s.pool i).lookup (tb ++ ':' :: tostring (.int uid)) = some (.hash h))
    (hne : (makePairsTable ∅ (flatten h)).entries ≠ []) :
    getUserSingle E tb uid s =
      (.ok (convertRecord (E.schema tb) (makePairsTable ∅ (flatten h))), s) := by
  rw [getUserSingle, Act.bind_ok (readHash_of_hash hi hh), if_neg hne]
  rfl

/-! ## What a command has done -/

/-- What a command that ran did, and where. -/
theorem doRedis_ok {cmd : Command} {r : Reply} (h : doRedis E cmd uid s = (.ok r, t)) :
    ∃ f i db, handler cmd = some f ∧ E.getconn uid = some i ∧ f (s.pool i) = .ok (r, db) ∧
      t = s.setDb i db := by
  unfold doRedis at h
  split at h
  · simp at h
  · rename_i f hf
    split at h
    · simp at h
    · rename_i i hi
      split at h
      · simp at h
      · rename_i r' db hrun
        obtain ⟨hr, rfl⟩ := Prod.mk.inj h
        obtain rfl := Except.ok.inj hr
        exact ⟨f, i, db, hf, hi, hrun, rfl⟩

/-- `hmset` where it ran. -/
theorem hmset_ok {key : Str} {r : Reply} (h : doRedis E (.hmset key row) uid s = (.ok r, t)) :
    ∃ i h, E.getconn uid = some i ∧ row.entries ≠ [] ∧
      ((s.pool i).lookup key = some (.hash h) ∨ (s.pool i).lookup key = none ∧ h = ∅) ∧
      t = s.setDb i ((s.pool i).insert key (.hash (wireRow row ∪ h))) := by
  obtain ⟨f, i, db, hf, hi, hrun, rfl⟩ := doRedis_ok h
  obtain rfl := Option.some.inj hf
  dsimp only at hrun
  split_ifs at hrun with hne
  split at hrun
  · rename_i hh
    obtain rfl := (Prod.mk.inj (Except.ok.inj hrun)).2
    exact ⟨i, ∅, hi, hne, Or.inr ⟨hh, rfl⟩, by rw [AList.union_empty]⟩
  · rename_i h' hh
    obtain rfl := (Prod.mk.inj (Except.ok.inj hrun)).2
    exact ⟨i, h', hi, hne, Or.inl hh, rfl⟩
  · simp at hrun

/-- `zadd` where it ran. -/
theorem zadd_ok {key : Str} {member : Value} {r : Reply}
    (h : doRedis E (.zadd key member) uid s = (.ok r, t)) :
    ∃ i db ms, E.getconn uid = some i ∧ t = s.setDb i db ∧ db.lookup key = some (.zset ms) ∧
      ((s.pool i).lookup key = none → ms = [member.wire]) ∧
      (∀ h, (s.pool i).lookup key ≠ some (.hash h)) ∧
      ∀ k, k ≠ key → db.lookup k = (s.pool i).lookup k := by
  obtain ⟨f, i, db, hf, hi, hrun, rfl⟩ := doRedis_ok h
  obtain rfl := Option.some.inj hf
  dsimp only at hrun
  split at hrun
  · rename_i hh
    obtain rfl := (Prod.mk.inj (Except.ok.inj hrun)).2
    exact ⟨i, _, _, hi, rfl, AList.lookup_insert _, fun _ => rfl, by simp [hh],
      fun k hk => AList.lookup_insert_ne hk⟩
  · rename_i ms hh
    split_ifs at hrun with hmem
    · obtain rfl := (Prod.mk.inj (Except.ok.inj hrun)).2
      exact ⟨i, _, ms, hi, rfl, hh, by simp [hh], by simp [hh], fun _ _ => rfl⟩
    · obtain rfl := (Prod.mk.inj (Except.ok.inj hrun)).2
      exact ⟨i, _, _, hi, rfl, AList.lookup_insert _, by simp [hh], by simp [hh],
        fun k hk => AList.lookup_insert_ne hk⟩
  · simp at hrun

/-! ## Loading a row -/

theorem hashKey_ok {x : Option Value} {key : Str} (h : hashKey tb x = .ok key) :
    ∃ v a, x = some v ∧ v.text = .ok a ∧ key = tb ++ ':' :: a := by
  cases x with
  | none => simp [hashKey, textOf, bind, Except.bind] at h
  | some v =>
    cases hv : v.text with
    | error e => simp [hashKey, textOf, hv, bind, Except.bind] at h
    | ok a =>
      simp only [hashKey, textOf, hv, bind, Except.bind, pure, Except.pure, Except.ok.injEq] at h
      exact ⟨v, a, rfl, hv, h.symm⟩

theorem indexName_ok {x : Option Value} {key : Str} (h : indexName tb x = .ok key) :
    ∃ v a, x = some v ∧ v.text = .ok a ∧ key = tb ++ indexWord ++ a := by
  cases x with
  | none => simp [indexName, textOf, bind, Except.bind] at h
  | some v =>
    cases hv : v.text with
    | error e => simp [indexName, textOf, hv, bind, Except.bind] at h
    | ok a =>
      simp only [indexName, textOf, hv, bind, Except.bind, pure, Except.pure, Except.ok.injEq] at h
      exact ⟨v, a, rfl, hv, h.symm⟩

/-- **What the load of a row leaves**: its hash under its key and, in a
table with an index, its key in the index of the row. Where neither was
there, the hash is the row and the index has this member alone; nothing
else changes. -/
structure Loaded (E : Env) (c : Config) (uid : Option Value) (row : Row) (v : Value) (a : Str)
    (i : ℕ) (s t : State) : Prop where
  conn : E.getconn uid = some i
  nonempty : row.entries ≠ []
  pool : ∀ j, j ≠ i → t.pool j = s.pool j
  mysql : t.mysql = s.mysql
  hash : (s.pool i).lookup (c.name ++ ':' :: a) = none →
    (t.pool i).lookup (c.name ++ ':' :: a) = some (.hash (wireRow row))
  index : ∀ ik, c.indexkey = some ik → ∃ w b, makeRediskey row ik = .ok (some w) ∧
    w.text = .ok b ∧ c.name ++ indexWord ++ b ≠ c.name ++ ':' :: a ∧
    ((s.pool i).lookup (c.name ++ indexWord ++ b) = none →
      (t.pool i).lookup (c.name ++ indexWord ++ b) = some (.zset [v.wire])) ∧
    ∀ k, k ≠ c.name ++ ':' :: a → k ≠ c.name ++ indexWord ++ b →
      (t.pool i).lookup k = (s.pool i).lookup k
  frame : c.indexkey = none → ∀ k, k ≠ c.name ++ ':' :: a →
    (t.pool i).lookup k = (s.pool i).lookup k

theorem loadRow_ok {uid : Option Int64} (h : loadRow E c uid row s = (.ok (), t)) :
    ∃ v a i, makeRediskey row c.key = .ok (some v) ∧ v.text = .ok a ∧
      Loaded E c (uid.map uidValue) row v a i s t := by
  obtain ⟨x, hx, h⟩ := Act.lift_bind_eq_ok.mp h
  obtain ⟨key, hkey, h⟩ := Act.lift_bind_eq_ok.mp h
  obtain ⟨v, a, rfl, ha, rfl⟩ := hashKey_ok hkey
  obtain ⟨r, s1, hset, h⟩ := Act.bind_eq_ok.mp h
  obtain ⟨i, h0, hi, hne, hh, rfl⟩ := hmset_ok hset
  have hfresh : (s.pool i).lookup (c.name ++ ':' :: a) = none → h0 = ∅ := by
    rintro hnone
    rcases hh with hh | ⟨-, hh⟩
    · rw [hnone] at hh
      cases hh
    · exact hh
  refine ⟨v, a, i, hx, ha, ?_⟩
  cases hik : c.indexkey with
  | some ik =>
    simp only [addIndex, hik] at h
    obtain ⟨y, hy, h⟩ := Act.lift_bind_eq_ok.mp h
    obtain ⟨index, hindex, h⟩ := Act.lift_bind_eq_ok.mp h
    obtain ⟨w, b, rfl, hb, rfl⟩ := indexName_ok hindex
    obtain ⟨r, s1, hadd, h⟩ := Act.bind_eq_ok.mp h
    obtain ⟨i', db, ms, hi', rfl, hzset, hms, hnohash, hkeep⟩ := zadd_ok hadd
    obtain rfl : i = i' := Option.some.inj (hi.symm.trans hi')
    obtain rfl := (Prod.mk.inj h).2
    simp only [State.setDb_pool_self] at hms hnohash hkeep
    have hdiff : c.name ++ indexWord ++ b ≠ c.name ++ ':' :: a := by
      intro heq
      exact hnohash _ (by rw [heq]; exact AList.lookup_insert _)
    refine ⟨hi, hne, fun j hj => ?_, rfl, fun hnone => ?_, fun ik' hik' => ?_, fun hno => ?_⟩
    · rw [State.setDb_pool_of_ne hj, State.setDb_pool_of_ne hj]
    · rw [State.setDb_pool_self, hkeep _ hdiff.symm, hfresh hnone, AList.union_empty]
      exact AList.lookup_insert _
    · obtain rfl : ik = ik' := Option.some.inj (hik.symm.trans hik')
      refine ⟨w, b, hy, hb, hdiff, fun hnone => ?_, fun k hk hk' => ?_⟩
      · rw [State.setDb_pool_self, hzset, hms (by rw [AList.lookup_insert_ne hdiff]; exact hnone)]
      · rw [State.setDb_pool_self, hkeep k hk', AList.lookup_insert_ne hk]
    · rw [hno] at hik
      cases hik
  | none =>
    simp only [addIndex, hik] at h
    obtain rfl := (Prod.mk.inj h).2
    refine ⟨hi, hne, fun j hj => State.setDb_pool_of_ne hj _, rfl, fun hnone => ?_,
      fun ik hno => ?_, fun _ k hk => ?_⟩
    · rw [State.setDb_pool_self, hfresh hnone, AList.union_empty]
      exact AList.lookup_insert _
    · rw [hik] at hno
      cases hno
    · rw [State.setDb_pool_self, AList.lookup_insert_ne hk]

/-! ## Answers after a load -/

theorem configOf_eq {typ : Typ} (hc : E.configs typ tb = some c) :
    configOf E typ tb s = (.ok c, s) := by
  rw [configOf, hc]
  rfl

/-- The rows MySQL selects for a user have it as their key. -/
theorem lookup_of_select {uid : Int64} (h : row ∈ select E c (some uid) s) :
    row.lookup c.key = some (uidValue uid) := by
  have h := (List.mem_insertionSort _).mp h
  simpa using (List.mem_filter.mp h).2

/-- One selected row is one page. -/
theorem loadDataImpl_one {uid : Option Int64} {rows : List Row} (hsel : select E c uid s = [row])
    (h : loadDataImpl E c uid s = (.ok rows, t)) :
    rows = [row] ∧ loadRow E c uid row s = (.ok (), t) := by
  obtain ⟨s0, s1, hget, h⟩ := Act.bind_eq_ok.mp h
  obtain ⟨-, rfl⟩ := Prod.mk.inj hget
  obtain ⟨s2, s3, hget, h⟩ := Act.bind_eq_ok.mp h
  obtain ⟨h2, rfl⟩ := Prod.mk.inj hget
  obtain rfl := Except.ok.inj h2
  simp only [hsel, List.drop_zero, List.take_succ_cons, List.take_nil, List.length_cons,
    List.length_nil, Nat.zero_add, List.nil_append] at h
  rw [if_neg (by omega), if_pos (by omega)] at h
  obtain ⟨⟨⟩, s1, hload, h⟩ := Act.bind_eq_ok.mp h
  obtain ⟨⟨⟩, s4, hrow, hnil⟩ := Act.bind_eq_ok.mp hload
  obtain rfl := (Prod.mk.inj hnil).2
  obtain ⟨hrows, rfl⟩ := Prod.mk.inj h
  exact ⟨(Except.ok.inj hrows).symm, hrow⟩

/-- **A single row, read twice**: out of MySQL, then out of redis. -/
theorem getUserSingle_twice {uid : Int64} {r : Row} (hc : E.configs .user tb = some c)
    (hkey : splitComma c.key = [c.key]) (hsel : select E c (some uid) s = [row])
    (hmiss : ∀ i, E.getconn (some (uidValue uid)) = some i →
      (s.pool i).lookup (tb ++ ':' :: tostring (.int uid)) = none)
    (h : getUserSingle E tb uid s = (.ok r, t)) :
    r = convertRecord (E.schema tb) row ∧
      getUserSingle E tb uid t = (.ok (readBack (E.schema tb) row), t) := by
  obtain rfl := E.name_eq hc
  have hid : row.lookup c.key = some (uidValue uid) :=
    lookup_of_select (E := E) (s := s) (by simp [hsel])
  obtain ⟨i, hi⟩ := getconn_uid (E := E) uid
  rw [getUserSingle, Act.bind_ok (readHash_of_none hi (hmiss i hi))] at h
  obtain ⟨r0, s1, hload, h⟩ := Act.bind_eq_ok.mp h
  obtain ⟨hr, rfl⟩ := Prod.mk.inj h
  obtain rfl := Except.ok.inj hr
  rw [if_pos AList.empty_entries, loadUserSingle, Act.bind_ok (configOf_eq hc)] at hload
  obtain ⟨data, s2, hdata, hload⟩ := Act.bind_eq_ok.mp hload
  obtain ⟨rfl, hrow⟩ := loadDataImpl_one hsel hdata
  obtain ⟨hr0, rfl⟩ := Prod.mk.inj hload
  obtain rfl := Except.ok.inj hr0
  obtain ⟨v, a, j, hv, ha, hL⟩ := loadRow_ok hrow
  obtain rfl : i = j := Option.some.inj (hi.symm.trans hL.conn)
  -- the key of the hash is the uid
  have hva : a = tostring (.int uid) := by
    simp only [makeRediskey, hkey, List.foldlM_nil, hid] at hv
    obtain rfl := Option.some.inj (Except.ok.inj hv)
    exact (Except.ok.inj ha).symm
  subst hva
  exact ⟨rfl, getUserSingle_of_hash hi (hL.hash (hmiss i hi)) (rawBack_ne_nil hid)⟩

/-- **One row of a user**, once its load has put it in the index: there is
no `convert_record` here. -/
theorem getUserMulti_one {uid : Int64} {v w : Value} {a ik : Str}
    (hL : Loaded E c (some (uidValue uid)) row v a i s t) (ha : v.text = .ok a)
    (hik : c.indexkey = some ik) (hw : makeRediskey row ik = .ok (some w))
    (hb : w.text = .ok (tostring (.int uid)))
    (hhash : (s.pool i).lookup (c.name ++ ':' :: a) = none)
    (hindex : (s.pool i).lookup (c.name ++ indexWord ++ tostring (.int uid)) = none) :
    getUserMulti E c.name uid (some v) t = (.ok (.one (some (rawBack row))), t) := by
  obtain ⟨w', b, hw', hb', -, hz, -⟩ := hL.index ik hik
  obtain rfl : w = w' := Option.some.inj (Except.ok.inj (hw.symm.trans hw'))
  obtain rfl := Except.ok.inj (hb.symm.trans hb')
  have hkey : hashKey c.name (some v) = .ok (c.name ++ ':' :: a) := by
    simp only [hashKey, textOf, ha, bind, Except.bind, pure, Except.pure]
  rw [getUserMulti, Act.bind_ok (zrange_of_zset hL.conn (hz hindex))]
  rw [Reply.elems, if_neg (List.cons_ne_nil _ _)]
  simp only
  rw [Act.lift_bind_ok hkey, Act.bind_ok (readHash_of_hash hL.conn (hL.hash hhash))]
  rfl

/-- **All rows of a user**, when the index has this one alone. -/
theorem getUserMulti_all {uid : Int64} {n : Number} {w : Value} {ik : Str}
    (hL : Loaded E c (some (uidValue uid)) row (.num n) (tostring n) i s t)
    (hik : c.indexkey = some ik) (hw : makeRediskey row ik = .ok (some w))
    (hb : w.text = .ok (tostring (.int uid)))
    (hhash : (s.pool i).lookup (c.name ++ ':' :: tostring n) = none)
    (hindex : (s.pool i).lookup (c.name ++ indexWord ++ tostring (.int uid)) = none) :
    getUserMulti E c.name uid none t =
      match Keyed.put ∅ ((Lua.tonumber (tostring n)).map Value.num)
          (readBack (E.schema c.name) row) with
      | .ok data => (.ok (.all data), t)
      | .error e => (.error e, t) := by
  obtain ⟨w', b, hw', hb', -, hz, -⟩ := hL.index ik hik
  obtain rfl : w = w' := Option.some.inj (Except.ok.inj (hw.symm.trans hw'))
  obtain rfl := Except.ok.inj (hb.symm.trans hb')
  have hmembers : readMembers E c.name uid ∅ [tostring n] t =
      (Keyed.put ∅ ((Lua.tonumber (tostring n)).map Value.num) (readBack (E.schema c.name) row), t) := by
    rw [readMembers, Act.bind_ok (readHash_of_hash hL.conn (hL.hash hhash))]
    cases hput : Keyed.put ∅ ((Lua.tonumber (tostring n)).map Value.num)
      (readBack (E.schema c.name) row) with
    | ok data => exact (Act.lift_bind_ok hput _).trans rfl
    | error e => exact Act.bind_error (by rw [← hput]; rfl) _
  rw [getUserMulti, Act.bind_ok (zrange_of_zset hL.conn (hz hindex))]
  simp only [Reply.elems, reduceCtorEq, Value.wire]
  cases hput : Keyed.put ∅ ((Lua.tonumber (tostring n)).map Value.num)
    (readBack (E.schema c.name) row) with
  | ok data => exact (Act.bind_ok (hmembers.trans (by rw [hput])) _).trans rfl
  | error e => exact Act.bind_error (hmembers.trans (by rw [hput])) _

/-! ## A whole table -/

/-- A connection without keys of a table. -/
def Vacant (db : Db) (tb : Str) : Prop := ∀ k ∈ db, ¬ (tb ++ [':']).isPrefixOf k = true

theorem isPrefixOf_iff {p q : Str} : p.isPrefixOf q = true ↔ p <+: q := List.isPrefixOf_iff_prefix

theorem matchesPattern_star (p key : Str) :
    matchesPattern (p ++ ['*']) key = p.isPrefixOf key := by
  simp [matchesPattern]

/-- The keys of a prefix, when there is one alone. -/
theorem filter_keys_eq {db : Db} {p x : Str} (hx : x ∈ db) (hp : p.isPrefixOf x = true)
    (honly : ∀ k ∈ db, p.isPrefixOf k = true → k = x) :
    db.keys.filter (matchesPattern (p ++ ['*'])) = [x] := by
  have hcongr : db.keys.filter (matchesPattern (p ++ ['*'])) = db.keys.filter (· = x) := by
    refine List.filter_congr fun k hk => ?_
    rw [matchesPattern_star]
    by_cases hkx : k = x
    · simp [hkx, hp]
    · have : ¬ p.isPrefixOf k = true := fun h => hkx (honly k hk h)
      simp [hkx, this]
  have hone : db.keys.count x = 1 := List.count_eq_one_of_mem db.keys_nodup hx
  rw [hcongr, List.filter_eq, hone]
  rfl

theorem zrange_ok {key : Str} {r : Reply} (h : doRedis E (.zrange key) none s = (.ok r, t)) :
    t = s ∧ ∀ hash, (s.pool 1).lookup key ≠ some (.hash hash) := by
  obtain ⟨f, i, db, hf, hi, hrun, rfl⟩ := doRedis_ok h
  obtain rfl : 1 = i := Option.some.inj (getconn_none.symm.trans hi)
  obtain rfl := Option.some.inj hf
  dsimp only at hrun
  split at hrun
  · rename_i hh
    obtain rfl := (Prod.mk.inj (Except.ok.inj hrun)).2
    exact ⟨State.setDb_self _ _, by simp [hh]⟩
  · rename_i ms hh
    obtain rfl := (Prod.mk.inj (Except.ok.inj hrun)).2
    exact ⟨State.setDb_self _ _, by simp [hh]⟩
  · simp at hrun

/-- A hash is no index. -/
theorem memberKeys_ok {l ks : List Str} (h : memberKeys E tb l s = (.ok ks, t)) :
    ∀ x ∈ l, ∀ hash, (s.pool 1).lookup x ≠ some (.hash hash) := by
  induction l generalizing s ks t with
  | nil => simp
  | cons y l ih =>
    obtain ⟨r, s1, hz, h⟩ := Act.bind_eq_ok.mp h
    obtain ⟨keys, s2, hrest, -⟩ := Act.bind_eq_ok.mp h
    obtain ⟨rfl, hno⟩ := zrange_ok hz
    intro x hx
    rcases List.mem_cons.mp hx with rfl | hx
    · exact hno
    · exact ih hrest x hx

theorem isPrefixOf_colon {p q : Str} :
    (tb ++ ':' :: p).isPrefixOf (tb ++ ':' :: q) = p.isPrefixOf q := by
  rw [Bool.eq_iff_iff, isPrefixOf_iff, isPrefixOf_iff, List.prefix_append_right_inj,
    List.cons_prefix_cons]
  simp

/-- The word between a table's name and what an index is for. -/
def indexTail : Str := "index:".toList

theorem indexWord_append (x : Str) : tb ++ indexWord ++ x = tb ++ ':' :: (indexTail ++ x) := by
  have hword : indexWord = ':' :: indexTail := by decide
  rw [hword, List.append_assoc, List.cons_append]

/-- The rows `get_common` makes of one key. -/
theorem readKeys_one {a : Str} (hh : (t.pool 1).lookup (c.name ++ ':' :: a) = some (.hash (wireRow row))) :
    readKeys E c ∅ [c.name ++ ':' :: a] t =
      if a = (E.schema c.name).pk then (.ok ∅, t)
      else (makeRediskey (readBack (E.schema c.name) row) c.key >>= fun key =>
        Keyed.put ∅ key (readBack (E.schema c.name) row), t) := by
  rw [readKeys]
  by_cases ha : a = (E.schema c.name).pk
  · rw [if_pos ha, if_neg (by simp [ha])]
    rfl
  · rw [if_neg ha, if_pos (by simpa using ha), Act.bind_ok (readHash_of_hash getconn_none hh)]
    rw [← rawBack, ← readBack]
    generalize makeRediskey (readBack (E.schema c.name) row) c.key = x
    cases x with
    | error e => rfl
    | ok key =>
      simp only [bind, Act.lift, Except.bind]
      cases Keyed.put ∅ key (readBack (E.schema c.name) row) <;> rfl

/-- **What `get_common` reads of a table with one row**: its key, unless
that looks like an index. -/
theorem getCommon_loaded {v : Value} {a : Str} (hc : E.configs .common c.name = some c)
    (hL : Loaded E c none row v a 1 s t) (ha : v.text = .ok a) (hs : Vacant (s.pool 1) c.name) :
    (indexTail.isPrefixOf a = true → ∀ data t', getCommon E c.name t ≠ (.ok data, t')) ∧
    (indexTail.isPrefixOf a = false →
      getCommon E c.name t = readKeys E c ∅ [c.name ++ ':' :: a] t) := by
  have hnone : ∀ x : Str, (s.pool 1).lookup (c.name ++ ':' :: x) = none := fun x => by
    refine AList.lookup_eq_none.mpr fun hmem => hs _ hmem ?_
    simp
  have hhash := hL.hash (hnone a)
  have hpattern : c.name ++ indexWord ++ ['*'] = (c.name ++ ':' :: indexTail) ++ ['*'] := by
    rw [indexWord_append]
    simp
  have hkeypattern : c.name ++ [':', '*'] = (c.name ++ [':']) ++ ['*'] := by simp
  have hmem : c.name ++ ':' :: a ∈ t.pool 1 := by
    rw [← AList.lookup_isSome, hhash]
    rfl
  have hbegin : ∀ k, (c.name ++ ':' :: indexTail).isPrefixOf k = true →
      (c.name ++ [':']).isPrefixOf k = true := by
    simp only [isPrefixOf_iff]
    rintro k ⟨u, rfl⟩
    exact ⟨indexTail ++ u, by simp⟩
  rw [getCommon, Act.bind_ok (configOf_eq hc), readTable, Act.bind_ok (keys_eq _ getconn_none), hpattern]
  constructor
  · -- the row's own key is taken for an index
    intro hidx data t' h
    obtain ⟨keys, s1, hkeys, -⟩ := Act.bind_eq_ok.mp h
    refine memberKeys_ok hkeys (c.name ++ ':' :: a) ?_ _ hhash
    refine List.mem_filter.mpr ⟨hmem, ?_⟩
    rw [matchesPattern_star, isPrefixOf_colon]
    exact hidx
  · intro hidx
    have hnot : ¬ (c.name ++ ':' :: indexTail).isPrefixOf (c.name ++ ':' :: a) = true := by
      rw [isPrefixOf_colon, hidx]
      simp
    cases hik : c.indexkey with
    | none =>
      -- no index: the second scan finds the row's key and no other
      have hframe := hL.frame hik
      have honly : ∀ k ∈ t.pool 1, (c.name ++ [':']).isPrefixOf k = true → k = c.name ++ ':' :: a := by
        intro k hk hp
        by_contra hne
        have : k ∈ s.pool 1 := by rwa [← AList.lookup_isSome, ← hframe k hne, AList.lookup_isSome]
        exact hs k this hp
      have hempty : (t.pool 1).keys.filter
          (matchesPattern ((c.name ++ ':' :: indexTail) ++ ['*'])) = [] := by
        refine List.filter_eq_nil_iff.mpr fun k hk => ?_
        rw [matchesPattern_star]
        intro hp
        exact hnot (honly k hk (hbegin k hp) ▸ hp)
      have hkeys := filter_keys_eq hmem (by simp) honly
      rw [Reply.elems, hempty]
      refine (Act.bind_ok (Act.pure_apply []) _).trans ?_
      rw [if_pos rfl, Act.bind_ok (keys_eq _ getconn_none), hkeypattern, hkeys]
      rfl
    | some ik =>
      -- the first scan finds the row's index, and there its key
      obtain ⟨w, b, -, -, hdiff, hz, hframe⟩ := hL.index ik hik
      rw [indexWord_append] at hdiff hz hframe
      have hzset := hz (hnone _)
      have hmem' : c.name ++ ':' :: (indexTail ++ b) ∈ t.pool 1 := by
        rw [← AList.lookup_isSome, hzset]
        rfl
      have honly : ∀ k ∈ t.pool 1, (c.name ++ ':' :: indexTail).isPrefixOf k = true →
          k = c.name ++ ':' :: (indexTail ++ b) := by
        intro k hk hp
        by_contra hne
        have hka : k ≠ c.name ++ ':' :: a := by
          rintro rfl
          exact hnot hp
        have : k ∈ s.pool 1 := by
          rwa [← AList.lookup_isSome, ← hframe k hka hne, AList.lookup_isSome]
        exact hs k this (hbegin k hp)
      have hkeys := filter_keys_eq hmem' (by rw [isPrefixOf_colon]; simp)
        honly
      have hwire : v.wire = a := by
        cases v with
        | bool b => cases ha
        | _ => exact Except.ok.inj ha
      have hmembers : memberKeys E c.name [c.name ++ ':' :: (indexTail ++ b)] t =
          (.ok [c.name ++ ':' :: a], t) := by
        rw [memberKeys, Act.bind_ok (zrange_of_zset getconn_none hzset), ← hwire]
        rfl
      rw [Reply.elems, hkeys, Act.bind_ok hmembers, if_neg (List.cons_ne_nil _ _)]

/-! ## Transparency -/

theorem asKey_ne_nan {v : Value} (h : v ≠ .num .nan) (data : Keyed) (row : Row) :
    data.put (some v) row = .ok (data.insert v.asKey row) := by
  unfold Keyed.put
  split
  · rename_i heq
    cases heq
  · rename_i heq
    exact absurd (Option.some.inj heq) h
  · rename_i heq
    rw [Option.some.inj heq]

/-- A key made of safe values is not a nan. -/
theorem rediskey_ne_nan {key : Str} {v : Value} (h : makeRediskey row key = .ok (some v))
    (hsafe : ∀ e ∈ row.entries, CacheSafe e.2) : v ≠ .num .nan := by
  rintro rfl
  obtain ⟨f, hf⟩ := lookup_of_makeRediskey h
  have := tonumber_ext (hsafe ⟨f, _⟩ (AList.mem_lookup_iff.mp hf))
  cases this

/-- What is found in a table of one row is that row. -/
theorem eq_of_lookup_put {key : Option Value} {r r' : Row} {data : Keyed} {k : Value}
    (hput : Keyed.put ∅ key r = .ok data) (h : data.lookup k = some r') : r' = r := by
  unfold Keyed.put at hput
  split at hput
  · simp at hput
  · simp at hput
  · rename_i v _
    obtain rfl := Except.ok.inj hput
    by_cases hk : k = v.asKey
    · subst hk
      rw [AList.lookup_insert] at h
      exact (Option.some.inj h).symm
    · rw [AList.lookup_insert_ne hk] at h
      cases h

/-- **The row of a common table is answered as it was loaded** where the
cache returns its values and its key looks like neither an index nor the
counter of the table. -/
theorem getCommon_same_iff {v : Value} {a : Str} (htyped : Typed (E.schema c.name) row)
    (hc : E.configs .common c.name = some c) (hv : makeRediskey row c.key = .ok (some v))
    (ha : v.text = .ok a) (hL : Loaded E c none row v a 1 s t) (hs : Vacant (s.pool 1) c.name) :
    (∃ data r, getCommon E c.name t = (.ok data, t) ∧ data.lookup v.asKey = some r ∧
        Table.Same r row) ↔
      (∀ e ∈ row.entries, CacheSafe e.2) ∧ a ≠ (E.schema c.name).pk ∧
        indexTail.isPrefixOf a = false := by
  obtain ⟨hindex, hread⟩ := getCommon_loaded hc hL ha hs
  have hfresh : (s.pool 1).lookup (c.name ++ ':' :: a) = none := by
    refine AList.lookup_eq_none.mpr fun hmem => hs _ hmem ?_
    simp
  have hone := readKeys_one (E := E) (hL.hash hfresh)
  have hback := readBack_same_iff htyped
  constructor
  · rintro ⟨data, r, hget, hlook, hsame⟩
    have hidx : indexTail.isPrefixOf a = false := by
      by_contra hno
      exact hindex (by simpa using hno) data t hget
    rw [hread hidx, hone] at hget
    split_ifs at hget with hpk
    · obtain rfl := Except.ok.inj (Prod.mk.inj hget).1
      cases hlook
    · have hput := (Prod.mk.inj hget).1
      cases hkey : makeRediskey (readBack (E.schema c.name) row) c.key with
      | error e =>
        rw [hkey] at hput
        cases hput
      | ok key =>
        rw [hkey] at hput
        obtain rfl := eq_of_lookup_put hput hlook
        exact ⟨hback.mp hsame, hpk, hidx⟩
  · rintro ⟨hsafe, hpk, hidx⟩
    have hsame := hback.mpr hsafe
    have hput := asKey_ne_nan (rediskey_ne_nan hv hsafe) ∅ (readBack (E.schema c.name) row)
    refine ⟨_, _, ?_, AList.lookup_insert (∅ : Keyed), hsame⟩
    rw [hread hidx, hone, if_neg hpk, makeRediskey_congr hsame, hv]
    exact Prod.ext hput rfl

/-- **When the cache is transparent.** A row of its table's types comes
back from redis as it was stored if and only if every value of it is
returned, and then it makes the key it is under. So answers a single row
read a second time, and so do the rows of a user and the row of a common
table just loaded; one row of a user, asked for by its id, asks for more,
since its numbers are converted by `isnumber` alone. -/
theorem cache_transparent_iff (htyped : Typed (E.schema c.name) row) :
    (Table.Same (readBack (E.schema c.name) row) row ↔ ∀ e ∈ row.entries, CacheSafe e.2) ∧
    ((∀ e ∈ row.entries, CacheSafe e.2) →
      makeRediskey (readBack (E.schema c.name) row) c.key = makeRediskey row c.key) ∧
    (∀ (uid : Int64) s t r, E.configs .user c.name = some c → splitComma c.key = [c.key] →
      select E c (some uid) s = [row] →
      (∀ i, E.getconn (some (uidValue uid)) = some i → Vacant (s.pool i) c.name) →
      getUserSingle E c.name uid s = (.ok r, t) →
      ∃ r', getUserSingle E c.name uid t = (.ok r', t) ∧
        (Table.Same r' r ↔ ∀ e ∈ row.entries, CacheSafe e.2)) ∧
    (∀ s t, E.configs .common c.name = some c → Vacant (s.pool 1) c.name →
      loadRow E c none row s = (.ok (), t) →
      ∃ v a, makeRediskey row c.key = .ok (some v) ∧ v.text = .ok a ∧
        ((∃ data r, getCommon E c.name t = (.ok data, t) ∧ data.lookup v.asKey = some r ∧
            Table.Same r row) ↔
          (∀ e ∈ row.entries, CacheSafe e.2) ∧ a ≠ (E.schema c.name).pk ∧
            indexTail.isPrefixOf a = false)) ∧
    ∀ (uid : Int64) s t ik w, c.indexkey = some ik → makeRediskey row ik = .ok (some w) →
      w.text = .ok (tostring (.int uid)) →
      (∀ i, E.getconn (some (uidValue uid)) = some i → Vacant (s.pool i) c.name) →
      loadRow E c (some uid) row s = (.ok (), t) →
      ∃ v, makeRediskey row c.key = .ok (some v) ∧
        (∃ r, getUserMulti E c.name uid (some v) t = (.ok (.one (some r)), t) ∧
          (Table.Same r row ↔ ∀ e ∈ row.entries, RawSafe e.2)) ∧
        ∀ n, v = .num n → ((∃ data r, getUserMulti E c.name uid none t = (.ok (.all data), t) ∧
          data.lookup v.asKey = some r ∧ Table.Same r row) ↔ ∀ e ∈ row.entries, CacheSafe e.2) := by
  have hback := readBack_same_iff htyped
  have hvacant : ∀ {db : Db} {x : Str}, Vacant db c.name → db.lookup (c.name ++ ':' :: x) = none := by
    intro db x hdb
    refine AList.lookup_eq_none.mpr fun hmem => hdb _ hmem ?_
    simp
  refine ⟨hback, fun hsafe => makeRediskey_congr (hback.mpr hsafe) c.key, ?_, ?_, ?_⟩
  · intro uid s t r hc hkey hsel hs h
    obtain ⟨rfl, h2⟩ := getUserSingle_twice hc hkey hsel (fun i hi => hvacant (hs i hi)) h
    have hsame := convertRecord_same htyped
    refine ⟨_, h2, ?_⟩
    rw [← hback]
    exact ⟨fun hs k => (hs k).trans (hsame k), fun hs k => (hs k).trans (hsame k).symm⟩
  · intro s t hc hs hload
    obtain ⟨v, a, i, hv, ha, hL⟩ := loadRow_ok hload
    obtain rfl : 1 = i := Option.some.inj hL.conn
    exact ⟨v, a, hv, ha, getCommon_same_iff htyped hc hv ha hL hs⟩
  · intro uid s t ik w hik hw hb hs hload
    obtain ⟨v, a, i, hv, ha, hL⟩ := loadRow_ok hload
    have hdb := hs i hL.conn
    have hindex : (s.pool i).lookup (c.name ++ indexWord ++ tostring (.int uid)) = none := by
      rw [indexWord_append]
      exact hvacant hdb
    refine ⟨v, hv, ⟨_, getUserMulti_one hL ha hik hw hb (hvacant hdb) hindex, rawBack_same_iff htyped⟩,
      fun n hn => ?_⟩
    subst hn
    obtain rfl : tostring n = a := Except.ok.inj ha
    have hall := getUserMulti_all hL hik hw hb (hvacant hdb) hindex
    constructor
    · rintro ⟨data, r, hget, hlook, hsame⟩
      rw [hall] at hget
      -- what is found under the key is the row that was put there
      split at hget
      · rename_i data' hput
        obtain rfl : data' = data := by simpa using (Prod.mk.inj hget).1
        obtain rfl := eq_of_lookup_put hput hlook
        exact hback.mp hsame
      · simp at hget
    · intro hsafe
      obtain ⟨f, hf⟩ := lookup_of_makeRediskey hv
      have hn : Lua.tonumber (tostring n) = some n := hsafe ⟨f, _⟩ (AList.mem_lookup_iff.mp hf)
      have hput := asKey_ne_nan (rediskey_ne_nan hv hsafe) ∅ (readBack (E.schema c.name) row)
      refine ⟨_, _, ?_, AList.lookup_insert (∅ : Keyed), hback.mpr hsafe⟩
      rw [hall, hn]
      simp only [Option.map_some, hput]

/-- The login server: `d_account` is found by both parts of its key. -/
def loginEnv : Env where
  maxconn := 1
  schema _ := ⟨"id".toList, fun f =>
    if f = "id".toList then some .number
    else if f = "sdkid".toList ∨ f = "pid".toList then some .string else none⟩
  configs typ tb := if typ = .common then some ⟨tb, "sdkid,pid".toList, some "id".toList⟩ else none
  maxconn_pos := Nat.zero_lt_one
  name_eq := by
    intro typ tb c h
    split_ifs at h
    rw [← Option.some.inj h]

/-- A row of `d_account`. -/
def accountRow (sdkid pid : Str) (id : Int64) : Row :=
  (((∅ : Row).insert "sdkid".toList (.str sdkid)).insert "pid".toList (.str pid)).insert "id".toList
    (.num (.int id))

/-- An account whose names have letters comes back. -/
theorem cache_transparent_iff_names :
    Table.Same (readBack (loginEnv.schema "d_account".toList)
      (accountRow "ann".toList "qq".toList 7)) (accountRow "ann".toList "qq".toList 7) :=
  (cache_transparent_iff (E := loginEnv)
    (c := ⟨"d_account".toList, "sdkid,pid".toList, some "id".toList⟩)
    (show Typed _ (accountRow "ann".toList "qq".toList 7) by decide)).1.mpr (by decide)

/-- A name in digits comes back as a number and makes another key; a name
that is a date is lost. -/
theorem account_name_lost :
    (readBack (loginEnv.schema "d_account".toList) (accountRow "007".toList "qq".toList 7)).lookup
        "sdkid".toList = some (.num (.int 7)) ∧
      makeRediskey (readBack (loginEnv.schema "d_account".toList)
        (accountRow "007".toList "qq".toList 7)) "sdkid,pid".toList = .ok (some (.str "7:qq".toList)) ∧
      makeRediskey (accountRow "007".toList "qq".toList 7) "sdkid,pid".toList =
        .ok (some (.str "007:qq".toList)) ∧
      (readBack (loginEnv.schema "d_account".toList)
        (accountRow "2020-01-01".toList "qq".toList 7)).lookup "sdkid".toList = none := by
  decide

end Store

end Athena
