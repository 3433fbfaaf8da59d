import Athena.Entity.Single
/-!
# A row for a user — three levels

Memory, redis and MySQL together stand for what was written last
(`Inv`): memory and MySQL have it all, and redis nothing that is not so.
Redis has it whole or not at all where memory has not, and that alone is
not kept by every operation: a row that was added is in redis under the
connection of no uid, so an update puts its own fields alone where the
next reading looks. A run whose operations are sound keeps it, and every
`get` in it answers what was written (`get_written`).
-/

namespace Athena

namespace Entity

namespace Single

open Lua
open Store (Env Keyed Whole uidValue updated)

variable {T : UserTable} {s : State} {e : Event} {n m : Int64} {r row : Row} {rows : List Row}
  {w : Written} {f : Str → Option Value} {st st' : Store.State} {recordset : Keyed} {i : ℕ}

/-! ## Names -/

theorem splitComma_idField : splitComma idField = [idField] := by decide

theorem uidValue_injective : Function.Injective uidValue := by
  intro n m h
  simpa [uidValue] using h

theorem hashName_inj : hashName T n = hashName T m ↔ n = m := by
  constructor
  · intro h
    have htext : tostring (.int n) = tostring (.int m) := by simpa [hashName] using h
    exact tostring_int_injective htext
  · rintro rfl
    rfl

/-- The counter of the table is no row. -/
theorem hashName_ne_counter : hashName T n ≠ T.tb ++ ':' :: idField := by
  intro h
  have htext : tostring (.int n) = idField := by simpa [hashName] using h
  have hnumeral := isNumeral_tostring (.int n) 'd' (by rw [htext]; decide)
  exact absurd hnumeral (by decide)

theorem rowId_eq (h : row.lookup idField = some (uidValue n)) : rowId row = some n := by
  rw [rowId, h]
  rfl

theorem makeRediskey_id {v : Value} (h : row.lookup idField = some v) :
    Store.makeRediskey row idField = .ok (some v) := by
  simp only [Store.makeRediskey, splitComma_idField, List.foldlM_nil, h]
  rfl

/-! ## What redis has -/

theorem cached_eq (hi : T.env.getconn (some (uidValue n)) = some i) :
    cached T st n = (st.pool i).lookup (hashName T n) := by
  rw [cached, hi, Option.bind_some]

/-- A key that is no other user's. -/
theorem cached_insert_of_ne {key : Str} {x : Store.Entry} (h : hashName T m ≠ key) :
    cached T (st.setDb i ((st.pool i).insert key x)) m = cached T st m := by
  obtain ⟨j, hj⟩ := Store.getconn_uid (E := T.env) m
  rw [cached_eq hj, cached_eq hj]
  by_cases hij : j = i
  · subst hij
    rw [Store.State.setDb_pool_self, AList.lookup_insert_ne h]
  · rw [Store.State.setDb_pool_of_ne hij]

/-- The key of the user, on its own connection and on another. -/
theorem cached_insert {x : Store.Entry} :
    cached T (st.setDb i ((st.pool i).insert (hashName T n) x)) n =
      if T.env.getconn (some (uidValue n)) = some i then some x else cached T st n := by
  obtain ⟨j, hj⟩ := Store.getconn_uid (E := T.env) n
  rw [cached_eq hj, cached_eq hj, hj]
  by_cases hij : j = i
  · subst hij
    rw [if_pos rfl, Store.State.setDb_pool_self, AList.lookup_insert]
  · rw [if_neg fun h => hij (Option.some.inj h), Store.State.setDb_pool_of_ne hij]

/-! ## Rows -/

theorem fieldsOf_union (a b : Row) : fieldsOf (a ∪ b) = override a (fieldsOf b) := by
  funext k
  simp only [fieldsOf, override]
  by_cases hk : k ∈ a
  · obtain ⟨v, hv⟩ := Option.isSome_iff_exists.mp (AList.lookup_isSome.mpr hk)
    rw [AList.lookup_union_left hk, hv]
    rfl
  · rw [AList.lookup_union_right hk, AList.lookup_eq_none.mpr hk]
    rfl

theorem entries_eq_nil_iff : row.entries = [] ↔ fieldsOf row = fun _ => none := by
  constructor
  · intro h
    funext k
    simp [fieldsOf, AList.lookup, h]
  · intro h
    refine List.eq_nil_iff_forall_not_mem.mpr fun x hx => ?_
    have := congrFun h x.1
    rw [fieldsOf, AList.mem_lookup_iff.mpr hx] at this
    cases this

theorem fit_iff : Fit T row ↔ ∀ k v, row.lookup k = some v →
    (Store.kindOf v = (T.env.schema T.tb).fields k ∧ (Store.kindOf v).isSome) ∧
      Store.CacheSafe v ∧ Store.Survives v := by
  constructor
  · rintro ⟨htyped, hsafe⟩ k v hv
    exact ⟨htyped.of_lookup hv, hsafe ⟨k, v⟩ (AList.mem_lookup_iff.mp hv)⟩
  · intro h
    exact ⟨fun x hx => (h x.1 x.2 (AList.mem_lookup_iff.mpr hx)).1,
      fun x hx => (h x.1 x.2 (AList.mem_lookup_iff.mpr hx)).2⟩

theorem Fit.union {a b : Row} (ha : Fit T a) (hb : Fit T b) : Fit T (a ∪ b) := by
  refine fit_iff.mpr fun k v hv => ?_
  have hfields : ((a.lookup k).or (b.lookup k)) = some v := by
    rw [← hv]
    exact (congrFun (fieldsOf_union a b) k).symm
  rcases Option.or_eq_some_iff.mp hfields with hk | ⟨-, hk⟩
  · exact fit_iff.mp ha k v hk
  · exact fit_iff.mp hb k v hk

theorem Fit.words (h : Fit T row) : ∀ x ∈ row.entries, Sql.IsWord x.1 := by
  intro x hx
  obtain ⟨hkind, hsome⟩ := h.1 x hx
  obtain ⟨kind, hk⟩ := Option.isSome_iff_exists.mp hsome
  exact T.words x.1 kind (hkind.symm.trans hk)

/-! ## What MySQL has -/

theorem Kept.find (h : Kept T rows w) (hn : (w n).isSome) :
    ∃ r ∈ rows, r.lookup idField = some (uidValue n) ∧ w n = some (fieldsOf r) ∧ Fit T r := by
  obtain ⟨r, hr, hid⟩ := h.written n hn
  obtain ⟨hfit, m, hm, hw⟩ := h.row r hr
  obtain rfl : n = m := uidValue_injective (Option.some.inj (hid.symm.trans hm))
  exact ⟨r, hr, hid, hw, hfit⟩

/-- A user that has a row has one. -/
theorem filter_of_nodup (hnodup : (rows.map (AList.lookup idField)).Nodup) (hr : r ∈ rows)
    (hid : r.lookup idField = some (uidValue n)) :
    (rows.filter fun r => r.lookup idField = some (uidValue n)) = [r] := by
  induction rows with
  | nil => cases hr
  | cons a rows ih =>
    obtain ⟨hnot, hnodup'⟩ := List.nodup_cons.mp hnodup
    rcases List.mem_cons.mp hr with rfl | hr
    · rw [List.filter_cons_of_pos (by simpa using hid), List.filter_eq_nil_iff.mpr]
      intro b hb hbid
      have hbid : b.lookup idField = some (uidValue n) := by simpa using hbid
      exact hnot (List.mem_map.mpr ⟨b, hb, hbid.trans hid.symm⟩)
    · have hne : a.lookup idField ≠ some (uidValue n) := fun ha =>
        hnot (List.mem_map.mpr ⟨r, hr, hid.trans ha.symm⟩)
      rw [List.filter_cons_of_neg (by simpa using hne), ih hnodup' hr]

/-- The rows MySQL selects for a user. -/
theorem Kept.select (h : Kept T (st.mysql T.tb) w) :
    (w n = none → Store.select T.env ⟨T.tb, idField, none⟩ (some n) st = []) ∧
    ∀ f, w n = some f → ∃ r, Store.select T.env ⟨T.tb, idField, none⟩ (some n) st = [r] ∧
      r.lookup idField = some (uidValue n) ∧ f = fieldsOf r ∧ Fit T r := by
  constructor
  · intro hn
    have hnil : ((st.mysql T.tb).filter fun row => row.lookup idField = some (uidValue n)) = [] := by
      refine List.filter_eq_nil_iff.mpr fun r hr hid => ?_
      obtain ⟨-, m, hm, hw⟩ := h.row r hr
      have hid : r.lookup idField = some (uidValue n) := by simpa using hid
      obtain rfl : n = m := uidValue_injective (Option.some.inj (hid.symm.trans hm))
      rw [hn] at hw
      cases hw
    simp only [Store.select, hnil, List.insertionSort_nil]
  · intro f hf
    obtain ⟨r, hr, hid, hw, hfit⟩ := h.find (n := n) (by rw [hf]; rfl)
    refine ⟨r, ?_, hid, Option.some.inj (hf.symm.trans hw), hfit⟩
    simp only [Store.select, filter_of_nodup h.nodup hr hid]
    rfl

/-! ## Reading a row -/

/-- Redis has what was written whole, or not at all. -/
def Hit (T : UserTable) (st : Store.State) (w : Written) (n : Int64) : Prop :=
  cached T st n = none ∨ ∃ h f, cached T st n = some (.hash h) ∧ w n = some f ∧ Whole h f

/-- **A row that was read**: it is what was written, and redis has it then. -/
structure Read (T : UserTable) (w : Written) (st st' : Store.State) (n : Int64) (r : Row) : Prop where
  fields : fieldsOf r = (w n).getD fun _ => none
  absent : r.entries = [] ↔ w n = none
  mysql : st'.mysql = st.mysql
  hit : Hit T st' w n
  other : ∀ m, m ≠ n → cached T st' m = cached T st m

theorem read_spec (hk : Kept T (st.mysql T.tb) w) (hc : Hit T st w n) :
    ∃ r st', Store.getUserSingle T.env T.tb n st = (.ok r, st') ∧ Read T w st st' n r := by
  obtain ⟨i, hi⟩ := Store.getconn_uid (E := T.env) n
  have hcached : cached T st n = (st.pool i).lookup (hashName T n) := cached_eq hi
  -- a row that was written has its id, so it is not empty
  have habsent : ∀ {r : Row}, fieldsOf r = (w n).getD (fun _ => none) → (r.entries = [] ↔ w n = none) := by
    intro r hr
    rw [entries_eq_nil_iff, hr]
    constructor
    · intro h
      cases hw : w n with
      | none => rfl
      | some f =>
        obtain ⟨r, -, hid, hw', -⟩ := hk.find (n := n) (by rw [hw]; rfl)
        rw [hw', Option.getD_some] at h
        have := congrFun h idField
        rw [fieldsOf, hid] at this
        cases this
    · intro h
      rw [h]
      rfl
  rcases hc with hc | ⟨h, f, hc, hw, hwhole⟩
  · have hmiss := hcached.symm.trans hc
    cases hw : w n with
    | none =>
      have hfields : fieldsOf (Store.convertRecord (T.env.schema T.tb) ∅) =
          (w n).getD fun _ => none := by
        rw [hw]
        rfl
      exact ⟨_, st, Store.getUserSingle_of_absent T.config_eq hi hmiss (hk.select.1 hw), hfields,
        habsent hfields, rfl, Or.inl hc, fun _ _ => rfl⟩
    | some f =>
      obtain ⟨r, hsel, hid, rfl, hfit⟩ := hk.select.2 f hw
      have hfields : fieldsOf (Store.convertRecord (T.env.schema T.tb) r) = (w n).getD fun _ => none := by
        rw [hw]
        exact funext (Store.convertRecord_same hfit.1)
      refine ⟨_, _, Store.getUserSingle_of_row T.config_eq rfl splitComma_idField hi hmiss hsel, hfields,
        habsent hfields, rfl, Or.inr ⟨Store.wireRow r, fieldsOf r, ?_, hw, Store.whole_wireRow⟩,
        fun m hm => cached_insert_of_ne fun h => hm (hashName_inj.mp h)⟩
      exact cached_insert.trans (if_pos hi)
  · obtain ⟨r, -, hid, hw', hfit⟩ := hk.find (n := n) (by rw [hw]; rfl)
    obtain rfl : f = fieldsOf r := Option.some.inj (hw.symm.trans hw')
    have hfields : fieldsOf (Store.convertRecord (T.env.schema T.tb)
        (Store.makePairsTable ∅ (Store.flatten h))) = (w n).getD fun _ => none := by
      rw [hw]
      exact funext (hwhole.decode hfit.1 fun x hx => (hfit.2 x hx).1)
    refine ⟨_, st, Store.getUserSingle_of_cached (k := idField) hi (hcached.symm.trans hc) ?_, hfields,
      habsent hfields, rfl, Or.inr ⟨h, fieldsOf r, hc, hw, hwhole⟩, fun _ _ => rfl⟩
    rw [hwhole idField, fieldsOf, hid]
    rfl

/-! ## The invariant -/

/-- A hash without wrong fields. -/
def Part (h : Table Str) (f : Str → Option Value) : Prop :=
  ∀ k x, h.lookup k = some x → (f k).map Value.wire = some x

/-- **The three levels stand for what was written**: MySQL and memory have it
all, and redis nothing else, and all of it where memory has nothing. -/
structure Levels (T : UserTable) (recordset : Keyed) (st : Store.State) (w : Written) : Prop where
  numeric : ∀ v ∈ recordset, ∃ n, v = uidValue n
  kept : Kept T (st.mysql T.tb) w
  memory : ∀ n row, recordset.lookup (uidValue n) = some row → w n = some (fieldsOf row)
  part : ∀ n, cached T st n = none ∨ ∃ h f, cached T st n = some (.hash h) ∧ w n = some f ∧ Part h f
  hit : ∀ n, recordset.lookup (uidValue n) = none → Hit T st w n

theorem Part.of_whole {h : Table Str} (hw : Whole h f) : Part h f := by
  intro k x hx
  rw [← hw k, hx]

theorem Hit.part (hh : Hit T st w n) :
    cached T st n = none ∨ ∃ h f, cached T st n = some (.hash h) ∧ w n = some f ∧ Part h f :=
  hh.imp_right fun ⟨h, f, hc, hw, hwhole⟩ => ⟨h, f, hc, hw, Part.of_whole hwhole⟩

abbrev Inv (T : UserTable) (s : State) : Prop := Levels T s.data.recordset s.data.services s.written

/-- **A row that was read** goes to memory. -/
theorem Levels.read (h : Levels T recordset st w) (hr : Read T w st st' n r) :
    Levels T (if r.entries = [] then recordset else recordset.insert (uidValue n) r) st' w := by
  have hother : ∀ {m}, m ≠ n → (if r.entries = [] then recordset else
      recordset.insert (uidValue n) r).lookup (uidValue m) = recordset.lookup (uidValue m) := by
    intro m hm
    split_ifs
    · rfl
    · exact AList.lookup_insert_ne fun heq => hm (uidValue_injective heq)
  refine ⟨fun v hv => ?_, by rw [hr.mysql]; exact h.kept, fun m row hrow => ?_, fun m => ?_, fun m hm => ?_⟩
  · split_ifs at hv
    · exact h.numeric v hv
    · rcases (AList.mem_insert _).mp hv with rfl | hv
      · exact ⟨n, rfl⟩
      · exact h.numeric v hv
  · by_cases hmn : m = n
    · subst hmn
      split_ifs at hrow with hnil
      · exact h.memory m row hrow
      · obtain rfl : r = row := by simpa using hrow
        obtain ⟨f, hf⟩ := Option.ne_none_iff_exists'.mp (mt hr.absent.mpr hnil)
        rw [hr.fields, hf]
        rfl
    · exact h.memory m row ((hother hmn).symm.trans hrow)
  · by_cases hmn : m = n
    · rw [hmn]
      exact hr.hit.part
    · rw [hr.other m hmn]
      exact h.part m
  · by_cases hmn : m = n
    · rw [hmn]
      exact hr.hit
    · rw [Hit, hr.other m hmn]
      exact h.hit m ((hother hmn).symm.trans hm)

/-! ## Loading and unloading -/

/-- **What a reading of a row not in memory does.** -/
theorem Levels.call (h : Levels T recordset st w) (hn : recordset.lookup (uidValue n) = none) :
    ∃ r st', call (Store.getUserSingle T.env T.tb n) ⟨st, recordset⟩ = (.ok r, ⟨st', recordset⟩) ∧
      Read T w st st' n r := by
  obtain ⟨r, st', hrun, hr⟩ := read_spec h.kept (h.hit n hn)
  exact ⟨r, st', by simp only [Entity.call, hrun], hr⟩

theorem Levels.load (h : Levels T recordset st w) (n : Int64) :
    ∃ d, load T.env T.tb n ⟨st, recordset⟩ = (.ok (), d) ∧ Levels T d.recordset d.services w := by
  cases hn : recordset.lookup (uidValue n) with
  | some row =>
    refine ⟨⟨st, recordset⟩, ?_, h⟩
    rw [Entity.load, Act.get_bind_apply, hn]
    rfl
  | none =>
    obtain ⟨r, st', hcall, hr⟩ := h.call hn
    refine ⟨⟨st', if r.entries = [] then recordset else recordset.insert (uidValue n) r⟩, ?_, h.read hr⟩
    rw [Entity.load, Act.get_bind_apply, hn]
    simp only [Option.isSome_none, Bool.false_eq_true, if_false]
    rw [Act.bind_ok hcall]
    split_ifs <;> rfl

/-- **A `get`**: of the row in memory, or of the row that was read. -/
theorem Levels.get (h : Levels T recordset st w) (n : Int64) (field : Field) :
    ∃ d got, get T.env T.tb n field ⟨st, recordset⟩ = (.ok got, d) ∧ Levels T d.recordset d.services w ∧
      ∃ r, fieldsOf r = ((w n).getD fun _ => none) ∧ (got = field.of r ∨ got = field.ofLoaded r) := by
  cases hn : recordset.lookup (uidValue n) with
  | some row =>
    refine ⟨⟨st, recordset⟩, field.of row, ?_, h, row, ?_, Or.inl rfl⟩
    · rw [Entity.get, Act.get_bind_apply, hn]
      rfl
    · rw [h.memory n row hn]
      rfl
  | none =>
    obtain ⟨r, st', hcall, hr⟩ := h.call hn
    refine ⟨⟨st', if r.entries = [] then recordset else recordset.insert (uidValue n) r⟩,
      field.ofLoaded r, ?_, h.read hr, r, hr.fields, Or.inr rfl⟩
    rw [Entity.get, Act.get_bind_apply, hn]
    simp only
    rw [Act.bind_ok hcall]
    split_ifs <;> rfl

theorem Levels.unload (h : Levels T recordset st w) (n : Int64)
    (hwhole : ∀ row x, recordset.lookup (uidValue n) = some row → cached T st n = some (.hash x) →
      ∀ k ∈ row, k ∈ x) : Levels T (recordset.erase (uidValue n)) st w := by
  have hother : ∀ {m}, m ≠ n →
      (recordset.erase (uidValue n)).lookup (uidValue m) = recordset.lookup (uidValue m) := fun hm =>
    AList.lookup_erase_ne fun heq => hm (uidValue_injective heq)
  refine ⟨fun v hv => h.numeric v (AList.mem_erase.mp hv).2, h.kept, fun m row hrow => ?_, h.part,
    fun m hm => ?_⟩
  · by_cases hmn : m = n
    · rw [hmn, AList.lookup_erase] at hrow
      cases hrow
    · exact h.memory m row ((hother hmn).symm.trans hrow)
  · by_cases hmn : m = n
    · subst hmn
      cases hrow : recordset.lookup (uidValue m) with
      | none => exact h.hit m hrow
      | some row =>
        -- the hash has no wrong field, and none of the row's is missing
        refine (h.part m).imp_right fun ⟨x, f, hc, hw, hpart⟩ => ⟨x, f, hc, hw, fun k => ?_⟩
        obtain rfl : f = fieldsOf row := Option.some.inj (hw.symm.trans (h.memory m row hrow))
        cases hx : x.lookup k with
        | some v => exact (hpart k v hx).symm
        | none =>
          cases hk : row.lookup k with
          | none => rw [fieldsOf, hk]; rfl
          | some v =>
            have hin := hwhole row x hrow hc k (AList.lookup_isSome.mp (by rw [hk]; rfl))
            exact absurd hin (AList.lookup_eq_none.mp hx)
    · exact h.hit m ((hother hmn).symm.trans hm)

/-! ## Writing -/

/-- **The statements of a row that fits** are built, and read as they should. -/
theorem sql_spec (hid : row.lookup idField = some (uidValue n)) (hfit : Fit T row) :
    (∃ sql, Store.insertSql T.tb row = .ok sql ∧ Sql.read sql = some (Store.insertOf T.tb row)) ∧
    ∃ sql, Store.updateSql T.tb idField row = .ok sql ∧
      Sql.read sql = some (Store.updateOf T.tb idField row (uidValue n)) := by
  have hne : row.entries ≠ [] := List.ne_nil_of_mem (AList.mem_lookup_iff.mp hid)
  have hpk : Sql.IsWord idField := T.words _ _ T.id_number
  have hsurvives : ∀ x ∈ row.entries, Store.Survives x.2 := fun x hx => (hfit.2 x hx).2
  obtain ⟨hinsert, hupdate⟩ := Store.statements_encode_iff T.word hpk hfit.words
  obtain ⟨sql, hsql, hiff⟩ := hinsert hne
  obtain ⟨sql', hsql', hiff'⟩ := hupdate (uidValue n) (tostring (.int n)) hid rfl
  exact ⟨⟨sql, hsql, (hiff.mpr hsurvives).1⟩, sql', hsql', (hiff'.mpr hsurvives).1⟩

theorem hashKey_id : Store.hashKey T.tb (some (uidValue n)) = .ok (hashName T n) := rfl

/-- `CMD.add` over MySQL: the row is appended. -/
theorem Kept.insert (h : Kept T (st.mysql T.tb) w) (hid : row.lookup idField = some (uidValue n))
    (hfit : Fit T row) (hnew : ∀ r ∈ st.mysql T.tb, r.lookup idField ≠ row.lookup idField) {sql : Str}
    (hread : Sql.read sql = some (Store.insertOf T.tb row)) :
    Kept T (Store.execute T.env st.mysql sql T.tb) (Function.update w n (some (fieldsOf row))) := by
  have hnodup : ((st.mysql T.tb ++ [row]).map (AList.lookup idField)).Nodup := by
    rw [List.map_append, List.nodup_append]
    refine ⟨h.nodup, List.nodup_singleton _, ?_⟩
    rintro x hx y hy rfl
    obtain ⟨r, hr, hrx⟩ := List.mem_map.mp hx
    exact hnew r hr (hrx.trans (List.mem_singleton.mp hy))
  have hkeyed : Store.keyed (T.env.schema T.tb) (st.mysql T.tb ++ [row]) = true := by
    refine Store.keyed_iff.mpr ⟨by rwa [T.pk_eq], fun r hr => ?_⟩
    rw [T.pk_eq]
    rcases List.mem_append.mp hr with hr | hr
    · obtain ⟨-, m, hm, -⟩ := h.row r hr
      simp [hm]
    · simp [List.mem_singleton.mp hr, hid]
  rw [Store.execute_insert hread hfit.1 (fun x hx => (hfit.2 x hx).2) hkeyed, Function.update_self]
  -- the id is a new one, so the rows there were are those of other users
  have hother : ∀ {r m}, r ∈ st.mysql T.tb → r.lookup idField = some (uidValue m) → m ≠ n := by
    rintro r m hr hm rfl
    exact hnew r hr (hm.trans hid.symm)
  refine ⟨hnodup, fun r hr => ?_, fun m hm => ?_⟩
  · rcases List.mem_append.mp hr with hr | hr
    · obtain ⟨hf, m, hm, hw⟩ := h.row r hr
      exact ⟨hf, m, hm, by rw [Function.update_of_ne (hother hr hm), hw]⟩
    · rw [List.mem_singleton.mp hr]
      exact ⟨hfit, n, hid, Function.update_self _ _ _⟩
  · by_cases hmn : m = n
    · subst hmn
      exact ⟨row, by simp, hid⟩
    · rw [Function.update_of_ne hmn] at hm
      obtain ⟨r, hr, hrm⟩ := h.written m hm
      exact ⟨r, List.mem_append_left _ hr, hrm⟩

/-- `CMD.update` over MySQL: the fields are put over those of the row. -/
theorem Kept.update (h : Kept T (st.mysql T.tb) w) (hid : row.lookup idField = some (uidValue n))
    (hfit : Fit T row) {sql : Str}
    (hread : Sql.read sql = some (Store.updateOf T.tb idField row (uidValue n))) :
    Kept T (Store.execute T.env st.mysql sql T.tb) (Function.update w n ((w n).map (override row))) := by
  have hids : (updated idField row (uidValue n) (st.mysql T.tb)).map (AList.lookup idField) =
      (st.mysql T.tb).map (AList.lookup idField) := Store.lookup_pk_updated hid
  have hkeyed : Store.keyed (T.env.schema T.tb) (updated idField row (uidValue n) (st.mysql T.tb)) = true := by
    refine Store.keyed_iff.mpr ⟨by rw [T.pk_eq, hids]; exact h.nodup, fun r hr hnone => ?_⟩
    rw [T.pk_eq] at hnone
    have hmem : none ∈ (st.mysql T.tb).map (AList.lookup idField) := by
      rw [← hids]
      exact List.mem_map.mpr ⟨r, hr, hnone⟩
    obtain ⟨r', hr', hnone'⟩ := List.mem_map.mp hmem
    obtain ⟨-, m, hm, -⟩ := h.row r' hr'
    rw [hnone'] at hm
    cases hm
  rw [Store.execute_update hread hfit.1 (fun x hx => (hfit.2 x hx).2) T.id_number hid hkeyed,
    Function.update_self]
  refine ⟨by rw [hids]; exact h.nodup, fun r' hr' => ?_, fun m hm => ?_⟩
  · obtain ⟨r, hr, rfl⟩ := List.mem_map.mp hr'
    obtain ⟨hf, m, hm, hw⟩ := h.row r hr
    by_cases hmn : m = n
    · subst hmn
      rw [if_pos hm]
      refine ⟨hfit.union hf, m, ?_, ?_⟩
      · rw [AList.lookup_union_left (AList.lookup_isSome.mp (by rw [hid]; rfl)), hid]
      · rw [Function.update_self, hw, Option.map_some, fieldsOf_union]
    · rw [if_neg fun heq => hmn (uidValue_injective (Option.some.inj (hm.symm.trans heq)))]
      exact ⟨hf, m, hm, by rw [Function.update_of_ne hmn, hw]⟩
  · have hwm : (w m).isSome := by
      by_cases hmn : m = n
      · subst hmn
        simpa using hm
      · rwa [Function.update_of_ne hmn] at hm
    obtain ⟨r, hr, hrm⟩ := h.written m hwm
    have hmem : some (uidValue m) ∈ (updated idField row (uidValue n) (st.mysql T.tb)).map
        (AList.lookup idField) := by
      rw [hids]
      exact List.mem_map.mpr ⟨r, hr, hrm⟩
    obtain ⟨r', hr', hid'⟩ := List.mem_map.mp hmem
    exact ⟨r', hr', hid'⟩

/-- **`CMD.update` of a row that fits**: over the hash that the connection of
the uid has. -/
theorem store_update_spec {h : Table Str} (hid : row.lookup idField = some (uidValue n))
    (hfit : Fit T row) (hk : Kept T (st.mysql T.tb) w)
    (hc : cached T st n = some (.hash h) ∨ cached T st n = none ∧ h = ∅) :
    ∃ st', Store.update T.env T.tb row .user false st = (.ok true, st') ∧
      Kept T (st'.mysql T.tb) (Function.update w n ((w n).map (override row))) ∧
      cached T st' n = some (.hash (Store.wireRow row ∪ h)) ∧
      ∀ m, m ≠ n → cached T st' m = cached T st m := by
  obtain ⟨i, hi⟩ := Store.getconn_uid (E := T.env) n
  obtain ⟨sql, hsql, hread⟩ := (sql_spec hid hfit).2
  have hne : row.entries ≠ [] := List.ne_nil_of_mem (AList.mem_lookup_iff.mp hid)
  have howner : Store.ownerOf row "id".toList .user = some (uidValue n) := by
    change Store.ownerOf row idField .user = _
    simp [Store.ownerOf, hid, uidValue]
  rw [cached_eq hi] at hc
  have hset := Store.hmset_eq hi hne hc
  have hupdate : Store.updateSql T.tb (T.env.schema T.tb).pk row = .ok sql := by rw [T.pk_eq, hsql]
  refine ⟨⟨(st.setDb i ((st.pool i).insert (hashName T n) (.hash (Store.wireRow row ∪ h)))).pool,
    Store.execute T.env st.mysql sql⟩, ?_, hk.update hid hfit hread, ?_, fun m hm => ?_⟩
  · rw [Store.update, Act.bind_ok (Store.configOf_eq T.config_eq)]
    simp only
    rw [howner, Act.lift_bind_ok (makeRediskey_id hid), Act.lift_bind_ok hashKey_id, Act.bind_ok hset]
    simp only [Bool.false_eq_true, if_false]
    rw [Act.lift_bind_ok hupdate]
    rfl
  · exact cached_insert.trans (if_pos hi)
  · exact cached_insert_of_ne fun heq => hm (hashName_inj.mp heq)

/-- **`CMD.add` of a new row that fits** raises and does nothing, where the
row has a `uid` without a connection, or is in MySQL; redis has it whole if
that connection is the one of its id. -/
theorem store_add_spec (hid : row.lookup idField = some (uidValue n)) (hfit : Fit T row)
    (hk : Kept T (st.mysql T.tb) w) (hnew : ∀ r ∈ st.mysql T.tb, r.lookup idField ≠ row.lookup idField)
    (hc : cached T st n = none) :
    (∃ fault, Store.add T.env T.tb row .user false st = (.error fault, st)) ∨
    ∃ st', Store.add T.env T.tb row .user false st = (.ok true, st') ∧
      Kept T (st'.mysql T.tb) (Function.update w n (some (fieldsOf row))) ∧
      (cached T st' n = none ∨ cached T st' n = some (.hash (Store.wireRow row))) ∧
      ∀ m, m ≠ n → cached T st' m = cached T st m := by
  obtain ⟨sql, hsql, hread⟩ := (sql_spec hid hfit).1
  have hadd : Store.add T.env T.tb row .user false st = (do
      let _ ← Store.doRedis T.env (.hmset (hashName T n) row) (Store.ownerOf row "uid".toList .user)
      Store.sync T.env sql
      pure true : Store.Call Bool) st := by
    rw [Store.add, Act.bind_ok (Store.configOf_eq T.config_eq)]
    simp only
    rw [Act.lift_bind_ok (makeRediskey_id hid), Act.lift_bind_ok hashKey_id]
    simp only [Store.addIndex, Bool.false_eq_true, if_false, hsql]
    rfl
  rw [hadd]
  cases hset : Store.doRedis T.env (.hmset (hashName T n) row) (Store.ownerOf row "uid".toList .user) st with
  | mk x t =>
    cases x with
    | error fault =>
      obtain rfl := Store.doRedis_error hset
      exact Or.inl ⟨fault, Act.bind_error hset _⟩
    | ok reply =>
      obtain ⟨i, h, hi, -, hh, rfl⟩ := Store.hmset_ok hset
      refine Or.inr ⟨⟨(st.setDb i ((st.pool i).insert (hashName T n)
        (.hash (Store.wireRow row ∪ h)))).pool, Store.execute T.env st.mysql sql⟩, Act.bind_ok hset _,
        hk.insert hid hfit hnew hread, ?_, fun m hm => ?_⟩
      · have hself : cached T (st.setDb i ((st.pool i).insert (hashName T n)
            (.hash (Store.wireRow row ∪ h)))) n = if T.env.getconn (some (uidValue n)) = some i then
              some (.hash (Store.wireRow row ∪ h)) else cached T st n := cached_insert
        by_cases hconn : T.env.getconn (some (uidValue n)) = some i
        · -- nothing was there, so the hash is the row
          rw [cached_eq hconn] at hc
          rw [hc] at hh
          obtain rfl : h = ∅ := by simpa using hh
          refine Or.inr (hself.trans ?_)
          rw [if_pos hconn, AList.union_empty]
        · exact Or.inl (hself.trans ((if_neg hconn).trans hc))
      · exact cached_insert_of_ne fun heq => hm (hashName_inj.mp heq)

/-- **A row that was written** is in memory, and the others are as they were. -/
theorem Levels.insert (h : Levels T recordset st w)
    (hk : Kept T (st'.mysql T.tb) (Function.update w n (some (fieldsOf r))))
    (hpart : cached T st' n = none ∨ ∃ x, cached T st' n = some (.hash x) ∧ Part x (fieldsOf r))
    (hother : ∀ m, m ≠ n → cached T st' m = cached T st m) :
    Levels T (recordset.insert (uidValue n) r) st' (Function.update w n (some (fieldsOf r))) := by
  have hlookup : ∀ {m}, m ≠ n →
      (recordset.insert (uidValue n) r).lookup (uidValue m) = recordset.lookup (uidValue m) := fun hm =>
    AList.lookup_insert_ne fun heq => hm (uidValue_injective heq)
  refine ⟨fun v hv => ?_, hk, fun m row hrow => ?_, fun m => ?_, fun m hm => ?_⟩
  · rcases (AList.mem_insert _).mp hv with rfl | hv
    · exact ⟨n, rfl⟩
    · exact h.numeric v hv
  · by_cases hmn : m = n
    · subst hmn
      obtain rfl : r = row := by simpa using hrow
      rw [Function.update_self]
    · rw [Function.update_of_ne hmn]
      exact h.memory m row ((hlookup hmn).symm.trans hrow)
  · by_cases hmn : m = n
    · subst hmn
      rw [Function.update_self]
      exact hpart.imp_right fun ⟨x, hx, hp⟩ => ⟨x, fieldsOf r, hx, rfl, hp⟩
    · rw [hother m hmn, Function.update_of_ne hmn]
      exact h.part m
  · by_cases hmn : m = n
    · rw [hmn, AList.lookup_insert] at hm
      cases hm
    · rw [Hit, hother m hmn, Function.update_of_ne hmn]
      exact h.hit m ((hlookup hmn).symm.trans hm)

theorem member_uidValue : member recordset (some (uidValue n)) = recordset.lookup (uidValue n) := rfl

theorem Part.union {h : Table Str} (hp : Part h f) : Part (Store.wireRow row ∪ h) (override row f) := by
  intro k x hx
  by_cases hk : k ∈ Store.wireRow row
  · rw [AList.lookup_union_left hk, Store.lookup_wireRow] at hx
    obtain ⟨v, hv, rfl⟩ := Option.map_eq_some_iff.mp hx
    rw [override, hv]
    rfl
  · rw [AList.lookup_union_right hk] at hx
    have hnone : row.lookup k = none := by
      have := AList.lookup_eq_none.mpr hk
      simpa using this
    rw [override, hnone]
    exact hp k x hx

/-- **An `update` of a row in memory** writes all three levels; redis may have
these fields alone. -/
theorem Levels.update {old : Row} (h : Levels T recordset st w)
    (hold : recordset.lookup (uidValue n) = some old) (hid : row.lookup idField = some (uidValue n))
    (hfit : Fit T row) :
    ∃ d, Entity.update T.env T.tb row false ⟨st, recordset⟩ = (.ok (some true), d) ∧
      Levels T d.recordset d.services (w.after (.assigned row)) := by
  have hw := h.memory n old hold
  obtain ⟨x, hx, hp⟩ : ∃ x, (cached T st n = some (.hash x) ∨ cached T st n = none ∧ x = ∅) ∧
      Part x (fieldsOf old) := by
    rcases h.part n with hc | ⟨x, f, hc, hf, hp⟩
    · exact ⟨∅, Or.inr ⟨hc, rfl⟩, by intro k y hy; simp at hy⟩
    · obtain rfl : f = fieldsOf old := Option.some.inj (hf.symm.trans hw)
      exact ⟨x, Or.inl hc, hp⟩
  obtain ⟨st', hrun, hk, hself, hother⟩ := store_update_spec hid hfit h.kept hx
  have hafter : w.after (.assigned row) = Function.update w n (some (fieldsOf (row ∪ old))) := by
    simp only [Written.after, rowId_eq hid, hw, Option.map_some, fieldsOf_union]
  have hcall : Entity.call (Store.update T.env T.tb row .user false) ⟨st, recordset⟩ =
      (.ok true, ⟨st', recordset⟩) := by
    simp only [Entity.call, hrun]
  refine ⟨⟨st', recordset.insert (uidValue n) (row ∪ old)⟩, ?_, ?_⟩
  · rw [Entity.update, Act.get_bind_apply]
    simp only [hid, member_uidValue, hold]
    rw [Act.bind_ok hcall]
    rfl
  · rw [hafter]
    refine h.insert ?_ (Or.inr ⟨_, hself, ?_⟩) hother
    · rw [hw, Option.map_some, ← fieldsOf_union] at hk
      exact hk
    · rw [fieldsOf_union]
      exact hp.union

/-- Nothing that a reading looks at has changed. -/
theorem Levels.frame (h : Levels T recordset st w) (hmysql : st'.mysql = st.mysql)
    (hcached : ∀ m, cached T st' m = cached T st m) : Levels T recordset st' w := by
  refine ⟨h.numeric, by rw [hmysql]; exact h.kept, h.memory, fun m => ?_, fun m hm => ?_⟩
  · rw [hcached]
    exact h.part m
  · rw [Hit, hcached]
    exact h.hit m hm

/-- **The counter of the table** is no row. -/
theorem takeId_spec (T : UserTable) (st : Store.State) (recordset : Keyed) (row : Row) :
    (named T st row = none ∧
      ∃ fault, takeId T.env T.tb row ⟨st, recordset⟩ = (.error fault, ⟨st, recordset⟩)) ∨
    ∃ r st', named T st row = some r ∧
      takeId T.env T.tb row ⟨st, recordset⟩ = (.ok r, ⟨st', recordset⟩) ∧
      st'.mysql = st.mysql ∧ ∀ m, cached T st' m = cached T st m := by
  unfold named takeId
  rw [T.pk_eq]
  split_ifs with hlacks
  · have hincr : (nextId T st = none ∧ ∃ fault, Store.doRedis T.env (.incr (T.tb ++ ':' :: idField)) none st =
          (.error fault, st)) ∨
        ∃ n x, nextId T st = some n ∧ Store.doRedis T.env (.incr (T.tb ++ ':' :: idField)) none st =
          (.ok (.int n), st.setDb 1 ((st.pool 1).insert (T.tb ++ ':' :: idField) x)) := by
      unfold nextId
      simp only [Store.doRedis, Store.handler, Store.getconn_none]
      cases (st.pool 1).lookup (T.tb ++ ':' :: idField) with
      | none => exact Or.inr ⟨1, _, rfl, rfl⟩
      | some x =>
        cases x with
        | str x =>
          simp only
          cases str2int x with
          | none => exact Or.inl ⟨rfl, _, rfl⟩
          | some v =>
            rcases v with i | _ | _ | _
            · simp only
              split_ifs
              · exact Or.inl ⟨rfl, _, rfl⟩
              · exact Or.inr ⟨i + 1, _, rfl, rfl⟩
            all_goals exact Or.inl ⟨rfl, _, rfl⟩
        | hash h => exact Or.inl ⟨rfl, _, rfl⟩
        | zset members => exact Or.inl ⟨rfl, _, rfl⟩
    rcases hincr with ⟨hnone, fault, hrun⟩ | ⟨n, x, hn, hrun⟩
    · refine Or.inl ⟨by rw [hnone]; rfl, fault, ?_⟩
      have hcall : Entity.call (getNextId T.tb idField T.env) ⟨st, recordset⟩ =
          (.error fault, ⟨st, recordset⟩) := by
        simp only [Entity.call, getNextId, Act.bind_error hrun]
      exact Act.bind_error hcall _
    · refine Or.inr ⟨row.insert idField (uidValue n),
        st.setDb 1 ((st.pool 1).insert (T.tb ++ ':' :: idField) x),
        by rw [hn]; rfl, ?_, rfl, fun m => cached_insert_of_ne hashName_ne_counter⟩
      have hcall : Entity.call (getNextId T.tb idField T.env) ⟨st, recordset⟩ =
          (.ok (some (uidValue n)), ⟨st.setDb 1 ((st.pool 1).insert (T.tb ++ ':' :: idField) x),
            recordset⟩) := by
        simp only [Entity.call, getNextId, Act.bind_ok hrun]
        rfl
      rw [Act.bind_ok hcall]
      rfl
  · exact Or.inr ⟨row, st, rfl, rfl, rfl, fun _ => rfl⟩

/-- **An `add`** of a new row writes all three levels, or raises and leaves them. -/
theorem Levels.add (h : Levels T recordset st w)
    (hsound : member recordset (row.lookup idField) = none → ∀ r, named T st row = some r →
      Proper T r ∧ ∀ r' ∈ st.mysql T.tb, r'.lookup idField ≠ r.lookup idField) :
    (∃ d, Entity.add T.env T.tb row false ⟨st, recordset⟩ = (.ok none, d) ∧
      Levels T d.recordset d.services w) ∨
    (∃ fault d, Entity.add T.env T.tb row false ⟨st, recordset⟩ = (.error fault, d) ∧
      Levels T d.recordset d.services w) ∨
    ∃ r d, Entity.add T.env T.tb row false ⟨st, recordset⟩ = (.ok (some (true, r)), d) ∧
      Levels T d.recordset d.services (w.after (.added r)) := by
  unfold Entity.add
  rw [Act.get_bind_apply]
  split_ifs with hmem
  · exact Or.inl ⟨_, rfl, h⟩
  · have hnone : member recordset (row.lookup idField) = none := by simpa using hmem
    rcases takeId_spec T st recordset row with ⟨-, fault, htake⟩ | ⟨r, st₁, hnamed, htake, hmysql, hsame⟩
    · exact Or.inr (Or.inl ⟨fault, _, Act.bind_error htake _, h⟩)
    · obtain ⟨⟨⟨n, hid⟩, hfit⟩, hnew⟩ := hsound hnone r hnamed
      have h₁ := h.frame hmysql hsame
      rw [← hmysql] at hnew
      -- a new id is that of no row, so neither memory nor redis has it
      have hw : w n = none := by
        by_contra hw
        obtain ⟨r', hr', hid', -⟩ := h₁.kept.find (Option.ne_none_iff_isSome.mp hw)
        exact hnew r' hr' (hid'.trans hid.symm)
      have hc : cached T st₁ n = none := by
        rcases h₁.part n with hc | ⟨x, f, -, hf, -⟩
        · exact hc
        · rw [hw] at hf
          cases hf
      rw [Act.bind_ok htake]
      rcases store_add_spec hid hfit h₁.kept hnew hc with ⟨fault, hrun⟩ | ⟨st', hrun, hk, hself, hother⟩
      · refine Or.inr (Or.inl ⟨fault, ⟨st₁, recordset⟩, Act.bind_error ?_ _, h₁⟩)
        simp only [Entity.call, hrun]
      · have hcall : Entity.call (Store.add T.env T.tb r .user false) ⟨st₁, recordset⟩ =
            (.ok true, ⟨st', recordset⟩) := by
          simp only [Entity.call, hrun]
        have hput : recordset.put (r.lookup idField) r = .ok (recordset.insert (uidValue n) r) := by
          rw [hid]
          rfl
        refine Or.inr (Or.inr ⟨r, ⟨st', recordset.insert (uidValue n) r⟩, ?_, ?_⟩)
        · rw [Act.bind_ok hcall]
          simp only [if_true]
          rw [Act.get_bind_apply, Act.lift_bind_ok hput]
          rfl
        · have hafter : w.after (.added r) = Function.update w n (some (fieldsOf r)) := by
            simp only [Written.after, rowId_eq hid]
          rw [hafter]
          exact h₁.insert hk (hself.imp_right fun hx => ⟨_, hx, Part.of_whole Store.whole_wireRow⟩) hother

/-- **An `update`**, of a row in memory or of none. -/
theorem Levels.update_or_nil (h : Levels T recordset st w)
    (hsound : member recordset (row.lookup idField) ≠ none → Proper T row) :
    ∃ ret d, Entity.update T.env T.tb row false ⟨st, recordset⟩ = (.ok ret, d) ∧
      Levels T d.recordset d.services
        (w.after (if ret = some true then .assigned row else .nothing)) := by
  cases hold : member recordset (row.lookup idField) with
  | none =>
    refine ⟨none, ⟨st, recordset⟩, ?_, h⟩
    rw [Entity.update, Act.get_bind_apply]
    simp only [hold]
    cases row.lookup idField <;> rfl
  | some old =>
    obtain ⟨⟨n, hid⟩, hfit⟩ := hsound (by simp [hold])
    rw [hid, member_uidValue] at hold
    obtain ⟨d, hrun, h'⟩ := h.update hold hid hfit
    exact ⟨some true, d, hrun, h'⟩

/-! ## Runs -/

theorem inv_of_ok {x : Wrote} {d : Data} (hrun : e.run T s.data = (.ok x, d))
    (h : Levels T d.recordset d.services (s.written.after x)) : Inv T (step T s e) := by
  simpa only [Inv, step, hrun] using h

/-- An operation that raises an error has written nothing. -/
theorem inv_of_error {fault : Fault} {d : Data} (hrun : e.run T s.data = (.error fault, d))
    (h : Levels T d.recordset d.services s.written) : Inv T (step T s e) := by
  simpa only [Inv, step, hrun] using h

/-- **A sound operation keeps the three levels.** -/
theorem Inv.step (h : Inv T s) (hs : Sound T s e) : Inv T (step T s e) := by
  cases e with
  | load uid =>
    obtain ⟨d, hrun, h'⟩ := Levels.load h uid
    exact inv_of_ok (Act.bind_ok hrun _) h'
  | unload uid => exact inv_of_ok rfl (Levels.unload h uid hs)
  | add row =>
    rcases Levels.add h hs with ⟨d, hrun, h'⟩ | ⟨fault, d, hrun, h'⟩ | ⟨r, d, hrun, h'⟩
    · exact inv_of_ok (Act.bind_ok hrun _) h'
    · exact inv_of_error (Act.bind_error hrun _) h'
    · exact inv_of_ok (Act.bind_ok hrun _) h'
  | update row =>
    obtain ⟨ret, d, hrun, h'⟩ := Levels.update_or_nil h hs
    refine inv_of_ok ((Act.bind_ok hrun _).trans ?_) h'
    split_ifs <;> rfl
  | setValue uid a =>
    cases ha : a.record uid with
    | error fault =>
      have hrun : Entity.setValue T.env T.tb uid a s.data = (.error fault, s.data) := by
        rw [Entity.setValue, ha]
        rfl
      exact inv_of_error (Act.bind_error hrun _) h
    | ok row =>
      obtain ⟨ret, d, hrun, h'⟩ := Levels.update_or_nil h (hs row ha)
      have hset : Entity.setValue T.env T.tb uid a s.data = (.ok ret, d) := by
        rw [Entity.setValue, Act.lift_bind_ok ha]
        exact hrun
      refine inv_of_ok ((Act.bind_ok hset _).trans ?_) h'
      rw [Act.lift_bind_ok ha]
      split_ifs <;> rfl
  | get uid field =>
    obtain ⟨d, got, hrun, h', -⟩ := Levels.get h uid field
    exact inv_of_ok (Act.bind_ok hrun _) h'
  | getValue uid field =>
    cases field with
    | whole => exact inv_of_ok rfl h
    | one name =>
      obtain ⟨d, got, hrun, h', -⟩ := Levels.get h uid (.one name)
      exact inv_of_ok (Act.bind_ok (Act.bind_ok hrun _) _) h'
    | many names =>
      obtain ⟨d, got, hrun, h', -⟩ := Levels.get h uid (.many names)
      exact inv_of_ok (Act.bind_ok (Act.bind_ok hrun _) _) h'

/-- The three levels stand for what was written where nothing is in memory. -/
theorem Inv.of_init (h : (system T).init s) : Inv T s := by
  obtain ⟨hempty, hkept, hhit⟩ := h
  refine ⟨fun v hv => ?_, hkept, fun n row hrow => ?_, fun n => Hit.part (hhit n), fun n _ => hhit n⟩
  · rw [hempty] at hv
    exact absurd hv (AList.notMem_empty v)
  · rw [hempty] at hrow
    cases hrow

theorem Inv.right (h : Inv T s) : Right T s := by
  intro uid r d hget
  obtain ⟨d', got, hrun, -, r', hfields, hgot⟩ := Levels.get h uid .whole
  have hrow : got = .row r' := hgot.elim id id
  obtain rfl : r' = r := by
    have := hrun.symm.trans hget
    rw [hrow] at this
    simpa using congrArg Prod.fst this
  exact hfields

/-- **In a run whose operations are sound every `get` answers what was
written last**, of whatever users, operations and connections. -/
theorem get_written : ((system T).restrict (Sound T)).Reachable s → Right T s := by
  intro h
  have hstep : ∀ s e t, ((system T).restrict (Sound T)).step s e t → Inv T s → Inv T t := by
    rintro s e t ⟨rfl, hs⟩ hinv
    exact hinv.step hs
  have hinit : ∀ s, ((system T).restrict (Sound T)).init s → Inv T s := fun s hs => Inv.of_init hs
  exact (h.invariant hinit hstep).right

/-! ## The row that was added -/

/-- The users of a game server with two connections, with some of their
columns. -/
def users : UserTable where
  env :=
    { maxconn := 2
      schema := fun _ => ⟨idField, fun f =>
        if f = idField ∨ f = "level".toList ∨ f = "exp".toList then some .number else none⟩
      configs := fun typ tb => if typ = .user then some ⟨tb, idField, none⟩ else none
      maxconn_pos := by decide
      name_eq := by
        intro typ tb c h
        split_ifs at h
        rw [← Option.some.inj h] }
  tb := "d_user".toList
  config_eq := rfl
  pk_eq := rfl
  id_number := rfl
  word := by decide
  words k kind h := by
    simp only at h
    split_ifs at h with hk
    rcases hk with rfl | rfl | rfl <;> decide

def newUser : Row :=
  (((∅ : Row).insert "exp".toList (uidValue 5)).insert "level".toList (uidValue 1)).insert idField
    (uidValue 7)

/-- Before anyone has registered. -/
def noUsers : State where
  data := ⟨⟨fun _ => ∅, fun _ => []⟩, ∅⟩
  written := fun _ => none

theorem init_noUsers : (system users).init noUsers := by
  refine ⟨rfl, ⟨List.nodup_nil, fun r hr => absurd hr List.not_mem_nil, fun n hn => ?_⟩,
    fun uid => Or.inl ?_⟩
  · cases hn
  · obtain ⟨i, hi⟩ := Store.getconn_uid (E := users.env) uid
    rw [cached_eq hi]
    rfl

/-- What redis has of a row in memory, computed. -/
theorem sound_unload {uid : Int64} (h : ((s.data.recordset.lookup (uidValue uid)).all fun row =>
    (cached T s.data.services uid).all fun x =>
      match x with
      | .hash x => row.keys.all (· ∈ x)
      | _ => true) = true) : Sound T s (.unload uid) := by
  intro row x hrow hc k hk
  rw [hrow, hc] at h
  simp only [Option.all_some, List.all_eq_true, decide_eq_true_eq] at h
  exact h k (AList.mem_keys.mp hk)

/-- He is read back before he gets the level. -/
def readBack : State :=
  step users (step users (step users (step users noUsers (.add newUser)) (.unload 7)) (.load 7))
    (.setValue 7 (.one "level".toList (some (uidValue 2))))

/-- So he has it all. -/
theorem get_written_readBack : Right users (step users readBack (.unload 7)) := by
  have hfit : ∀ row, (Assignment.one "level".toList (some (uidValue 2))).record 7 = .ok row →
      Proper users row := by
    rintro row ⟨⟩
    exact ⟨⟨7, by decide⟩, by decide, by decide⟩
  have hadd : Sound users noUsers (.add newUser) := by
    intro _ r hr
    obtain rfl : newUser = r := Option.some.inj hr
    exact ⟨⟨⟨7, by decide⟩, by decide, by decide⟩, fun r' hr' => absurd hr' List.not_mem_nil⟩
  have hreach : ((system users).restrict (Sound users)).Reachable (step users readBack (.unload 7)) :=
    ⟨noUsers, [.add newUser, .unload 7, .load 7, .setValue 7 (.one "level".toList (some (uidValue 2))),
      .unload 7], init_noUsers,
      .cons ⟨rfl, hadd⟩ (.cons ⟨rfl, sound_unload (by decide +kernel)⟩ (.cons ⟨rfl, trivial⟩
        (.cons ⟨rfl, fun row hrow _ => hfit row hrow⟩ (.cons ⟨rfl, sound_unload (by decide +kernel)⟩
          (.nil _)))))⟩
  exact get_written hreach

/-- A row was answered, and a field is not in it. -/
def lacks (k : Str) : Except Fault Got → Bool
  | .ok (.row r) => (r.lookup k).isNone
  | .ok (.value _) | .error _ => false

theorem exists_of_lacks {k : Str} {x : Except Fault Got} (h : lacks k x = true) :
    ∃ r, x = .ok (.row r) ∧ r.lookup k = none := by
  cases x with
  | error fault => cases h
  | ok got =>
    cases got with
    | row r => exact ⟨r, rfl, Option.isNone_iff_eq_none.mp h⟩
    | value v => cases h

/-- A user is added and gets a level. -/
def promoted : State :=
  step users (step users noUsers (.add newUser)) (.setValue 7 (.one "level".toList (some (uidValue 2))))

/-- **Unloaded at once, he is read back without his experience.** -/
theorem not_get_written : ¬ ∀ (T : UserTable) (s : State), (system T).Reachable s → Right T s := by
  intro h
  have hreach : (system users).Reachable (step users promoted (.unload 7)) :=
    ⟨noUsers, [.add newUser, .setValue 7 (.one "level".toList (some (uidValue 2))), .unload 7], init_noUsers,
      .cons rfl (.cons rfl (.cons rfl (.nil _)))⟩
  have hlacks : lacks "exp".toList (Entity.get users.env users.tb 7 .whole
      (step users promoted (.unload 7)).data).1 = true := by decide +kernel
  obtain ⟨r, hr, hnone⟩ := exists_of_lacks hlacks
  have hright := congrFun (h users _ hreach 7 r _ (Prod.ext hr rfl)) "exp".toList
  have hwritten : ((step users promoted (.unload 7)).written 7).map (fun f => f "exp".toList) =
      some (some (uidValue 5)) := by decide +kernel
  obtain ⟨f, hf, hexp⟩ := Option.map_eq_some_iff.mp hwritten
  rw [hf, Option.getD_some, hexp, fieldsOf, hnone] at hright
  cases hright

end Single

end Entity

end Athena
