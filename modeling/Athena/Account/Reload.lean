import Athena.Account.Model
import Athena.Store.Whole
/-!
# Accounts — a restart

When the services start, `accountdc` has what redis gives back of the rows
in MySQL. A name or a password in digits, dots and dashes comes back as a
number, if at all, and its text may be another (`ReadsBack`). Where every
name reads back, the start succeeds and the table in memory has each row
under its key (`start_spec`).
-/

namespace Athena

namespace Account

open Lua
open Entity (Data Op idField)
open Store (Env Keyed uidValue rawBack readBack)

variable {L : LoginEnv} {d : Data} {row : Row} {id sdkid : Int64} {pid s : Str} {rows : List Row}
  {registered : List Registered}

/-- **A text that comes back from redis** as a value of this text. -/
def ReadsBack (s : Str) : Prop := (Store.isnumber s).map Value.wire = some s

instance : DecidablePred ReadsBack := fun s =>
  inferInstanceAs (Decidable ((Store.isnumber s).map Value.wire = some s))

/-- **A row of `d_account`**, in the types of its columns. -/
structure Shaped (row : Row) (id sdkid : Int64) (pid : Str) : Prop where
  id : row.lookup idField = some (uidValue id)
  sdkid : row.lookup sdkidField = some (.num (.int sdkid))
  pid : row.lookup pidField = some (.str pid)

/-- **What must be in MySQL at a restart**: rows of the table, its primary key
and its unique key held, whose names read back; and the row of every
account that was registered, whose password reads back. -/
structure Durable (rows : List Row) (registered : List Registered) : Prop where
  shaped : ∀ row ∈ rows, ∃ id sdkid pid, Shaped row id sdkid pid ∧ ReadsBack pid
  id_nodup : (rows.map fun row => row.lookup idField).Nodup
  key_nodup : (rows.map fun row => (row.lookup sdkidField, row.lookup pidField)).Nodup
  kept : ∀ a ∈ registered, ∃ row ∈ rows, ∃ sdkid, a.sdkid = .int sdkid ∧
    Shaped row a.uid sdkid a.token ∧ row.lookup passwordField = some (.str a.password) ∧
    ReadsBack a.password

/-! ## The table in memory -/

/-- Every row in memory is under its key. -/
def WellKeyed (recordset : Keyed) : Prop :=
  ∀ v r, recordset.lookup v = some r → ∃ sdkid pid, v = .str (keyText (.int sdkid) pid) ∧
    r.lookup sdkidField = some (.num (.int sdkid)) ∧ (r.lookup pidField).map Value.wire = some pid

/-- **The account is in memory**, with its uid and its password. -/
def Has (recordset : Keyed) (a : Registered) : Prop :=
  ∃ r, recordset.lookup (.str (keyText a.sdkid a.token)) = some r ∧
    r.lookup idField = some (uidValue a.uid) ∧ shown (r.lookup passwordField) = a.password

/-! ## Keys -/

theorem keyFields_eq : splitComma accountConfig.key = [sdkidField, pidField] := by decide

theorem indexFields_eq : splitComma idField = [idField] := by decide

/-- What stands before the first colon, and what behind it. -/
theorem append_colon_inj {a b p q : Str} (ha : ':' ∉ a) (hb : ':' ∉ b)
    (h : a ++ ':' :: p = b ++ ':' :: q) : a = b ∧ p = q := by
  rcases List.append_eq_append_iff.mp h with ⟨as, rfl, heq⟩ | ⟨as, rfl, heq⟩
  · cases as with
    | nil => exact ⟨by simp, by simpa using heq⟩
    | cons c as =>
      obtain ⟨rfl, -⟩ : ':' = c ∧ _ := by simpa using heq
      simp at hb
  · cases as with
    | nil => exact ⟨by simp, by simpa using heq.symm⟩
    | cons c as =>
      obtain ⟨rfl, -⟩ : ':' = c ∧ _ := by simpa using heq
      simp at ha

theorem colon_not_mem_tostring (i : Int64) : ':' ∉ tostring (.int i) := fun h =>
  ((between_tostring i).2 ':' h).1 rfl

/-- **A key has one sdk id and one name.** -/
theorem keyText_inj {i j : Int64} {p q : Str} (h : keyText (.int i) p = keyText (.int j) q) :
    i = j ∧ p = q := by
  obtain ⟨hi, hp⟩ := append_colon_inj (colon_not_mem_tostring i) (colon_not_mem_tostring j) h
  exact ⟨tostring_int_injective hi, hp⟩

/-- A key is no number. -/
theorem tonumber_keyText (n : Number) (p : Str) : tonumber (keyText n p) = none :=
  tonumber_foreign foreign_colon (by simp [keyText])

/-- The key that a row makes of its fields. -/
theorem makeRediskey_eq {a b : Value} {x y : Str} (ha : row.lookup sdkidField = some a)
    (hb : row.lookup pidField = some b) (hx : a.text = .ok x) (hy : b.text = .ok y) :
    Store.makeRediskey row accountConfig.key = .ok (some (.str (x ++ ':' :: y))) := by
  simp only [Store.makeRediskey, keyFields_eq, List.foldlM_cons, List.foldlM_nil, Store.appendKey, ha, hb,
    textOf, hx, hy, bind, Except.bind, pure, Except.pure]

/-- The key of a row, and the index. -/
def rowKey (row : Row) : Str := shown (row.lookup sdkidField) ++ ':' :: shown (row.lookup pidField)

def rowIndex (row : Row) : Str := shown (row.lookup idField)

theorem Shaped.rowKey_eq (h : Shaped row id sdkid pid) : rowKey row = keyText (.int sdkid) pid := by
  rw [rowKey, h.sdkid, h.pid]
  rfl

theorem Shaped.rowIndex_eq (h : Shaped row id sdkid pid) : rowIndex row = tostring (.int id) := by
  rw [rowIndex, h.id]
  rfl

theorem Shaped.makeRediskey (h : Shaped row id sdkid pid) :
    Store.makeRediskey row accountConfig.key = .ok (some (.str (rowKey row))) := by
  rw [h.rowKey_eq]
  exact makeRediskey_eq h.sdkid h.pid rfl rfl

/-- A key begins like no index. -/
theorem not_index_keyText (i : Int64) (p : Str) :
    Store.indexTail.isPrefixOf (keyText (.int i) p) = false := by
  rw [Bool.eq_false_iff]
  intro h
  obtain ⟨u, hu⟩ := Store.isPrefixOf_iff.mp h
  have htail : Store.indexTail = "index".toList ++ [':'] := by decide
  have hnocolon : ':' ∉ "index".toList := by decide
  rw [htail, List.append_assoc, List.singleton_append] at hu
  obtain ⟨heq, -⟩ := append_colon_inj hnocolon (colon_not_mem_tostring i) hu
  have hnumeral := isNumeral_tostring (.int i) 'd' (by rw [← heq]; decide)
  exact absurd hnumeral (by decide)

/-! ## The rows can be loaded -/

theorem Durable.id_index (h : Durable rows registered) : (rows.map rowIndex).Nodup := by
  refine (List.nodup_map_iff_inj_on (List.Nodup.of_map _ h.id_nodup)).mpr fun r hr r' hr' heq => ?_
  obtain ⟨id, sdkid, pid, hs, -⟩ := h.shaped r hr
  obtain ⟨id', sdkid', pid', hs', -⟩ := h.shaped r' hr'
  rw [hs.rowIndex_eq, hs'.rowIndex_eq] at heq
  refine List.inj_on_of_nodup_map h.id_nodup hr hr' ?_
  rw [hs.id, hs'.id, tostring_int_injective heq]

theorem Durable.rowKey_nodup (h : Durable rows registered) : (rows.map rowKey).Nodup := by
  refine (List.nodup_map_iff_inj_on (List.Nodup.of_map _ h.id_nodup)).mpr fun r hr r' hr' heq => ?_
  obtain ⟨id, sdkid, pid, hs, -⟩ := h.shaped r hr
  obtain ⟨id', sdkid', pid', hs', -⟩ := h.shaped r' hr'
  rw [hs.rowKey_eq, hs'.rowKey_eq] at heq
  obtain ⟨rfl, rfl⟩ := keyText_inj heq
  refine List.inj_on_of_nodup_map h.key_nodup hr hr' ?_
  simp only [hs.sdkid, hs.pid, hs'.sdkid, hs'.pid]

theorem Durable.loadable (h : Durable rows registered) :
    Store.Loadable L.env accountConfig idField rowKey rowIndex rows where
  nonempty row hrow hnil := by
    obtain ⟨id, sdkid, pid, hs, -⟩ := h.shaped row hrow
    have hid := hs.id
    simp [AList.lookup, hnil] at hid
  keyed row hrow := by
    obtain ⟨id, sdkid, pid, hs, -⟩ := h.shaped row hrow
    exact ⟨_, hs.makeRediskey, rfl⟩
  indexed row hrow := by
    obtain ⟨id, sdkid, pid, hs, -⟩ := h.shaped row hrow
    refine ⟨uidValue id, ?_, by rw [hs.rowIndex_eq]; rfl⟩
    simp only [Store.makeRediskey, indexFields_eq, List.foldlM_nil, hs.id]
    rfl
  key_nodup := h.rowKey_nodup
  index_nodup := h.id_index
  key_ne_pk row hrow heq := by
    have hcolon : ':' ∈ rowKey row := by simp [rowKey]
    have hpk : (L.env.schema accountConfig.name).pk = idField := L.pk_eq
    rw [heq, hpk] at hcolon
    exact absurd hcolon (by decide)
  key_not_index row hrow := by
    obtain ⟨id, sdkid, pid, hs, -⟩ := h.shaped row hrow
    rw [hs.rowKey_eq]
    exact not_index_keyText sdkid pid

/-! ## What is read back -/

theorem isnumber_text {v : Value} (h : Store.isnumber s = some v) : v.text = .ok v.wire := by
  unfold Store.isnumber at h
  split_ifs at h
  · cases h
    rfl
  · cases h
    rfl
  · obtain ⟨n, -, rfl⟩ := Option.map_eq_some_iff.mp h
    rfl

/-- A whole number in a column of numbers. -/
theorem readBack_int {k : Str} {i : Int64} (hk : (L.env.schema account).fields k = some .number)
    (h : row.lookup k = some (.num (.int i))) :
    (readBack (L.env.schema account) row).lookup k = some (.num (.int i)) := by
  rw [readBack, Store.lookup_convertRecord, Store.lookup_rawBack, h, Option.bind_some]
  simp only [hk, if_true, Value.wire]
  have htext := Store.tonumber_isnumber (tostring (.int i))
  rw [tonumber_tostring_int] at htext
  cases hv : Store.isnumber (tostring (.int i)) with
  | none =>
    rw [hv] at htext
    cases htext
  | some v =>
    rw [hv, Option.bind_some] at htext
    rw [Option.bind_some, htext]
    rfl

/-- A text in another column. -/
theorem readBack_str {k : Str} (hk : (L.env.schema account).fields k ≠ some .number)
    (h : row.lookup k = some (.str s)) :
    (readBack (L.env.schema account) row).lookup k = Store.isnumber s := by
  rw [readBack, Store.lookup_convertRecord, Store.lookup_rawBack, h, Option.bind_some]
  simp only [hk, if_false, Option.bind_fun_some]
  rfl

/-- **What a row of the table gives**: its id, its sdk id and a name of the
same text. -/
theorem Shaped.readBack (h : Shaped row id sdkid pid) (hpid : ReadsBack pid) :
    (readBack (L.env.schema account) row).lookup idField = some (uidValue id) ∧
    (readBack (L.env.schema account) row).lookup sdkidField = some (.num (.int sdkid)) ∧
    ∃ v, (readBack (L.env.schema account) row).lookup pidField = some v ∧ v.text = .ok pid ∧
      v.wire = pid := by
  obtain ⟨v, hv, hwire⟩ := Option.map_eq_some_iff.mp hpid
  refine ⟨readBack_int L.id_number h.id, readBack_int L.sdkid_number h.sdkid, v, ?_, ?_, hwire⟩
  · rw [readBack_str L.pid_text h.pid, hv]
  · rw [isnumber_text hv, hwire]

theorem Durable.back (h : Durable rows registered) :
    Store.Back L.env accountConfig (fun row => .str (rowKey row)) rows := by
  intro row hrow
  obtain ⟨id, sdkid, pid, hs, hpid⟩ := h.shaped row hrow
  obtain ⟨-, hsdkid, v, hv, htext, -⟩ := hs.readBack (L := L) hpid
  refine ⟨.str (rowKey row), ?_, by simp, rfl⟩
  rw [hs.rowKey_eq]
  exact makeRediskey_eq hsdkid hv rfl htext

/-! ## The start -/

theorem pk_not_index : Store.indexTail.isPrefixOf (L.env.schema accountConfig.name).pk = false := by
  have hpk : (L.env.schema accountConfig.name).pk = idField := L.pk_eq
  rw [hpk]
  decide

/-- `load_maxkey` sets the counter and nothing else. -/
theorem load_maxkey_filled {t : Store.State} (h : Durable rows registered)
    (hfilled : Store.Filled L.env accountConfig rowKey rowIndex rows (t.pool 1)) :
    ∃ u, load_maxkey L t = (.ok (), u) ∧
      Store.Filled L.env accountConfig rowKey rowIndex rows (u.pool 1) := by
  rw [load_maxkey, Act.get_bind_apply]
  cases (Store.select L.env accountConfig none t).getLast?.bind
    fun row => row.lookup (L.env.schema account).pk with
  | none => exact ⟨t, rfl, hfilled⟩
  | some maxkey =>
    refine ⟨_, Act.bind_ok (Store.doRedis_of_handler rfl Store.getconn_none rfl) _, ?_⟩
    rw [Store.State.setDb_pool_self]
    exact hfilled.counter h.loadable pk_not_index _

/-- A registered account, by what is read back of its row. -/
theorem has_of_readBack {recordset : Keyed} {a : Registered} (hsdkid : a.sdkid = .int sdkid)
    (hs : Shaped row a.uid sdkid a.token) (htoken : ReadsBack a.token)
    (hpassword : row.lookup passwordField = some (.str a.password)) (hreads : ReadsBack a.password)
    (h : recordset.lookup (.str (rowKey row)) = some (readBack (L.env.schema account) row)) :
    Has recordset a := by
  obtain ⟨v, hv, hwire⟩ := Option.map_eq_some_iff.mp hreads
  refine ⟨_, ?_, (hs.readBack (L := L) htoken).1, ?_⟩
  · rw [hsdkid, ← hs.rowKey_eq]
    exact h
  · rw [readBack_str L.password_text hpassword, hv]
    exact hwire

/-- **A start over rows that are durable** succeeds, and every account that
was registered is in memory. -/
theorem start_spec (h : Durable (d.services.mysql account) registered) :
    ∃ d', start L d = (.ok (), d') ∧ WellKeyed d'.recordset ∧ ∀ a ∈ registered, Has d'.recordset a := by
  obtain ⟨data, t, hload, hfilled, -⟩ := Store.loadDataImpl_filled (E := L.env) (c := accountConfig)
    (s := ⟨fun _ => ∅, d.services.mysql⟩) rfl pk_not_index h.loadable rfl
  obtain ⟨u, hmaxkey, hfilled⟩ := load_maxkey_filled h hfilled
  have hplace : ((d.services.mysql account).map fun row => Value.str (rowKey row)).Nodup := by
    have hinj : Function.Injective Value.str := fun a b hab => Value.str.inj hab
    simpa only [List.map_map, Function.comp_def] using h.rowKey_nodup.map hinj
  obtain ⟨recordset, hget, hin, hout⟩ := Store.getCommon_filled (c := accountConfig) L.config_eq
    pk_not_index hfilled h.loadable h.back hplace
  refine ⟨⟨u, recordset⟩, ?_, ?_, ?_⟩
  · have h1 : Entity.call (Store.loadDataImpl L.env accountConfig none)
        (⟨⟨fun _ => ∅, d.services.mysql⟩, ∅⟩ : Data) = (.ok data, ⟨t, ∅⟩) := by
      simp only [Entity.call, hload]
    have h2 : Entity.call (load_maxkey L) (⟨t, ∅⟩ : Data) = (.ok (), ⟨u, ∅⟩) := by
      simp only [Entity.call, hmaxkey]
    have h3 : Entity.call (Store.getCommon L.env account) (⟨u, ∅⟩ : Data) =
        (.ok recordset, ⟨u, ∅⟩) := by
      have hget : Store.getCommon L.env account u = (.ok recordset, u) := hget
      simp only [Entity.call, hget]
    rw [start, Act.modify_bind_apply, Act.bind_ok h1, Act.bind_ok h2, Entity.Common.load, Act.get_bind_apply,
      if_pos AList.empty_entries, Act.bind_ok h3]
    rfl
  · intro v r hr
    obtain ⟨row, hrow, rfl, rfl⟩ := hout v r hr
    obtain ⟨id, sdkid, pid, hs, hpid⟩ := h.shaped row hrow
    obtain ⟨-, hsdkid, w, hw, -, hwire⟩ := hs.readBack (L := L) hpid
    refine ⟨sdkid, pid, by rw [hs.rowKey_eq], hsdkid, ?_⟩
    have hw : (Store.readBack (L.env.schema accountConfig.name) row).lookup pidField = some w := hw
    rw [hw, Option.map_some, hwire]
  · intro a ha
    obtain ⟨row, hrow, sdkid, hsdkid, hs, hpassword, hreads⟩ := h.kept a ha
    obtain ⟨id, sdkid', pid, hs', hpid⟩ := h.shaped row hrow
    have htoken : pid = a.token := by
      have := hs'.pid.symm.trans hs.pid
      simpa using this
    exact has_of_readBack (L := L) hsdkid hs (htoken ▸ hpid) hpassword hreads (hin row hrow)

end Account

end Athena
