import Athena.Entity.Model
/-!
# Common tables — which row an id names

The reads find a row by its number and by the text of its number alike
(`get_of_form`). The writes find it by its number only: with the text they return
before anything is written (`follows_iff`).
-/

namespace Athena

namespace Entity

namespace Common

open Lua
open Store (Env Keyed)

/-- The ways an id is passed: as a number, or as its decimal text. -/
inductive Form
  | number
  | text
  deriving DecidableEq

/-- An id in a form. -/
def Form.id (n : Int64) : Form → Value
  | number => .num (.int n)
  | text => .str (tostring (.int n))

/-- A write to the row of an id. The rows of the others come with their fields. -/
inductive Write
  | setValue (field : Str) (data : Value)
  | update (fields : Row) (nosync : Bool)
  | delete (fields : Row) (nosync : Bool)
  | remove (fields : Row)

/-- The row a write hands over. -/
def Write.row (pk : Str) (id : Value) : Write → Row
  | setValue field data => record pk id field (some data)
  | update fields _ | delete fields _ | remove fields => fields.insert pk id

/-- A write with an id. -/
def Write.run (E : Env) (tb : Str) (id : Value) : Write → Op (Option Bool)
  | setValue field data => Common.setValue E tb id field (some data)
  | update fields nosync => Common.update E tb (fields.insert (E.schema tb).pk id) nosync
  | delete fields nosync => Common.delete E tb (fields.insert (E.schema tb).pk id) nosync
  | remove fields => Common.remove E tb (fields.insert (E.schema tb).pk id)

/-- What both reads show at a field, with the id in either form. -/
def Shows (recordset : Keyed) (n : Int64) (field : Str) (v : Option Value) : Prop :=
  ∀ form : Form, getValue recordset (form.id n) field = .ok v ∧
    (get recordset [form.id n]).map (·.lookup field) = .ok v

/-- **The reads see a write**: its fields, or no row. -/
def Write.Seen (w : Write) (pk : Str) (id : Value) (n : Int64) (recordset : Keyed) : Prop :=
  match w with
  | setValue field data => Shows recordset n field (some data)
  | update _ _ => ∀ field v, (w.row pk id).lookup field = some v → Shows recordset n field (some v)
  | delete _ _ | remove _ => ∀ field, Shows recordset n field none

/-- The row a value names. -/
def Names (v : Option Value) (n : Int64) : Prop :=
  ∃ v' m, v = some v' ∧ v'.tonumber = some m ∧ (Value.num m).asKey = .num (.int n)

/-- **A write follows its id**: the row it hands over names the row, it is not
dropped, and once it is made every read sees it. -/
structure Follows (E : Env) (tb : Str) (w : Write) (n : Int64) (form : Form) (d : Data) : Prop where
  names : Names ((w.row (E.schema tb).pk (form.id n)).lookup (E.schema tb).pk) n
  kept : (w.run E tb (form.id n) d).1 ≠ .ok none
  seen : ∀ ret, (w.run E tb (form.id n) d).1 = .ok (some ret) →
    w.Seen (E.schema tb).pk (form.id n) n (w.run E tb (form.id n) d).2.recordset

/-- A write that hands the id over as a number. A `setValue` on the key field
itself hands over what it sets. -/
def Write.ByNumber (w : Write) (pk : Str) (n : Int64) (form : Form) : Prop :=
  match w with
  | setValue field data => if field = pk then data.asKey = .num (.int n) else form = .number
  | _ => form = .number

variable {E : Env} {tb : Str} {recordset : Keyed} {n : Int64} {form : Form} {d : Data} {w : Write}
  {field pk : Str} {v : Option Value} {id : Value}

/-- **A table by its numeric key.** -/
def Numeric (recordset : Keyed) : Prop := ∀ key ∈ recordset, ∃ n, key = Value.num (.int n)

@[simp] theorem asKey_int : (Value.num (.int n)).asKey = .num (.int n) := rfl

@[simp] theorem asKey_str {s : Str} : (Value.str s).asKey = .str s := rfl

/-! ## Reads -/

theorem row_text (h : Numeric recordset) (s : Str) : row recordset (some (.str s)) = none := by
  simp only [row, asKey_str]
  by_contra hne
  obtain ⟨m, hm⟩ := h _ (AList.lookup_isSome.mp (Option.isSome_iff_ne_none.mpr hne))
  cases hm

/-- **Both forms find the row of the number.** -/
theorem find_of_form (h : Numeric recordset) (form : Form) :
    find recordset (form.id n) = (recordset.lookup (.num (.int n))).getD ∅ := by
  cases form with
  | number =>
    simp only [find, Form.id, row, asKey_int, Value.tonumber, Option.map_some]
    cases recordset.lookup (.num (.int n)) <;> rfl
  | text =>
    simp only [find, Form.id, row_text h]
    simp [Value.tonumber, tonumber_tostring_int, row]

theorem get_of_form (h : Numeric recordset) (form : Form) :
    get recordset [form.id n] = .ok ((recordset.lookup (.num (.int n))).getD ∅) := by
  have hfind := find_of_form (n := n) h form
  exact congrArg Except.ok hfind

theorem getValue_of_form (h : Numeric recordset) (form : Form) :
    getValue recordset (form.id n) field
      = .ok (((recordset.lookup (.num (.int n))).getD ∅).lookup field) := by
  have hwire : Value.str (form.id n).wire = Form.text.id n := by cases form <;> rfl
  simp only [getValue, hwire, get_of_form h, bind, Except.bind, pure, Except.pure]
  cases hv : ((recordset.lookup (.num (.int n))).getD ∅).lookup field with
  | none => rfl
  | some v => rfl

/-- **What the reads show is what the row has.** -/
theorem shows_iff (h : Numeric recordset) : Shows recordset n field v ↔
    ((recordset.lookup (.num (.int n))).getD ∅).lookup field = v := by
  simp only [Shows, getValue_of_form h, get_of_form h, Except.map, Except.ok.injEq, and_self]
  exact ⟨fun hall => hall .number, fun hv _ => hv⟩

theorem Numeric.insert (h : Numeric recordset) (r : Row) :
    Numeric (recordset.insert (.num (.int n)) r) := by
  intro key hkey
  rcases (AList.mem_insert _).mp hkey with rfl | hkey
  · exact ⟨n, rfl⟩
  · exact h key hkey

theorem Numeric.erase (h : Numeric recordset) (key : Value) : Numeric (recordset.erase key) :=
  fun key' hkey' => h key' (AList.mem_erase.mp hkey').2

/-! ## Writes -/

/-- Only a number is found as a number. -/
theorem form_id_asKey : (form.id n).asKey = .num (.int n) ↔ form = .number := by
  cases form with
  | number => exact ⟨fun _ => rfl, fun _ => rfl⟩
  | text => simp [Form.id]

/-- **What the row of a write has in the key field.** -/
theorem byNumber_iff : w.ByNumber pk n form ↔
    ∃ v, (w.row pk (form.id n)).lookup pk = some v ∧ v.asKey = .num (.int n) := by
  cases w with
  | setValue field data =>
    simp only [Write.ByNumber, Write.row, record, Table.lookup_set]
    rcases eq_or_ne pk field with rfl | hne
    · simp
    · simp [hne, hne.symm, form_id_asKey]
  | update fields nosync => simp [Write.ByNumber, Write.row, form_id_asKey]
  | delete fields nosync => simp [Write.ByNumber, Write.row, form_id_asKey]
  | remove fields => simp [Write.ByNumber, Write.row, form_id_asKey]

/-- A value whose key is a number is that number, as an integer or a float. -/
theorem numberOr_asKey {v : Value} (h : v.asKey = .num (.int n)) :
    numberOr v = v ∧ ∃ m, v = .num m := by
  cases v with
  | num m => exact ⟨rfl, m, rfl⟩
  | str s => cases h
  | bool b => cases h

theorem getKey_eq {r : Row} {v : Value} (hkey : keyFields E tb = [pk]) (hv : r.lookup pk = some v)
    (h : v.asKey = .num (.int n)) : getKey E tb r = .ok (some v) := by
  simp only [getKey, hkey, List.foldlM_nil, hv]
  exact congrArg (fun v => Except.ok (some v)) (numberOr_asKey h).1

theorem clear_eq {v : Value} (h : v.asKey = .num (.int n)) :
    clear recordset (some v) = .ok (recordset.erase (.num (.int n))) := by
  obtain ⟨-, m, rfl⟩ := numberOr_asKey h
  cases m with
  | nan => cases h
  | int i => simp only [clear, h]
  | flt q => simp only [clear, h]
  | inf neg => simp only [clear, h]

theorem row_some {v k : Value} (h : v.asKey = k) : row recordset (some v) = recordset.lookup k := by
  subst h
  rfl

theorem assign_eq {v k : Value} {old fields : Row} (h : v.asKey = k)
    (hold : recordset.lookup k = some old) :
    assign recordset (some v) fields = .ok (recordset.insert k (fields ∪ old)) := by
  subst h
  simp only [assign, row, hold]

/-- A write whose row is not found is dropped. -/
theorem run_none (h : row d.recordset ((w.row (E.schema tb).pk id).lookup (E.schema tb).pk) = none) :
    w.run E tb id d = (.ok none, d) := by
  cases w with
  | setValue field data =>
    simp only [Write.row] at h
    simp only [Write.run, Common.setValue, Common.update, bind, Act.get, h]
    rfl
  | update fields nosync =>
    simp only [Write.row] at h
    simp only [Write.run, Common.update, bind, Act.get, h]
    rfl
  | delete fields nosync =>
    simp only [Write.row] at h
    simp only [Write.run, Common.delete, bind, Act.get, h]
    rfl
  | remove fields =>
    simp only [Write.row] at h
    simp only [Write.run, Common.remove, bind, Act.get, h]
    rfl

/-- The end of a write of `dbmgr`. -/
theorem sync_true {nosync b : Bool} {sql : Except Fault Str} {s t : Store.State}
    (h : (if nosync = true then pure true
      else do
        let sql ← Act.lift sql
        Store.sync E sql
        pure true : Store.Call Bool) s = (.ok b, t)) : b = true := by
  cases nosync with
  | true =>
    cases h
    rfl
  | false =>
    obtain ⟨sql, -, h⟩ := Act.lift_bind_eq_ok.mp h
    obtain ⟨u, s', -, h⟩ := Act.bind_eq_ok.mp h
    cases h
    rfl

/-- `dbmgr` answers true or raises an error. -/
theorem store_update_true {r : Row} {nosync b : Bool} {s t : Store.State}
    (h : Store.update E tb r .common nosync s = (.ok b, t)) : b = true := by
  unfold Store.update at h
  obtain ⟨c, s1, -, h⟩ := Act.bind_eq_ok.mp h
  obtain ⟨k, -, h⟩ := Act.lift_bind_eq_ok.mp h
  obtain ⟨k', -, h⟩ := Act.lift_bind_eq_ok.mp h
  obtain ⟨r', s2, -, h⟩ := Act.bind_eq_ok.mp h
  exact sync_true h

theorem store_delete_true {r : Row} {nosync b : Bool} {s t : Store.State}
    (h : Store.delete E tb r .common nosync s = (.ok b, t)) : b = true := by
  unfold Store.delete at h
  obtain ⟨c, s1, -, h⟩ := Act.bind_eq_ok.mp h
  obtain ⟨k, -, h⟩ := Act.lift_bind_eq_ok.mp h
  obtain ⟨k', -, h⟩ := Act.lift_bind_eq_ok.mp h
  obtain ⟨r', s2, -, h⟩ := Act.bind_eq_ok.mp h
  cases hindex : c.indexkey with
  | none =>
    simp only [hindex] at h
    exact sync_true h
  | some indexkey =>
    simp only [hindex] at h
    obtain ⟨k, -, h⟩ := Act.lift_bind_eq_ok.mp h
    obtain ⟨k', -, h⟩ := Act.lift_bind_eq_ok.mp h
    obtain ⟨r', s3, -, h⟩ := Act.bind_eq_ok.mp h
    exact sync_true h

theorem store_add_true {typ : Store.Typ} {r : Row} {nosync b : Bool} {s t : Store.State}
    (h : Store.add E tb r typ nosync s = (.ok b, t)) : b = true := by
  unfold Store.add at h
  obtain ⟨c, s1, -, h⟩ := Act.bind_eq_ok.mp h
  obtain ⟨k, -, h⟩ := Act.lift_bind_eq_ok.mp h
  obtain ⟨k', -, h⟩ := Act.lift_bind_eq_ok.mp h
  obtain ⟨r', s2, -, h⟩ := Act.bind_eq_ok.mp h
  obtain ⟨u, s3, -, h⟩ := Act.bind_eq_ok.mp h
  exact sync_true h

/-- What `skynet.call` does to an entity. -/
theorem call_eq_ok {α : Type} {x : Store.Call α} {a : α} {d d' : Data} :
    call x d = (.ok a, d') ↔ ∃ s, x d.services = (.ok a, s) ∧ d' = { d with services := s } := by
  simp only [call, Prod.mk.injEq]
  constructor
  · rintro ⟨h1, rfl⟩
    exact ⟨(x d.services).2, Prod.ext h1 rfl, rfl⟩
  · rintro ⟨s, hx, rfl⟩
    rw [hx]
    exact ⟨rfl, rfl⟩

/-- The key of a write is that of the row it found. -/
structure Found (E : Env) (tb : Str) (d : Data) (r : Row) (n : Int64) (old : Row) : Prop where
  key : keyFields E tb = [(E.schema tb).pk]
  found : d.recordset.lookup (.num (.int n)) = some old
  named : ∃ v, r.lookup (E.schema tb).pk = some v ∧ v.asKey = .num (.int n)

variable {r old : Row} {nosync : Bool} {ret : Option Bool} {d' : Data}

theorem Found.row (h : Found E tb d r n old) :
    row d.recordset (r.lookup (E.schema tb).pk) = some old := by
  obtain ⟨v, hv, hkey⟩ := h.named
  rw [hv, row_some hkey, h.found]

/-- **The rest of a write** that has found its row: the store, which answers true, then
the key of the row and what `f` makes of the recordset there. -/
theorem Found.stored {x : Store.Call Bool} {f : Keyed → Option Value → Except Fault Keyed}
    {recordset : Keyed} (h : Found E tb d r n old)
    (hx : ∀ {b : Bool} {s t : Store.State}, x s = (.ok b, t) → b = true)
    (hf : ∀ v : Value, v.asKey = .num (.int n) → f d.recordset (some v) = .ok recordset)
    (hrun : (do
      let ret ← call x
      if ret then do
        let key ← Act.lift (getKey E tb r)
        let d ← Act.get
        let recordset ← Act.lift (f d.recordset key)
        Act.modify fun d => { d with recordset := recordset }
        pure (some true)
      else pure (some true) : Op (Option Bool)) d = (.ok ret, d')) :
    ret = some true ∧ d'.recordset = recordset := by
  obtain ⟨b, d1, hcall, hrun⟩ := Act.bind_eq_ok.mp hrun
  obtain ⟨s, hstore, rfl⟩ := call_eq_ok.mp hcall
  obtain rfl := hx hstore
  obtain ⟨v, hv, hkey⟩ := h.named
  simp only [if_true] at hrun
  obtain ⟨key, hgetKey, hrun⟩ := Act.lift_bind_eq_ok.mp hrun
  rw [getKey_eq h.key hv hkey] at hgetKey
  cases hgetKey
  obtain ⟨d2, d3, h2, hrun⟩ := Act.bind_eq_ok.mp hrun
  cases h2
  obtain ⟨rs, hmade, hrun⟩ := Act.lift_bind_eq_ok.mp hrun
  rw [hf v hkey] at hmade
  cases hmade
  cases hrun
  exact ⟨rfl, rfl⟩

/-- **An `update` that returns has written.** -/
theorem update_spec (h : Found E tb d r n old)
    (hrun : Common.update E tb r nosync d = (.ok ret, d')) :
    ret = some true ∧ d'.recordset = d.recordset.insert (.num (.int n)) (r ∪ old) := by
  unfold Common.update at hrun
  obtain ⟨d0, d1, h0, hrun⟩ := Act.bind_eq_ok.mp hrun
  cases h0
  simp only [h.row] at hrun
  exact h.stored (f := fun recordset key => assign recordset key r) store_update_true
    (fun v hkey => assign_eq hkey h.found) hrun

/-- **A `delete` that returns has removed the row.** -/
theorem delete_spec (h : Found E tb d r n old)
    (hrun : Common.delete E tb r nosync d = (.ok ret, d')) :
    ret = some true ∧ d'.recordset = d.recordset.erase (.num (.int n)) := by
  unfold Common.delete at hrun
  obtain ⟨d0, d1, h0, hrun⟩ := Act.bind_eq_ok.mp hrun
  cases h0
  simp only [h.row] at hrun
  exact h.stored store_delete_true (fun v hkey => clear_eq hkey) hrun

/-- **A `remove` removes the row.** -/
theorem remove_spec (h : Found E tb d r n old)
    (hrun : Common.remove E tb r d = (.ok ret, d')) :
    ret = some true ∧ d'.recordset = d.recordset.erase (.num (.int n)) := by
  unfold Common.remove at hrun
  obtain ⟨d0, d1, h0, hrun⟩ := Act.bind_eq_ok.mp hrun
  cases h0
  simp only [h.row] at hrun
  obtain ⟨v, hv, hkey⟩ := h.named
  obtain ⟨key, hgetKey, hrun⟩ := Act.lift_bind_eq_ok.mp hrun
  rw [getKey_eq h.key hv hkey] at hgetKey
  cases hgetKey
  obtain ⟨rs, hclear, hrun⟩ := Act.lift_bind_eq_ok.mp hrun
  rw [clear_eq hkey] at hclear
  cases hclear
  cases hrun
  exact ⟨rfl, rfl⟩

/-! ## Writes and reads -/

/-- A row that was written over another shows its own fields. -/
theorem shows_insert (h : Numeric recordset) {v : Value} (hv : r.lookup field = some v) :
    Shows (recordset.insert (.num (.int n)) (r ∪ old)) n field (some v) := by
  rw [shows_iff (h.insert _), AList.lookup_insert, Option.getD_some,
    AList.lookup_union_left (AList.lookup_isSome.mp (by rw [hv]; rfl)), hv]

theorem shows_erase (h : Numeric recordset) :
    Shows (recordset.erase (.num (.int n))) n field none := by
  rw [shows_iff (h.erase _), AList.lookup_erase]
  rfl

/-- **A write that returns is seen by every read.** -/
theorem run_seen (hnum : Numeric d.recordset)
    (h : Found E tb d (w.row (E.schema tb).pk (form.id n)) n old)
    (hrun : w.run E tb (form.id n) d = (.ok ret, d')) :
    ret = some true ∧ w.Seen (E.schema tb).pk (form.id n) n d'.recordset := by
  cases w with
  | setValue field data =>
    obtain ⟨hret, hset⟩ := update_spec h hrun
    refine ⟨hret, ?_⟩
    simp only [Write.Seen, hset]
    exact shows_insert hnum (by simp [Write.row, record, Table.lookup_set])
  | update fields nosync =>
    obtain ⟨hret, hset⟩ := update_spec h hrun
    refine ⟨hret, fun field v hv => ?_⟩
    rw [hset]
    exact shows_insert hnum hv
  | delete fields nosync =>
    obtain ⟨hret, hset⟩ := delete_spec h hrun
    refine ⟨hret, fun field => ?_⟩
    rw [hset]
    exact shows_erase hnum
  | remove fields =>
    obtain ⟨hret, hset⟩ := remove_spec h hrun
    refine ⟨hret, fun field => ?_⟩
    rw [hset]
    exact shows_erase hnum

/-- A value that names a row and that the row is found by is its number. -/
theorem asKey_of_names {v : Option Value} (hnum : Numeric d.recordset) (hnames : Names v n)
    (hrow : row d.recordset v ≠ none) : v.map Value.asKey = some (.num (.int n)) := by
  obtain ⟨v, m, rfl, hm, hkey⟩ := hnames
  cases v with
  | num m' =>
    cases hm
    exact congrArg some hkey
  | str s => exact absurd (row_text hnum s) hrow
  | bool b => cases hm

/-- **A write to an existing row is followed by the reads exactly when the id is
handed over as a number.** -/
theorem follows_iff (E : Env) (tb : Str) (w : Write) (n : Int64) (form : Form) (d : Data)
    (hkey : keyFields E tb = [(E.schema tb).pk]) (hnum : Numeric d.recordset)
    (hexists : Value.num (.int n) ∈ d.recordset) :
    Follows E tb w n form d ↔ w.ByNumber (E.schema tb).pk n form := by
  obtain ⟨old, hold⟩ := Option.isSome_iff_exists.mp (AList.lookup_isSome.mpr hexists)
  constructor
  · intro h
    have hfound : row d.recordset
        ((w.row (E.schema tb).pk (form.id n)).lookup (E.schema tb).pk) ≠ none := by
      intro hnone
      exact h.kept (by rw [run_none hnone])
    have hid := asKey_of_names hnum h.names hfound
    exact byNumber_iff.mpr (Option.map_eq_some_iff.mp hid)
  · intro hnumber
    have hnamed := byNumber_iff.mp hnumber
    have hfound : Found E tb d (w.row (E.schema tb).pk (form.id n)) n old :=
      ⟨hkey, hold, hnamed⟩
    obtain ⟨v, hv, hvkey⟩ := hnamed
    refine ⟨?_, ?_, ?_⟩
    · obtain ⟨-, m, rfl⟩ := numberOr_asKey hvkey
      exact ⟨.num m, m, hv, rfl, hvkey⟩
    · intro hnone
      obtain ⟨hret, -⟩ := run_seen hnum hfound (Prod.ext hnone rfl)
      cases hret
    · intro ret hret
      exact (run_seen hnum hfound (Prod.ext hret rfl)).2

/-- The tables by their `id`. -/
def gameEnv : Env where
  maxconn := 1
  schema _ := ⟨"id".toList, fun _ => some .number⟩
  configs typ tb := if typ = .common then some ⟨tb, "id".toList, none⟩ else none
  maxconn_pos := by decide
  name_eq := by
    intro typ tb c h
    split_ifs at h
    rw [← Option.some.inj h]

/-- One award in memory. -/
def awards : Data where
  services := ⟨fun _ => ∅, fun _ => []⟩
  recordset := (∅ : Keyed).insert (.num (.int 5)) ((∅ : Row).insert "id".toList (.num (.int 5)))

theorem awards_numeric : Numeric awards.recordset := by
  intro key hkey
  obtain rfl | hkey := (AList.mem_insert _).mp hkey
  · exact ⟨5, rfl⟩
  · exact absurd hkey (AList.notMem_empty _)

theorem follows_iff_awards :
    Follows gameEnv "d_awardinfo".toList (.setValue "endtime".toList (.num (.int 0))) 5 .number
        awards ↔
      (Write.setValue "endtime".toList (.num (.int 0))).ByNumber "id".toList 5 .number :=
  follows_iff gameEnv "d_awardinfo".toList (.setValue "endtime".toList (.num (.int 0))) 5 .number
    awards (by decide) awards_numeric ((AList.mem_insert _).mpr (Or.inl rfl))

/-- **An award is not deleted by the text of its id**, as it stands in a list of
ids that was split. -/
theorem not_follows : ¬ ∀ (E : Env) (tb : Str) (w : Write) (n : Int64) (form : Form) (d : Data),
    keyFields E tb = [(E.schema tb).pk] → Numeric d.recordset →
      Value.num (.int n) ∈ d.recordset → Follows E tb w n form d := by
  intro h
  have hdelete := h gameEnv "d_awardinfo".toList (.delete ∅ false) 5 .text awards (by decide)
    awards_numeric ((AList.mem_insert _).mpr (Or.inl rfl))
  refine hdelete.kept ?_
  rw [run_none (row_text awards_numeric _)]

end Common

end Entity

end Athena
