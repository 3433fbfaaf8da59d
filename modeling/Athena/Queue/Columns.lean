import Athena.Queue.Model
import Athena.Lua.Split
import Mathlib.Data.List.Basic
/-!
# Business queues — the texts of a queue record

A row of `d_queueinfo` holds its lists of ids as texts, each under a name that is
built from the type of an entry. `delbusinessqueue` splits the text of one list,
takes the id out, joins the rest, and appends the award id to the text of another
one. For a scan it splits the column `scan`, which the table does not have.
-/

namespace Athena

namespace Queue

open Lua

/-- The columns of `d_queueinfo`. -/
def queuecolumns : List Str :=
  ["id".toList, "ingcasting".toList, "endcasting".toList, "ingscan".toList, "endscan".toList,
    "airfreighter1".toList, "airfreighter2".toList, "airfreighter3".toList,
    "maxairfreighter".toList, "maxperairfreighter".toList, "maxcasting".toList,
    "tmpbqinfos".toList]

/-- A record: the text of each field it has. -/
abbrev Fields := Str → Option Str

/-- **A row of `d_queueinfo`** has a text in each column and nothing else. -/
structure Queueinfo where
  fields : Fields
  columns : ∀ k, (fields k).isSome = true ↔ k ∈ queuecolumns

/-- `tostring` of an id. -/
def text (id : ℕ) : Str := intText id

/-- The field of a lane. -/
def airfreighter (subtype : ℕ) : Str := "airfreighter".toList ++ text subtype

/-- The name of a list in the record. -/
def Column.name : Column → Str
  | .airfreighter i => Queue.airfreighter i
  | .ingscan => "ingscan".toList
  | .ingcasting => "ingcasting".toList
  | .endscan => "endscan".toList
  | .endcasting => "endcasting".toList

/-- **The tables.** -/
structure Tables where
  businessqueue : ℕ → Option Row
  queueinfo : ℤ → Option Fields
  awardinfo : ℕ → Option Award
  /-- The last id `awardinfo_dc` gave. -/
  awardid : ℕ

/-- `queue_dc.req.get`: no fields where there is no row. -/
def Tables.get (t : Tables) (uid : ℤ) : Fields := (t.queueinfo uid).getD fun _ => none

/-- `queue_dc.req.setvalue`, of a row that is there. -/
def Tables.setvalue (t : Tables) (uid : ℤ) (field value : Str) : Tables :=
  { t with
    queueinfo :=
      Function.update t.queueinfo uid
        ((t.queueinfo uid).map fun q => Function.update q field (some value)) }

/-- `awardinfo_dc.req.add`: nothing where the id is taken, and a new id for none. -/
def Tables.add (t : Tables) (row : Row) (id : Option ℕ) : Tables :=
  match id with
  | some (id + 1) =>
    if (t.awardinfo (id + 1)).isSome then t
    else { t with awardinfo := Function.update t.awardinfo (id + 1) (some (row.award (id + 1))) }
  | none | some 0 =>
    { t with
      awardinfo := Function.update t.awardinfo (t.awardid + 1) (some (row.award (t.awardid + 1)))
      awardid := t.awardid + 1 }

/-- `bq_dc.req.delete`. -/
def Tables.delete (t : Tables) (bqid : ℕ) : Tables :=
  { t with businessqueue := Function.update t.businessqueue bqid none }

/-- `string.split`, also of nil. -/
def split (s : Option Str) : List Str := (s.map splitComma).getD []

/-- `remove_array`, which is nil where the id is not there. -/
def remove_field (arr : List Str) (id : Str) : Option (List Str) :=
  if arr.any (· = id) then some (arr.erase id) else none

/-- `string.join(remove_array(string.split(s), bqid))`. -/
def withoutid (s : Option Str) (bqid : ℕ) : Str :=
  match remove_field (split s) (text bqid) with
  | some arr => join arr
  | none => []

/-- `s == "" and nextid or (s .. "," .. nextid)`; it raises an error at nil. -/
def withid (s : Option Str) (nextid : Option ℕ) : Option Str :=
  match s, nextid with
  | some s, some nextid => some (if s = [] then text nextid else s ++ ',' :: text nextid)
  | _, _ => none

/-- The award id goes into its list, and the entry is deleted. -/
def finish (t : Tables) (row : Row) (queueinfo : Fields) (bqid : ℕ) (nextid : Option ℕ) (field : Str) :
    Tables × Bool :=
  match withid (queueinfo field) nextid with
  | none => (t, false)
  | some s => ((t.setvalue row.playerid field s).delete bqid, true)

/-- **`delbusinessqueue`**, false where it raises an error. -/
def delbusinessqueue (t : Tables) (bqid : ℕ) (nextid : Option ℕ) : Tables × Bool :=
  match t.businessqueue bqid with
  -- `businessqueue` is {}, and `queue_dc.req.get(nil)` raises
  | none => (t, false)
  | some row =>
    let queueinfo := t.get row.playerid
    match row.type with
    | .airfreighter =>
      ((t.setvalue row.playerid (airfreighter row.subtype)
          (withoutid (queueinfo (airfreighter row.subtype)) bqid)).delete bqid,
        true)
    | .cast =>
      finish ((t.add row nextid).setvalue row.playerid "ingcasting".toList
        (withoutid (queueinfo "ingcasting".toList) bqid)) row queueinfo bqid nextid "endcasting".toList
    | .scan =>
      -- `queueinfo.scan`, which is written to `ingscan`
      finish ((t.add row nextid).setvalue row.playerid "ingscan".toList
        (withoutid (queueinfo "scan".toList) bqid)) row queueinfo bqid nextid "endscan".toList

variable {t : Tables} {row : Row} {q q' : Fields} {bqid id : ℕ} {nextid : Option ℕ} {uid u : ℤ}
  {k f v w : Str} {s : Option Str}

/-! ## The texts -/

theorem text_injective : Function.Injective text := fun _ _ h => intText_inj h

theorem field_text : Field (text id) := field_intText _

/-- **The text without an id** is read as the list without it. -/
theorem split_withoutid (h : text bqid ∈ split s) :
    splitComma (withoutid s bqid) = (split s).erase (text bqid) := by
  unfold withoutid remove_field
  rw [if_pos (by simpa using h)]
  refine splitComma_join fun f hf => ?_
  have hmem := List.mem_of_mem_erase hf
  cases s with
  | none => cases hmem
  | some s => exact field_of_mem_splitComma hmem

/-- A list without the id is wiped. -/
theorem withoutid_of_not_mem (h : text bqid ∉ split s) : withoutid s bqid = [] := by
  unfold withoutid remove_field
  rw [if_neg (by simpa using h)]

theorem withid_none : withid s none = none := by
  cases s <;> rfl

/-- **The text with an id more** is read as the list with it at the end. -/
theorem withid_some (s : Str) (id : ℕ) :
    ∃ w, withid (some s) (some id) = some w ∧ splitComma w = splitComma s ++ [text id] := by
  refine ⟨_, rfl, ?_⟩
  split
  · rename_i hs
    subst hs
    exact splitComma_field field_text
  · rw [splitComma_append, splitComma_field field_text]

/-! ## One write -/

theorem get_of_some (hq : t.queueinfo uid = some q) : t.get uid = q := by
  rw [Tables.get, hq]
  rfl

@[simp] theorem queueinfo_add : (t.add row nextid).queueinfo = t.queueinfo := by
  unfold Tables.add
  split
  · split <;> rfl
  · rfl
  · rfl

@[simp] theorem queueinfo_delete : (t.delete bqid).queueinfo = t.queueinfo := rfl

/-- **A write changes its own field.** -/
theorem queueinfo_setvalue (hq : t.queueinfo uid = some q) :
    (t.setvalue uid f v).queueinfo uid = some (Function.update q f (some v)) := by
  simp [Tables.setvalue, hq]

theorem Queueinfo.some_of_mem (q : Queueinfo) (h : k ∈ queuecolumns) : ∃ s, q.fields k = some s :=
  Option.isSome_iff_exists.1 ((q.columns k).2 h)

theorem Queueinfo.none_of_not_mem (q : Queueinfo) (h : k ∉ queuecolumns) : q.fields k = none := by
  rw [← Option.not_isSome_iff_eq_none]
  exact fun hs => h ((q.columns k).1 hs)

/-! ## What it does -/

/-- The field an entry is listed in. -/
def Row.field (row : Row) : Str := row.column.name

/-- The field its award is listed in. -/
def Row.endfield (row : Row) : Str := row.finished.name

/-- **Only the lists of the entry are edited**: the entry leaves its own, its award
comes to the end of the list for it, and every other field stays. -/
structure Finished (row : Row) (bqid : ℕ) (nextid : Option ℕ) (q q' : Fields) : Prop where
  removed : split (q' row.field) = (split (q row.field)).erase (text bqid)
  appended : row.type ≠ .airfreighter →
    ∃ id, nextid = some id ∧ split (q' row.endfield) = split (q row.endfield) ++ [text id]
  frame : ∀ k, k ≠ row.field → (row.type ≠ .airfreighter → k ≠ row.endfield) → q' k = q k

/-- The entry is the only one of its list. -/
def Alone (row : Row) (bqid : ℕ) (q : Fields) : Prop := split (q row.field) = [text bqid]

instance : Decidable (Alone row bqid q) := inferInstanceAs (Decidable (_ = _))

/-- The two writes for a scan or a casting do what they are for, where the first
one takes out the entry. -/
theorem Finished.of_writes (hne : row.field ≠ row.endfield)
    (hv : splitComma v = (split (q row.field)).erase (text bqid))
    (hw : splitComma w = split (q row.endfield) ++ [text id]) :
    Finished row bqid (some id) q
      (Function.update (Function.update q row.field (some v)) row.endfield (some w)) where
  removed := by
    rw [Function.update_of_ne hne, Function.update_self]
    exact hv
  appended := by
    intro _
    refine ⟨id, rfl, ?_⟩
    rw [Function.update_self]
    exact hw
  frame := by
    intro k hk hend
    by_cases hair : row.type = .airfreighter
    · exact absurd (by rw [Row.field, Row.endfield, Row.column, Row.finished, hair]) hne
    · rw [Function.update_of_ne (hend hair), Function.update_of_ne hk]

/-- **A transport.** -/
theorem Finished.of_write (hair : row.type = .airfreighter)
    (hv : splitComma v = (split (q row.field)).erase (text bqid)) :
    Finished row bqid nextid q (Function.update q row.field (some v)) where
  removed := by
    rw [Function.update_self]
    exact hv
  appended := fun h => absurd hair h
  frame := fun k hk _ => Function.update_of_ne hk ..

/-- **What `finish` comes to** after a write to the list of entries. -/
theorem finish_spec (bqid id : ℕ) {t₁ : Tables} {s : Str} (hq : t₁.queueinfo row.playerid = some q')
    (hs : q f = some s) :
    ∃ w, splitComma w = split (q f) ++ [text id] ∧
      (finish t₁ row q bqid (some id) f).2 = true ∧
      (finish t₁ row q bqid (some id) f).1.queueinfo row.playerid =
        some (Function.update q' f (some w)) := by
  obtain ⟨w, hw, hsplit⟩ := withid_some s id
  refine ⟨w, ?_, ?_, ?_⟩
  · rw [hs]
    exact hsplit
  · rw [finish, hs, hw]
  · rw [finish, hs, hw]
    exact queueinfo_setvalue hq

/-- Without an award id it raises an error. -/
theorem finish_none {t₁ : Tables} : (finish t₁ row q bqid none f).2 = false := by
  rw [finish, withid_none]

/-- `delbusinessqueue` succeeds, and edits only the lists of the entry. -/
def Edits (t : Tables) (row : Row) (bqid : ℕ) (nextid : Option ℕ) (q : Fields) : Prop :=
  (delbusinessqueue t bqid nextid).2 = true ∧
    ∃ q', (delbusinessqueue t bqid nextid).1.queueinfo row.playerid = some q' ∧
      Finished row bqid nextid q q'

theorem edits_airfreighter (hrow : t.businessqueue bqid = some row)
    (hq : t.queueinfo row.playerid = some q) (hmem : text bqid ∈ split (q row.field))
    (htype : row.type = .airfreighter) : Edits t row bqid nextid q := by
  have hf : airfreighter row.subtype = row.field := by
    rw [Row.field, Row.column, htype]
    rfl
  unfold Edits delbusinessqueue
  simp only [hrow, htype, get_of_some hq, hf]
  exact ⟨trivial, _, queueinfo_setvalue hq, .of_write htype (split_withoutid hmem)⟩

theorem edits_cast {q : Queueinfo} (hrow : t.businessqueue bqid = some row)
    (hq : t.queueinfo row.playerid = some q.fields) (hmem : text bqid ∈ split (q.fields row.field))
    (htype : row.type = .cast) : Edits t row bqid nextid q.fields ↔ nextid.isSome = true := by
  have hf : "ingcasting".toList = row.field := by
    rw [Row.field, Row.column, htype]
    rfl
  have he : "endcasting".toList = row.endfield := by
    rw [Row.endfield, Row.finished, htype]
    rfl
  have hne : row.field ≠ row.endfield := by
    rw [← hf, ← he]
    decide
  unfold Edits delbusinessqueue
  simp only [hrow, htype, get_of_some hq, hf, he]
  cases nextid with
  | none => simp [finish_none]
  | some id =>
    obtain ⟨s, hs⟩ := q.some_of_mem (k := row.endfield) (by rw [← he]; decide)
    have hwrite : ((t.add row (some id)).setvalue row.playerid row.field
        (withoutid (q.fields row.field) bqid)).queueinfo row.playerid = some _ :=
      queueinfo_setvalue (by rw [queueinfo_add, hq])
    obtain ⟨w, hw, hok, hinfo⟩ := finish_spec bqid id hwrite hs
    exact iff_of_true ⟨hok, _, hinfo, .of_writes hne (split_withoutid hmem) hw⟩ rfl

/-- **A scan's own list is wiped**, since the list that is split is nil. -/
theorem edits_scan {q : Queueinfo} (hrow : t.businessqueue bqid = some row)
    (hq : t.queueinfo row.playerid = some q.fields) (hmem : text bqid ∈ split (q.fields row.field))
    (htype : row.type = .scan) :
    Edits t row bqid nextid q.fields ↔ nextid.isSome = true ∧ Alone row bqid q.fields := by
  have hf : "ingscan".toList = row.field := by
    rw [Row.field, Row.column, htype]
    rfl
  have he : "endscan".toList = row.endfield := by
    rw [Row.endfield, Row.finished, htype]
    rfl
  have hne : row.field ≠ row.endfield := by
    rw [← hf, ← he]
    decide
  have hscan : q.fields "scan".toList = none := q.none_of_not_mem (by decide)
  unfold Edits delbusinessqueue
  simp only [hrow, htype, get_of_some hq, hf, he, hscan]
  cases nextid with
  | none => simp [finish_none]
  | some id =>
    obtain ⟨s, hs⟩ := q.some_of_mem (k := row.endfield) (by rw [← he]; decide)
    have hwrite : ((t.add row (some id)).setvalue row.playerid row.field
        (withoutid none bqid)).queueinfo row.playerid = some _ :=
      queueinfo_setvalue (by rw [queueinfo_add, hq])
    obtain ⟨w, hw, hok, hinfo⟩ := finish_spec bqid id hwrite hs
    have hwiped : withoutid none bqid = [] := withoutid_of_not_mem (by simp [split])
    constructor
    · rintro ⟨-, q', hq', hfin⟩
      rw [hinfo] at hq'
      cases hq'
      have hremoved := hfin.removed
      rw [Function.update_of_ne hne, Function.update_self, hwiped] at hremoved
      refine ⟨rfl, (List.erase_eq_nil_iff.1 hremoved.symm).resolve_left ?_⟩
      exact List.ne_nil_of_mem hmem
    · rintro ⟨-, halone⟩
      refine ⟨hok, _, hinfo, .of_writes hne ?_ hw⟩
      rw [hwiped, halone, List.erase_cons_head]
      rfl

/-- **`delbusinessqueue` edits only the lists of the entry** just where it is a
transport, or has an award id and, for a scan, is the only one under way. -/
theorem delbusinessqueue_edits_iff (q : Queueinfo) (hrow : t.businessqueue bqid = some row)
    (hq : t.queueinfo row.playerid = some q.fields) (hmem : text bqid ∈ split (q.fields row.field)) :
    Edits t row bqid nextid q.fields ↔
      row.type = .airfreighter ∨
        nextid.isSome = true ∧ (row.type = .cast ∨ Alone row bqid q.fields) := by
  cases htype : row.type with
  | airfreighter => exact iff_of_true (edits_airfreighter hrow hq hmem htype) (Or.inl rfl)
  | scan => simpa using edits_scan hrow hq hmem htype
  | cast => simpa using edits_cast hrow hq hmem htype

/-! ## Two scans under way -/

/-- The first of two scans. -/
def scanrow : Row := ⟨3, .scan, 0, [], [], [], "0".toList, 0, 60, 60⟩

/-- A row with a value for each column. -/
def Queueinfo.of (value : Str → Str) : Queueinfo where
  fields := fun k => if queuecolumns.any (· = k) then some (value k) else none
  columns := by
    intro k
    have hany : queuecolumns.any (· = k) = true ↔ k ∈ queuecolumns := by simp
    by_cases h : k ∈ queuecolumns
    · rw [if_pos (hany.mpr h)]
      exact iff_of_true rfl h
    · rw [if_neg (hany.not.mpr h)]
      exact iff_of_false (fun h => nomatch h) h

/-- Entries 1 and 2 are scans under way, and the entry 4 is a casting. -/
def scanninginfo : Queueinfo :=
  .of fun k =>
    if k = "ingscan".toList then "1,2".toList
    else if k = "ingcasting".toList then "4".toList
    else []

def scanning : Tables where
  businessqueue := fun _ => some scanrow
  queueinfo := fun _ => some scanninginfo.fields
  awardinfo := fun _ => none
  awardid := 6

/-- The theorem at the first scan. -/
theorem scanning_edits_iff : Edits scanning scanrow 1 (some 7) scanninginfo.fields ↔
    scanrow.type = .airfreighter ∨
      (some 7).isSome = true ∧ (scanrow.type = .cast ∨ Alone scanrow 1 scanninginfo.fields) :=
  delbusinessqueue_edits_iff scanninginfo rfl rfl (by decide)

/-- **When the first scan is finished, the second one is in no list.** -/
theorem scanning_wiped : (delbusinessqueue scanning 1 (some 7)).2 = true ∧
    split (scanninginfo.fields "ingscan".toList) = ["1".toList, "2".toList] ∧
    split ((delbusinessqueue scanning 1 (some 7)).1.get 3 "ingscan".toList) = [] ∧
    ¬ Edits scanning scanrow 1 (some 7) scanninginfo.fields := by
  refine ⟨rfl, by decide, by decide, ?_⟩
  rw [edits_scan (q := scanninginfo) rfl rfl (by decide) rfl]
  decide

/-! ## The lists it works on -/

/-- The texts of a record are lists of ids. -/
def Reads (q : Fields) (info : Column → List ℕ) : Prop := ∀ c, split (q c.name) = (info c).map text

/-- `delbusinessqueue`, where no other coroutine runs meanwhile. -/
def Del.run (bqid : ℕ) (nextid : Option ℕ) : ℕ → Del → Data → Data
  | 0, _, d => d
  | n + 1, x, d =>
    match x.step bqid nextid d with
    | (some x, d) => Del.run bqid nextid n x d
    | (none, d) => d

variable {info : Column → List ℕ} {ids : List ℕ} {c c' : Column} {d : Data}

/-- Only the lanes begin as they do. -/
theorem name_head : c.name.head? = some 'a' ↔ ∃ i, c = .airfreighter i := by
  cases c with
  | airfreighter i => exact iff_of_true rfl ⟨i, rfl⟩
  | _ => exact iff_of_false (by decide) (fun ⟨_, h⟩ => nomatch h)

/-- No two lists have one name. -/
theorem name_injective : Function.Injective Column.name := by
  intro c c' h
  by_cases hair : c.name.head? = some 'a'
  · obtain ⟨i, rfl⟩ := name_head.1 hair
    obtain ⟨j, rfl⟩ := name_head.1 (h ▸ hair)
    exact congrArg Column.airfreighter (text_injective (List.append_cancel_left h))
  · have hair' : ¬ c'.name.head? = some 'a' := h ▸ hair
    cases c <;> cases c' <;>
      first
      | rfl
      | exact absurd h (by decide)
      | exact absurd (name_head.2 ⟨_, rfl⟩) hair
      | exact absurd (name_head.2 ⟨_, rfl⟩) hair'

theorem Reads.update (h : Reads q info) (hv : splitComma v = ids.map text) :
    Reads (Function.update q c.name (some v)) (Function.update info c ids) := by
  intro c'
  by_cases hc : c' = c
  · subst hc
    rw [Function.update_self, Function.update_self]
    exact hv
  · rw [Function.update_of_ne hc, Function.update_of_ne (name_injective.ne hc)]
    exact h c'

/-- What is taken out of a text is taken out of its list. -/
theorem split_remove_array (s : Option Str) (ids : List ℕ) (h : split s = ids.map text) :
    splitComma (withoutid s bqid) = (remove_array ids bqid).map text := by
  unfold remove_array
  by_cases hmem : bqid ∈ ids
  · rw [if_pos hmem, List.map_erase text_injective, ← h]
    exact split_withoutid (h ▸ List.mem_map_of_mem hmem)
  · have hnot : text bqid ∉ split s := by
      rw [h, List.mem_map_of_injective text_injective]
      exact hmem
    rw [if_neg hmem, withoutid_of_not_mem hnot]
    rfl

/-- A write to a row, on the lists. -/
theorem queueinfo_update : (d.setvalue uid c ids).queueinfo uid =
    Function.update (d.queueinfo uid) c ids := by
  funext c'
  by_cases hc : c' = c
  · subst hc
    simp [setvalue_queueinfo]
  · simp [setvalue_queueinfo, hc]

/-- What the coroutine takes an id out of. -/
def Row.listed (row : Row) (info : Column → List ℕ) : List ℕ :=
  match row.type with
  | .scan => []
  | .airfreighter | .cast => info row.column

/-- The lists when the entry is out. -/
def removed (row : Row) (bqid : ℕ) (info : Column → List ℕ) : Column → List ℕ :=
  Function.update info row.column (remove_array (row.listed info) bqid)

theorem run_airfreighter (hd : d.rows bqid = some row) (htype : row.type = .airfreighter) :
    (Del.run bqid nextid 6 .get d).queueinfo row.playerid =
      removed row bqid (d.queueinfo row.playerid) := by
  simp [Del.run, Del.step, hd, htype, queueinfo_update, removed, Row.listed, Row.column]

/-- The lists when the award id is in its own, where there is one. -/
def awarded (row : Row) (nextid : Option ℕ) (info info' : Column → List ℕ) : Column → List ℕ :=
  match nextid with
  | none => info'
  | some id => Function.update info' row.finished (info row.finished ++ [id])

theorem run_finishes (hd : d.rows bqid = some row) (htype : row.type ≠ .airfreighter) :
    (Del.run bqid nextid 6 .get d).queueinfo row.playerid =
      awarded row nextid (d.queueinfo row.playerid) (removed row bqid (d.queueinfo row.playerid)) := by
  cases htype' : row.type with
  | airfreighter => exact absurd htype' htype
  | _ =>
    cases nextid with
    | none =>
      simp [Del.run, Del.step, hd, htype', queueinfo_update, removed, awarded, Row.listed, Row.column]
    | some id =>
      simp [Del.run, Del.step, hd, htype', queueinfo_update, removed, awarded, Row.listed, Row.column,
        Row.finished]

/-- `finish` does to the texts what the coroutine does to the lists. -/
theorem finish_reads {t₁ : Tables} {info' : Column → List ℕ}
    (hq' : t₁.queueinfo row.playerid = some q') (h' : Reads q' info') (h : Reads q info) {s : Str}
    (hs : q row.endfield = some s) :
    ∃ q'', (finish t₁ row q bqid nextid row.endfield).1.queueinfo row.playerid = some q'' ∧
      Reads q'' (awarded row nextid info info') := by
  cases nextid with
  | none =>
    rw [finish, withid_none]
    exact ⟨q', hq', h'⟩
  | some id =>
    obtain ⟨w, hw, -, hinfo⟩ := finish_spec bqid id hq' hs
    refine ⟨_, hinfo, h'.update ?_⟩
    rw [hw, Row.endfield, h row.finished, List.map_append]
    rfl

/-- **The texts stand for the lists of the coroutine** before and after. -/
theorem delbusinessqueue_reads (q : Queueinfo) (hrow : t.businessqueue bqid = some row)
    (hq : t.queueinfo row.playerid = some q.fields) (hd : d.rows bqid = some row)
    (h : Reads q.fields (d.queueinfo row.playerid)) :
    ∃ q', (delbusinessqueue t bqid nextid).1.queueinfo row.playerid = some q' ∧
      Reads q' ((Del.run bqid nextid 6 .get d).queueinfo row.playerid) := by
  have hscan : split (q.fields "scan".toList) = ([] : List ℕ).map text := by
    rw [q.none_of_not_mem (by decide)]
    rfl
  unfold delbusinessqueue
  cases htype : row.type with
  | airfreighter =>
    have hf : airfreighter row.subtype = row.column.name := by rw [Row.column, htype]; rfl
    simp only [hrow, htype, get_of_some hq, hf, run_airfreighter hd htype, removed, Row.listed]
    exact ⟨_, queueinfo_setvalue hq, h.update (split_remove_array _ _ (h row.column))⟩
  | cast =>
    have hf : "ingcasting".toList = row.column.name := by rw [Row.column, htype]; rfl
    have he : "endcasting".toList = row.endfield := by rw [Row.endfield, Row.finished, htype]; rfl
    obtain ⟨s, hs⟩ := q.some_of_mem (k := row.endfield) (by rw [← he]; decide)
    have hremoved : Reads _ (removed row bqid (d.queueinfo row.playerid)) :=
      h.update (split_remove_array (q.fields row.column.name) (row.listed _) (by
        rw [Row.listed, htype]
        exact h row.column))
    simp only [hrow, htype, get_of_some hq, hf, he, run_finishes hd (by rw [htype]; decide)]
    exact finish_reads (queueinfo_setvalue (by rw [queueinfo_add, hq])) hremoved h hs
  | scan =>
    have hf : "ingscan".toList = row.column.name := by rw [Row.column, htype]; rfl
    have he : "endscan".toList = row.endfield := by rw [Row.endfield, Row.finished, htype]; rfl
    obtain ⟨s, hs⟩ := q.some_of_mem (k := row.endfield) (by rw [← he]; decide)
    have hremoved : Reads _ (removed row bqid (d.queueinfo row.playerid)) :=
      h.update (split_remove_array (q.fields "scan".toList) (row.listed _) (by
        rw [Row.listed, htype]
        exact hscan))
    simp only [hrow, htype, get_of_some hq, hf, he, run_finishes hd (by rw [htype]; decide)]
    exact finish_reads (queueinfo_setvalue (by rw [queueinfo_add, hq])) hremoved h hs

end Queue

end Athena
