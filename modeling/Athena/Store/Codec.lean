import Athena.Store.Model
/-!
# The data services — the encoding in redis

Redis keeps texts. On the way back `isnumber` makes a number of every
short text of digits, dots and dashes, whatever the column is, and
`convert_record` makes a number of what a number column has. A row comes
back as it was where no string of it looks like a number and every
number of it reads back from its text; where `convert_record` is left
out, a number must also look like one to `isnumber`.
-/

namespace Athena

namespace Store

open Lua

variable {sch : Schema} {row : Row} {k : Str}

/-- The kind of column a value belongs to. -/
def kindOf : Value → Option Kind
  | .num _ => some .number
  | .str _ => some .string
  | .bool _ => none

/-- **A row of the table's types.** -/
def Typed (sch : Schema) (row : Row) : Prop :=
  ∀ e ∈ row.entries, kindOf e.2 = sch.fields e.1 ∧ (kindOf e.2).isSome

/-- What a hash of a row gives `make_pairs_table`. -/
def rawBack (row : Row) : Row := makePairsTable ∅ (flatten (wireRow row))

/-- What it gives `convert_record` after that. -/
def readBack (sch : Schema) (row : Row) : Row := convertRecord sch (rawBack row)

/-- A text `isnumber` takes for a string: it is empty, or longer than
twelve bytes, or has a byte that is no digit, dot or dash. -/
def Textual (s : Str) : Prop :=
  s = [] ∨ 12 < s.length ∨
    (s.any fun c => (c < '0' || '9' < c) && (c ≠ '.' && c ≠ '-')) = true

/-- **A value the cache returns** through `convert_record`. -/
def CacheSafe : Value → Prop
  | .str s => Textual s
  | .num n => Lua.tonumber (tostring n) = some n
  | .bool _ => False

/-- A value the cache returns without `convert_record`. -/
def RawSafe : Value → Prop
  | .num n => ¬ Textual (tostring n) ∧ CacheSafe (.num n)
  | v => CacheSafe v

instance (s : Str) : Decidable (Textual s) := inferInstanceAs (Decidable (_ ∨ _ ∨ _))

instance : DecidablePred CacheSafe
  | .str s => inferInstanceAs (Decidable (Textual s))
  | .num n => inferInstanceAs (Decidable (Lua.tonumber (tostring n) = some n))
  | .bool _ => inferInstanceAs (Decidable False)

instance (sch : Schema) (row : Row) : Decidable (Typed sch row) :=
  inferInstanceAs (Decidable (∀ e ∈ row.entries, _))

/-! ## Single values -/

theorem isnumber_of_textual {s : Str} (h : Textual s) : isnumber s = some (.str s) := by
  unfold isnumber
  split_ifs with h1 h2
  · rfl
  · rfl
  · rcases h with h | h | h
    · exact absurd (Or.inl h) h1
    · exact absurd (Or.inr h) h1
    · exact absurd h h2

theorem isnumber_of_not_textual {s : Str} (h : ¬ Textual s) :
    isnumber s = (Lua.tonumber s).map Value.num := by
  unfold isnumber
  split_ifs with h1 h2
  · exact absurd (h1.imp id Or.inl) h
  · exact absurd (Or.inr (Or.inr h2)) h
  · rfl

/-- A string comes back where `isnumber` takes it for one. -/
theorem isnumber_str_iff {s : Str} : isnumber s = some (.str s) ↔ Textual s := by
  refine ⟨fun h => ?_, isnumber_of_textual⟩
  by_contra hno
  rw [isnumber_of_not_textual hno] at h
  obtain ⟨n, -, hn⟩ := Option.map_eq_some_iff.mp h
  cases hn

/-- A number comes back alone where its text also looks like one. -/
theorem isnumber_num_iff {n : Number} : isnumber (tostring n) = some (.num n) ↔ RawSafe (.num n) := by
  by_cases ho : Textual (tostring n)
  · simp [isnumber_of_textual ho, RawSafe, ho]
  · simp [isnumber_of_not_textual ho, RawSafe, CacheSafe, ho]

/-- What `convert_record` makes of the text of a number. -/
theorem tonumber_isnumber (s : Str) : (isnumber s).bind Value.tonumber = Lua.tonumber s := by
  by_cases ho : Textual s
  · rw [isnumber_of_textual ho]
    rfl
  · rw [isnumber_of_not_textual ho]
    cases Lua.tonumber s <;> rfl

/-- Without `convert_record` a value of a column comes back where it is
raw safe. -/
theorem isnumber_wire_iff {v : Value} (h : (kindOf v).isSome) :
    isnumber v.wire = some v ↔ RawSafe v := by
  cases v with
  | str s => exact isnumber_str_iff
  | num n => exact isnumber_num_iff
  | bool b => cases h

/-! ## Rows -/

/-- A loop over the fields of a hash. -/
theorem lookup_makePairsTable_flatMap (data : Row) (l : List (Sigma fun _ : Str => Str))
    (hl : l.NodupKeys) :
    (makePairsTable data (l.flatMap fun e => [e.1, e.2])).lookup k =
      if k ∈ l.keys then (l.dlookup k).bind isnumber else data.lookup k := by
  induction l generalizing data with
  | nil => simp [makePairsTable]
  | cons e l ih =>
    obtain ⟨k', v⟩ := e
    obtain ⟨hnot, hl'⟩ := List.nodupKeys_cons.mp hl
    simp only [List.flatMap_cons, List.cons_append, List.nil_append, makePairsTable]
    rw [ih _ hl', Table.lookup_set]
    by_cases hk : k = k'
    · subst hk
      rw [if_neg hnot]
      simp
    · rw [if_neg hk, List.dlookup_cons_ne _ _ hk]
      simp [hk]

theorem lookup_makePairsTable (h : Table Str) :
    (makePairsTable ∅ (flatten h)).lookup k = (h.lookup k).bind isnumber := by
  rw [flatten, lookup_makePairsTable_flatMap _ _ h.nodupKeys]
  split_ifs with hk
  · rfl
  · have hk : h.lookup k = none := AList.lookup_eq_none.mpr hk
    simp [hk]

@[simp] theorem lookup_wireRow : (wireRow row).lookup k = (row.lookup k).map Value.wire := by
  rw [wireRow, Table.lookup_mapValues]
  cases row.lookup k <;> rfl

theorem lookup_rawBack : (rawBack row).lookup k = (row.lookup k).bind fun v => isnumber v.wire := by
  rw [rawBack, lookup_makePairsTable, lookup_wireRow]
  cases row.lookup k <;> rfl

theorem lookup_convertRecord {record : Row} :
    (convertRecord sch record).lookup k = (record.lookup k).bind fun v =>
      if sch.fields k = some .number then v.tonumber.map Value.num else some v := by
  simp [convertRecord]

theorem Typed.of_lookup (h : Typed sch row) {v : Value} (hv : row.lookup k = some v) :
    kindOf v = sch.fields k ∧ (kindOf v).isSome :=
  h ⟨k, v⟩ (AList.mem_lookup_iff.mp hv)

/-- A field of a row that has the table's types, read back. -/
theorem lookup_readBack (h : Typed sch row) {v : Value} (hv : row.lookup k = some v) :
    (readBack sch row).lookup k = some v ↔ CacheSafe v := by
  obtain ⟨hkind, hsome⟩ := h.of_lookup hv
  rw [readBack, lookup_convertRecord, lookup_rawBack, hv, Option.bind_some]
  cases v with
  | bool b => cases hsome
  | str s =>
    have hstr : sch.fields k ≠ some .number := by
      rw [← hkind]
      simp [kindOf]
    simp only [hstr, if_false, Option.bind_fun_some]
    exact isnumber_str_iff
  | num n =>
    have hnum : sch.fields k = some .number := hkind.symm
    have htext := tonumber_isnumber (tostring n)
    simp only [hnum, if_true, Value.wire, CacheSafe]
    rw [← htext]
    cases isnumber (tostring n) <;> simp

/-- **Which rows come back from the cache.** -/
theorem readBack_same_iff (h : Typed sch row) :
    Table.Same (readBack sch row) row ↔ ∀ e ∈ row.entries, CacheSafe e.2 := by
  constructor
  · intro hsame e he
    have hv : row.lookup e.1 = some e.2 := AList.mem_lookup_iff.mpr he
    exact (lookup_readBack h hv).mp ((hsame e.1).trans hv)
  · intro hsafe k
    cases hv : row.lookup k with
    | some v => exact (lookup_readBack h hv).mpr (hsafe ⟨k, v⟩ (AList.mem_lookup_iff.mp hv))
    | none => rw [readBack, lookup_convertRecord, lookup_rawBack, hv]; rfl

/-- **Which rows come back without `convert_record`.** -/
theorem rawBack_same_iff (h : Typed sch row) :
    Table.Same (rawBack row) row ↔ ∀ e ∈ row.entries, RawSafe e.2 := by
  constructor
  · intro hsame e he
    have hv : row.lookup e.1 = some e.2 := AList.mem_lookup_iff.mpr he
    have := hsame e.1
    rw [lookup_rawBack, hv, Option.bind_some] at this
    exact (isnumber_wire_iff (h e he).2).mp this
  · intro hsafe k
    rw [lookup_rawBack]
    cases hv : row.lookup k with
    | some v =>
      rw [Option.bind_some]
      exact (isnumber_wire_iff (h.of_lookup hv).2).mpr (hsafe ⟨k, v⟩ (AList.mem_lookup_iff.mp hv))
    | none => rfl

/-- Where a row is the table's types, `convert_record` changes nothing. -/
theorem convertRecord_same (h : Typed sch row) : Table.Same (convertRecord sch row) row := by
  intro k
  rw [lookup_convertRecord]
  cases hv : row.lookup k with
  | none => rfl
  | some v =>
    obtain ⟨hkind, hsome⟩ := h.of_lookup hv
    cases v with
    | bool b => cases hsome
    | str s => simp [← hkind, kindOf]
    | num n => simp [← hkind, kindOf, Value.tonumber]

/-- A field with a whole number is never lost. -/
theorem rawBack_ne_nil {i : Int64} (h : row.lookup k = some (.num (.int i))) :
    (rawBack row).entries ≠ [] := by
  intro hnil
  have hnone : (rawBack row).lookup k = none := by simp [AList.lookup, hnil]
  rw [lookup_rawBack, h, Option.bind_some, Value.wire] at hnone
  have htext := tonumber_isnumber (tostring (.int i))
  rw [hnone, tonumber_tostring_int] at htext
  cases htext

/-- A key that is a number is a field of the row. -/
theorem lookup_of_makeRediskey {key : Str} {n : Number}
    (h : makeRediskey row key = .ok (some (.num n))) : ∃ f, row.lookup f = some (.num n) := by
  unfold makeRediskey at h
  split at h
  · simp at h
  · rename_i f fs _
    rcases List.eq_nil_or_concat fs with rfl | ⟨fs, g, rfl⟩
    · exact ⟨f, Except.ok.inj h⟩
    · -- the last step makes a string
      exfalso
      rw [List.concat_eq_append, List.foldlM_append] at h
      generalize fs.foldlM (appendKey row) (row.lookup f) = x at h
      cases x with
      | error e => simp [bind, Except.bind] at h
      | ok x =>
        simp only [bind, Except.bind, List.foldlM_cons, List.foldlM_nil, pure, Except.pure,
          appendKey] at h
        cases hx : textOf x with
        | error e => simp [hx] at h
        | ok a =>
          cases hg : textOf (row.lookup g) with
          | error e => simp [hx, hg] at h
          | ok b => simp [hx, hg] at h

/-- Rows with the same values have the same keys. -/
theorem makeRediskey_congr {r r' : Row} (h : Table.Same r r') (key : Str) :
    makeRediskey r key = makeRediskey r' key := by
  have hl : ∀ f, r.lookup f = r'.lookup f := h
  have happ : appendKey r = appendKey r' := by
    funext x f
    simp only [appendKey, hl]
  simp only [makeRediskey, happ, hl]

end Store

end Athena
