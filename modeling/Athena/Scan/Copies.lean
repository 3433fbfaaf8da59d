import Athena.Scan.Model
/-!
# Blueprints — the copies in a list

How many copies of a blueprint a list has, whether its entries have
positive numbers, and whether it has one entry for each of some keys: what
`addnumber`, `remove_number` and `change_blueprint` do to these.
-/

namespace Athena

namespace Scan

open Lua (Str)

variable {l pre post : List Entry} {e e' : Entry} {id : Str} {name : Option Str} {n : ℤ}
  {key k : ℕ} {f : Entry → Entry} {proj : Entry → Option ℕ} {live live' : ℕ → Prop}

/-- The copies of a blueprint in a list. -/
def copies (id : Str) (l : List Entry) : ℤ := (l.map fun e => if e.id = id then e.number else 0).sum

/-- Every entry has a positive number. -/
def Positive (l : List Entry) : Prop := ∀ e ∈ l, 0 < e.number

/-- **One entry for each key**, and none for anything else. -/
structure Each (proj : Entry → Option ℕ) (live : ℕ → Prop) (l : List Entry) : Prop where
  entry : ∀ e ∈ l, ∃ k, proj e = some k ∧ live k
  one : ∀ k, live k → (l.countP fun e => proj e = some k) = 1

@[simp] theorem copies_nil : copies id [] = 0 := rfl

@[simp] theorem copies_cons :
    copies id (e :: l) = (if e.id = id then e.number else 0) + copies id l := by
  simp [copies]

@[simp] theorem copies_append : copies id (pre ++ post) = copies id pre + copies id post := by
  simp [copies]

@[simp] theorem positive_nil : Positive [] := fun _ h => absurd h (by simp)

@[simp] theorem positive_cons : Positive (e :: l) ↔ 0 < e.number ∧ Positive l := by
  simp [Positive]

@[simp] theorem positive_append : Positive (pre ++ post) ↔ Positive pre ∧ Positive post := by
  simp [Positive, or_imp, forall_and]

/-- **A list at one of its entries**, and what becomes of it there. -/
theorem split_at (h : l[key]? = some e) : ∃ pre post, l = pre ++ e :: post ∧
    l.eraseIdx key = pre ++ post ∧ ∀ f, l.modify key f = pre ++ f e :: post := by
  obtain ⟨hlt, hget⟩ := List.getElem?_eq_some_iff.mp h
  refine ⟨l.take key, l.drop (key + 1), ?_, l.eraseIdx_eq_take_drop_succ key, fun f => ?_⟩
  · rw [← hget, ← List.drop_eq_getElem_cons hlt, List.take_append_drop]
  · rw [List.modify_eq_take_cons_drop hlt, hget]

theorem eraseIdx_modify (h : key < l.length) : (l.modify key f).eraseIdx key = l.eraseIdx key := by
  have hlen : (l.take key).length = key := List.length_take_of_le h.le
  rw [List.modify_eq_take_cons_drop h, List.eraseIdx_eq_take_drop_succ l,
    List.eraseIdx_append_of_length_le hlen.le, hlen]
  simp

/-! ## get_blueprint -/

theorem get_blueprint_some {id : Option Str} (h : get_blueprint id l name (some k) = some key) :
    ∃ e, l[key]? = some e ∧ (e.bqid = some k ∨ e.awardid = some k) := by
  obtain ⟨hlt, hp, -⟩ := List.findIdx?_eq_some_iff_getElem.mp h
  exact ⟨l[key], List.getElem?_eq_getElem hlt, of_decide_eq_true hp⟩

theorem get_blueprint_none {id : Option Str} (h : get_blueprint id l name (some k) = none) :
    ∀ e ∈ l, e.bqid ≠ some k ∧ e.awardid ≠ some k := by
  intro e he
  have hp := List.findIdx?_eq_none_iff.mp h e he
  exact not_or.mp (of_decide_eq_false hp)

theorem get_blueprint_id (h : get_blueprint (some id) l name none = some key) :
    ∃ e, l[key]? = some e ∧ e.id = id ∧ e.name = name := by
  obtain ⟨hlt, hp, -⟩ := List.findIdx?_eq_some_iff_getElem.mp h
  obtain ⟨hid, hname⟩ := of_decide_eq_true hp
  exact ⟨l[key], List.getElem?_eq_getElem hlt, Option.some.inj hid, hname⟩

/-- An entry with the key is found. -/
theorem exists_get_blueprint (id name : Option Str) (he : e ∈ l)
    (hk : e.bqid = some k ∨ e.awardid = some k) : ∃ key, get_blueprint id l name (some k) = some key := by
  by_contra hnone
  have h : get_blueprint id l name (some k) = none := by
    cases hget : get_blueprint id l name (some k) with
    | none => rfl
    | some key => exact absurd ⟨key, hget⟩ hnone
  obtain ⟨h1, h2⟩ := get_blueprint_none h e he
  exact hk.elim h1 h2

/-! ## Numbers -/

theorem copies_addnumber (h : l[key]? = some e) :
    copies id (addnumber l key n) = copies id l + if e.id = id then n else 0 := by
  obtain ⟨pre, post, rfl, -, hmod⟩ := split_at h
  rw [addnumber, hmod]
  simp only [copies_append, copies_cons]
  split <;> omega

theorem positive_addnumber (h : l[key]? = some e) (hl : Positive l) (hn : 0 < e.number + n) :
    Positive (addnumber l key n) := by
  obtain ⟨pre, post, rfl, -, hmod⟩ := split_at h
  rw [addnumber, hmod]
  simp only [positive_append, positive_cons] at hl ⊢
  exact ⟨hl.1, hn, hl.2.2⟩

/-- Copies that are there are taken. -/
theorem remove_number_eq (h : l[key]? = some e) (hn : n ≤ e.number) :
    remove_number l key n = if n < e.number then addnumber l key (-n) else l.eraseIdx key := by
  simp only [remove_number, h]
  split
  · rfl
  · rw [if_pos (by omega)]

theorem copies_remove_number (h : l[key]? = some e) (hn : n ≤ e.number) :
    copies id (remove_number l key n) = copies id l - if e.id = id then n else 0 := by
  rw [remove_number_eq h hn]
  split
  · rw [copies_addnumber h]
    split <;> omega
  · obtain ⟨pre, post, rfl, herase, -⟩ := split_at h
    rw [herase]
    simp only [copies_append, copies_cons]
    split <;> omega

theorem positive_eraseIdx (hl : Positive l) : Positive (l.eraseIdx key) :=
  fun e he => hl e (List.mem_of_mem_eraseIdx he)

theorem positive_remove_number (h : l[key]? = some e) (hl : Positive l) (hn : n ≤ e.number) :
    Positive (remove_number l key n) := by
  rw [remove_number_eq h hn]
  split
  · exact positive_addnumber h hl (by omega)
  · exact positive_eraseIdx hl

/-- **An entry taken in two parts is gone.** When the first part is all of it, the
second takes nothing from the entry that comes to its place. -/
theorem remove_number_remove_number (h : l[key]? = some e) (hl : Positive l) (hn : n ≤ e.number) :
    remove_number (remove_number l key n) key (e.number - n) = l.eraseIdx key := by
  have hlt := (List.getElem?_eq_some_iff.mp h).1
  rw [remove_number_eq h hn]
  split
  · have h' : (addnumber l key (-n))[key]? = some { e with number := e.number + -n } := by
      rw [addnumber, List.getElem?_modify_eq, h]
      rfl
    rw [remove_number_eq h' (by simp), if_neg (by simp), addnumber, eraseIdx_modify hlt]
  · have hzero : e.number - n = 0 := by omega
    rw [hzero]
    unfold remove_number
    cases hnext : (l.eraseIdx key)[key]? with
    | none => rfl
    | some d =>
      have hd : 0 < d.number := positive_eraseIdx hl d (List.mem_of_getElem? hnext)
      simp only [hd, if_true]
      obtain ⟨pre, post, heq, -, hmod⟩ := split_at hnext
      rw [addnumber, hmod, heq]
      simp

theorem copies_change_blueprint {id' : Str} :
    copies id' (change_blueprint id name l n .normal) = copies id' l + if id = id' then n else 0 := by
  unfold change_blueprint
  split
  · simp [Into.entry]
  · rename_i key hkey
    obtain ⟨e, he, rfl, -⟩ := get_blueprint_id hkey
    exact copies_addnumber he

/-- The number of the entry that is found, which is nothing where none is. -/
def numberof (l : List Entry) (id : Str) (name : Option Str) : ℤ :=
  match get_blueprint (some id) l name none with
  | some key => ((l[key]?).map Entry.number).getD 0
  | none => 0

theorem numberof_eq (h : get_blueprint (some id) l name none = some key) (he : l[key]? = some e) :
    numberof l id name = e.number := by
  simp [numberof, h, he]

theorem numberof_pos (hl : Positive l) (h : (get_blueprint (some id) l name none).isSome) :
    0 < numberof l id name := by
  obtain ⟨key, hkey⟩ := Option.isSome_iff_exists.mp h
  obtain ⟨e, he, -⟩ := get_blueprint_id hkey
  rw [numberof_eq hkey he]
  exact hl e (List.mem_of_getElem? he)

theorem numberof_nonneg (hl : Positive l) : 0 ≤ numberof l id name := by
  cases h : get_blueprint (some id) l name none with
  | none => simp [numberof, h]
  | some key => exact (numberof_pos hl (by simp [h])).le

theorem positive_change_blueprint (hl : Positive l) (hn : 0 < numberof l id name + n) :
    Positive (change_blueprint id name l n .normal) := by
  unfold change_blueprint
  split
  · rename_i hnone
    have hnone' : get_blueprint (some id) l name none = none := hnone
    rw [numberof, hnone'] at hn
    simpa [Into.entry, hl] using hn
  · rename_i key hkey
    obtain ⟨e, he, -, -⟩ := get_blueprint_id hkey
    rw [numberof_eq hkey he] at hn
    exact positive_addnumber he hl hn

/-! ## Keys -/

theorem Each.congr (h : Each proj live l) (hlive : ∀ k, live k ↔ live' k) : Each proj live' l where
  entry e he := by
    obtain ⟨k, hk, hl⟩ := h.entry e he
    exact ⟨k, hk, (hlive k).mp hl⟩
  one k hk := h.one k ((hlive k).mpr hk)

/-- A new entry for a new key. -/
theorem Each.append (h : Each proj live l) (hk : ¬ live k) (he : proj e = some k) :
    Each proj (fun j => live j ∨ j = k) (l ++ [e]) where
  entry d hd := by
    rcases List.mem_append.mp hd with hd | hd
    · obtain ⟨j, hj, hl⟩ := h.entry d hd
      exact ⟨j, hj, Or.inl hl⟩
    · rw [List.mem_singleton.mp hd]
      exact ⟨k, he, Or.inr rfl⟩
  one j hj := by
    rw [List.countP_append, List.countP_singleton]
    by_cases hjk : j = k
    · subst hjk
      have hzero : (l.countP fun e => proj e = some j) = 0 := by
        rw [List.countP_eq_zero]
        intro d hd hdj
        obtain ⟨i, hi, hl⟩ := h.entry d hd
        rw [of_decide_eq_true hdj] at hi
        exact hk (Option.some.inj hi ▸ hl)
      simp [hzero, he]
    · have hne : proj e ≠ some j := by
        rw [he]
        exact fun heq => hjk (Option.some.inj heq).symm
      simpa [hne] using h.one j (hj.resolve_right hjk)

/-- The entry of a key goes. -/
theorem Each.erase (h : Each proj live (pre ++ e :: post)) (he : proj e = some k) :
    Each proj (fun j => live j ∧ j ≠ k) (pre ++ post) := by
  have hlive : live k := by
    obtain ⟨j, hj, hl⟩ := h.entry e (by simp)
    rw [he] at hj
    exact Option.some.inj hj ▸ hl
  have hone := h.one k hlive
  simp only [List.countP_append, List.countP_cons, he, decide_true, if_true] at hone
  refine ⟨fun d hd => ?_, fun j hj => ?_⟩
  · have hmem : d ∈ pre ++ e :: post := by
      rcases List.mem_append.mp hd with hd | hd <;> simp [hd]
    obtain ⟨j, hj, hl⟩ := h.entry d hmem
    refine ⟨j, hj, hl, ?_⟩
    rintro rfl
    have hpos : 0 < (pre ++ post).countP fun e => proj e = some j :=
      List.countP_pos_iff.mpr ⟨d, hd, by simpa using hj⟩
    rw [List.countP_append] at hpos
    omega
  · have hj' := h.one j hj.1
    have hne : proj e ≠ some j := by
      rw [he]
      exact fun heq => hj.2 (Option.some.inj heq).symm
    simpa [List.countP_append, List.countP_cons, hne] using hj'

/-- The other entries have other keys. -/
theorem Each.others (h : Each proj live (pre ++ e :: post)) (he : proj e = some k) :
    ∀ d ∈ pre ++ post, proj d ≠ some k := by
  intro d hd hdk
  obtain ⟨j, hj, -, hne⟩ := (h.erase he).entry d hd
  exact hne (Option.some.inj (hj.symm.trans hdk))

theorem Each.filter_eq {p : Entry → Bool} (h : Each proj live (pre ++ e :: post))
    (he : proj e = some k) (hp : p e = true)
    (hother : ∀ d ∈ pre ++ post, proj d ≠ some k → p d = false) :
    (pre ++ e :: post).filter p = [e] := by
  have hno : ∀ d ∈ pre ++ post, ¬ p d = true := fun d hd => by
    rw [hother d hd (h.others he d hd)]
    exact Bool.false_ne_true
  have hpre : pre.filter p = [] :=
    List.filter_eq_nil_iff.mpr fun d hd => hno d (List.mem_append_left _ hd)
  have hpost : post.filter p = [] :=
    List.filter_eq_nil_iff.mpr fun d hd => hno d (List.mem_append_right _ hd)
  rw [List.filter_append, List.filter_cons, if_pos hp, hpre, hpost, List.nil_append]

/-- An entry changes, but not in its key. -/
theorem Each.modify (h : Each proj live (pre ++ e :: post)) (he : proj e' = proj e) :
    Each proj live (pre ++ e' :: post) where
  entry d hd := by
    rcases List.mem_append.mp hd with hd | hd
    · exact h.entry d (by simp [hd])
    · rcases List.mem_cons.mp hd with rfl | hd
      · rw [he]
        exact h.entry e (by simp)
      · exact h.entry d (by simp [hd])
  one j hj := by
    have := h.one j hj
    simpa [List.countP_append, List.countP_cons, he] using this

end Scan

end Athena
