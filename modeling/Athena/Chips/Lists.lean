import Athena.Chips.Model
import Athena.Common.Tally
import Mathlib.Tactic.Linarith
/-!
# Chips — the lists

How many chips of an id a list has, and which chips it says are fitted to an
equipment: what taking a chip out of a list and putting it into another does to
these.
-/

namespace Athena

namespace Chips

variable {l inchip info : List Chip} {c d : Chip} {id id' level islock n r part uniqueid : ℤ} {key : ℕ}
  {w : ℤ → ℤ → ℤ}

/-- How many chips an entry has of an id; a fitted chip is one. -/
def held (id : ℤ) (c : Chip) : ℤ := if c.id = id then c.number.getD 1 else 0

/-- What an entry weighs, where a chip weighs what its id and its level say. -/
def weigh (w : ℤ → ℤ → ℤ) (c : Chip) : ℤ := w c.id c.level * c.number.getD 1

theorem held_eq_weigh (id : ℤ) : held id = weigh fun id' _ => if id' = id then 1 else 0 := by
  funext c
  simp [held, weigh]

/-- **The chips a list says are fitted** under a record: id, level and lock. -/
def listed (r : ℤ) (c : Chip) : Multiset (ℤ × ℤ × Option ℤ) :=
  if c.record = some r then {(c.id, c.level, some c.islock)} else 0

/-- Entries that are not fitted have positive numbers. -/
def Numbered (l : List Chip) : Prop := ∀ c ∈ l, ∃ n, c.number = some n ∧ 0 < n

/-! ## Finding a chip -/

theorem get_chip_some {lv : Option ℤ} (h : get_chip id l lv islock none = some key) :
    ∃ c, l[key]? = some c ∧ c.id = id ∧ some c.level = lv ∧ c.islock = islock := by
  obtain ⟨hlt, hp, -⟩ := List.findIdx?_eq_some_iff_getElem.mp h
  obtain ⟨h1, h2, h3⟩ := of_decide_eq_true hp
  exact ⟨l[key], List.getElem?_eq_getElem hlt, h1, h2, h3.symm⟩

theorem get_chip_isSome (hc : c ∈ l) : (get_chip c.id l (some c.level) c.islock none).isSome := by
  rw [get_chip, List.findIdx?_isSome, List.any_eq_true]
  exact ⟨c, hc, by simp⟩

/-- Without a chip of the id under the record none is found. -/
theorem get_chip_fitted_none {lv : Option ℤ}
    (h : ∀ c ∈ l, c.record = some (recordof part uniqueid) → c.id ≠ id) :
    get_chip id l lv islock (some (uniqueid, part)) = none := by
  rw [get_chip, List.findIdx?_eq_none_iff]
  intro c hc
  rw [decide_eq_false_iff_not]
  rintro ⟨hr, -, hid⟩
  exact h c hc hr hid.symm

theorem get_chip_inchip_some {lock : Option ℤ} (h : get_chip_inchip id l r lock = some key) :
    ∃ c, l[key]? = some c ∧ c.id = id ∧ c.record = some r ∧ lock = some c.islock := by
  obtain ⟨hlt, hp, -⟩ := List.findIdx?_eq_some_iff_getElem.mp h
  obtain ⟨h1, h2, h3⟩ := of_decide_eq_true hp
  exact ⟨l[key], List.getElem?_eq_getElem hlt, h1, h2, h3⟩

theorem get_chip_inchip_isSome (hc : c ∈ l) (hr : c.record = some r) :
    (get_chip_inchip c.id l r (some c.islock)).isSome := by
  rw [get_chip_inchip, List.findIdx?_isSome, List.any_eq_true]
  exact ⟨c, hc, by simp [hr]⟩

theorem mem_listed {x : ℤ × ℤ × Option ℤ} :
    x ∈ tally (listed r) l ↔ ∃ c ∈ l, c.record = some r ∧ x = (c.id, c.level, some c.islock) := by
  rw [mem_tally]
  refine exists_congr fun c => and_congr_right fun _ => ?_
  unfold listed
  split
  · rename_i h
    simp [h]
  · rename_i h
    simp [h]

/-! ## Entries that are not fitted -/

theorem Numbered.append (hl : Numbered l) (hn : 0 < n) :
    Numbered (l ++ [⟨id, level, islock, some n, none⟩]) := by
  intro c hc
  rcases List.mem_append.mp hc with hc | hc
  · exact hl c hc
  · rw [List.mem_singleton.mp hc]
    exact ⟨n, rfl, hn⟩

theorem Numbered.eraseIdx (hl : Numbered l) : Numbered (l.eraseIdx key) :=
  fun c hc => hl c (List.mem_of_mem_eraseIdx hc)

theorem mem_modify {g : Chip → Chip} (h : l[key]? = some c) (hd : d ∈ l.modify key g) :
    d ∈ l ∨ d = g c := by
  obtain ⟨hlt, hget⟩ := List.getElem?_eq_some_iff.mp h
  rw [List.modify_eq_take_cons_drop hlt, hget] at hd
  rcases List.mem_append.mp hd with hd | hd
  · exact Or.inl (List.mem_of_mem_take hd)
  · rcases List.mem_cons.mp hd with hd | hd
    · exact Or.inr hd
    · exact Or.inl (List.mem_of_mem_drop hd)

/-- An entry gets another number. -/
theorem Numbered.modify (hl : Numbered l) (h : l[key]? = some c) (hn : 0 < n) :
    Numbered (l.modify key fun c => { c with number := some n }) := by
  intro d hd
  rcases mem_modify h hd with hd | rfl
  · exact hl d hd
  · exact ⟨n, rfl, hn⟩

theorem tally_number (id n : ℤ) (h : l[key]? = some c) : tally (held id)
    (l.modify key fun c => { c with number := some n }) + held id c =
      tally (held id) l + if c.id = id then n else 0 :=
  tally_modify h

theorem weigh_number (n : ℤ) (h : l[key]? = some c) : tally (weigh w)
    (l.modify key fun c => { c with number := some n }) + weigh w c =
      tally (weigh w) l + w c.id c.level * n :=
  tally_modify h

/-- Only the entry matters for what it is changed to. -/
theorem modify_congr {g g' : Chip → Chip} (h : l[key]? = some c) (hg : g c = g' c) :
    l.modify key g = l.modify key g' := by
  obtain ⟨hlt, hget⟩ := List.getElem?_eq_some_iff.mp h
  rw [List.modify_eq_take_cons_drop hlt, List.modify_eq_take_cons_drop hlt, hget, hg]

theorem eraseIdx_modify {g : Chip → Chip} (h : l[key]? = some c) :
    (l.modify key g).eraseIdx key = l.eraseIdx key := by
  obtain ⟨hlt, -⟩ := List.getElem?_eq_some_iff.mp h
  have hlen : (l.take key).length = key := List.length_take_of_le hlt.le
  rw [List.modify_eq_take_cons_drop hlt, List.eraseIdx_eq_take_drop_succ l,
    List.eraseIdx_append_of_length_le hlen.le, hlen]
  simp

/-- An entry is there still when another one goes. -/
theorem mem_eraseIdx_or (h : l[key]? = some c) (hd : d ∈ l) : d ∈ l.eraseIdx key ∨ d = c := by
  obtain ⟨hlt, hget⟩ := List.getElem?_eq_some_iff.mp h
  have hsplit : l = l.take key ++ c :: l.drop (key + 1) := by
    rw [← hget, ← List.drop_eq_getElem_cons hlt, List.take_append_drop]
  rw [l.eraseIdx_eq_take_drop_succ key]
  rw [hsplit] at hd
  rcases List.mem_append.mp hd with hd | hd
  · exact Or.inl (List.mem_append_left _ hd)
  · rcases List.mem_cons.mp hd with hd | hd
    · exact Or.inr hd
    · exact Or.inl (List.mem_append_right _ hd)

/-- The number of the entry a chip is added to, which is nothing where there is none. -/
def standing (l : List Chip) (id level islock : ℤ) : ℤ :=
  match get_chip id l (some level) islock none with
  | some key => (l[key]?.bind Chip.number).getD 0
  | none => 0

theorem standing_eq (h : get_chip id l (some level) islock none = some key) (hc : l[key]? = some c) :
    standing l id level islock = c.number.getD 0 := by
  simp [standing, h, hc]

theorem standing_nonneg (hl : Numbered l) (id level islock : ℤ) :
    0 ≤ standing l id level islock := by
  cases h : get_chip id l (some level) islock none with
  | none => simp [standing, h]
  | some key =>
    obtain ⟨c, hc, -, -, -⟩ := get_chip_some h
    obtain ⟨m, hm, hpos⟩ := hl c (List.mem_of_getElem? hc)
    rw [standing_eq h hc, hm]
    exact hpos.le

/-- **A chip is added** to those that are not fitted. -/
theorem add_chip_weigh (w : ℤ → ℤ → ℤ) (id level n islock : ℤ) (hl : Numbered l) :
    tally (weigh w) (add_chip id l level n islock none) = tally (weigh w) l + w id level * n := by
  unfold add_chip
  cases hkey : get_chip id l (some level) islock none with
  | none => simp [weigh]
  | some key =>
    obtain ⟨c, hc, hid, hlevel, -⟩ := get_chip_some hkey
    obtain ⟨m, hm, -⟩ := hl c (List.mem_of_getElem? hc)
    have heq : (l.modify key fun c => { c with number := some (c.number.getD 0 + n) }) =
        l.modify key fun d => { d with number := some (m + n) } :=
      modify_congr hc (by rw [hm, Option.getD_some])
    have hnumber := weigh_number (w := w) (m + n) hc
    simp only [weigh, hm, Option.getD_some, hid, Option.some.inj hlevel, mul_add] at hnumber
    simp only
    rw [heq]
    linarith only [hnumber]

/-- The chips of an id, and the numbers where that of the entry stays positive. -/
theorem add_chip_spec (hl : Numbered l) :
    (∀ id', tally (held id') (add_chip id l level n islock none) =
      tally (held id') l + if id = id' then n else 0) ∧
      (0 < standing l id level islock + n → Numbered (add_chip id l level n islock none)) := by
  refine ⟨fun id' => ?_, fun hn => ?_⟩
  · rw [held_eq_weigh, add_chip_weigh _ _ _ _ _ hl]
    simp
  unfold add_chip
  cases hkey : get_chip id l (some level) islock none with
  | none =>
    refine hl.append ?_
    simpa [standing, hkey] using hn
  | some key =>
    obtain ⟨c, hc, hid, -, -⟩ := get_chip_some hkey
    obtain ⟨m, hm, hpos⟩ := hl c (List.mem_of_getElem? hc)
    have heq : (l.modify key fun c => { c with number := some (c.number.getD 0 + n) }) =
        l.modify key fun d => { d with number := some (m + n) } :=
      modify_congr hc (by rw [hm, Option.getD_some])
    simp only
    rw [heq]
    rw [standing_eq hkey hc, hm, Option.getD_some] at hn
    exact hl.modify hc hn

/-- The entry of an added chip. -/
theorem mem_add_chip (l : List Chip) (id level n islock : ℤ) :
    ∃ c ∈ add_chip id l level n islock none,
    c.id = id ∧ c.level = level ∧ c.islock = islock := by
  unfold add_chip
  cases hkey : get_chip id l (some level) islock none with
  | none => exact ⟨_, List.mem_append_right _ List.mem_cons_self, rfl, rfl, rfl⟩
  | some key =>
    obtain ⟨c, hc, hid, hlevel, hlock⟩ := get_chip_some hkey
    obtain ⟨hlt, hget⟩ := List.getElem?_eq_some_iff.mp hc
    refine ⟨{ c with number := some (c.number.getD 0 + n) }, ?_, hid, Option.some.inj hlevel, hlock⟩
    simp only
    rw [List.modify_eq_take_cons_drop hlt, hget]
    exact List.mem_append_right _ List.mem_cons_self

/-- Two entries of the same chip. -/
def Chip.Like (c d : Chip) : Prop := d.id = c.id ∧ d.level = c.level ∧ d.islock = c.islock

/-- The other entries stay where they are. -/
theorem getElem?_add_chip {k : ℕ} (id level n islock : ℤ) (h : l[k]? = some c) :
    ∃ d, (add_chip id l level n islock none)[k]? = some d ∧ c.Like d := by
  unfold add_chip
  cases hkey : get_chip id l (some level) islock none with
  | none =>
    have hlt := (List.getElem?_eq_some_iff.mp h).1
    exact ⟨c, by rw [List.getElem?_append_left hlt, h], rfl, rfl, rfl⟩
  | some key =>
    simp only
    by_cases hk : key = k
    · refine ⟨{ c with number := some (c.number.getD 0 + n) }, ?_, rfl, rfl, rfl⟩
      rw [List.getElem?_modify, h]
      simp [hk]
    · refine ⟨c, ?_, rfl, rfl, rfl⟩
      rw [List.getElem?_modify, h]
      simp [hk]

/-- **One copy less** of an entry. -/
theorem takeone_spec (hl : Numbered l) (hc : l[key]? = some c) (toarry : List Chip)
    (inarr : Option (ℤ × ℤ)) : Numbered (removeto_chip key l toarry inarr).1 ∧
      ∀ id, tally (held id) (removeto_chip key l toarry inarr).1 + (if c.id = id then 1 else 0) =
        tally (held id) l := by
  obtain ⟨m, hm, hpos⟩ := hl c (List.mem_of_getElem? hc)
  simp only [removeto_chip, hc, hm, Option.getD_some]
  split
  · rename_i htwo
    have heq : (l.modify key fun c => { c with number := some (c.number.getD 0 - 1) }) =
        l.modify key fun d => { d with number := some (m - 1) } :=
      modify_congr hc (by rw [hm, Option.getD_some])
    rw [heq]
    refine ⟨hl.modify hc (by omega), fun id => ?_⟩
    have := tally_number id (m - 1) hc
    simp only [held, hm, Option.getD_some] at this ⊢
    split at this <;> omega
  · refine ⟨hl.eraseIdx, fun id => ?_⟩
    have := tally_eraseIdx (f := held id) hc
    simp only [held, hm, Option.getD_some] at this ⊢
    have hone : m = 1 := by omega
    rw [hone] at this
    exact this

/-- **A number of copies less.** -/
theorem remove_number_weigh (hl : Numbered l) (hc : l[key]? = some c)
    (hn : n ≤ c.number.getD 0) : Numbered (remove_number l key n) ∧
      ∀ w, tally (weigh w) (remove_number l key n) + w c.id c.level * n = tally (weigh w) l := by
  obtain ⟨m, hm, hpos⟩ := hl c (List.mem_of_getElem? hc)
  rw [hm, Option.getD_some] at hn
  simp only [remove_number, hc, hm]
  split
  · refine ⟨hl.modify hc (by omega), fun w => ?_⟩
    have hnumber := weigh_number (w := w) (m - n) hc
    simp only [weigh, hm, Option.getD_some, mul_sub] at hnumber
    linarith only [hnumber]
  · have hall : m = n := by omega
    rw [if_pos hall]
    refine ⟨hl.eraseIdx, fun w => ?_⟩
    have hgone := tally_eraseIdx (f := weigh w) hc
    simp only [weigh, hm, Option.getD_some, hall] at hgone
    exact hgone

theorem remove_number_spec (hl : Numbered l) (hc : l[key]? = some c)
    (hn : n ≤ c.number.getD 0) : Numbered (remove_number l key n) ∧
      ∀ id, tally (held id) (remove_number l key n) + (if c.id = id then n else 0) =
        tally (held id) l := by
  obtain ⟨hnumbered, hless⟩ := remove_number_weigh hl hc hn
  refine ⟨hnumbered, fun id => ?_⟩
  rw [held_eq_weigh, ← hless]
  simp

/-! ## Fitted chips -/

/-- A fitted chip goes to the list of those that are not. -/
theorem removeto_fitted (hc : inchip[key]? = some c) (hplain : c.number = none) :
    removeto_chip key inchip info none =
      (inchip.eraseIdx key, add_chip c.id info c.level 1 c.islock none) := by
  simp only [removeto_chip, hc, hplain]
  rfl

theorem add_one_spec (hl : Numbered l) : Numbered (add_chip id l level 1 islock none) := by
  have := standing_nonneg hl id level islock
  exact (add_chip_spec hl).2 (by omega)

/-- **A chip is fitted**: an entry for it, where there is none of its id. -/
theorem putin_spec (hc : l[key]? = some c)
    (hno : ∀ d ∈ inchip, d.record = some (recordof part uniqueid) → d.id ≠ c.id) :
    (removeto_chip key l inchip (some (uniqueid, part))).2 =
      inchip ++ [⟨c.id, c.level, c.islock, none, some (recordof part uniqueid)⟩] := by
  simp only [removeto_chip, hc, add_chip, get_chip_fitted_none hno]

end Chips

end Athena
