import Athena.Timecheck.Model
import Mathlib.Data.List.Nodup
import Mathlib.Data.List.Range
import Mathlib.Tactic.Common
/-!
# The expiry manager — one level for each key

`At cfg s k p`: the key is on no level, or on one and with this item. Each
operation is said by where it leaves its key and by leaving every other key
where it was (`Spares`). A run moves no key.
-/

namespace Athena

namespace Timecheck

variable {κ δ η : Type*} [DecidableEq κ]
variable {cfg : Config} {s t : State κ δ η} {k k' : κ} {i j : ℕ} {now : ℤ} {x : Item δ η}

/-! ## Looking up -/

theorem look_drop : (s.drop i k).look j k' = if j = i ∧ k' = k then none else s.look j k' := by
  rcases eq_or_ne j i with rfl | hj
  · rcases eq_or_ne k' k with rfl | hk
    · simp [State.look, State.drop]
    · simp [State.look, State.drop, hk, AList.lookup_erase_ne]
  · simp [State.look, State.drop, hj]

theorem look_put :
    (s.put i k x).look j k' = if j = i ∧ k' = k then some x else s.look j k' := by
  rcases eq_or_ne j i with rfl | hj
  · rcases eq_or_ne k' k with rfl | hk
    · simp [State.look, State.put]
    · simp [State.look, State.put, hk, AList.lookup_insert_ne]
  · simp [State.look, State.put, hj]

/-! ## Where a key is -/

/-- What the levels show of a key that is at one place, or nowhere. -/
def column (p : Option (ℕ × Item δ η)) (j : ℕ) : Option (Item δ η) :=
  p.bind fun q => if j = q.1 then some q.2 else none

@[simp] theorem column_none : column (none : Option (ℕ × Item δ η)) j = none := rfl

@[simp] theorem column_some : column (some (i, x)) j = if j = i then some x else none := rfl

/-- **The key is at this place and on no other level.** -/
structure At (cfg : Config) (s : State κ δ η) (k : κ) (p : Option (ℕ × Item δ η)) : Prop where
  /-- The place is one of the levels. -/
  level : ∀ q, p = some q → q.1 < cfg.levels
  look : ∀ j, s.look j k = column p j

/-- **Each key is on at most one level.** -/
def OneLevel (cfg : Config) (s : State κ δ η) : Prop := ∀ k, ∃ p, At cfg s k p

/-- The keys other than `k` stay where they are. -/
def Spares (k : κ) (s t : State κ δ η) : Prop := ∀ k' j, k' ≠ k → t.look j k' = s.look j k'

namespace At

variable {p : Option (ℕ × Item δ η)}

theorem congr (h : At cfg s k p) (ht : ∀ j, t.look j k = s.look j k) : At cfg t k p :=
  ⟨h.level, fun j => (ht j).trans (h.look j)⟩

theorem spares (h : At cfg s k' p) (ht : Spares k s t) (hk : k' ≠ k) : At cfg t k' p :=
  h.congr fun j => ht k' j hk

/-- What a level shows of the key says where it is. -/
theorem look_eq_some (h : At cfg s k p) : s.look j k = some x ↔ p = some (j, x) := by
  rw [h.look j]
  rcases p with - | ⟨i, y⟩
  · simp
  · rcases eq_or_ne j i with rfl | hj
    · simp
    · simp [hj, hj.symm]

theorem drop (h : At cfg s k (some (i, x))) : At cfg (s.drop i k) k none := by
  refine ⟨by simp, fun j => ?_⟩
  rw [look_drop, h.look j]
  rcases eq_or_ne j i with rfl | hj
  · simp
  · simp [hj]

theorem put (h : At cfg s k none) (hi : i < cfg.levels) : At cfg (s.put i k x) k (some (i, x)) := by
  refine ⟨fun q hq => by cases hq; exact hi, fun j => ?_⟩
  rw [look_put, h.look j]
  rcases eq_or_ne j i with rfl | hj
  · simp
  · simp [hj]

/-- The first level that has the key is the one it is on. -/
theorem levelof (h : At cfg s k p) : s.levelof cfg k = p.map Prod.fst := by
  rcases p with - | ⟨i, x⟩
  · refine List.find?_eq_none.mpr fun j _ => ?_
    simp [h.look j]
  · have hi : i < cfg.levels := h.level _ rfl
    have hhas : ∀ j, (s.look j k).isSome = decide (j = i) := by
      intro j
      rw [h.look j]
      rcases eq_or_ne j i with rfl | hj
      · simp
      · simp [hj]
    obtain ⟨j, hj⟩ : ∃ j, (List.range cfg.levels).find? (fun index => (s.look index k).isSome)
        = some j := by
      refine Option.isSome_iff_exists.mp (List.find?_isSome.mpr ⟨i, List.mem_range.mpr hi, ?_⟩)
      simp [hhas]
    have hji := List.find?_some hj
    rw [hhas] at hji
    rw [State.levelof, hj]
    simpa using hji

end At

theorem Spares.refl : Spares k s s := fun _ _ _ => rfl

theorem Spares.trans {u : State κ δ η} (h : Spares k s t) (h' : Spares k t u) : Spares k s u :=
  fun k' j hk => (h' k' j hk).trans (h k' j hk)

theorem spares_drop : Spares k s (s.drop i k) := by
  intro k' j hk
  simp [look_drop, hk]

theorem spares_put : Spares k s (s.put i k x) := by
  intro k' j hk
  simp [look_put, hk]

/-! ## Removing -/

theorem removeCheckItem_at {p : Option (ℕ × Item δ η)} (h : At cfg s k p) :
    At cfg (removeCheckItem cfg s k).1 k none ∧ Spares k s (removeCheckItem cfg s k).1 := by
  have hl := h.levelof
  rcases p with - | ⟨i, x⟩
  · have hr : removeCheckItem cfg s k = (s, false) := by simp [removeCheckItem, hl]
    rw [hr]
    exact ⟨h, Spares.refl⟩
  · have hr : removeCheckItem cfg s k = (s.drop i k, true) := by simp [removeCheckItem, hl]
    rw [hr]
    exact ⟨h.drop, spares_drop⟩

/-! ## Timers -/

omit [DecidableEq κ] in
theorem foldl_restart (l : List ℕ) (s : State κ δ η) (now : ℤ) (sec : ℕ → ℤ) :
    (l.foldl (fun s i => s.restart i now (sec i)) s).checkList = s.checkList := by
  induction l generalizing s with
  | nil => rfl
  | cons i l ih => exact ih (s.restart i now (sec i))

@[simp] theorem initTimer_look : (initTimer cfg s now).look j k = s.look j k := by
  unfold initTimer
  split
  · rfl
  · simp only [State.look, foldl_restart (List.range cfg.levels) s now cfg.interval]

/-! ## Adding -/

/-- The level an item is put on exists. -/
theorem levelfor_lt (hcfg : cfg.checkCfg ≠ []) (remaintime : ℤ) : levelfor cfg remaintime < cfg.levels := by
  have hpos : 0 < cfg.levels := List.length_pos_iff.mpr hcfg
  unfold levelfor
  rcases hf : (List.range cfg.levels).reverse.find?
    (fun index => decide (cfg.interval index ≤ remaintime)) with - | i
  · exact hpos
  · have := List.mem_of_find?_eq_some hf
    simpa using this

/-- What an accepted `addCheckItem` does. -/
structure Added (cfg : Config) (s t : State κ δ η) (k : κ) (x : Item δ η) (i : ℕ) : Prop where
  stored : At cfg t k (some (i, x))
  spares : Spares k s t

/-- Without covering, a stored key is refused and nothing changes. -/
theorem addCheckItem_refused (now : ℤ) (data : δ) (endTime : ℤ) (handler : Option η)
    (hcover : cfg.isAddCover = false) (h : At cfg s k (some (i, x))) :
    addCheckItem cfg s now k data endTime handler = (s, none) := by
  simp [addCheckItem, hcover, h.levelof]

/-- **`addCheckItem` stores the item**, where covering is on or the key is not
stored. -/
theorem addCheckItem_added {p : Option (ℕ × Item δ η)} (now : ℤ) (data : δ) (endTime : ℤ)
    (handler : Option η) (hcfg : cfg.checkCfg ≠ []) (h : At cfg s k p)
    (hok : cfg.isAddCover = true ∨ p = none) :
    ∃ t i, addCheckItem cfg s now k data endTime handler = (t, some i) ∧
      Added cfg s t k ⟨data, endTime, handler⟩ i := by
  -- what covering has removed before the item is put
  obtain ⟨u, hu, hnone, hspares⟩ : ∃ u,
      (if cfg.isAddCover then (removeCheckItem cfg s k).1 else s) = u ∧ At cfg u k none ∧ Spares k s u := by
    rcases hc : cfg.isAddCover with - | -
    · have hp : p = none := by
        rcases hok with hok | hok
        · rw [hc] at hok
          cases hok
        · exact hok
      exact ⟨s, rfl, hp ▸ h, Spares.refl⟩
    · obtain ⟨h1, h2⟩ := removeCheckItem_at h
      exact ⟨_, rfl, h1, h2⟩
  have hguard : (!cfg.isAddCover && (s.levelof cfg k).isSome) = false := by
    rcases hok with hok | rfl
    · simp [hok]
    · simp [h.levelof]
  refine ⟨(initTimer cfg u now).put (levelfor cfg (endTime - current_time now)) k
    ⟨data, endTime, handler⟩, levelfor cfg (endTime - current_time now), ?_, ?_⟩
  · simp only [addCheckItem, hguard, hu]
    rfl
  · have hput : At cfg (initTimer cfg u now) k none := hnone.congr fun j => initTimer_look
    exact ⟨hput.put (levelfor_lt hcfg _), hspares.trans fun k' j hk => by simp [spares_put k' j hk]⟩

/-! ## Running -/

omit [DecidableEq κ] in
theorem serve_spec (now : ℤ) (s : State κ δ η) (levels : List ℕ) :
    (serve cfg now s levels).1.checkList = s.checkList ∧
      ((serve cfg now s levels).2 = .completed [] ∨ (serve cfg now s levels).2 = .raises) := by
  induction levels with
  | nil => exact ⟨rfl, Or.inl rfl⟩
  | cons index levels ih =>
    rw [serve]
    split
    · exact ⟨rfl, Or.inr rfl⟩
    · exact ih

omit [DecidableEq κ] in
/-- **A run leaves all items where they are**, and completes none. -/
theorem run_spec (cfg : Config) (s : State κ δ η) (now : ℤ) : (run cfg s now).1.checkList = s.checkList ∧
    ((run cfg s now).2 = .completed [] ∨ (run cfg s now).2 = .raises) :=
  serve_spec now s _

/-! ## Updating -/

theorem takeout_at {p : Option (ℕ × Item δ η)} (h : At cfg s k p) (c : Option (Item δ η)) :
    takeout k (s, c) i = (match p with
      | some (j, x) => if i = j then (s.drop i k, some x) else (s, c)
      | none => (s, c)) := by
  rcases p with - | ⟨j, x⟩
  · simp [takeout, h.look i]
  · rcases eq_or_ne i j with rfl | hij
    · simp [takeout, h.look i]
    · simp [takeout, h.look i, hij]

theorem foldl_takeout_none (l : List ℕ) (h : At cfg s k none) (c : Option (Item δ η)) :
    l.foldl (takeout k) (s, c) = (s, c) := by
  induction l with
  | nil => rfl
  | cons i l ih => rw [List.foldl_cons, takeout_at h, ih]

theorem foldl_takeout_some (l : List ℕ) (h : At cfg s k (some (i, x))) (hi : i ∈ l) :
    l.foldl (takeout k) (s, none) = (s.drop i k, some x) := by
  induction l with
  | nil => cases hi
  | cons j l ih =>
    rw [List.foldl_cons, takeout_at h]
    rcases eq_or_ne j i with rfl | hji
    · simp only [if_true, foldl_takeout_none l h.drop]
    · have hl : i ∈ l := by
        rcases List.mem_cons.mp hi with hij | hl
        · exact absurd hij.symm hji
        · exact hl
      simp only [if_neg hji]
      exact ih hl

theorem updateCheckTime_none {endtime : ℤ} (h : At cfg s k none) :
    updateCheckTime cfg s now k endtime = (s, false) := by
  simp [updateCheckTime, foldl_takeout_none _ h]

/-- **`updateCheckTime` stores the same item with the other end time.** -/
theorem updateCheckTime_added (now endtime : ℤ) (hcfg : cfg.checkCfg ≠ [])
    (h : At cfg s k (some (i, x))) :
    ∃ t j, updateCheckTime cfg s now k endtime = (t, true) ∧
      Added cfg s t k { x with endTime := endtime } j := by
  have hi : i ∈ List.range cfg.levels := List.mem_range.mpr (h.level _ rfl)
  obtain ⟨t, j, heq, hadd⟩ := addCheckItem_added now x.data endtime x.completeHandler hcfg h.drop
    (Or.inr rfl)
  refine ⟨t, j, ?_, ?_⟩
  · simp only [updateCheckTime, foldl_takeout_some _ h hi, heq]
  · exact ⟨hadd.stored, spares_drop.trans hadd.spares⟩

end Timecheck

end Athena
