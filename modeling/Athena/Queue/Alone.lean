import Athena.Queue.Lanes
import Mathlib.Logic.Relation
/-!
# Business queues — a request that runs alone

`get_shortest_airfreighter` and `newbusinessqueue` as functions of the state,
for a request that meets no other. They come to what its coroutine comes to,
step by step.
-/

namespace Athena

namespace Queue

namespace Lanes

variable (L : Limits)

/-- Lane `i` with the end time of its last entry. -/
def State.timeinfo (s : State) (i : ℕ) : Timeinfo :=
  match (s.lane L i).getLast? with
  | none => (i, some 0)
  | some tail => (i, (s.db.rows tail).map Row.endtime)

/-- `isfullbq`. -/
def State.isfullbq (s : State) (i : ℕ) : Bool := L.maxperairfreighter ≤ (s.lane L i).length

/-- The lanes of a list that have room. -/
def State.short_timelist (s : State) (lanes : List ℕ) : List Timeinfo :=
  (lanes.filter fun i => !s.isfullbq L i).map (s.timeinfo L)

/-- Those that are full. -/
def State.tmplist (s : State) (lanes : List ℕ) : List Timeinfo :=
  (lanes.filter (s.isfullbq L)).map (s.timeinfo L)

/-- **`get_shortest_airfreighter`.** -/
def get_shortest_airfreighter (s : State) (pick : ℕ) : Option (Option ℕ) :=
  get_shortest L (s.short_timelist L (List.range' 1 L.maxairfreighter))
    (s.tmplist L (List.range' 1 L.maxairfreighter)) pick

/-- A new entry in its lane. -/
def State.place (s : State) (id : ℕ) (row : Row) : State :=
  { s with
    nextid := id
    db := ({ s.db with rows := Function.update s.db.rows id (some row) }).setvalue L.uid row.column
      (s.db.queueinfo L.uid row.column ++ [id])
    timers := (id, row.endtime) :: s.timers }

/-- **`newbusinessqueue`**, false where it raises an error. -/
def newbusinessqueue (s : State) (cargo : Cargo) (i : ℕ) : State × Bool :=
  let id := s.nextid + 1
  match (s.lane L i).getLast? with
  | none => (s.place L id (newrow L cargo i s.now), true)
  | some tail =>
    match s.db.rows tail with
    | none => ({ s with nextid := id }, false)
    | some row => (s.place L id (newrow L cargo i row.endtime), true)

/-- **A transport is asked for**: nothing where an error is raised, and false
where all lanes are full. -/
def send (s : State) (cargo : Cargo) (pick : ℕ) : State × Option Bool :=
  match get_shortest_airfreighter L s pick with
  | none => (s, none)
  | some none => (s, some false)
  | some (some i) =>
    ((newbusinessqueue L s cargo i).1, if (newbusinessqueue L s cargo i).2 then some true else none)

/-! ## The coroutine -/

/-- One step of a coroutine that meets no other. -/
def Alone (pick : ℕ) (r r' : Next × State) : Prop :=
  ∃ c, r.1 = .goes c ∧ r' = c.step L pick r.2

/-- Its steps. -/
abbrev Runs (pick : ℕ) : Next × State → Next × State → Prop := Relation.ReflTransGen (Alone L pick)

variable {L} {s : State} {cargo : Cargo} {pick i : ℕ}

theorem runs_step {c : Creation} {r : Next × State} (h : Runs L pick (c.step L pick s) r) :
    Runs L pick (.goes c, s) r :=
  Relation.ReflTransGen.head ⟨c, rfl, rfl⟩ h

/-- What is read of one lane. -/
theorem runs_lane (list tmplist : List Timeinfo) :
    Runs L pick (.goes (.lane cargo i list tmplist), s)
      (scan L cargo (i + 1) pick (list ++ s.short_timelist L [i]) (tmplist ++ s.tmplist L [i]), s) := by
  have hfull : ∀ time, s.timeinfo L i = (i, time) →
      Runs L pick (.goes (.isfullbq cargo i time list tmplist), s)
        (scan L cargo (i + 1) pick (list ++ s.short_timelist L [i]) (tmplist ++ s.tmplist L [i]), s) := by
    intro time htime
    refine runs_step ?_
    rw [Creation.step]
    by_cases hroom : (s.lane L i).length < L.maxperairfreighter
    · have hnot : s.isfullbq L i = false := by simpa [State.isfullbq] using hroom
      rw [if_pos hroom]
      have hlists : s.short_timelist L [i] = [(i, time)] ∧ s.tmplist L [i] = [] := by
        simp [State.short_timelist, State.tmplist, hnot, htime]
      rw [hlists.1, hlists.2, List.append_nil]
    · have hin : s.isfullbq L i = true := by simpa [State.isfullbq] using hroom
      rw [if_neg hroom]
      have hlists : s.short_timelist L [i] = [] ∧ s.tmplist L [i] = [(i, time)] := by
        simp [State.short_timelist, State.tmplist, hin, htime]
      rw [hlists.1, hlists.2, List.append_nil]
  refine runs_step ?_
  cases hlast : (s.lane L i).getLast? with
  | none =>
    simp only [Creation.step, hlast]
    exact hfull _ (by rw [State.timeinfo, hlast])
  | some tail =>
    simp only [Creation.step, hlast]
    exact runs_step (hfull _ (by rw [State.timeinfo, hlast]))

/-- What is done with the lanes when all are read. -/
def choose (cargo : Cargo) : Option (Option ℕ) → Next
  | none => .ended
  | some none => .refused
  | some (some i) => .goes (.get_nextid cargo i)

/-- **The loop over the lanes**, by induction on how many are left. -/
theorem runs_scan (k : ℕ) (list tmplist : List Timeinfo) (hk : i + k = L.maxairfreighter + 1) :
    Runs L pick (scan L cargo i pick list tmplist, s)
      (choose cargo (get_shortest L (list ++ s.short_timelist L (List.range' i k))
        (tmplist ++ s.tmplist L (List.range' i k)) pick), s) := by
  induction k generalizing i list tmplist with
  | zero =>
    rw [scan, if_neg (by omega)]
    simp only [State.short_timelist, State.tmplist, List.range'_zero, List.filter_nil, List.map_nil,
      List.append_nil]
    unfold choose
    cases get_shortest L list tmplist pick with
    | none => exact Relation.ReflTransGen.refl
    | some lane => cases lane <;> exact Relation.ReflTransGen.refl
  | succ k ih =>
    rw [scan, if_pos (by omega)]
    refine (runs_lane list tmplist).trans ?_
    have hrange : List.range' i (k + 1) = [i] ++ List.range' (i + 1) k := List.range'_succ ..
    have hrest := ih (list ++ s.short_timelist L [i]) (tmplist ++ s.tmplist L [i])
      (show i + 1 + k = L.maxairfreighter + 1 by omega)
    rw [hrange]
    simpa only [State.short_timelist, State.tmplist, List.filter_append, List.map_append,
      List.append_assoc] using hrest

/-- **A new entry**: the coroutine makes it, or raises an error. -/
theorem runs_newbusinessqueue (i : ℕ) :
    Runs L pick (.goes (.get_nextid cargo i), s) (.ended, (newbusinessqueue L s cargo i).1) := by
  refine runs_step (runs_step ?_)
  unfold newbusinessqueue
  cases hlast : (s.lane L i).getLast? with
  | none =>
    have hlast' : (({ s with nextid := s.nextid + 1 } : State).lane L i).getLast? = none := hlast
    simp only [Creation.step, hlast']
    exact runs_step (runs_step (runs_step Relation.ReflTransGen.refl))
  | some tail =>
    have hlast' : (({ s with nextid := s.nextid + 1 } : State).lane L i).getLast? = some tail := hlast
    simp only [Creation.step, hlast']
    refine runs_step ?_
    cases hrow : s.db.rows tail with
    | none =>
      simp only [Creation.step, hrow]
      exact Relation.ReflTransGen.refl
    | some row =>
      simp only [Creation.step, hrow]
      exact runs_step (runs_step (runs_step Relation.ReflTransGen.refl))

/-- **The coroutine alone does what `send` does**: it ends in the same state, and
it is refused where that answers false. -/
theorem runs_send (L : Limits) (s : State) (cargo : Cargo) (pick : ℕ) :
    ∃ n, Runs L pick (.goes (.maxairfreighter cargo), s) (n, (send L s cargo pick).1) ∧
      (n = .refused ↔ (send L s cargo pick).2 = some false) ∧ ∀ c, n ≠ .goes c := by
  have hstart : Runs L pick (.goes (.maxairfreighter cargo), s)
      (choose cargo (get_shortest L (s.short_timelist L (List.range' 1 L.maxairfreighter))
        (s.tmplist L (List.range' 1 L.maxairfreighter)) pick), s) :=
    runs_step (runs_scan L.maxairfreighter [] [] (Nat.add_comm ..))
  unfold send get_shortest_airfreighter
  cases hlane : get_shortest L (s.short_timelist L (List.range' 1 L.maxairfreighter))
      (s.tmplist L (List.range' 1 L.maxairfreighter)) pick with
  | none =>
    rw [hlane] at hstart
    exact ⟨.ended, hstart, by simp, by simp⟩
  | some lane =>
    cases lane with
    | none =>
      rw [hlane] at hstart
      exact ⟨.refused, hstart, by simp, by simp⟩
    | some i =>
      rw [hlane] at hstart
      refine ⟨.ended, hstart.trans (runs_newbusinessqueue i), ?_, by simp⟩
      simp only [reduceCtorEq, false_iff]
      split <;> simp

/-! ## A new entry -/

/-- **It succeeds** where there is a lane, and the last entry of it is there. -/
theorem send_eq_true_iff : (send L s cargo pick).2 = some true ↔
    ∃ i, get_shortest_airfreighter L s pick = some (some i) ∧
      ∀ tail, (s.lane L i).getLast? = some tail → (s.db.rows tail).isSome := by
  unfold send
  cases hlane : get_shortest_airfreighter L s pick with
  | none => simp
  | some lane =>
    cases lane with
    | none => simp
    | some i =>
      unfold newbusinessqueue
      cases hlast : (s.lane L i).getLast? with
      | none => simp [hlast]
      | some tail => cases hrow : s.db.rows tail <;> simp [hlast, hrow]

/-- The entry it makes. -/
theorem send_place (h : (send L s cargo pick).2 = some true) :
    ∃ i start, (send L s cargo pick).1 = s.place L (s.nextid + 1) (newrow L cargo i start) := by
  obtain ⟨i, hlane, hlast⟩ := send_eq_true_iff.1 h
  unfold send
  simp only [hlane]
  unfold newbusinessqueue
  cases htail : (s.lane L i).getLast? with
  | none => exact ⟨i, _, rfl⟩
  | some tail =>
    obtain ⟨row, hrow⟩ := Option.isSome_iff_exists.1 (hlast tail htail)
    simp only [hrow]
    exact ⟨i, _, rfl⟩

/-- **Otherwise it leaves the tables alone.** -/
theorem send_kept (h : (send L s cargo pick).2 ≠ some true) :
    (send L s cargo pick).1.db = s.db ∧ (send L s cargo pick).1.timers = s.timers := by
  revert h
  unfold send
  split
  · exact fun _ => ⟨rfl, rfl⟩
  · exact fun _ => ⟨rfl, rfl⟩
  · unfold newbusinessqueue
    split
    · exact fun h => absurd rfl h
    · split
      · exact fun _ => ⟨rfl, rfl⟩
      · exact fun h => absurd rfl h

/-- The ids of the entries come from the counter. -/
def State.Numbered (s : State) : Prop := ∀ id, s.nextid < id → s.db.rows id = none

theorem State.Numbered.place (h : s.Numbered) (row : Row) :
    (s.place L (s.nextid + 1) row).Numbered := by
  intro id hid
  have hlt : s.nextid + 1 < id := hid
  show Function.update s.db.rows (s.nextid + 1) (some row) id = none
  rw [Function.update_of_ne (by omega)]
  exact h id (by omega)

theorem State.Numbered.newbusinessqueue (h : s.Numbered) (cargo : Cargo) (i : ℕ) :
    (newbusinessqueue L s cargo i).1.Numbered := by
  unfold Lanes.newbusinessqueue
  split
  · exact h.place _
  · split
    · intro id hid
      have hlt : s.nextid + 1 < id := hid
      exact h id (by omega)
    · exact h.place _

theorem State.Numbered.send (h : s.Numbered) (cargo : Cargo) (pick : ℕ) :
    (send L s cargo pick).1.Numbered := by
  unfold Lanes.send
  split
  · exact h
  · exact h
  · exact h.newbusinessqueue cargo _

end Lanes

end Queue

end Athena
