import Athena.Assignment.Model
/-!
# Tasks — what each call does

What the outcome of an event says of its task, and what `recieveplot` leaves: it
always raises, since `addplot_task` reads the one row it gets as a table, and a
`tasking` of nil cannot be written.
-/

namespace Athena

namespace Assignment

variable {cfg : Config} {s t : State} {e : Ref} {a : Advance} {task : Task} {row : TaskRow}
  {uid taskid : Id} {progress : List Progress} {talked : Bool}

/-! ## The state -/

section Fields

variable (type : IndexType) (f : UserTask → UserTask) (achid : Id) (l : List Ref) (award : Award)

@[simp] theorem delete_usertask : (s.delete e).usertask = s.usertask := rfl

@[simp] theorem delete_nextid : (s.delete e).nextid = s.nextid := rfl

@[simp] theorem delete_observerlist : (s.delete e).observerlist = s.observerlist := rfl

@[simp] theorem delete_awards : (s.delete e).awards = s.awards := rfl

theorem get_award_eq : ∃ awards, get_award award s = { s with awards := awards } := by
  rw [get_award]
  split
  · exact ⟨s.awards, rfl⟩
  · exact ⟨_, rfl⟩

@[simp] theorem get_award_tasks : (get_award award s).tasks = s.tasks := by
  obtain ⟨awards, h⟩ := get_award_eq (s := s) award
  rw [h]

@[simp] theorem get_award_usertask : (get_award award s).usertask = s.usertask := by
  obtain ⟨awards, h⟩ := get_award_eq (s := s) award
  rw [h]

@[simp] theorem get_award_nextid : (get_award award s).nextid = s.nextid := by
  obtain ⟨awards, h⟩ := get_award_eq (s := s) award
  rw [h]

@[simp] theorem get_award_observerlist : (get_award award s).observerlist = s.observerlist := by
  obtain ⟨awards, h⟩ := get_award_eq (s := s) award
  rw [h]

end Fields

/-- The row of a task after a `setvalue`. -/
theorem put_tasks_self (type : IndexType) (h : s.tasks e = some task) :
    (s.put e type progress).tasks e = some { task with type := type, progress := progress } := by
  simp [State.put, h]

theorem put_tasks_of_ne (type : IndexType) {e' : Ref} (h : e' ≠ e) :
    (s.put e type progress).tasks e' = s.tasks e' := by
  simp [State.put, h]

@[simp] theorem delete_tasks_self : (s.delete e).tasks e = none := by
  simp [State.delete]

theorem delete_tasks_of_ne {e' : Ref} (h : e' ≠ e) : (s.delete e).tasks e' = s.tasks e' := by
  simp [State.delete, h]

theorem mem_refs {u : UserTask} : e ∈ u.refs ↔ e.taskid ∈ u.ofType e.tasktype := by
  obtain ⟨id, ty⟩ := e
  cases ty <;> simp [UserTask.refs, UserTask.ofType]

/-! ## The outcome of an event -/

theorem setnumber_achid (achid : Id) (n : ℤ) :
    (setnumber achid n progress).map Progress.achid = progress.map Progress.achid := by
  induction progress with
  | nil => rfl
  | cons v progress ih =>
    rw [setnumber]
    split
    · rfl
    · rw [List.map_cons, List.map_cons, ih]

/-- What the loop over the progress finds. -/
theorem count_spec {type : IndexType} {progress' : List Progress} {isfinish : Bool}
    (h : count cfg a type progress = .ok (progress', isfinish)) :
    progress'.map Progress.achid = progress.map Progress.achid ∧
      (isfinish = true → type = .numing ∧ is_finish cfg progress' = .ok true) := by
  have hsame : ∀ p b, (.ok (progress, false) : Except Fault (List Progress × Bool)) = .ok (p, b) →
      p.map Progress.achid = progress.map Progress.achid ∧
        (b = true → type = .numing ∧ is_finish cfg p = .ok true) := by
    intro p b heq
    cases heq
    exact ⟨rfl, fun hb => absurd hb Bool.false_ne_true⟩
  rw [count] at h
  split at h
  · exact hsame _ _ h
  · split at h
    · exact hsame _ _ h
    · next hnuming =>
      split at h
      · cases h
      · split at h
        · dsimp only at h
          cases hfin : is_finish cfg
            (setnumber a.achid (countnumber a ‹Progress›.number) progress) with
          | error f =>
            rw [hfin] at h
            cases h
          | ok b =>
            rw [hfin] at h
            cases h
            refine ⟨setnumber_achid _ _, fun hb => ⟨?_, ?_⟩⟩
            · simpa using hnuming
            · rw [hfin, hb]
        · exact hsame _ _ h

/-- **What an outcome says of the task.** -/
def Outcome.Fits (cfg : Config) (ty : TaskType) (task : Task) : Outcome → Prop
  | .raised _ | .passed => True
  | .counted progress => progress.map Progress.achid = task.progress.map Progress.achid
  | .finished progress row =>
    progress.map Progress.achid = task.progress.map Progress.achid ∧ task.type = .numing ∧
      is_finish cfg progress = .ok true ∧ cfg.row ty task.cfgid = some row ∧ row.Talk_ID = none
  | .numover progress =>
    progress.map Progress.achid = task.progress.map Progress.achid ∧ task.type = .numing

theorem reckon_fits (cfg : Config) (a : Advance) (ty : TaskType)
    (needtalk : Option (List NeedTalk)) (task : Task) :
    (reckon cfg a ty needtalk task).Fits cfg ty task := by
  rw [reckon]
  split
  · trivial
  · next progress h => exact (count_spec h).1
  · next progress h =>
    obtain ⟨hachid, hfinish⟩ := count_spec h
    split
    · trivial
    · next row hrow =>
      split
      · next htalk => exact ⟨hachid, (hfinish rfl).1, (hfinish rfl).2, hrow, htalk⟩
      · split
        · trivial
        · exact ⟨hachid, (hfinish rfl).1⟩

/-- Moving an urgent task to today changes neither its type nor its achievements. -/
theorem ofToday_spec (a : Advance) (task : Task) :
    (ofToday a task).type = task.type ∧ (ofToday a task).cfgid = task.cfgid ∧
      (ofToday a task).progress.map Progress.achid = task.progress.map Progress.achid := by
  rw [ofToday]
  split
  · exact ⟨rfl, rfl, rfl⟩
  · refine ⟨rfl, rfl, ?_⟩
    simp [Function.comp_def]

theorem Outcome.Fits.ofToday {ty : TaskType} {o : Outcome}
    (h : o.Fits cfg ty (ofToday a task)) : o.Fits cfg ty task := by
  obtain ⟨htype, hcfgid, hachid⟩ := ofToday_spec a task
  cases o with
  | raised f => trivial
  | passed => trivial
  | counted progress => exact h.trans hachid
  | finished progress row =>
    obtain ⟨h₁, h₂, h₃, h₄, h₅⟩ := h
    exact ⟨h₁.trans hachid, htype ▸ h₂, h₃, hcfgid ▸ h₄, h₅⟩
  | numover progress => exact ⟨h.1.trans hachid, htype ▸ h.2⟩

/-- **What an event comes to fits the task it is for.** -/
theorem outcome_fits (cfg : Config) (a : Advance) (e : Ref) (u : UserTask) (task : Task) :
    (outcome cfg a e u (some task)).Fits cfg e.tasktype task := by
  obtain ⟨taskid, ty⟩ := e
  cases ty with
  | day =>
    simp only [outcome]
    split
    · exact reckon_fits cfg a .day _ task
    · trivial
  | urgent =>
    simp only [outcome]
    split
    · split
      · trivial
      · exact (reckon_fits cfg a .urgent _ (ofToday a task)).ofToday
    · trivial
  | plot =>
    simp only [outcome]
    split
    · exact reckon_fits cfg a .plot _ task
    · trivial

/-- A task without a record is not counted. -/
theorem outcome_none (cfg : Config) (a : Advance) (e : Ref) (u : UserTask) :
    (∃ f, outcome cfg a e u none = .raised f) ∨ outcome cfg a e u none = .passed := by
  obtain ⟨taskid, ty⟩ := e
  cases ty <;> simp only [outcome] <;> split <;> simp

/-! ## Receiving a plot task -/

/-- **`addplot_task` raises**, before it has done anything. -/
theorem addplot_task_raises (cfg : Config) (uid cfgid id : Id) (s : State) :
    ∃ f, addplot_task cfg uid cfgid id s = (.error f, s) := by
  simp only [addplot_task]
  cases cfg.row .plot cfgid with
  | none => exact ⟨.pairs, rfl⟩
  | some data =>
    -- the first field is a text, which has no `Task_Object`
    exact ⟨.length, rfl⟩

/-- `remobserver` for each of some achievements. -/
def forget (uid : Id) (e : Ref) (achids : List Id) (s : State) : State :=
  achids.foldl (fun s achid => s.setobservers uid achid ((s.observerlist uid achid).erase e)) s

/-- The plot task names no next one, and its row has the objectives of its record. -/
def Closes (cfg : Config) (task : Task) (row : TaskRow) : Prop :=
  row.Next_Task = none ∧ (row.Task_Object.map fun o => (cfg.task_object o).map (·.Achevement_ID)) =
    task.progress.map fun v => some v.achid

theorem remobservers_eq {objects : List Id} {achids : List Id}
    (h : (objects.map fun o => (cfg.task_object o).map (·.Achevement_ID)) = achids.map some) :
    remobservers cfg uid e objects s = (.ok (), forget uid e achids s) := by
  induction objects generalizing s achids with
  | nil =>
    cases achids with
    | nil => rfl
    | cons achid achids => simp at h
  | cons o objects ih =>
    cases achids with
    | nil => simp at h
    | cons achid achids =>
      rw [List.map_cons, List.map_cons, List.cons.injEq] at h
      obtain ⟨hhead, htail⟩ := h
      obtain ⟨object, hobject, rfl⟩ := Option.map_eq_some_iff.mp hhead
      rw [remobservers, Act.each_cons]
      simp only [hobject, remobserver, Act.modify_bind_apply]
      exact ih htail

/-- **What is left of a task that closes**: the award is given, its observers and
its record are gone, and the call raises. -/
theorem recieveplot_closes (uid : Id) (progress : List Progress) (talked : Bool)
    (h : s.tasks ⟨taskid, .plot⟩ = some task)
    (hrow : cfg.row .plot task.cfgid = some row) (hcloses : Closes cfg task row) :
    recieveplot cfg uid taskid progress talked s = (.error .pairs,
      (forget uid ⟨taskid, .plot⟩ (task.progress.map Progress.achid)
        (get_award ⟨⟨taskid, .plot⟩, task.cfgid, progress, talked, row.Task_Reward⟩ s)).delete
          ⟨taskid, .plot⟩) := by
  have hobjects : (row.Task_Object.map fun o => (cfg.task_object o).map (·.Achevement_ID)) =
      (task.progress.map Progress.achid).map some := by
    rw [hcloses.2, List.map_map]
    rfl
  simp only [recieveplot, Act.get_bind_apply, h, hrow, Act.modify_bind_apply]
  rw [Act.bind_ok (remobservers_eq hobjects)]
  simp only [hcloses.1, Act.modify_bind_apply, settasking_value, Act.raise_bind_apply]

/-- **What a plot task that is received keeps**: what the award, the observers, the
numbers of tasks and its deletion keep. -/
theorem recieveplot_keeps {P : State → Prop}
    (hobservers : ∀ s achid l, P s → P (s.setobservers uid achid l))
    (hnextid : ∀ s, P s →
      P { s with nextid := Function.update s.nextid .plot (s.nextid .plot + 1) })
    (hdelete : ∀ s, P s → P (s.delete ⟨taskid, .plot⟩)) (hs : P s)
    (haward : ∀ task row, s.tasks ⟨taskid, .plot⟩ = some task →
      cfg.row .plot task.cfgid = some row →
      P (get_award ⟨⟨taskid, .plot⟩, task.cfgid, progress, talked, row.Task_Reward⟩ s)) :
    P (recieveplot cfg uid taskid progress talked s).2 := by
  simp only [recieveplot, Act.get_bind_apply]
  cases htask : s.tasks ⟨taskid, .plot⟩ with
  | none => exact hs
  | some task =>
    cases hrow : cfg.row .plot task.cfgid with
    | none =>
      simp only [hrow]
      exact hs
    | some row =>
      simp only [hrow, Act.modify_bind_apply]
      refine Act.Keeps.bind ?_ (fun _ => ?_) _ (haward task row htask hrow)
      · refine Act.Keeps.each fun o _ => ?_
        split
        · exact Act.keeps_raise _
        · exact Act.keeps_modify fun s hs => hobservers s _ _ hs
      · split
        · refine (Act.keeps_modify hdelete).bind fun _ => ?_
          intro s' hs'
          simpa only [settasking_value, Act.raise_bind_apply] using hs'
        · refine Act.Keeps.bind ?_ fun nextid => ?_
          · exact Act.keeps_get.bind fun s' => (Act.keeps_modify hnextid).bind fun _ =>
              Act.keeps_pure _
          · intro s' hs'
            obtain ⟨f, hf⟩ := addplot_task_raises cfg uid _ nextid s'
            rw [Act.bind_error hf]
            exact hs'

/-! ## New tasks -/

/-- **New tasks have come**: under fresh numbers, with nothing else changed. -/
structure Grown (s t : State) : Prop where
  usertask : t.usertask = s.usertask
  observerlist : t.observerlist = s.observerlist
  awards : t.awards = s.awards
  nextid : ∀ ty, s.nextid ty ≤ t.nextid ty
  old : ∀ e : Ref, e.taskid < s.nextid e.tasktype → t.tasks e = s.tasks e
  new : (∀ e, (s.tasks e).isSome → e.taskid < s.nextid e.tasktype) →
    ∀ e, (t.tasks e).isSome → e.taskid < t.nextid e.tasktype

theorem Grown.refl (s : State) : Grown s s where
  usertask := rfl
  observerlist := rfl
  awards := rfl
  nextid _ := le_refl _
  old _ _ := rfl
  new h := h

theorem Grown.trans {u : State} (h : Grown s t) (h' : Grown t u) : Grown s u where
  usertask := h'.usertask.trans h.usertask
  observerlist := h'.observerlist.trans h.observerlist
  awards := h'.awards.trans h.awards
  nextid ty := (h.nextid ty).trans (h'.nextid ty)
  old e he := (h'.old e (lt_of_lt_of_le he (h.nextid _))).trans (h.old e he)
  new hs := h'.new (h.new hs)

/-- The state after a `get_nextid`. -/
def taken (ty : TaskType) (s : State) : State :=
  { s with nextid := Function.update s.nextid ty (s.nextid ty + 1) }

theorem get_nextid_bind_apply {α : Type} (ty : TaskType) (f : Id → Call α) :
    (get_nextid ty >>= f) s = f (s.nextid ty) (taken ty s) := rfl

theorem taken_nextid (ty ty' : TaskType) : s.nextid ty' ≤ (taken ty s).nextid ty' := by
  by_cases h : ty' = ty
  · subst h
    simp [taken]
  · simp [taken, h]

theorem taken_grown (ty : TaskType) : Grown s (taken ty s) where
  usertask := rfl
  observerlist := rfl
  awards := rfl
  nextid := taken_nextid ty
  old _ _ := rfl
  new h e he := lt_of_lt_of_le (h e he) (taken_nextid ty _)

/-- A task under the number that was taken. -/
theorem taken_add_grown (ty : TaskType) (task : Task) :
    Grown s ((taken ty s).add ⟨s.nextid ty, ty⟩ task) where
  usertask := rfl
  observerlist := rfl
  awards := rfl
  nextid := taken_nextid ty
  old e he := by
    have hne : e ≠ ⟨s.nextid ty, ty⟩ := by
      rintro rfl
      exact lt_irrefl _ he
    simp [State.add, taken, hne]
  new h e he := by
    by_cases heq : e = ⟨s.nextid ty, ty⟩
    · subst heq
      simp [State.add, taken]
    · have htask : ((taken ty s).add ⟨s.nextid ty, ty⟩ task).tasks e = s.tasks e := by
        simp [State.add, taken, heq]
      rw [htask] at he
      exact lt_of_lt_of_le (h e he) (taken_nextid ty _)

/-- **The loops of `init_task` only add tasks.** -/
theorem init_rows_grown (cfg : Config) (ty : TaskType) (zerotime : ℤ) (data : List (Id × TaskRow))
    (s : State) : Grown s (init_rows cfg ty zerotime data s).2 := by
  induction data generalizing s with
  | nil => exact Grown.refl s
  | cons row data ih =>
    obtain ⟨key, value⟩ := row
    rw [init_rows]
    split
    · rw [get_nextid_bind_apply]
      cases progressOf cfg value.Task_Object with
      | error f => exact taken_grown ty
      | ok progress =>
        rw [Act.lift_bind_ok rfl, Act.modify_bind_apply]
        have hkeeps : Act.Keeps (Grown s)
            (init_rows cfg ty zerotime data >>= fun rest => pure ((s.nextid ty, value) :: rest)) :=
          Act.Keeps.bind (fun t ht => ht.trans (ih t)) fun _ => Act.keeps_pure _
        exact hkeeps _ (taken_add_grown ty _)
    · exact ih s

end Assignment

end Athena
