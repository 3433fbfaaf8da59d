import Athena.Assignment.Step
/-!
# Tasks — rewarded once

A task is `Open` while its reward is still to come: it counts, or its objectives
are met and no `talkend` has come for it. In a `Sound` state no open task has been
rewarded, none has been rewarded twice, and each reward was earned. Events and
resets keep it; a `talkend` does not look at the type of the record and does not
change it, so the client has to send it at the right time and once
(`rewards_once`).
-/

namespace Athena

namespace Assignment

/-- The awards of a task. -/
def awardsOf (s : State) (e : Ref) : List Award := s.awards.filter fun a => a.task = e

/-- **The reward is still to come.** -/
def Open (talked : List Ref) (s : State) (e : Ref) : Prop :=
  ∃ task, s.tasks e = some task ∧
    (task.type = .numing ∨ task.type = .numover ∧ e ∉ talked)

/-- The objectives were met, and where the task has a dialogue it had ended. -/
def Earned (cfg : Config) (a : Award) : Prop :=
  is_finish cfg a.progress = .ok true ∧
    ∀ row, cfg.row a.task.tasktype a.cfgid = some row → row.Talk_ID ≠ none → a.talked = true

structure Sound (cfg : Config) (talked : List Ref) (s : State) : Prop where
  fresh : ∀ e, (s.tasks e).isSome → e.taskid < s.nextid e.tasktype
  made : ∀ a ∈ s.awards, a.task.taskid < s.nextid a.task.tasktype
  closed : ∀ e, Open talked s e → awardsOf s e = []
  once : ∀ e, (awardsOf s e).length ≤ 1
  earned : ∀ a ∈ s.awards, Earned cfg a

/-- Every plot task without a dialogue closes when it is received. -/
def Quiet (cfg : Config) (s : State) : Prop :=
  ∀ id task row, s.tasks ⟨id, .plot⟩ = some task → cfg.row .plot task.cfgid = some row →
    row.Talk_ID = none → Closes cfg task row

/-- **The client sends a `talkend` when the objectives of the task are met, and
once**; and where an event may finish a plot task without a dialogue, that closes. -/
def Tells (cfg : Config) (s : Server) : Event → Prop
  | .talkend uid id type => ∀ e task, reported s.state uid id type = some e →
      s.state.tasks e = some task →
        task.type = .numover ∧ is_finish cfg task.progress = .ok true ∧ e ∉ s.talked
  | .achieve _ _ => Quiet cfg s.state
  | _ => True

variable {cfg : Config} {talked : List Ref} {s t : State} {e : Ref} {a : Advance} {task : Task}
  {uid : Id} {progress : List Progress} {award : Award}

/-! ## What keeps a state sound -/

/-- Where the tasks, their numbers and the awards are the same. -/
theorem Sound.same (h : Sound cfg talked s) (htasks : t.tasks = s.tasks)
    (hnextid : t.nextid = s.nextid) (hawards : t.awards = s.awards) : Sound cfg talked t where
  fresh e he := by
    rw [htasks] at he
    rw [hnextid]
    exact h.fresh e he
  made a ha := by
    rw [hawards] at ha
    rw [hnextid]
    exact h.made a ha
  closed e := by
    rintro ⟨task, htask, hopen⟩
    rw [htasks] at htask
    rw [awardsOf, hawards]
    exact h.closed e ⟨task, htask, hopen⟩
  once e := by
    rw [awardsOf, hawards]
    exact h.once e
  earned a ha := by
    rw [hawards] at ha
    exact h.earned a ha

/-- Fewer tasks are open when more `talkend`s have come. -/
theorem Sound.talk (h : Sound cfg talked s) (l : List Ref) : Sound cfg (l ++ talked) s where
  fresh := h.fresh
  made := h.made
  closed e := by
    rintro ⟨task, htask, hnuming | ⟨hnumover, htalked⟩⟩
    · exact h.closed e ⟨task, htask, Or.inl hnuming⟩
    · refine h.closed e ⟨task, htask, Or.inr ⟨hnumover, fun hmem => htalked ?_⟩⟩
      exact List.mem_append_right _ hmem
  once := h.once
  earned := h.earned

/-- New tasks have no awards. -/
theorem Sound.grown (h : Sound cfg talked s) (hgrown : Grown s t) : Sound cfg talked t where
  fresh := hgrown.new h.fresh
  made a ha := by
    rw [hgrown.awards] at ha
    exact lt_of_lt_of_le (h.made a ha) (hgrown.nextid _)
  closed e := by
    rintro ⟨task, htask, hopen⟩
    rw [awardsOf, hgrown.awards]
    by_cases hold : e.taskid < s.nextid e.tasktype
    · rw [hgrown.old e hold] at htask
      exact h.closed e ⟨task, htask, hopen⟩
    · refine List.filter_eq_nil_iff.mpr fun a ha heq => hold ?_
      rw [← of_decide_eq_true heq]
      exact h.made a ha
  once e := by
    rw [awardsOf, hgrown.awards]
    exact h.once e
  earned a ha := by
    rw [hgrown.awards] at ha
    exact h.earned a ha

/-- A `setvalue` of a task that is rewarded, or was open before. -/
theorem Sound.put (h : Sound cfg talked s) {type : IndexType} (htask : s.tasks e = some task)
    (hopen : type = .numing ∨ type = .numover ∧ e ∉ talked → awardsOf s e = []) :
    Sound cfg talked (s.put e type progress) where
  fresh e' he' := by
    by_cases heq : e' = e
    · rw [heq]
      exact h.fresh e (by rw [htask]; rfl)
    · rw [put_tasks_of_ne type heq] at he'
      exact h.fresh e' he'
  made := h.made
  closed e' := by
    rintro ⟨task', htask', hopen'⟩
    by_cases heq : e' = e
    · subst heq
      rw [put_tasks_self type htask] at htask'
      cases htask'
      exact hopen hopen'
    · rw [put_tasks_of_ne type heq] at htask'
      exact h.closed e' ⟨task', htask', hopen'⟩
  once := h.once
  earned := h.earned

theorem Sound.delete (h : Sound cfg talked s) (e : Ref) : Sound cfg talked (s.delete e) where
  fresh e' he' := by
    by_cases heq : e' = e
    · rw [heq, delete_tasks_self] at he'
      cases he'
    · rw [delete_tasks_of_ne heq] at he'
      exact h.fresh e' he'
  made := h.made
  closed e' := by
    rintro ⟨task', htask', hopen'⟩
    by_cases heq : e' = e
    · rw [heq, delete_tasks_self] at htask'
      cases htask'
    · rw [delete_tasks_of_ne heq] at htask'
      exact h.closed e' ⟨task', htask', hopen'⟩
  once := h.once
  earned := h.earned

theorem mem_get_award {b : Award} (h : b ∈ (get_award award s).awards) : b = award ∨ b ∈ s.awards := by
  rw [get_award] at h
  split at h
  · exact Or.inr h
  · rcases List.mem_append.mp h with hold | hnew
    · exact Or.inr hold
    · exact Or.inl (List.mem_singleton.mp hnew)

theorem awardsOf_get_award_of_ne (h : e ≠ award.task) :
    awardsOf (get_award award s) e = awardsOf s e := by
  rw [get_award]
  split
  · rfl
  · have hne : ¬ award.task = e := fun heq => h heq.symm
    simp [awardsOf, List.filter_append, hne]

theorem awardsOf_get_award_length (award : Award) (s : State) :
    (awardsOf (get_award award s) award.task).length ≤ (awardsOf s award.task).length + 1 := by
  rw [get_award]
  split
  · omega
  · simp [awardsOf, List.filter_append]

/-- **A first award**, of a task that is open no more. -/
theorem Sound.get_award (h : Sound cfg talked s) (hnone : awardsOf s award.task = [])
    (hmade : award.task.taskid < s.nextid award.task.tasktype) (hearned : Earned cfg award)
    (hclosed : ¬ Open talked s award.task) : Sound cfg talked (get_award award s) where
  fresh e he := by
    rw [get_award_tasks] at he
    rw [get_award_nextid]
    exact h.fresh e he
  made b hb := by
    rw [get_award_nextid]
    rcases mem_get_award hb with rfl | hold
    · exact hmade
    · exact h.made b hold
  closed e := by
    rintro ⟨task, htask, hopen⟩
    rw [get_award_tasks] at htask
    have hne : e ≠ award.task := by
      rintro rfl
      exact hclosed ⟨task, htask, hopen⟩
    rw [awardsOf_get_award_of_ne hne]
    exact h.closed e ⟨task, htask, hopen⟩
  once e := by
    by_cases heq : e = award.task
    · have hlength := awardsOf_get_award_length award s
      rw [hnone] at hlength
      rw [heq]
      exact hlength
    · rw [awardsOf_get_award_of_ne heq]
      exact h.once e
  earned b hb := by
    rcases mem_get_award hb with rfl | hold
    · exact hearned
    · exact h.earned b hold

theorem forget_same (uid : Id) (e : Ref) (achids : List Id) (s : State) :
    (forget uid e achids s).tasks = s.tasks ∧ (forget uid e achids s).nextid = s.nextid ∧
      (forget uid e achids s).awards = s.awards ∧ (forget uid e achids s).usertask = s.usertask := by
  induction achids generalizing s with
  | nil => exact ⟨rfl, rfl, rfl, rfl⟩
  | cons achid achids ih =>
    rw [forget, List.foldl_cons]
    exact ih _

/-- A task that was open is rewarded as it finishes. -/
theorem Sound.finish (h : Sound cfg talked s) (htask : s.tasks e = some task)
    (hnuming : task.type = .numing) (hearned : Earned cfg award) (heq : award.task = e) :
    Sound cfg talked ((Assignment.get_award award s).put e .finish progress) := by
  have hcomm : (Assignment.get_award award s).put e .finish progress =
      Assignment.get_award award (s.put e .finish progress) := by
    simp only [Assignment.get_award]
    split <;> rfl
  have hput : Sound cfg talked (s.put e .finish progress) := by
    refine h.put htask fun hopen => ?_
    rcases hopen with hopen | ⟨hopen, -⟩ <;> cases hopen
  rw [hcomm]
  refine hput.get_award ?_ ?_ hearned ?_
  · rw [heq]
    exact h.closed e ⟨task, htask, Or.inl hnuming⟩
  · rw [heq]
    exact h.fresh e (by rw [htask]; rfl)
  · rw [heq]
    rintro ⟨task', htask', hopen⟩
    rw [put_tasks_self _ htask] at htask'
    cases htask'
    rcases hopen with hopen | ⟨hopen, -⟩ <;> cases hopen

/-- And so is one whose record goes. -/
theorem Sound.close (h : Sound cfg talked s) (htask : s.tasks e = some task)
    (hnone : awardsOf s e = []) (hearned : Earned cfg award) (heq : award.task = e)
    (achids : List Id) :
    Sound cfg talked ((forget uid e achids (Assignment.get_award award s)).delete e) := by
  have hdelete : Sound cfg talked (Assignment.get_award award (s.delete e)) := by
    refine (h.delete e).get_award ?_ ?_ hearned ?_
    · rw [heq]
      exact hnone
    · rw [heq]
      exact h.fresh e (by rw [htask]; rfl)
    · rw [heq]
      rintro ⟨task', htask', -⟩
      rw [delete_tasks_self] at htask'
      cases htask'
  obtain ⟨htasks, hnextid, hawards, -⟩ := forget_same uid e achids (Assignment.get_award award s)
  refine hdelete.same ?_ ?_ ?_
  · simp [State.delete, htasks]
  · simp [hnextid]
  · rw [delete_awards, hawards]
    simp only [Assignment.get_award]
    split <;> rfl

/-! ## The events -/

/-- A `setvalue` that keeps the achievements of a task keeps it quiet. -/
theorem Quiet.put (h : Quiet cfg s) (htask : s.tasks e = some task) {type : IndexType}
    (hachid : progress.map Progress.achid = task.progress.map Progress.achid) :
    Quiet cfg (s.put e type progress) := by
  intro id task' row htask' hrow htalk
  by_cases heq : (⟨id, .plot⟩ : Ref) = e
  · rw [heq, put_tasks_self type htask] at htask'
    cases htask'
    obtain ⟨hnext, hobjects⟩ := h id task row (heq ▸ htask) hrow htalk
    refine ⟨hnext, hobjects.trans ?_⟩
    have hmap := congrArg (List.map some) hachid
    rw [List.map_map, List.map_map] at hmap
    exact hmap.symm
  · rw [put_tasks_of_ne type heq] at htask'
    exact h id task' row htask' hrow htalk

theorem Quiet.delete (h : Quiet cfg s) (e : Ref) : Quiet cfg (s.delete e) := by
  intro id task row htask hrow htalk
  by_cases heq : (⟨id, .plot⟩ : Ref) = e
  · rw [heq, delete_tasks_self] at htask
    cases htask
  · rw [delete_tasks_of_ne heq] at htask
    exact h id task row htask hrow htalk

theorem Quiet.same (h : Quiet cfg s) (htasks : t.tasks = s.tasks) : Quiet cfg t := by
  intro id task row htask
  rw [htasks] at htask
  exact h id task row htask

/-- A plot task that an event finishes closes: the error leaves `pusheach` before
its last writes. -/
theorem write_plot (uid : Id) {taskid : Id} {row : TaskRow} (hquiet : Quiet cfg s)
    (htask : s.tasks ⟨taskid, .plot⟩ = some task)
    (hfits : (Outcome.finished progress row).Fits cfg .plot task) :
    (write cfg uid ⟨taskid, .plot⟩ task (.finished progress row) s).2 =
      (forget uid ⟨taskid, .plot⟩ (task.progress.map Progress.achid)
        (get_award ⟨⟨taskid, .plot⟩, task.cfgid, progress, false, row.Task_Reward⟩ s)).delete
          ⟨taskid, .plot⟩ := by
  obtain ⟨-, -, -, hrow, htalk⟩ := hfits
  simp only [write]
  rw [Act.bind_error (recieveplot_closes uid progress false htask hrow
    (hquiet taskid task row htask hrow htalk))]

/-- What an event writes keeps the state sound. -/
theorem write_sound (h : Sound cfg talked s) (hquiet : Quiet cfg s) {o : Outcome}
    (htask : s.tasks e = some task) (hfits : o.Fits cfg e.tasktype task) :
    Sound cfg talked (write cfg uid e task o s).2 := by
  cases o with
  | raised f => exact h
  | passed => exact h
  | counted progress => exact h.put htask fun hopen => h.closed e ⟨task, htask, hopen⟩
  | numover progress =>
    have hnone := h.closed e ⟨task, htask, Or.inl hfits.2⟩
    have huser : Sound cfg talked (addneedtalk uid ⟨e, task.cfgid⟩ s) := h.same rfl rfl rfl
    exact huser.put htask fun _ => hnone
  | finished progress row =>
    have hplot := hfits
    obtain ⟨hachid, hnuming, hfinish, hrow, htalk⟩ := hfits
    have hearned : Earned cfg ⟨e, task.cfgid, progress, false, row.Task_Reward⟩ := by
      refine ⟨hfinish, fun row' hrow' htalk' => absurd ?_ htalk'⟩
      rw [hrow] at hrow'
      cases hrow'
      exact htalk
    obtain ⟨taskid, ty⟩ := e
    cases ty with
    | day => exact h.finish htask hnuming hearned rfl
    | urgent => exact h.finish htask hnuming hearned rfl
    | plot =>
      rw [write_plot uid hquiet htask hplot]
      exact h.close htask (h.closed _ ⟨task, htask, Or.inl hnuming⟩) hearned rfl _

/-- And quiet. -/
theorem write_quiet (hquiet : Quiet cfg s) {o : Outcome} (htask : s.tasks e = some task)
    (hfits : o.Fits cfg e.tasktype task) : Quiet cfg (write cfg uid e task o s).2 := by
  have haward : ∀ award : Award, (get_award award s).tasks e = some task := by
    intro award
    rw [get_award_tasks]
    exact htask
  cases o with
  | raised f => exact hquiet
  | passed => exact hquiet
  | counted progress => exact hquiet.put htask hfits
  | numover progress => exact (hquiet.same rfl).put htask hfits.1
  | finished progress row =>
    obtain ⟨taskid, ty⟩ := e
    cases ty with
    | day => exact (hquiet.same (get_award_tasks _)).put (haward _) hfits.1
    | urgent => exact (hquiet.same (get_award_tasks _)).put (haward _) hfits.1
    | plot =>
      rw [write_plot uid hquiet htask hfits]
      refine Quiet.delete (hquiet.same ?_) _
      rw [(forget_same _ _ _ _).1, get_award_tasks]

/-- What an event writes for a task is written for one with a record. -/
theorem pusheach_keeps {P : State → Prop} (cfg : Config) (uid : Id) (a : Advance) (e : Ref)
    (hwrite : ∀ s task o, P s → s.tasks e = some task → o.Fits cfg e.tasktype task →
      P (write cfg uid e task o s).2) : Act.Keeps P (pusheach cfg uid a e) := by
  intro s hs
  simp only [pusheach, Act.get_bind_apply]
  cases s.usertask uid with
  | none => exact hs
  | some u =>
    cases htask : s.tasks e with
    | none =>
      rcases outcome_none cfg a e u with ⟨f, hraised⟩ | hpassed
      · simp only [hraised]
        exact hs
      · simp only [hpassed]
        exact hs
    | some task => exact hwrite s task _ hs htask (outcome_fits cfg a e u task)

/-- **An event keeps the state sound**, for each task it is told of. -/
theorem pusheach_sound (cfg : Config) (talked : List Ref) (uid : Id) (a : Advance) (e : Ref) :
    Act.Keeps (fun s => Sound cfg talked s ∧ Quiet cfg s) (pusheach cfg uid a e) :=
  pusheach_keeps cfg uid a e fun _ _ _ hs htask hfits =>
    ⟨write_sound hs.1 hs.2 htask hfits, write_quiet hs.2 htask hfits⟩

/-! ## The requests -/

/-- The task a `talkend` is for is one the player has. -/
theorem reported_spec {id : Option Id} {type : Option ℤ} (h : reported s uid id type = some e) :
    ∃ u n, s.usertask uid = some u ∧ id = some e.taskid ∧ type = some n ∧
      TaskType.ofNumber n = some e.tasktype ∧ e.taskid ∈ u.ofType e.tasktype := by
  unfold reported at h
  split at h
  · next u i ty hu hty =>
    split at h
    · next hmem =>
      cases h
      obtain ⟨n, hn, hofNumber⟩ := Option.bind_eq_some_iff.mp hty
      exact ⟨u, n, hu, rfl, hn, hofNumber, hmem⟩
    · cases h
  · cases h

/-- A `talkend` for a task the player does not have does nothing. -/
theorem talkend_none (cfg : Config) {id : Option Id} {type : Option ℤ}
    (h : reported s uid id type = none) : (talkend cfg uid id type s).2 = s := by
  simp only [talkend, Act.get_bind_apply]
  cases hu : s.usertask uid with
  | none => rfl
  | some u =>
    cases id with
    | none => rfl
    | some id =>
      cases type with
      | none => rfl
      | some n =>
        cases hty : TaskType.ofNumber n with
        | none => simp [hty]
        | some ty =>
          by_cases hmem : id ∈ u.ofType ty
          · simp [reported, hu, hty, hmem] at h
          · simp [hty, hmem]

/-- What a `talkend` for a plot task comes to. -/
theorem talkend_plot (cfg : Config) {id : Option Id} {type : Option ℤ}
    (h : reported s uid id type = some e) (hplot : e.tasktype = .plot) :
    (talkend cfg uid id type s).2 = (recieveplot cfg uid e.taskid
      (((s.tasks e).map Task.progress).getD []) true s).2 := by
  obtain ⟨u, n, hu, rfl, rfl, hty, hmem⟩ := reported_spec h
  obtain ⟨taskid, ty⟩ := e
  obtain rfl : ty = .plot := hplot
  simp only [talkend, Act.get_bind_apply, hu, hty, hmem, not_true_eq_false, if_false]
  exact Act.bind_pure_snd _ _

/-- And for another one. -/
theorem talkend_other (cfg : Config) {id : Option Id} {type : Option ℤ}
    (h : reported s uid id type = some e) (hplot : e.tasktype ≠ .plot) :
    (talkend cfg uid id type s).2 = s ∨
      ∃ task row, s.tasks e = some task ∧ cfg.row e.tasktype task.cfgid = some row ∧
        (talkend cfg uid id type s).2 =
          Assignment.get_award ⟨e, task.cfgid, task.progress, true, row.Task_Reward⟩ s := by
  obtain ⟨u, n, hu, rfl, rfl, hty, hmem⟩ := reported_spec h
  obtain ⟨taskid, ty⟩ := e
  simp only [talkend, Act.get_bind_apply, hu, hty, hmem, not_true_eq_false, if_false]
  cases htask : s.tasks ⟨taskid, ty⟩ with
  | none => cases ty <;> simp_all
  | some task =>
    cases hrow : cfg.row ty task.cfgid with
    | none => cases ty <;> simp_all
    | some row =>
      refine Or.inr ⟨task, row, rfl, hrow, ?_⟩
      cases ty <;> simp_all

/-- **A `talkend` at its time keeps the state sound**: the task is open no more
once it has come. -/
theorem talkend_sound (h : Sound cfg talked s) {id : Option Id} {type : Option ℤ}
    (htells : ∀ e task, reported s uid id type = some e → s.tasks e = some task →
      task.type = .numover ∧ is_finish cfg task.progress = .ok true ∧ e ∉ talked) :
    Sound cfg ((reported s uid id type).toList ++ talked) (talkend cfg uid id type s).2 := by
  cases hreported : reported s uid id type with
  | none =>
    rw [talkend_none cfg hreported]
    exact h
  | some e =>
    have htalk : Sound cfg (e :: talked) s := h.talk [e]
    have haward : ∀ task row, s.tasks e = some task → cfg.row e.tasktype task.cfgid = some row →
        Sound cfg (e :: talked)
          (Assignment.get_award ⟨e, task.cfgid, task.progress, true, row.Task_Reward⟩ s) := by
      intro task row htask _
      obtain ⟨hnumover, hfinish, htalked⟩ := htells e task hreported htask
      refine htalk.get_award ?_ ?_ ⟨hfinish, fun _ _ _ => rfl⟩ ?_
      · exact h.closed e ⟨task, htask, Or.inr ⟨hnumover, htalked⟩⟩
      · exact h.fresh e (by rw [htask]; rfl)
      · rintro ⟨task', htask', hopen⟩
        rw [htask] at htask'
        cases htask'
        rcases hopen with hnuming | ⟨-, hnot⟩
        · rw [hnumover] at hnuming
          cases hnuming
        · exact hnot List.mem_cons_self
    by_cases hplot : e.tasktype = .plot
    · rw [talkend_plot cfg hreported hplot]
      obtain ⟨taskid, ty⟩ := e
      obtain rfl : ty = .plot := hplot
      refine recieveplot_keeps (fun s _ _ hs => hs.same rfl rfl rfl) ?_
        (fun s hs => hs.delete _) htalk ?_
      · exact fun s hs => hs.grown (taken_grown .plot)
      · intro task row htask hrow
        rw [htask]
        exact haward task row htask hrow
    · rcases talkend_other cfg hreported hplot with hsame | ⟨task, row, htask, hrow, heq⟩
      · rw [hsame]
        exact htalk
      · rw [heq]
        exact haward task row htask hrow

theorem settasking_sound (cfg : Config) (talked : List Ref) (uid : Id) (id : Option Id) :
    Act.Keeps (Sound cfg talked) (settasking uid id) := by
  refine Act.keeps_get.bind fun s => ?_
  split
  · split
    · exact (Act.keeps_modify fun s hs => hs.same rfl rfl rfl).bind fun _ => Act.keeps_pure _
    · exact Act.keeps_pure _
  · exact Act.keeps_pure _

/-- The observers do not matter. -/
theorem add_observer_sound (cfg : Config) (talked : List Ref) (uid : Id) :
    Act.Keeps (Sound cfg talked) (add_observer uid) := by
  refine Act.keeps_get.bind fun s => ?_
  split
  · exact Act.keeps_pure _
  · refine Act.Keeps.each fun e _ => Act.keeps_get.bind fun s => ?_
    split
    · exact Act.keeps_raise _
    · exact Act.Keeps.each fun v _ => Act.keeps_modify fun s hs => hs.same rfl rfl rfl

theorem online_sound (cfg : Config) (talked : List Ref) (uid zerotime : Id) :
    Act.Keeps (Sound cfg talked) (online cfg uid zerotime) := by
  have hrows : ∀ ty data, Act.Keeps (Sound cfg talked) (init_rows cfg ty zerotime data) :=
    fun ty data s hs => hs.grown (init_rows_grown cfg ty zerotime data s)
  refine Act.keeps_get.bind fun s => ?_
  split
  · refine Act.Keeps.bind ?_ fun _ => add_observer_sound cfg talked uid
    refine (hrows _ _).bind fun _ => (hrows _ _).bind fun _ => (hrows _ _).bind fun _ => ?_
    exact (Act.keeps_lift _).bind fun _ => Act.keeps_modify fun s hs => hs.same rfl rfl rfl
  · exact add_observer_sound cfg talked uid

/-- **The reset** opens the daily tasks, and their awards are of the day before. -/
theorem updatesys_sound (h : Sound cfg talked s) :
    Sound cfg (talked.filter fun e => e.tasktype ≠ .day) (updatesys s).2 := by
  have hawards : ∀ a, a ∈ (updatesys s).2.awards ↔ a ∈ s.awards ∧ a.task.tasktype ≠ .day := by
    intro a
    simp [updatesys]
  have hother : ∀ e : Ref, e.tasktype ≠ .day →
      (updatesys s).2.tasks e = s.tasks e ∧ awardsOf (updatesys s).2 e = awardsOf s e := by
    intro e he
    constructor
    · simp only [updatesys, Act.modify_apply]
    · simp only [awardsOf, updatesys, Act.modify_apply, List.filter_filter]
      refine List.filter_congr fun a _ => ?_
      by_cases heq : a.task = e
      · simp [heq, he]
      · simp [heq]
  have hday : ∀ e : Ref, e.tasktype = .day → awardsOf (updatesys s).2 e = [] := by
    intro e he
    refine List.filter_eq_nil_iff.mpr fun a ha heq => ?_
    obtain ⟨-, hne⟩ := (hawards a).mp ha
    rw [of_decide_eq_true heq] at hne
    exact hne he
  refine ⟨fun e he => ?_, fun a ha => h.made a ((hawards a).mp ha).1, fun e hopen => ?_,
    fun e => ?_, fun a ha => h.earned a ((hawards a).mp ha).1⟩
  · refine h.fresh e ?_
    simp only [updatesys, Act.modify_apply] at he
    split at he
    · simpa using he
    · exact he
  · by_cases he : e.tasktype = .day
    · exact hday e he
    · obtain ⟨htasks, hsame⟩ := hother e he
      obtain ⟨task, htask, hopen⟩ := hopen
      rw [htasks] at htask
      rw [hsame]
      refine h.closed e ⟨task, htask, hopen.imp_right fun ⟨hnumover, htalked⟩ => ⟨hnumover, ?_⟩⟩
      exact fun hmem => htalked (List.mem_filter.mpr ⟨hmem, by simpa using he⟩)
  · by_cases he : e.tasktype = .day
    · rw [hday e he]
      exact Nat.zero_le 1
    · rw [(hother e he).2]
      exact h.once e

/-! ## The runs -/

/-- **Every event keeps the server sound.** -/
theorem sound_step {s t : Server} {ev : Event} (hstep : ((system cfg).restrict (Tells cfg)).step s ev t)
    (h : Sound cfg s.talked s.state) : Sound cfg t.talked t.state := by
  obtain ⟨rfl, htells⟩ := hstep
  cases ev with
  | login uid zerotime => exact online_sound cfg s.talked uid zerotime _ h
  | logout uid => exact h
  | achieve uid a =>
    simp only [step, handle, updateathletics, Act.get_bind_apply]
    exact (Act.Keeps.each (fun e _ => pusheach_sound cfg s.talked uid a e) s.state ⟨h, htells⟩).1
  | talkend uid id type =>
    simp only [step, handle]
    rw [Act.bind_pure_snd]
    exact talkend_sound h htells
  | settasking uid id =>
    simp only [step, handle]
    rw [Act.bind_pure_snd]
    exact settasking_sound cfg s.talked uid id _ h
  | updatesys => exact updatesys_sound h

theorem sound_init {s : Server} (h : (system cfg).init s) : Sound cfg s.talked s.state := by
  obtain ⟨hstored, -, hawards, -, -⟩ := h
  refine ⟨hstored.fresh, fun a ha => ?_, fun e _ => ?_, fun e => ?_, fun a ha => ?_⟩
  · rw [hawards] at ha
    cases ha
  · rw [awardsOf, hawards]
    rfl
  · rw [awardsOf, hawards]
    exact Nat.zero_le 1
  · rw [hawards] at ha
    cases ha

/-- **Where the client tells in time and once, each task is rewarded at most once**
since its reset, and only when its objectives were met and its dialogue had
ended. -/
theorem rewards_once {s : Server} (h : ((system cfg).restrict (Tells cfg)).Reachable s) :
    (∀ e, (awardsOf s.state e).length ≤ 1) ∧ ∀ a ∈ s.state.awards, Earned cfg a := by
  have hsound : Sound cfg s.talked s.state :=
    System.Reachable.invariant (T := (system cfg).restrict (Tells cfg))
      (fun _ => sound_init) (fun _ _ _ => sound_step) h
  exact ⟨hsound.once, hsound.earned⟩

/-- One daily task, with one objective, a dialogue and a reward. -/
def oneTask : Config where
  task_object o := if o = 1 then some ⟨1010, [], 1, 1⟩ else none
  date_task := [(1, ⟨1, some 0, none, [1], 3, [1, 2, 3], 0, 0⟩)]
  urgent_task := []
  task := []
  take_task := []

/-- A player has it, and the server starts. -/
def started : Server where
  state :=
    { usertask := fun uid => if uid = 1 then some ⟨[1], [], [], none, none⟩ else none
      tasks := fun e =>
        if e = ⟨1, .day⟩ then some ⟨1, .numing, [⟨1010, 1, 0⟩], 0, 0⟩ else none
      nextid := fun _ => 2
      observerlist := fun _ _ => []
      awards := [] }
  loggedin := []
  talked := []

theorem started_usertask {uid : Id} {u : UserTask} (h : started.state.usertask uid = some u) :
    uid = 1 ∧ u = ⟨[1], [], [], none, none⟩ := by
  by_cases huid : uid = 1
  · simp only [started, huid, if_true, Option.some.injEq] at h
    exact ⟨huid, h.symm⟩
  · simp [started, huid] at h

theorem started_init : (system oneTask).init started := by
  refine ⟨⟨fun e he => ?_, fun uid u hu e he => ?_, fun uid u hu => ?_,
    fun uid uid' u u' hu hu' _ _ _ => ?_⟩, fun _ _ => rfl, rfl, rfl, rfl⟩
  · by_cases heq : e = ⟨1, .day⟩
    · rw [heq]
      decide
    · simp [started, heq] at he
  · obtain ⟨-, rfl⟩ := started_usertask hu
    obtain rfl : e = ⟨1, .day⟩ := by simpa [UserTask.refs] using he
    decide
  · obtain ⟨-, rfl⟩ := started_usertask hu
    decide
  · rw [(started_usertask hu).1, (started_usertask hu').1]

/-- The achievement of the objective. -/
def achieved : Advance := ⟨1010, 1, none, true, none, 0, 0⟩

/-- The player logs in and meets the objective, and the dialogue ends. -/
def talkedOnce : Server :=
  step oneTask (step oneTask (step oneTask started (.login 1 0)) (.achieve 1 achieved))
    (.talkend 1 (some 1) (some 1))

theorem rewards_once_talkedOnce : (∀ e, (awardsOf talkedOnce.state e).length ≤ 1) ∧
    ∀ a ∈ talkedOnce.state.awards, Earned oneTask a := by
  have htells : Tells oneTask (step oneTask (step oneTask started (.login 1 0)) (.achieve 1 achieved))
      (.talkend 1 (some 1) (some 1)) := by
    intro e task he htask
    obtain rfl : (⟨1, .day⟩ : Ref) = e := Option.some.inj he
    obtain rfl : (⟨1, .numover, [⟨1010, 1, 1⟩], 0, 0⟩ : Task) = task := Option.some.inj htask
    exact ⟨rfl, rfl, by decide⟩
  have hquiet : Quiet oneTask (step oneTask started (.login 1 0)).state := by
    intro id task row htask hrow
    cases hrow
  have hrun : ((system oneTask).restrict (Tells oneTask)).Path started
      [.login 1 0, .achieve 1 achieved, .talkend 1 (some 1) (some 1)] talkedOnce :=
    .cons ⟨rfl, trivial⟩ (.cons ⟨rfl, hquiet⟩ (.cons ⟨rfl, htells⟩ (.nil _)))
  exact rewards_once ⟨started, _, started_init, hrun⟩

/-- **Two `talkend`s** for a task that nothing was done for give its reward twice. -/
theorem rewards_twice : ¬ ∀ cfg s, (system cfg).Reachable s →
    (∀ e, (awardsOf s.state e).length ≤ 1) ∧ ∀ a ∈ s.state.awards, Earned cfg a := by
  intro h
  have hrun := h oneTask (step oneTask (step oneTask (step oneTask started (.login 1 0))
      (.talkend 1 (some 1) (some 1))) (.talkend 1 (some 1) (some 1)))
    ⟨started, _, started_init, .cons rfl (.cons rfl (.cons rfl (.nil _)))⟩
  have htwice := hrun.1 ⟨1, .day⟩
  revert htwice
  decide

end Assignment

end Athena
