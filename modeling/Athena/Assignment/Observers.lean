import Athena.Assignment.Reward
import Mathlib.Data.List.Count
import Mathlib.Data.List.Nodup
/-!
# Tasks — registered once

For a player that has logged in, the observers of an achievement are to be his
active tasks with that objective, each once (`Registered`). The first login since
the start of the server registers them, and a plot task that closes is forgotten;
but a login registers all tasks again, since `response.offline` forgets nothing,
and a plot task with a next one is forgotten while it stays (`observers_once`).
-/

namespace Athena

namespace Assignment

/-- **A task of the player with an objective of the achievement.** -/
def Active (s : State) (uid : Id) (e : Ref) (achid : Id) : Prop :=
  ∃ u task, s.usertask uid = some u ∧ e ∈ u.refs ∧ s.tasks e = some task ∧
    achid ∈ task.progress.map Progress.achid

/-- **The observers** of the players that have logged in, and of the others. -/
structure Registered (loggedin : List Id) (s : State) : Prop where
  stored : Stored s
  away : ∀ uid ∉ loggedin, ∀ achid, s.observerlist uid achid = []
  once : ∀ uid ∈ loggedin, ∀ achid e, Active s uid e achid →
    (s.observerlist uid achid).count e = 1
  active : ∀ uid ∈ loggedin, ∀ achid, ∀ e ∈ s.observerlist uid achid, Active s uid e achid

/-- **A player logs in once**, with a record for each of his tasks and no two
objectives of one achievement in a task; and a plot task that is received closes. -/
def Orderly (cfg : Config) (s : Server) : Event → Prop
  | .login uid _ => uid ∉ s.loggedin ∧
      (∀ u, s.state.usertask uid = some u → ∀ e ∈ u.refs, ∃ task, s.state.tasks e = some task ∧
        (task.progress.map Progress.achid).Nodup) ∧
      (s.state.usertask uid = none → ∀ r ∈ cfg.take_task ++ cfg.urgent_task ++ cfg.date_task,
        r.2.If_Display = 1 → ∀ progress, progressOf cfg r.2.Task_Object = .ok progress →
          (progress.map Progress.achid).Nodup)
  | .talkend uid id type => ∀ e task row, reported s.state uid id type = some e →
      e.tasktype = .plot → s.state.tasks e = some task → cfg.row .plot task.cfgid = some row →
        Closes cfg task row
  | .achieve _ _ => Quiet cfg s.state
  | _ => True

variable {cfg : Config} {loggedin : List Id} {s t : State} {e e' : Ref} {a : Advance} {task : Task}
  {uid uid' : Id} {progress : List Progress} {u : UserTask}

/-! ## What is registered -/

/-- The achievements of a task. -/
def achidsOf (s : State) (e : Ref) : List Id :=
  ((s.tasks e).map fun task => task.progress.map Progress.achid).getD []

/-- **Alike**: the players have the same tasks and these the same achievements, and
the observers are the same. -/
structure Alike (s t : State) : Prop where
  refs : ∀ uid, (t.usertask uid).map UserTask.refs = (s.usertask uid).map UserTask.refs
  tasks : ∀ e, (t.tasks e).map (fun task => task.progress.map Progress.achid) =
    (s.tasks e).map fun task => task.progress.map Progress.achid
  nextid : t.nextid = s.nextid
  observerlist : t.observerlist = s.observerlist

theorem Alike.trans {u : State} (h : Alike s t) (h' : Alike t u) : Alike s u where
  refs uid := (h'.refs uid).trans (h.refs uid)
  tasks e := (h'.tasks e).trans (h.tasks e)
  nextid := h'.nextid.trans h.nextid
  observerlist := h'.observerlist.trans h.observerlist

theorem Alike.symm (h : Alike s t) : Alike t s where
  refs uid := (h.refs uid).symm
  tasks e := (h.tasks e).symm
  nextid := h.nextid.symm
  observerlist := h.observerlist.symm

theorem Alike.usertask (h : Alike s t) (hu : t.usertask uid = some u) :
    ∃ u', s.usertask uid = some u' ∧ u'.refs = u.refs := by
  have hrefs := h.refs uid
  rw [hu] at hrefs
  exact Option.map_eq_some_iff.mp hrefs.symm

theorem Alike.active (h : Alike s t) {achid : Id} (hactive : Active t uid e achid) :
    Active s uid e achid := by
  obtain ⟨u, task, hu, hmem, htask, hachid⟩ := hactive
  obtain ⟨u', hu', hrefs⟩ := h.usertask hu
  have htasks := h.tasks e
  rw [htask] at htasks
  obtain ⟨task', htask', hprogress⟩ := Option.map_eq_some_iff.mp htasks.symm
  exact ⟨u', task', hu', hrefs ▸ hmem, htask', hprogress ▸ hachid⟩

theorem Alike.stored (h : Alike s t) (hs : Stored s) : Stored t where
  fresh e he := by
    rw [h.nextid]
    refine hs.fresh e ?_
    have htasks := congrArg Option.isSome (h.tasks e)
    rw [Option.isSome_map, Option.isSome_map] at htasks
    rw [← htasks]
    exact he
  listed uid u hu e he := by
    obtain ⟨u', hu', hrefs⟩ := h.usertask hu
    rw [h.nextid]
    exact hs.listed uid u' hu' e (hrefs ▸ he)
  nodup uid u hu := by
    obtain ⟨u', hu', hrefs⟩ := h.usertask hu
    exact hrefs ▸ hs.nodup uid u' hu'
  own uid uid' u v hu hv id hid hid' := by
    obtain ⟨u', hu', hrefs⟩ := h.usertask hu
    obtain ⟨v', hv', hrefs'⟩ := h.usertask hv
    refine hs.own uid uid' u' v' hu' hv' id ?_ ?_
    · have hmem : (⟨id, .plot⟩ : Ref) ∈ u'.refs := hrefs ▸ mem_refs.mpr hid
      exact mem_refs.mp hmem
    · have hmem : (⟨id, .plot⟩ : Ref) ∈ v'.refs := hrefs' ▸ mem_refs.mpr hid'
      exact mem_refs.mp hmem

/-- What is alike is registered alike. -/
theorem Registered.alike (h : Registered loggedin s) (halike : Alike s t) :
    Registered loggedin t where
  stored := halike.stored h.stored
  away uid huid achid := by
    rw [halike.observerlist]
    exact h.away uid huid achid
  once uid huid achid e hactive := by
    rw [halike.observerlist]
    exact h.once uid huid achid e (halike.active hactive)
  active uid huid achid e he := by
    rw [halike.observerlist] at he
    exact halike.symm.active (h.active uid huid achid e he)

theorem put_alike (htask : s.tasks e = some task) (type : IndexType)
    (hachid : progress.map Progress.achid = task.progress.map Progress.achid) :
    Alike s (s.put e type progress) where
  refs _ := rfl
  tasks e' := by
    by_cases heq : e' = e
    · rw [heq, put_tasks_self type htask, htask, Option.map_some, Option.map_some, hachid]
    · rw [put_tasks_of_ne type heq]
  nextid := rfl
  observerlist := rfl

theorem setuser_alike (f : UserTask → UserTask) (hf : ∀ u, (f u).refs = u.refs) :
    Alike s (s.setuser uid f) where
  refs uid' := by
    by_cases heq : uid' = uid
    · subst heq
      simp [State.setuser, Function.comp_def, hf]
    · simp [State.setuser, heq]
  tasks _ := rfl
  nextid := rfl
  observerlist := rfl

theorem get_award_alike (award : Award) : Alike s (get_award award s) := by
  obtain ⟨awards, h⟩ := get_award_eq (s := s) award
  rw [h]
  exact ⟨fun _ => rfl, fun _ => rfl, rfl, rfl⟩

theorem updatesys_alike : Alike s (updatesys s).2 where
  refs _ := rfl
  tasks e := by
    simp only [updatesys, Act.modify_apply]
    split
    · simp [Function.comp_def]
    · rfl
  nextid := rfl
  observerlist := rfl

/-! ## A task that closes -/

/-- What `forget` takes out. -/
theorem forget_count (uid uid' : Id) (e e' : Ref) (achids : List Id) (s : State) (achid : Id) :
    ((forget uid e achids s).observerlist uid' achid).count e' =
      if uid' = uid ∧ e' = e then
        ((s.observerlist uid' achid).count e') - achids.count achid
      else (s.observerlist uid' achid).count e' := by
  induction achids generalizing s with
  | nil => simp [forget]
  | cons b achids ih =>
    rw [forget, List.foldl_cons]
    refine (ih _).trans ?_
    by_cases hheld : uid' = uid ∧ e' = e
    · -- each turn takes out one entry, if there is one
      obtain ⟨rfl, rfl⟩ := hheld
      by_cases hachid : achid = b
      · subst hachid
        simp [State.setobservers]
        omega
      · simp [State.setobservers, hachid, Ne.symm hachid]
    · rw [if_neg hheld, if_neg hheld]
      by_cases huid : uid' = uid
      · have hne : e' ≠ e := fun heq => hheld ⟨huid, heq⟩
        subst huid
        by_cases hachid : achid = b
        · subst hachid
          simp [State.setobservers, List.count_erase_of_ne hne]
        · simp [State.setobservers, hachid]
      · simp [State.setobservers, huid]

/-- **A plot task that is received leaves no observer.** -/
theorem Registered.close (h : Registered loggedin s) (hu : s.usertask uid = some u)
    (hmem : e ∈ u.refs) (hplot : e.tasktype = .plot) (htask : s.tasks e = some task) :
    Registered loggedin ((forget uid e (task.progress.map Progress.achid) s).delete e) := by
  obtain ⟨htasks, hnextid, -, husertask⟩ :=
    forget_same uid e (task.progress.map Progress.achid) s
  have hold : ∀ e', e' ≠ e →
      ((forget uid e (task.progress.map Progress.achid) s).delete e).tasks e' = s.tasks e' := by
    intro e' hne
    rw [delete_tasks_of_ne hne, htasks]
  have hactive : ∀ uid' e' achid,
      Active ((forget uid e (task.progress.map Progress.achid) s).delete e) uid' e' achid ↔
        e' ≠ e ∧ Active s uid' e' achid := by
    intro uid' e' achid
    constructor
    · rintro ⟨u', task', hu', hmem', htask', hachid⟩
      have hne : e' ≠ e := by
        rintro rfl
        rw [delete_tasks_self] at htask'
        cases htask'
      rw [delete_usertask, husertask] at hu'
      rw [hold e' hne] at htask'
      exact ⟨hne, u', task', hu', hmem', htask', hachid⟩
    · rintro ⟨hne, u', task', hu', hmem', htask', hachid⟩
      refine ⟨u', task', ?_, hmem', ?_, hachid⟩
      · rw [delete_usertask, husertask]
        exact hu'
      · rw [hold e' hne]
        exact htask'
  -- no other player has the task, and of this one every observer of it goes
  have hgone : ∀ uid' ∈ loggedin, ∀ achid, e ∉
      (forget uid e (task.progress.map Progress.achid) s).observerlist uid' achid := by
    intro uid' huid' achid hin
    have hcount := forget_count uid uid' e e (task.progress.map Progress.achid) s achid
    have hpos := List.count_pos_iff.mpr hin
    have hlist : e ∈ s.observerlist uid' achid := by
      refine List.count_pos_iff.mp ?_
      split at hcount <;> omega
    obtain ⟨u', task', hu', hmem', htask', hachid⟩ := h.active uid' huid' achid e hlist
    have heq : uid' = uid := by
      obtain ⟨taskid, ty⟩ := e
      obtain rfl : ty = .plot := hplot
      exact h.stored.own uid' uid u' u hu' hu taskid (mem_refs.mp hmem') (mem_refs.mp hmem)
    rw [htask] at htask'
    cases htask'
    have honce := h.once uid' huid' achid e ⟨u', task, hu', hmem', htask, hachid⟩
    have hachids := List.count_pos_iff.mpr hachid
    rw [if_pos ⟨heq, rfl⟩] at hcount
    omega
  have hcount : ∀ uid' e' achid, e' ≠ e →
      ((forget uid e (task.progress.map Progress.achid) s).observerlist uid' achid).count e' =
        (s.observerlist uid' achid).count e' := by
    intro uid' e' achid hne
    rw [forget_count, if_neg fun hheld => hne hheld.2]
  refine ⟨⟨fun e' he' => ?_, ?_, ?_, ?_⟩, fun uid' huid' achid => ?_,
    fun uid' huid' achid e' he' => ?_, fun uid' huid' achid e' he' => ?_⟩
  · by_cases hne : e' = e
    · rw [hne, delete_tasks_self] at he'
      cases he'
    · rw [hold e' hne] at he'
      rw [delete_nextid, hnextid]
      exact h.stored.fresh e' he'
  · rw [delete_usertask, husertask, delete_nextid, hnextid]
    exact h.stored.listed
  · rw [delete_usertask, husertask]
    exact h.stored.nodup
  · rw [delete_usertask, husertask]
    exact h.stored.own
  · -- who has not logged in has no observers to lose
    refine List.eq_nil_iff_forall_not_mem.mpr fun e' he' => ?_
    have hpos := List.count_pos_iff.mpr he'
    rw [delete_observerlist, forget_count, h.away uid' huid' achid] at hpos
    simp at hpos
  · obtain ⟨hne, hactive'⟩ := (hactive uid' e' achid).mp he'
    rw [delete_observerlist, hcount uid' e' achid hne]
    exact h.once uid' huid' achid e' hactive'
  · rw [delete_observerlist] at he'
    have hne : e' ≠ e := by
      rintro rfl
      exact hgone uid' huid' achid he'
    refine (hactive uid' e' achid).mpr ⟨hne, h.active uid' huid' achid e' ?_⟩
    have hpos := List.count_pos_iff.mpr he'
    rw [hcount uid' e' achid hne] at hpos
    exact List.count_pos_iff.mp hpos

/-! ## The events -/

/-- A plot task of the player is received, and closes. -/
theorem recieveplot_registered (h : Registered loggedin s) (hu : s.usertask uid = some u)
    {taskid : Id} (hmem : taskid ∈ u.plottask) (talked : Bool)
    (hcloses : ∀ task row, s.tasks ⟨taskid, .plot⟩ = some task →
      cfg.row .plot task.cfgid = some row → Closes cfg task row) :
    Registered loggedin (recieveplot cfg uid taskid progress talked s).2 := by
  cases htask : s.tasks ⟨taskid, .plot⟩ with
  | none =>
    simp only [recieveplot, Act.get_bind_apply, htask]
    exact h
  | some task =>
    cases hrow : cfg.row .plot task.cfgid with
    | none =>
      simp only [recieveplot, Act.get_bind_apply, htask, hrow]
      exact h
    | some row =>
      rw [recieveplot_closes uid progress talked htask hrow (hcloses task row htask hrow)]
      refine (h.alike (get_award_alike _)).close (u := u) ?_ ?_ rfl ?_
      · rw [get_award_usertask]
        exact hu
      · exact mem_refs.mpr hmem
      · rw [get_award_tasks]
        exact htask

/-- The player has the tasks of some entries. -/
def Has (uid : Id) (l : List Ref) (s : State) : Prop :=
  ∃ u, s.usertask uid = some u ∧ ∀ e ∈ l, e ∈ u.refs

theorem Has.alike {l : List Ref} (h : Has uid l s) (halike : Alike s t) : Has uid l t := by
  obtain ⟨u, hu, hmem⟩ := h
  obtain ⟨u', hu', hrefs⟩ := halike.symm.usertask hu
  exact ⟨u', hu', fun e he => hrefs ▸ hmem e he⟩

/-- **What an event writes keeps the observers.** -/
theorem write_registered {l : List Ref} (h : Registered loggedin s) (hquiet : Quiet cfg s)
    (hhas : Has uid l s) (he : e ∈ l) {o : Outcome} (htask : s.tasks e = some task)
    (hfits : o.Fits cfg e.tasktype task) :
    Registered loggedin (write cfg uid e task o s).2 ∧ Has uid l (write cfg uid e task o s).2 := by
  have haward : ∀ award : Award, (get_award award s).tasks e = some task := by
    intro award
    rw [get_award_tasks]
    exact htask
  have halike : ∀ t, Alike s t → Registered loggedin t ∧ Has uid l t :=
    fun t ht => ⟨h.alike ht, hhas.alike ht⟩
  cases o with
  | raised f => exact ⟨h, hhas⟩
  | passed => exact ⟨h, hhas⟩
  | counted progress => exact halike _ (put_alike htask task.type hfits)
  | numover progress =>
    have huser : Alike s (addneedtalk uid ⟨e, task.cfgid⟩ s) := setuser_alike _ fun _ => rfl
    have htask' : (addneedtalk uid ⟨e, task.cfgid⟩ s).tasks e = some task := htask
    exact halike _ (huser.trans (put_alike htask' .numover hfits.1))
  | finished progress row =>
    obtain ⟨taskid, ty⟩ := e
    cases ty with
    | day => exact halike _ ((get_award_alike _).trans (put_alike (haward _) .finish hfits.1))
    | urgent => exact halike _ ((get_award_alike _).trans (put_alike (haward _) .finish hfits.1))
    | plot =>
      obtain ⟨u, hu, hmem⟩ := hhas
      have husertask : ∀ award : Award, (get_award award s).usertask uid = some u := by
        intro award
        rw [get_award_usertask]
        exact hu
      rw [write_plot uid hquiet htask hfits]
      refine ⟨(h.alike (get_award_alike _)).close (husertask _) (hmem _ he) rfl (haward _),
        u, ?_, hmem⟩
      rw [delete_usertask, (forget_same _ _ _ _).2.2.2]
      exact husertask _

/-- **An event keeps the observers.** -/
theorem updateathletics_registered (h : Registered loggedin s) (hquiet : Quiet cfg s) (uid : Id)
    (a : Advance) : Registered loggedin (updateathletics cfg uid a s).2 := by
  simp only [updateathletics, Act.get_bind_apply]
  by_cases huid : uid ∈ loggedin
  · cases hlist : s.observerlist uid a.achid with
    | nil => exact h
    | cons e₀ l₀ =>
      -- the loop runs over the observers of before, whatever its turns close
      have hhas : Has uid (s.observerlist uid a.achid) s := by
        obtain ⟨u, _, hu, _⟩ := h.active uid huid a.achid e₀ (by simp [hlist])
        refine ⟨u, hu, fun e he => ?_⟩
        obtain ⟨u', _, hu', hmem, _⟩ := h.active uid huid a.achid e he
        rw [hu] at hu'
        cases hu'
        exact hmem
      rw [hlist] at hhas
      have hkeeps : Act.Keeps
          (fun s => Registered loggedin s ∧ Has uid (e₀ :: l₀) s ∧ Quiet cfg s)
          (Act.each (e₀ :: l₀) (pusheach cfg uid a)) := by
        refine Act.Keeps.each fun e he => pusheach_keeps cfg uid a e ?_
        rintro s task o ⟨hs, hhas, hquiet⟩ htask hfits
        obtain ⟨hs', hhas'⟩ := write_registered hs hquiet hhas he htask hfits
        exact ⟨hs', hhas', write_quiet hquiet htask hfits⟩
      exact (hkeeps s ⟨h, hhas, hquiet⟩).1
  · rw [h.away uid huid a.achid]
    exact h

/-! ## A login -/

/-- The registration of a task. -/
theorem observe_eq (uid : Id) (htask : s.tasks e = some task) :
    ∃ t, observe uid e s = (.ok (), t) ∧ t.usertask = s.usertask ∧ t.tasks = s.tasks ∧
      t.nextid = s.nextid ∧ (∀ uid' ≠ uid, t.observerlist uid' = s.observerlist uid') ∧
      ∀ achid e', (t.observerlist uid achid).count e' = (s.observerlist uid achid).count e' +
        if e' = e then (task.progress.map Progress.achid).count achid else 0 := by
  simp only [observe, Act.get_bind_apply, htask]
  clear htask
  induction task.progress generalizing s with
  | nil => exact ⟨s, rfl, rfl, rfl, rfl, fun _ _ => rfl, by simp⟩
  | cons v progress ih =>
    obtain ⟨t, hrun, husertask, htasks, hnextid, hother, hcount⟩ :=
      ih (s := s.setobservers uid v.achid (s.observerlist uid v.achid ++ [e]))
    refine ⟨t, ?_, husertask, htasks, hnextid, fun uid' huid' => ?_, fun achid e' => ?_⟩
    · rw [Act.each_cons, addobserver, Act.modify_bind_apply]
      exact hrun
    · rw [hother uid' huid']
      simp [State.setobservers, huid']
    · rw [hcount achid e', List.map_cons, List.count_cons]
      by_cases hachid : achid = v.achid
      · subst hachid
        by_cases heq : e' = e
        · subst heq
          simp [State.setobservers]
          omega
        · simp [State.setobservers, heq, Ne.symm heq]
      · by_cases heq : e' = e
        · simp [State.setobservers, hachid, heq, Ne.symm hachid]
        · simp [State.setobservers, hachid, heq]

/-- **The registration of all tasks of a player**, each with its record. -/
theorem each_observe (uid : Id) {l : List Ref} (hnodup : l.Nodup)
    (hrecords : ∀ e ∈ l, ∃ task, s.tasks e = some task) :
    ∃ t, Act.each l (observe uid) s = (.ok (), t) ∧ t.usertask = s.usertask ∧ t.tasks = s.tasks ∧
      t.nextid = s.nextid ∧ (∀ uid' ≠ uid, t.observerlist uid' = s.observerlist uid') ∧
      ∀ achid e', (t.observerlist uid achid).count e' = (s.observerlist uid achid).count e' +
        if e' ∈ l then (achidsOf s e').count achid else 0 := by
  induction l generalizing s with
  | nil => exact ⟨s, rfl, rfl, rfl, rfl, fun _ _ => rfl, by simp⟩
  | cons e l ih =>
    obtain ⟨task, htask⟩ := hrecords e List.mem_cons_self
    obtain ⟨m, hrun, husertask, htasks, hnextid, hother, hcount⟩ := observe_eq uid htask
    have hrest : ∀ e ∈ l, ∃ task, m.tasks e = some task := by
      intro e' he'
      rw [htasks]
      exact hrecords e' (List.mem_cons_of_mem e he')
    obtain ⟨t, hrun', husertask', htasks', hnextid', hother', hcount'⟩ :=
      ih (List.nodup_cons.mp hnodup).2 hrest
    refine ⟨t, ?_, husertask'.trans husertask, htasks'.trans htasks, hnextid'.trans hnextid,
      fun uid' huid' => (hother' uid' huid').trans (hother uid' huid'), fun achid e' => ?_⟩
    · rw [Act.each_cons, Act.bind_ok hrun]
      exact hrun'
    · have hachids : achidsOf m e' = achidsOf s e' := by
        rw [achidsOf, achidsOf, htasks]
      rw [hcount' achid e', hcount achid e', hachids]
      by_cases heq : e' = e
      · have hnot : e' ∉ l := heq ▸ (List.nodup_cons.mp hnodup).1
        have htask' : achidsOf s e = task.progress.map Progress.achid := by
          rw [achidsOf, htask]
          rfl
        subst heq
        simp [hnot, htask']
      · simp [heq]

/-- A player without tasks has no observers. -/
theorem Registered.absent (h : Registered loggedin s) (huid : uid ∉ loggedin)
    (hu : s.usertask uid = none) : Registered (uid :: loggedin) s := by
  refine ⟨h.stored, fun uid' huid' => ?_, fun uid' huid' => ?_, fun uid' huid' => ?_⟩
  · exact h.away uid' fun hmem => huid' (List.mem_cons_of_mem uid hmem)
  · rcases List.mem_cons.mp huid' with rfl | hmem
    · rintro achid e ⟨u, _, hu', _⟩
      rw [hu] at hu'
      cases hu'
    · exact h.once uid' hmem
  · rcases List.mem_cons.mp huid' with rfl | hmem
    · intro achid e he
      rw [h.away uid' huid achid] at he
      cases he
    · exact h.active uid' hmem

/-- **A player is registered** who was not. -/
theorem add_observer_registered (h : Registered loggedin s) (huid : uid ∉ loggedin)
    (hrecords : ∀ u, s.usertask uid = some u → ∀ e ∈ u.refs, ∃ task, s.tasks e = some task ∧
      (task.progress.map Progress.achid).Nodup) :
    Registered (uid :: loggedin) (add_observer uid s).2 := by
  simp only [add_observer, Act.get_bind_apply]
  cases hu : s.usertask uid with
  | none => exact h.absent huid hu
  | some u =>
    have hsome : ∀ e ∈ u.refs, ∃ task, s.tasks e = some task := by
      intro e he
      obtain ⟨task, htask, -⟩ := hrecords u hu e he
      exact ⟨task, htask⟩
    obtain ⟨t, hrun, husertask, htasks, hnextid, hother, hcount⟩ :=
      each_observe uid (h.stored.nodup uid u hu) hsome
    simp only [hrun]
    have hactive : ∀ uid' e achid, Active t uid' e achid ↔ Active s uid' e achid := by
      intro uid' e achid
      simp only [Active, husertask, htasks]
    have hne : ∀ uid' ∈ loggedin, uid' ≠ uid := by
      rintro uid' hmem rfl
      exact huid hmem
    refine ⟨⟨?_, ?_, ?_, ?_⟩, fun uid' huid' achid => ?_, fun uid' huid' achid e he => ?_,
      fun uid' huid' achid e he => ?_⟩
    · rw [htasks, hnextid]
      exact h.stored.fresh
    · rw [husertask, hnextid]
      exact h.stored.listed
    · rw [husertask]
      exact h.stored.nodup
    · rw [husertask]
      exact h.stored.own
    · obtain ⟨hne', hnot⟩ := not_or.mp (mt List.mem_cons.mpr huid')
      rw [hother uid' hne']
      exact h.away uid' hnot achid
    · rw [hactive] at he
      rcases List.mem_cons.mp huid' with rfl | hmem
      · -- the new player was nowhere, and each of its tasks names an achievement once
        obtain ⟨u', task, hu', hmem, htask, hachid⟩ := he
        rw [hu] at hu'
        cases hu'
        obtain ⟨task', htask', hnodup⟩ := hrecords u hu e hmem
        rw [htask] at htask'
        cases htask'
        have hachids : achidsOf s e = task.progress.map Progress.achid := by
          rw [achidsOf, htask]
          rfl
        rw [hcount achid e, h.away uid' huid achid, if_pos hmem, hachids,
          List.count_eq_one_of_mem hnodup hachid]
        rfl
      · rw [hother uid' (hne uid' hmem)]
        exact h.once uid' hmem achid e he
    · rw [hactive]
      rcases List.mem_cons.mp huid' with rfl | hmem
      · have hpos := List.count_pos_iff.mpr he
        rw [hcount achid e, h.away uid' huid achid, List.count_nil] at hpos
        have hin : e ∈ u.refs := by
          by_contra hnot
          rw [if_neg hnot] at hpos
          omega
        rw [if_pos hin] at hpos
        obtain ⟨task, htask, -⟩ := hrecords u hu e hin
        have hachids : achidsOf s e = task.progress.map Progress.achid := by
          rw [achidsOf, htask]
          rfl
        rw [hachids] at hpos
        exact ⟨u, task, hu, hin, htask, List.count_pos_iff.mp (by omega)⟩
      · rw [hother uid' (hne uid' hmem)] at he
        exact h.active uid' hmem achid e he

/-! ## New tasks -/

theorem Registered.grown (h : Registered loggedin s) (hgrown : Grown s t) :
    Registered loggedin t := by
  have hrefs : ∀ uid u, s.usertask uid = some u → ∀ e ∈ u.refs, t.tasks e = s.tasks e :=
    fun uid u hu e he => hgrown.old e (h.stored.listed uid u hu e he)
  have hactive : ∀ uid e achid, Active t uid e achid ↔ Active s uid e achid := by
    intro uid e achid
    constructor
    · rintro ⟨u, task, hu, hmem, htask, hachid⟩
      rw [hgrown.usertask] at hu
      rw [hrefs uid u hu e hmem] at htask
      exact ⟨u, task, hu, hmem, htask, hachid⟩
    · rintro ⟨u, task, hu, hmem, htask, hachid⟩
      refine ⟨u, task, ?_, hmem, ?_, hachid⟩
      · rw [hgrown.usertask]
        exact hu
      · rw [hrefs uid u hu e hmem]
        exact htask
  refine ⟨⟨hgrown.new h.stored.fresh, fun uid u hu e he => ?_, ?_, ?_⟩, ?_,
    fun uid huid achid e he => ?_, fun uid huid achid e he => ?_⟩
  · rw [hgrown.usertask] at hu
    exact lt_of_lt_of_le (h.stored.listed uid u hu e he) (hgrown.nextid _)
  · rw [hgrown.usertask]
    exact h.stored.nodup
  · rw [hgrown.usertask]
    exact h.stored.own
  · rw [hgrown.observerlist]
    exact h.away
  · rw [hgrown.observerlist]
    exact h.once uid huid achid e ((hactive uid e achid).mp he)
  · rw [hgrown.observerlist] at he
    exact (hactive uid e achid).mpr (h.active uid huid achid e he)

/-- **New ids of a type**: different, after `low`, and each with a record of
different achievements. -/
structure NewIds (ty : TaskType) (low : Id) (t : State) (ids : List Id) : Prop where
  nodup : ids.Nodup
  above : ∀ id ∈ ids, low ≤ id
  below : ∀ id ∈ ids, id < t.nextid ty
  record : ∀ id ∈ ids, ∃ task, t.tasks ⟨id, ty⟩ = some task ∧
    (task.progress.map Progress.achid).Nodup

theorem NewIds.grown {ty : TaskType} {low : Id} {ids : List Id} (h : NewIds ty low s ids)
    (hgrown : Grown s t) : NewIds ty low t ids where
  nodup := h.nodup
  above := h.above
  below id hid := lt_of_lt_of_le (h.below id hid) (hgrown.nextid ty)
  record id hid := by
    rw [hgrown.old ⟨id, ty⟩ (h.below id hid)]
    exact h.record id hid

/-- **What a loop of `init_task` makes.** -/
theorem init_rows_new {ty : TaskType} {zerotime : ℤ} {data : List (Id × TaskRow)}
    {l : List (Id × TaskRow)} (hfresh : ∀ e, (s.tasks e).isSome → e.taskid < s.nextid e.tasktype)
    (hdata : ∀ r ∈ data, r.2.If_Display = 1 → ∀ progress,
      progressOf cfg r.2.Task_Object = .ok progress → (progress.map Progress.achid).Nodup)
    (hrun : init_rows cfg ty zerotime data s = (.ok l, t)) :
    NewIds ty (s.nextid ty) t (l.map Prod.fst) := by
  induction data generalizing s l with
  | nil =>
    cases hrun
    exact ⟨List.nodup_nil, by simp, by simp, by simp⟩
  | cons row data ih =>
    obtain ⟨key, value⟩ := row
    have hrest : ∀ r ∈ data, r.2.If_Display = 1 → ∀ progress,
        progressOf cfg r.2.Task_Object = .ok progress → (progress.map Progress.achid).Nodup :=
      fun r hr => hdata r (List.mem_cons_of_mem _ hr)
    rw [init_rows] at hrun
    split at hrun
    · next hdisplay =>
      rw [get_nextid_bind_apply] at hrun
      obtain ⟨progress, hprogress, hrun⟩ := Act.lift_bind_eq_ok.mp hrun
      rw [Act.modify_bind_apply] at hrun
      obtain ⟨rest, m, hrec, hpure⟩ := Act.bind_eq_ok.mp hrun
      cases hpure
      have hgrown := taken_add_grown (s := s) ty
        ⟨key, .numing, progress, zerotime + value.Start_Time, zerotime + value.End_Time⟩
      have hnew := ih (hgrown.new hfresh) hrest hrec
      have hlater := init_rows_grown cfg ty zerotime data ((taken ty s).add ⟨s.nextid ty, ty⟩
          ⟨key, .numing, progress, zerotime + value.Start_Time, zerotime + value.End_Time⟩)
      rw [hrec] at hlater
      have hnextid : ((taken ty s).add ⟨s.nextid ty, ty⟩
          ⟨key, .numing, progress, zerotime + value.Start_Time,
            zerotime + value.End_Time⟩).nextid ty = s.nextid ty + 1 := by
        simp [State.add, taken]
      have hfirst : NewIds ty (s.nextid ty) ((taken ty s).add ⟨s.nextid ty, ty⟩
          ⟨key, .numing, progress, zerotime + value.Start_Time, zerotime + value.End_Time⟩)
          [s.nextid ty] := by
        refine ⟨List.nodup_singleton _, by simp, ?_, fun id hid => ?_⟩
        · simp only [List.mem_singleton, forall_eq, hnextid]
          exact lt_add_one _
        · obtain rfl := List.mem_singleton.mp hid
          refine ⟨⟨key, .numing, progress, zerotime + value.Start_Time, zerotime + value.End_Time⟩,
            ?_, hdata (key, value) List.mem_cons_self hdisplay progress hprogress⟩
          have hnone : s.tasks ⟨s.nextid ty, ty⟩ = none := by
            by_contra hsome
            exact lt_irrefl _ (hfresh _ (Option.ne_none_iff_isSome.mp hsome))
          simp [State.add, taken, hnone]
      -- the rest of the loop starts above the id just taken
      have hfirst' := hfirst.grown hlater
      rw [hnextid] at hnew
      refine ⟨?_, fun id hid => ?_, fun id hid => ?_, fun id hid => ?_⟩
      · refine List.nodup_cons.mpr ⟨fun hmem => ?_, hnew.nodup⟩
        exact absurd (hnew.above _ hmem) (not_le.mpr (lt_add_one _))
      · rcases List.mem_cons.mp hid with rfl | hmem
        · exact le_refl _
        · exact (le_of_lt (lt_add_one _)).trans (hnew.above id hmem)
      · rcases List.mem_cons.mp hid with rfl | hmem
        · exact hfirst'.below _ (List.mem_singleton_self _)
        · exact hnew.below id hmem
      · rcases List.mem_cons.mp hid with rfl | hmem
        · exact hfirst'.record _ (List.mem_singleton_self _)
        · exact hnew.record id hmem
    · exact ih hfresh hrest hrun

/-- Ids of the three types make different tasks. -/
theorem refs_nodup (hday : u.daytask.Nodup) (hurgent : u.urgenttask.Nodup)
    (hplot : u.plottask.Nodup) : u.refs.Nodup := by
  have hmap : ∀ (ty : TaskType) (l : List Id), l.Nodup → (l.map fun id => (⟨id, ty⟩ : Ref)).Nodup :=
    fun ty l hl => hl.map fun a b hab => congrArg Ref.taskid hab
  refine List.Nodup.append (List.Nodup.append (hmap _ _ hday) (hmap _ _ hurgent) ?_)
    (hmap _ _ hplot) ?_
  · intro e he he'
    obtain ⟨id, -, rfl⟩ := List.mem_map.mp he
    simp at he'
  · intro e he he'
    obtain ⟨id, -, rfl⟩ := List.mem_map.mp he'
    simp at he

/-- A player who has not logged in gets a row. -/
theorem Registered.arrive (h : Registered loggedin s) (huid : uid ∉ loggedin)
    (hnodup : u.refs.Nodup) (hlisted : ∀ e ∈ u.refs, e.taskid < s.nextid e.tasktype)
    (hown : ∀ uid' u', s.usertask uid' = some u' → ∀ id ∈ u.plottask, id ∉ u'.plottask) :
    Registered loggedin { s with usertask := Function.update s.usertask uid (some u) } := by
  have husertask : ∀ uid' u', Function.update s.usertask uid (some u) uid' = some u' →
      uid' = uid ∧ u' = u ∨ s.usertask uid' = some u' := by
    intro uid' u' hu'
    by_cases heq : uid' = uid
    · rw [heq, Function.update_self] at hu'
      exact Or.inl ⟨heq, (Option.some.inj hu').symm⟩
    · rw [Function.update_of_ne heq] at hu'
      exact Or.inr hu'
  have hsame : ∀ uid' ∈ loggedin, Function.update s.usertask uid (some u) uid' = s.usertask uid' := by
    intro uid' hmem
    refine Function.update_of_ne ?_ _ _
    rintro rfl
    exact huid hmem
  refine ⟨⟨h.stored.fresh, fun uid' u' hu' => ?_, fun uid' u' hu' => ?_,
    fun uid₁ uid₂ u₁ u₂ hu₁ hu₂ id hid₁ hid₂ => ?_⟩, h.away, fun uid' hmem achid e he => ?_,
    fun uid' hmem achid e he => ?_⟩
  · rcases husertask uid' u' hu' with ⟨-, rfl⟩ | hold
    · exact hlisted
    · exact h.stored.listed uid' u' hold
  · rcases husertask uid' u' hu' with ⟨-, rfl⟩ | hold
    · exact hnodup
    · exact h.stored.nodup uid' u' hold
  · rcases husertask uid₁ u₁ hu₁ with ⟨heq₁, rfl⟩ | hold₁
    · rcases husertask uid₂ u₂ hu₂ with ⟨heq₂, -⟩ | hold₂
      · rw [heq₁, heq₂]
      · exact absurd hid₂ (hown uid₂ u₂ hold₂ id hid₁)
    · rcases husertask uid₂ u₂ hu₂ with ⟨-, rfl⟩ | hold₂
      · exact absurd hid₁ (hown uid₁ u₁ hold₁ id hid₂)
      · exact h.stored.own uid₁ uid₂ u₁ u₂ hold₁ hold₂ id hid₁ hid₂
  · obtain ⟨u', task, hu', hrest⟩ := he
    exact h.once uid' hmem achid e ⟨u', task, (hsame uid' hmem).symm.trans hu', hrest⟩
  · obtain ⟨u', task, hu', hrest⟩ := h.active uid' hmem achid e he
    exact ⟨u', task, (hsame uid' hmem).trans hu', hrest⟩

/-- What `init_task` leaves when it raised, and when it did not. -/
def Begun (loggedin : List Id) (uid : Id) : Except Fault Unit × State → Prop
  | (.error _, t) => Registered loggedin t ∧ t.usertask uid = none
  | (.ok _, t) => Registered loggedin t ∧ ∀ u, t.usertask uid = some u → ∀ e ∈ u.refs,
      ∃ task, t.tasks e = some task ∧ (task.progress.map Progress.achid).Nodup

/-- **A new player gets his tasks**, or the call raises before he has a row. -/
theorem init_task_begun (h : Registered loggedin s) (huid : uid ∉ loggedin) (zerotime : Id)
    (hu : s.usertask uid = none)
    (hrows : ∀ r ∈ cfg.take_task ++ cfg.urgent_task ++ cfg.date_task, r.2.If_Display = 1 →
      ∀ progress, progressOf cfg r.2.Task_Object = .ok progress →
        (progress.map Progress.achid).Nodup) :
    Begun loggedin uid (init_task cfg uid zerotime s) := by
  have hraised : ∀ t, Grown s t → Registered loggedin t ∧ t.usertask uid = none := by
    intro t hgrown
    refine ⟨h.grown hgrown, ?_⟩
    rw [hgrown.usertask]
    exact hu
  -- the three loops, each from the state the one before left
  have hgrown₁ := init_rows_grown cfg .plot zerotime cfg.take_task s
  rcases hplot : init_rows cfg .plot zerotime cfg.take_task s with ⟨_ | plottask, s₁⟩
  all_goals rw [hplot] at hgrown₁
  · rw [init_task, Act.bind_error hplot]
    exact hraised _ hgrown₁
  have hgrown₂ := init_rows_grown cfg .urgent zerotime cfg.urgent_task s₁
  rcases hurgent : init_rows cfg .urgent zerotime cfg.urgent_task s₁ with ⟨_ | urgenttask, s₂⟩
  all_goals rw [hurgent] at hgrown₂
  · rw [init_task, Act.bind_ok hplot, Act.bind_error hurgent]
    exact hraised _ (hgrown₁.trans hgrown₂)
  have hgrown₃ := init_rows_grown cfg .day zerotime cfg.date_task s₂
  rcases hday : init_rows cfg .day zerotime cfg.date_task s₂ with ⟨_ | daytask, s₃⟩
  all_goals rw [hday] at hgrown₃
  · rw [init_task, Act.bind_ok hplot, Act.bind_ok hurgent, Act.bind_error hday]
    exact hraised _ ((hgrown₁.trans hgrown₂).trans hgrown₃)
  rw [init_task, Act.bind_ok hplot, Act.bind_ok hurgent, Act.bind_ok hday]
  have hgrown := (hgrown₁.trans hgrown₂).trans hgrown₃
  cases mainTask plottask with
  | error f => exact hraised _ hgrown
  | ok tasking =>
    rw [Act.lift_bind_ok rfl, Act.modify_apply]
    have hfresh₁ := hgrown₁.new h.stored.fresh
    have hfresh₂ := hgrown₂.new hfresh₁
    have hplots := ((init_rows_new h.stored.fresh (fun r hr => hrows r (by simp [hr])) hplot).grown
      hgrown₂).grown hgrown₃
    have hurgents := (init_rows_new hfresh₁ (fun r hr => hrows r (by simp [hr])) hurgent).grown hgrown₃
    have hdays := init_rows_new hfresh₂ (fun r hr => hrows r (by simp [hr])) hday
    have hrecord : ∀ e ∈ UserTask.refs ⟨daytask.map Prod.fst, urgenttask.map Prod.fst,
        plottask.map Prod.fst, some tasking, none⟩, e.taskid < s₃.nextid e.tasktype ∧
          ∃ task, s₃.tasks e = some task ∧ (task.progress.map Progress.achid).Nodup := by
      rintro ⟨taskid, ty⟩ he
      have hmem := mem_refs.mp he
      cases ty with
      | day => exact ⟨hdays.below _ hmem, hdays.record _ hmem⟩
      | urgent => exact ⟨hurgents.below _ hmem, hurgents.record _ hmem⟩
      | plot => exact ⟨hplots.below _ hmem, hplots.record _ hmem⟩
    refine ⟨(h.grown hgrown).arrive huid (refs_nodup hdays.nodup hurgents.nodup hplots.nodup)
      (fun e he => (hrecord e he).1) ?_, fun u hu' => ?_⟩
    · intro uid' u' hu' id hid hid'
      -- the ids of the others were given out before
      rw [hgrown.usertask] at hu'
      have hbelow := h.stored.listed uid' u' hu' ⟨id, .plot⟩ (mem_refs.mpr hid')
      exact absurd (hplots.above id hid) (not_le.mpr hbelow)
    · obtain rfl := Option.some.inj ((Function.update_self uid _ s₃.usertask).symm.trans hu')
      exact fun e he => (hrecord e he).2

/-! ## One event, one advance -/

/-- The rows of the players, without the dialogues that wait. -/
def SameUsers (s t : State) : Prop :=
  ∀ uid, (t.usertask uid).map (fun u => { u with needtalk := none }) =
    (s.usertask uid).map fun u => { u with needtalk := none }

/-- What an event writes for one task is of that task. -/
theorem pusheach_frame (cfg : Config) (a : Advance) (s₀ : State) (record : Option Task)
    (hne : e' ≠ e) :
    Act.Keeps (fun s => SameUsers s₀ s ∧ s.tasks e = record) (pusheach cfg uid a e') := by
  refine pusheach_keeps cfg uid a e' ?_
  rintro s task o ⟨husers, hrecord⟩ htask -
  have hput : ∀ s type progress, SameUsers s₀ s ∧ s.tasks e = record →
      SameUsers s₀ (s.put e' type progress) ∧ (s.put e' type progress).tasks e = record := by
    rintro s type progress ⟨hs, hr⟩
    exact ⟨hs, (put_tasks_of_ne type hne.symm).trans hr⟩
  have haward : ∀ award, SameUsers s₀ (get_award award s) ∧
      (get_award award s).tasks e = record := by
    intro award
    rw [get_award_tasks]
    refine ⟨fun uid' => ?_, hrecord⟩
    rw [get_award_usertask]
    exact husers uid'
  cases o with
  | raised f => exact ⟨husers, hrecord⟩
  | passed => exact ⟨husers, hrecord⟩
  | counted progress => exact hput _ _ _ ⟨husers, hrecord⟩
  | numover progress =>
    refine hput _ _ _ ⟨fun uid' => ?_, hrecord⟩
    by_cases heq : uid' = uid
    · subst heq
      rw [← husers uid']
      simp [addneedtalk, State.setuser, Function.comp_def]
    · rw [← husers uid']
      simp [addneedtalk, State.setuser, heq]
  | finished progress row =>
    obtain ⟨taskid, ty⟩ := e'
    cases ty with
    | day => exact hput _ _ _ (haward _)
    | urgent => exact hput _ _ _ (haward _)
    | plot =>
      simp only [write]
      refine Act.Keeps.bind (P := fun s => SameUsers s₀ s ∧ s.tasks e = record) ?_
        (fun _ => Act.keeps_modify fun s hs => hput _ _ _ hs) s ⟨husers, hrecord⟩
      intro s hs
      refine recieveplot_keeps (P := fun s => SameUsers s₀ s ∧ s.tasks e = record)
        (fun s _ _ hs => hs) (fun s hs => hs) (fun s hs => ?_) hs fun task row _ _ => ?_
      · exact ⟨hs.1, (delete_tasks_of_ne hne.symm).trans hs.2⟩
      · rw [get_award_tasks]
        refine ⟨fun uid' => ?_, hs.2⟩
        rw [get_award_usertask]
        exact hs.1 uid'

/-- **Each observer is advanced once**: an event that does not raise comes to what
one `pusheach` made of the record the task had. -/
theorem updateathletics_once {l₁ l₂ : List Ref} (hl : s.observerlist uid a.achid = l₁ ++ e :: l₂)
    (hl₁ : e ∉ l₁) (hl₂ : e ∉ l₂) (hrun : updateathletics cfg uid a s = (.ok (), t)) :
    ∃ m, SameUsers s m ∧ m.tasks e = s.tasks e ∧
      t.tasks e = (pusheach cfg uid a e m).2.tasks e := by
  have hframe : ∀ (l : List Ref) (s₀ : State) (record : Option Task), e ∉ l →
      Act.Keeps (fun s => SameUsers s₀ s ∧ s.tasks e = record)
        (Act.each l (pusheach cfg uid a)) := by
    intro l s₀ record hl
    refine Act.Keeps.each fun e' he' => pusheach_frame cfg a s₀ record ?_
    rintro rfl
    exact hl he'
  simp only [updateathletics, Act.get_bind_apply, hl] at hrun
  rw [Act.each_append] at hrun
  obtain ⟨_, m, hfirst, hrun⟩ := Act.bind_eq_ok.mp hrun
  rw [Act.each_cons] at hrun
  obtain ⟨_, m', hmiddle, hlast⟩ := Act.bind_eq_ok.mp hrun
  have hbefore := hframe l₁ s (s.tasks e) hl₁ s ⟨fun _ => rfl, rfl⟩
  rw [hfirst] at hbefore
  have hafter := hframe l₂ m' (m'.tasks e) hl₂ m' ⟨fun _ => rfl, rfl⟩
  rw [hlast] at hafter
  refine ⟨m, hbefore.1, hbefore.2, ?_⟩
  rw [hmiddle]
  exact hafter.2

/-! ## The runs -/

/-- **A first login registers the tasks of the player.** -/
theorem online_registered (h : Registered loggedin s) (huid : uid ∉ loggedin) (zerotime : Id)
    (hrecords : ∀ u, s.usertask uid = some u → ∀ e ∈ u.refs, ∃ task, s.tasks e = some task ∧
      (task.progress.map Progress.achid).Nodup)
    (hrows : s.usertask uid = none → ∀ r ∈ cfg.take_task ++ cfg.urgent_task ++ cfg.date_task,
      r.2.If_Display = 1 → ∀ progress, progressOf cfg r.2.Task_Object = .ok progress →
        (progress.map Progress.achid).Nodup) :
    Registered (uid :: loggedin) (online cfg uid zerotime s).2 := by
  simp only [online, Act.get_bind_apply]
  cases hu : s.usertask uid with
  | some u => exact add_observer_registered h huid hrecords
  | none =>
    have hbegun := init_task_begun h huid zerotime hu (hrows hu)
    rcases hrun : init_task cfg uid zerotime s with ⟨_ | _, t⟩
    all_goals rw [hrun] at hbegun
    · simp only [Act.bind_error hrun]
      exact hbegun.1.absent huid hbegun.2
    · simp only [Act.bind_ok hrun]
      exact add_observer_registered hbegun.1 huid hbegun.2

/-- **Every event keeps the observers.** -/
theorem registered_step {s t : Server} {ev : Event}
    (hstep : ((system cfg).restrict (Orderly cfg)).step s ev t)
    (h : Registered s.loggedin s.state) : Registered t.loggedin t.state := by
  obtain ⟨rfl, horderly⟩ := hstep
  cases ev with
  | login uid zerotime =>
    obtain ⟨huid, hrecords, hrows⟩ := horderly
    exact online_registered h huid zerotime hrecords hrows
  | logout uid => exact h
  | achieve uid a => exact updateathletics_registered h horderly uid a
  | talkend uid id type =>
    simp only [step, handle]
    rw [Act.bind_pure_snd]
    cases hreported : reported s.state uid id type with
    | none =>
      rw [talkend_none cfg hreported]
      exact h
    | some e =>
      by_cases hplot : e.tasktype = .plot
      · obtain ⟨u, n, hu, rfl, rfl, hty, hmem⟩ := reported_spec hreported
        rw [talkend_plot cfg hreported hplot]
        obtain ⟨taskid, ty⟩ := e
        obtain rfl : ty = .plot := hplot
        exact recieveplot_registered h hu hmem true fun task row htask hrow =>
          horderly ⟨taskid, .plot⟩ task row hreported rfl htask hrow
      · rcases talkend_other cfg hreported hplot with hsame | ⟨task, row, -, -, heq⟩
        · rw [hsame]
          exact h
        · rw [heq]
          exact h.alike (get_award_alike _)
  | settasking uid id =>
    simp only [step, handle]
    rw [Act.bind_pure_snd]
    have hkeeps : Act.Keeps (Registered s.loggedin) (settasking uid id) := by
      refine Act.keeps_get.bind fun s => ?_
      split
      · split
        · exact (Act.keeps_modify fun s hs => hs.alike (setuser_alike _ fun _ => rfl)).bind
            fun _ => Act.keeps_pure _
        · exact Act.keeps_pure _
      · exact Act.keeps_pure _
    exact hkeeps _ h
  | updatesys => exact h.alike updatesys_alike

theorem registered_init (cfg : Config) {s : Server} (h : (system cfg).init s) :
    Registered s.loggedin s.state := by
  obtain ⟨hstored, hobservers, -, hloggedin, -⟩ := h
  refine ⟨hstored, fun uid _ => hobservers uid, fun uid huid => ?_, fun uid huid => ?_⟩
  · rw [hloggedin] at huid
    cases huid
  · rw [hloggedin] at huid
    cases huid

/-- **Where each player logs in once and what is received closes, the observers are
the active tasks, each once**, and an event that does not raise advances each of
them once. -/
theorem observers_once {s : Server} (h : ((system cfg).restrict (Orderly cfg)).Reachable s) :
    Registered s.loggedin s.state ∧ ∀ uid a t, updateathletics cfg uid a s.state = (.ok (), t) →
      ∀ e ∈ s.state.observerlist uid a.achid, ∃ m, SameUsers s.state m ∧
        m.tasks e = s.state.tasks e ∧ t.tasks e = (pusheach cfg uid a e m).2.tasks e := by
  have hregistered : Registered s.loggedin s.state :=
    System.Reachable.invariant (T := (system cfg).restrict (Orderly cfg))
      (fun _ => registered_init cfg) (fun _ _ _ => registered_step) h
  refine ⟨hregistered, fun uid a t hrun e he => ?_⟩
  have huid : uid ∈ s.loggedin := by
    by_contra hnot
    rw [hregistered.away uid hnot] at he
    cases he
  have honce := hregistered.once uid huid a.achid e (hregistered.active uid huid a.achid e he)
  obtain ⟨l₁, l₂, hl⟩ := List.append_of_mem he
  rw [hl, List.count_append, List.count_cons_self] at honce
  refine updateathletics_once hl ?_ ?_ hrun
  · exact List.count_eq_zero.mp (by omega)
  · exact List.count_eq_zero.mp (by omega)

/-- The player logs in, meets the objective, and the dialogue ends: he still has the task, and
it still observes. -/
theorem observers_once_talkedOnce : talkedOnce.state.observerlist 1 1010 = [⟨1, .day⟩] ∧
    Registered [1] talkedOnce.state ∧
    ∀ uid a t, updateathletics oneTask uid a talkedOnce.state = (.ok (), t) →
      ∀ e ∈ talkedOnce.state.observerlist uid a.achid, ∃ m, SameUsers talkedOnce.state m ∧
        m.tasks e = talkedOnce.state.tasks e ∧ t.tasks e = (pusheach oneTask uid a e m).2.tasks e := by
  have horderly : Orderly oneTask started (.login 1 0) := by
    refine ⟨by decide, fun u hu e he => ?_, fun hnone => ?_⟩
    · obtain ⟨-, rfl⟩ := started_usertask hu
      obtain rfl : e = ⟨1, .day⟩ := by simpa [UserTask.refs] using he
      exact ⟨⟨1, .numing, [⟨1010, 1, 0⟩], 0, 0⟩, rfl, by decide⟩
    · cases hnone
  have hquiet : Quiet oneTask (step oneTask started (.login 1 0)).state := by
    intro id task row htask hrow
    cases hrow
  have htalk : Orderly oneTask (step oneTask (step oneTask started (.login 1 0)) (.achieve 1 achieved))
      (.talkend 1 (some 1) (some 1)) := by
    intro e task row he hplot
    obtain rfl : (⟨1, .day⟩ : Ref) = e := Option.some.inj he
    cases hplot
  have hrun : ((system oneTask).restrict (Orderly oneTask)).Path started
      [.login 1 0, .achieve 1 achieved, .talkend 1 (some 1) (some 1)] talkedOnce :=
    .cons ⟨rfl, horderly⟩ (.cons ⟨rfl, hquiet⟩ (.cons ⟨rfl, htalk⟩ (.nil _)))
  exact ⟨rfl, observers_once ⟨started, _, started_init, hrun⟩⟩

/-- **A second login** registers the task again. -/
theorem observers_twice : ¬ ∀ cfg s, (system cfg).Reachable s →
    Registered s.loggedin s.state := by
  intro h
  have hrun : (system oneTask).Path started [.login 1 0, .logout 1, .login 1 0]
      (step oneTask (step oneTask (step oneTask started (.login 1 0)) (.logout 1)) (.login 1 0)) :=
    .cons rfl (.cons rfl (.cons rfl (.nil _)))
  have hregistered := h oneTask _ ⟨started, _, started_init, hrun⟩
  have honce := hregistered.once 1 (by decide) 1010 ⟨1, .day⟩
    ⟨⟨[1], [], [], none, none⟩, ⟨1, .numing, [⟨1010, 1, 0⟩], 0, 0⟩, rfl, by decide, rfl, by decide⟩
  revert honce
  decide

end Assignment

end Athena
