import Mathlib.Data.Int.Notation
import Mathlib.Data.List.Nodup
import Mathlib.Data.Nat.Notation
import Mathlib.Logic.Function.Basic
import Mathlib.Tactic.Common
/-!
# Critical sections

`skynet.queue()` of `lualib/skynet/queue.lua`, the `cs` of the services. A thread that
calls it while another is in waits in `thread_queue`; the last to leave hands over to the
first of the queue, which `dispatch_wakeup` resumes some time later. A thread that is in may call again.

At most one thread is in, and `assert(ref == 0)` holds (`queue_exclusive`). The threads get
in in the order of their calls (`queue_fifo`), and each of them can (`queue_serves`).
-/

namespace Athena

namespace Skynet

namespace Queue

variable {Thread : Type} [DecidableEq Thread]

/-- **The state of a queue**, and of the threads that call it. -/
structure State (Thread : Type) where
  current_thread : Option Thread
  ref : ℤ
  thread_queue : List Thread
  /-- The tokens in `wakeup_queue` of `skynet.lua` that are threads of the queue. -/
  wakeup_queue : List Thread
  /-- In how many calls of `f` a thread is, -/
  depth : Thread → ℕ
  /-- and whether it is in `skynet.wait()`. -/
  waits : Thread → Bool
  /-- `assert(ref == 0)` has raised. -/
  failed : Bool

/-- What `skynet.queue()` begins with. -/
def initial : State Thread := ⟨none, 0, [], [], fun _ => 0, fun _ => false, false⟩

/-- `skynet.wakeup(token)`. -/
def wakeup (token : Thread) (s : State Thread) : State Thread :=
  if s.waits token then { s with wakeup_queue := s.wakeup_queue ++ [token] } else s

/-- `current_thread = thread`, `ref = ref + 1` and the call of `f`. -/
def enter (thread : Thread) (s : State Thread) : State Thread :=
  { s with
    current_thread := some thread
    ref := s.ref + 1
    depth := Function.update s.depth thread (s.depth thread + 1) }

/-- **A thread calls the queue.** One that waits is not running, and calls nothing. -/
def call (thread : Thread) (s : State Thread) : State Thread :=
  if s.waits thread then s
  else if s.current_thread.isSome ∧ s.current_thread ≠ some thread then
    { s with
      thread_queue := s.thread_queue ++ [thread]
      waits := Function.update s.waits thread true }
  else enter thread s

/-- **`dispatch_wakeup`**, and the thread it resumes. -/
def resume (s : State Thread) : State Thread :=
  match s.wakeup_queue with
  | [] => s
  | thread :: rest =>
    let s := { s with wakeup_queue := rest, waits := Function.update s.waits thread false }
    if s.ref = 0 then enter thread s else { s with failed := true }

/-- **`xpcall_ret`**, when the `f` of a thread has returned or raised. -/
def xpcall_ret (thread : Thread) (s : State Thread) : State Thread :=
  if s.waits thread ∨ s.depth thread = 0 then s
  else
    let s := { s with ref := s.ref - 1, depth := Function.update s.depth thread (s.depth thread - 1) }
    if s.ref = 0 then
      match s.thread_queue with
      | [] => { s with current_thread := none }
      | first :: rest => wakeup first { s with current_thread := some first, thread_queue := rest }
    else s

inductive Event (Thread : Type)
  | call (thread : Thread)
  | resume
  | xpcall_ret (thread : Thread)

def step (s : State Thread) : Event Thread → State Thread
  | .call thread => call thread s
  | .resume => resume s
  | .xpcall_ret thread => xpcall_ret thread s

/-- **A run.** -/
def run (s : State Thread) (es : List (Event Thread)) : State Thread := es.foldl step s

/-! ## Who is in -/

/-- **The threads that wait**, the first to get in first. -/
def State.line (s : State Thread) : List Thread := s.wakeup_queue ++ s.thread_queue

/-- **Who has the queue**: nobody, a thread that is in, or one that is to be resumed. -/
inductive Holds (s : State Thread) : Prop
  | free (hcurrent : s.current_thread = none) (href : s.ref = 0) (hline : s.line = [])
      (hdepth : ∀ u, s.depth u = 0) : Holds s
  | held (t : Thread) (hcurrent : s.current_thread = some t) (href : s.ref = s.depth t) (hpos : 0 < s.depth t)
      (hwakeup : s.wakeup_queue = []) (hnot : t ∉ s.line) (hdepth : ∀ u, u ≠ t → s.depth u = 0) : Holds s
  | handed (t : Thread) (hcurrent : s.current_thread = some t) (href : s.ref = 0) (hwakeup : s.wakeup_queue = [t])
      (hdepth : ∀ u, s.depth u = 0) : Holds s

structure Good (s : State Thread) : Prop where
  waits : ∀ u, s.waits u = true ↔ u ∈ s.line
  nodup : s.line.Nodup
  failed : s.failed = false
  holds : Holds s

variable {s : State Thread} {t u : Thread}

omit [DecidableEq Thread] in
theorem good_initial : Good (initial : State Thread) := by
  refine ⟨?_, List.nodup_nil, rfl, .free rfl rfl rfl fun u => rfl⟩
  intro u
  constructor
  · intro h
    cases h
  · intro h
    cases h

/-- What a call does: nothing, wait, or get in. -/
theorem call_cases (h : Good s) (t : Thread) :
    s.waits t = true ∧ call t s = s ∨
    t ∉ s.line ∧ s.depth t = 0 ∧ (∃ c, s.current_thread = some c ∧ c ≠ t) ∧ call t s =
      { s with thread_queue := s.thread_queue ++ [t], waits := Function.update s.waits t true } ∨
    t ∉ s.line ∧ s.wakeup_queue = [] ∧ s.ref = s.depth t ∧ (s.line = [] ∨ 0 < s.depth t) ∧
      (∀ u, u ≠ t → s.depth u = 0) ∧ call t s = enter t s := by
  by_cases hw : s.waits t = true
  · refine .inl ⟨hw, ?_⟩
    rw [call, if_pos hw]
  · have hnot : t ∉ s.line := fun hmem => hw ((h.waits t).mpr hmem)
    right
    cases h.holds with
    | free hcurrent href hline hdepth =>
      have hwakeup : s.wakeup_queue = [] := (List.append_eq_nil_iff.mp hline).1
      have hcondition : ¬ (s.current_thread.isSome ∧ s.current_thread ≠ some t) := by
        rw [hcurrent]
        rintro ⟨hsome, -⟩
        cases hsome
      refine .inr ⟨hnot, hwakeup, ?_, .inl hline, fun u _ => hdepth u, ?_⟩
      · rw [href, hdepth]
        rfl
      · rw [call, if_neg hw, if_neg hcondition]
    | held c hcurrent href hpos hwakeup hout hdepth =>
      by_cases hct : c = t
      · subst hct
        have hcondition : ¬ (s.current_thread.isSome ∧ s.current_thread ≠ some c) := by
          rintro ⟨-, hne⟩
          exact hne hcurrent
        refine .inr ⟨hnot, hwakeup, href, .inr hpos, hdepth, ?_⟩
        rw [call, if_neg hw, if_neg hcondition]
      · have hcondition : s.current_thread.isSome ∧ s.current_thread ≠ some t := by
          rw [hcurrent]
          exact ⟨rfl, fun heq => hct (Option.some.inj heq)⟩
        refine .inl ⟨hnot, hdepth t (Ne.symm hct), ⟨c, hcurrent, hct⟩, ?_⟩
        rw [call, if_neg hw, if_pos hcondition]
    | handed c hcurrent href hwakeup hdepth =>
      have hct : c ≠ t := by
        rintro rfl
        exact hnot (by rw [State.line, hwakeup]; exact List.mem_cons_self)
      have hcondition : s.current_thread.isSome ∧ s.current_thread ≠ some t := by
        rw [hcurrent]
        exact ⟨rfl, fun heq => hct (Option.some.inj heq)⟩
      refine .inl ⟨hnot, hdepth t, ⟨c, hcurrent, hct⟩, ?_⟩
      rw [call, if_neg hw, if_pos hcondition]

theorem enter_depth (t u : Thread) (s : State Thread) :
    (enter t s).depth u = if u = t then s.depth t + 1 else s.depth u := Function.update_apply ..

/-- **A thread gets in** that does not wait, when no other is in. -/
theorem good_enter (hwaits : ∀ u, s.waits u = true ↔ u ∈ s.line) (hnodup : s.line.Nodup) (hfailed : s.failed = false)
    (hnot : t ∉ s.line) (hwakeup : s.wakeup_queue = []) (href : s.ref = s.depth t)
    (hdepth : ∀ u, u ≠ t → s.depth u = 0) : Good (enter t s) := by
  refine ⟨hwaits, hnodup, hfailed, .held t rfl ?_ ?_ hwakeup hnot ?_⟩
  · rw [enter_depth, if_pos rfl]
    change s.ref + 1 = _
    omega
  · rw [enter_depth, if_pos rfl]
    omega
  · intro u hu
    rw [enter_depth, if_neg hu]
    exact hdepth u hu

theorem Good.call (h : Good s) (t : Thread) : Good (call t s) := by
  obtain ⟨-, hstep⟩ | ⟨hnot, hzero, ⟨c, hc, hct⟩, hstep⟩ | ⟨hnot, hwakeup, href, -, hdepth, hstep⟩ := call_cases h t
  · rw [hstep]
    exact h
  · rw [hstep]
    have hline : s.wakeup_queue ++ (s.thread_queue ++ [t]) = s.line ++ [t] := (List.append_assoc ..).symm
    refine ⟨?_, ?_, h.failed, ?_⟩
    · intro u
      change Function.update s.waits t true u = true ↔ u ∈ s.wakeup_queue ++ (s.thread_queue ++ [t])
      rw [hline, List.mem_append, List.mem_singleton, Function.update_apply, ← h.waits u]
      by_cases hu : u = t
      · simp only [hu, if_true, or_true]
      · simp only [hu, if_false, or_false]
    · change (s.wakeup_queue ++ (s.thread_queue ++ [t])).Nodup
      rw [hline]
      exact List.nodup_append_comm.mp (List.nodup_cons.mpr ⟨hnot, h.nodup⟩)
    · cases h.holds with
      | free hcurrent =>
        rw [hcurrent] at hc
        cases hc
      | held c' hcurrent href hpos hwakeup hout hdepth =>
        obtain rfl : c' = c := Option.some.inj (hcurrent.symm.trans hc)
        refine .held c' hcurrent href hpos hwakeup ?_ hdepth
        intro hmem
        change c' ∈ s.wakeup_queue ++ (s.thread_queue ++ [t]) at hmem
        rw [hline] at hmem
        obtain hmem | hmem := List.mem_append.mp hmem
        · exact hout hmem
        · exact hct (List.mem_singleton.mp hmem)
      | handed c' hcurrent href hwakeup hdepth => exact .handed c' hcurrent href hwakeup hdepth
  · rw [hstep]
    exact good_enter h.waits h.nodup h.failed hnot hwakeup href hdepth

/-- What a resumption does: nothing, or the thread that is handed over to gets in. -/
theorem resume_cases (h : Good s) : s.wakeup_queue = [] ∧ resume s = s ∨
    ∃ t, s.wakeup_queue = [t] ∧ s.ref = 0 ∧ (∀ u, s.depth u = 0) ∧
      resume s = enter t { s with wakeup_queue := [], waits := Function.update s.waits t false } := by
  cases h.holds with
  | free hcurrent href hline hdepth =>
    have hwakeup : s.wakeup_queue = [] := (List.append_eq_nil_iff.mp hline).1
    refine .inl ⟨hwakeup, ?_⟩
    simp only [resume, hwakeup]
  | held c hcurrent href hpos hwakeup hout hdepth =>
    refine .inl ⟨hwakeup, ?_⟩
    simp only [resume, hwakeup]
  | handed c hcurrent href hwakeup hdepth =>
    refine .inr ⟨c, hwakeup, href, hdepth, ?_⟩
    simp only [resume, hwakeup, href, if_true]

theorem Good.resume (h : Good s) : Good (resume s) := by
  obtain ⟨-, hstep⟩ | ⟨t, hwakeup, href, hdepth, hstep⟩ := resume_cases h
  · rw [hstep]
    exact h
  · rw [hstep]
    have hline : s.line = t :: s.thread_queue := by rw [State.line, hwakeup]; rfl
    have hnodup := h.nodup
    rw [hline] at hnodup
    obtain ⟨hnot, hnodup⟩ := List.nodup_cons.mp hnodup
    refine good_enter ?_ hnodup h.failed hnot rfl ?_ fun u _ => hdepth u
    · intro u
      change Function.update s.waits t false u = true ↔ u ∈ s.thread_queue
      rw [Function.update_apply]
      by_cases hu : u = t
      · subst hu
        simp only [if_true, Bool.false_eq_true, hnot]
      · rw [if_neg hu, h.waits u, hline, List.mem_cons]
        simp only [hu, false_or]
    · change s.ref = s.depth t
      rw [href, hdepth]
      rfl

/-- What the end of an `f` does: nothing, or the thread is in one call less; when it was
in one, nobody is in, and the first of the queue is handed over to. -/
theorem xpcall_ret_cases (h : Good s) (t : Thread) :
    s.depth t = 0 ∧ xpcall_ret t s = s ∨
    (s.current_thread = some t ∧ s.ref = s.depth t ∧ s.wakeup_queue = [] ∧ t ∉ s.line ∧ (∀ u, u ≠ t → s.depth u = 0) ∧
      (1 < s.depth t ∧ xpcall_ret t s =
          { s with ref := s.ref - 1, depth := Function.update s.depth t (s.depth t - 1) } ∨
        s.depth t = 1 ∧ s.thread_queue = [] ∧ xpcall_ret t s =
          { s with current_thread := none, ref := 0, depth := Function.update s.depth t 0 } ∨
        s.depth t = 1 ∧ ∃ first rest, s.thread_queue = first :: rest ∧ xpcall_ret t s =
          { s with
            current_thread := some first
            ref := 0
            thread_queue := rest
            wakeup_queue := [first]
            depth := Function.update s.depth t 0 })) := by
  by_cases hzero : s.depth t = 0
  · refine .inl ⟨hzero, ?_⟩
    rw [xpcall_ret, if_pos (.inr hzero)]
  · have hfacts : s.current_thread = some t ∧ s.ref = s.depth t ∧ s.wakeup_queue = [] ∧ t ∉ s.line ∧
        ∀ u, u ≠ t → s.depth u = 0 := by
      cases h.holds with
      | free hcurrent href hline hdepth => exact absurd (hdepth t) hzero
      | held c hcurrent href hpos hwakeup hout hdepth =>
        by_cases hct : t = c
        · subst hct
          exact ⟨hcurrent, href, hwakeup, hout, hdepth⟩
        · exact absurd (hdepth t hct) hzero
      | handed c hcurrent href hwakeup hdepth => exact absurd (hdepth t) hzero
    obtain ⟨hcurrent, href, hwakeup, hnot, hdepth⟩ := hfacts
    refine .inr ⟨hcurrent, href, hwakeup, hnot, hdepth, ?_⟩
    have hout : ¬ (s.waits t = true ∨ s.depth t = 0) := by
      rintro (hw | hz)
      · exact hnot ((h.waits t).mp hw)
      · exact hzero hz
    by_cases hone : s.depth t = 1
    · have href : s.ref - 1 = 0 := by omega
      match hqueue : s.thread_queue with
      | [] =>
        refine .inr (.inl ⟨hone, rfl, ?_⟩)
        rw [xpcall_ret, if_neg hout]
        simp only [href, hone, hqueue, if_true, Nat.sub_self]
      | first :: rest =>
        refine .inr (.inr ⟨hone, first, rest, rfl, ?_⟩)
        have hwaits : s.waits first = true := by
          rw [h.waits, State.line, hqueue]
          exact List.mem_append_right _ List.mem_cons_self
        rw [xpcall_ret, if_neg hout]
        simp only [href, hone, hqueue, if_true, Nat.sub_self, wakeup, hwaits, hwakeup, List.nil_append]
    · have href : ¬ s.ref - 1 = 0 := by omega
      refine .inl ⟨by omega, ?_⟩
      rw [xpcall_ret, if_neg hout]
      simp only [href, if_false]

theorem update_zero {depth : Thread → ℕ} (h : ∀ u, u ≠ t → depth u = 0) (u : Thread) :
    Function.update depth t 0 u = 0 := by
  by_cases hu : u = t
  · rw [hu, Function.update_self]
  · rw [Function.update_of_ne hu]
    exact h u hu

theorem Good.xpcall_ret (h : Good s) (t : Thread) : Good (xpcall_ret t s) := by
  obtain ⟨-, hstep⟩ | ⟨hcurrent, href, hwakeup, hnot, hdepth, hmore | hfree | hhanded⟩ := xpcall_ret_cases h t
  · rw [hstep]
    exact h
  · obtain ⟨hpos, hstep⟩ := hmore
    rw [hstep]
    refine ⟨h.waits, h.nodup, h.failed, .held t hcurrent ?_ ?_ hwakeup hnot ?_⟩
    · dsimp only
      rw [Function.update_self]
      omega
    · dsimp only
      rw [Function.update_self]
      omega
    · intro u hu
      dsimp only
      rw [Function.update_of_ne hu]
      exact hdepth u hu
  · obtain ⟨hone, hqueue, hstep⟩ := hfree
    rw [hstep]
    refine ⟨h.waits, h.nodup, h.failed, .free rfl rfl ?_ (update_zero hdepth)⟩
    rw [State.line, hwakeup, hqueue]
    rfl
  · obtain ⟨hone, first, rest, hqueue, hstep⟩ := hhanded
    rw [hstep]
    have hline : s.line = first :: rest := by
      rw [State.line, hwakeup, hqueue]
      rfl
    refine ⟨?_, ?_, h.failed, .handed first rfl rfl rfl (update_zero hdepth)⟩
    · intro u
      rw [h.waits, hline]
      rfl
    · have hnodup := h.nodup
      rw [hline] at hnodup
      exact hnodup

theorem Good.step (h : Good s) (e : Event Thread) : Good (step s e) := by
  cases e with
  | call t => exact h.call t
  | resume => exact h.resume
  | xpcall_ret t => exact h.xpcall_ret t

theorem Good.run (h : Good s) (es : List (Event Thread)) : Good (run s es) := by
  induction es generalizing s with
  | nil => exact h
  | cons e es ih => exact ih (h.step e)

/-- **One thread is in at a time**, and `assert(ref == 0)` holds, after any run. While
threads wait, one is in or is to be resumed. -/
theorem queue_exclusive (es : List (Event Thread)) : (run initial es).failed = false ∧
    (∀ t u, 0 < (run initial es).depth t → 0 < (run initial es).depth u → t = u) ∧
      ((run initial es).line ≠ [] →
        (∃ t, 0 < (run initial es).depth t) ∨ ∃ t, (run initial es).wakeup_queue = [t]) := by
  have h : Good (run (initial : State Thread) es) := good_initial.run es
  refine ⟨h.failed, ?_, ?_⟩
  · intro t u ht hu
    cases h.holds with
    | free hcurrent href hline hdepth => exact absurd (hdepth t) (Nat.ne_of_gt ht)
    | held c hcurrent href hpos hwakeup hout hdepth =>
      have hone (t : Thread) (ht : 0 < (run initial es).depth t) : t = c := by
        by_contra hne
        exact Nat.ne_of_gt ht (hdepth t hne)
      exact (hone t ht).trans (hone u hu).symm
    | handed c hcurrent href hwakeup hdepth => exact absurd (hdepth t) (Nat.ne_of_gt ht)
  · intro hne
    cases h.holds with
    | free hcurrent href hline hdepth => exact absurd hline hne
    | held c hcurrent href hpos hwakeup hout hdepth => exact .inl ⟨c, hpos⟩
    | handed c hcurrent href hwakeup hdepth => exact .inr ⟨c, hwakeup⟩

/-! ## In which order -/

/-- Who comes to the queue from outside, -/
def arrived (s : State Thread) : Event Thread → List Thread
  | .call t => if s.waits t = true ∨ s.depth t ≠ 0 then [] else [t]
  | .resume => []
  | .xpcall_ret _ => []

/-- and who gets in. -/
def admitted (s : State Thread) (e : Event Thread) : List Thread :=
  match e with
  | .call t => if s.depth t = 0 ∧ (step s e).depth t ≠ 0 then [t] else []
  | .resume => s.wakeup_queue.take 1
  | .xpcall_ret _ => []

/-- The same over a run. -/
def arrivals (s : State Thread) : List (Event Thread) → List Thread
  | [] => []
  | e :: es => arrived s e ++ arrivals (step s e) es

def admissions (s : State Thread) : List (Event Thread) → List Thread
  | [] => []
  | e :: es => admitted s e ++ admissions (step s e) es

/-- **A step lets in the first of those that wait**, and adds at the end. -/
theorem Good.line_step (h : Good s) (e : Event Thread) :
    s.line ++ arrived s e = admitted s e ++ (Queue.step s e).line := by
  cases e with
  | call t =>
    obtain ⟨hwaits, hstep⟩ | ⟨hnot, hzero, -, hstep⟩ | ⟨hnot, hwakeup, href, hline, hdepth, hstep⟩ := call_cases h t
    · have hadmitted : ¬ (s.depth t = 0 ∧ (Queue.call t s).depth t ≠ 0) := by
        rw [hstep]
        rintro ⟨hzero, hne⟩
        exact hne hzero
      rw [arrived, if_pos (.inl hwaits), admitted, Queue.step, if_neg hadmitted, hstep, List.append_nil, List.nil_append]
    · have hout : ¬ (s.waits t = true ∨ s.depth t ≠ 0) := by
        rintro (hwaits | hne)
        · exact hnot ((h.waits t).mp hwaits)
        · exact hne hzero
      have hadmitted : ¬ (s.depth t = 0 ∧ (Queue.call t s).depth t ≠ 0) := by
        rw [hstep]
        rintro ⟨-, hne⟩
        exact hne hzero
      rw [arrived, if_neg hout, admitted, Queue.step, if_neg hadmitted, hstep, List.nil_append]
      exact List.append_assoc ..
    · have hlines : (enter t s).line = s.line := rfl
      by_cases hzero : s.depth t = 0
      · have hnil : s.line = [] := hline.resolve_right (by omega)
        have hout : ¬ (s.waits t = true ∨ s.depth t ≠ 0) := by
          rintro (hwaits | hne)
          · exact hnot ((h.waits t).mp hwaits)
          · exact hne hzero
        have hadmitted : s.depth t = 0 ∧ (Queue.call t s).depth t ≠ 0 := by
          rw [hstep, enter_depth, if_pos rfl]
          exact ⟨hzero, Nat.succ_ne_zero _⟩
        rw [arrived, if_neg hout, admitted, Queue.step, if_pos hadmitted, hstep, hlines, hnil, List.nil_append,
          List.append_nil]
      · have hadmitted : ¬ (s.depth t = 0 ∧ (Queue.call t s).depth t ≠ 0) := fun hand => hzero hand.1
        rw [arrived, if_pos (.inr hzero), admitted, Queue.step, if_neg hadmitted, hstep, hlines, List.nil_append,
          List.append_nil]
  | resume =>
    obtain ⟨hwakeup, hstep⟩ | ⟨t, hwakeup, href, hdepth, hstep⟩ := resume_cases h
    · rw [arrived, admitted, Queue.step, hstep, hwakeup, List.append_nil]
      rfl
    · have hline : s.line = t :: s.thread_queue := by
        rw [State.line, hwakeup]
        rfl
      rw [arrived, admitted, Queue.step, hstep, hwakeup, List.append_nil, hline]
      rfl
  | xpcall_ret t =>
    obtain ⟨-, hstep⟩ | ⟨hcurrent, href, hwakeup, hnot, hdepth, hmore | hfree | hhanded⟩ := xpcall_ret_cases h t
    · rw [arrived, admitted, Queue.step, hstep, List.append_nil, List.nil_append]
    · rw [arrived, admitted, Queue.step, hmore.2, List.append_nil, List.nil_append]
      rfl
    · rw [arrived, admitted, Queue.step, hfree.2.2, List.append_nil, List.nil_append]
      rfl
    · obtain ⟨-, first, rest, hqueue, hstep⟩ := hhanded
      rw [arrived, admitted, Queue.step, hstep, List.append_nil, List.nil_append, State.line, hwakeup, hqueue]
      rfl

theorem Good.line_run (h : Good s) (es : List (Event Thread)) :
    s.line ++ arrivals s es = admissions s es ++ (Queue.run s es).line := by
  induction es generalizing s with
  | nil => exact List.append_nil _
  | cons e es ih =>
    calc s.line ++ (arrived s e ++ arrivals (Queue.step s e) es)
        = admitted s e ++ ((Queue.step s e).line ++ arrivals (Queue.step s e) es) := by
          rw [← List.append_assoc, h.line_step e, List.append_assoc]
      _ = admitted s e ++ admissions (Queue.step s e) es ++ (Queue.run s (e :: es)).line := by
          rw [ih (h.step e), List.append_assoc]
          rfl

/-- **First come, first served**: those that came are those that got in and those that
wait, in this order. -/
theorem queue_fifo (es : List (Event Thread)) :
    arrivals initial es = admissions initial es ++ (run initial es).line := by
  have h : Good (initial : State Thread) := good_initial
  exact h.line_run es

/-! ## Whether a thread gets in -/

/-- Events other than calls: those who wait are resumed, those who are in leave. -/
def Event.Ends : Event Thread → Prop
  | .call _ => False
  | .resume => True
  | .xpcall_ret _ => True

theorem admissions_append (s : State Thread) (es fs : List (Event Thread)) :
    admissions s (es ++ fs) = admissions s es ++ admissions (run s es) fs := by
  induction es generalizing s with
  | nil => rfl
  | cons e es ih =>
    rw [List.cons_append, admissions, ih, ← List.append_assoc]
    rfl

theorem arrivals_ends (s : State Thread) {es : List (Event Thread)} (h : ∀ e ∈ es, e.Ends) : arrivals s es = [] := by
  induction es generalizing s with
  | nil => rfl
  | cons e es ih =>
    have hrest := ih (step s e) fun e' he' => h e' (List.mem_cons_of_mem _ he')
    cases e with
    | call t => exact absurd (h (.call t) List.mem_cons_self) id
    | resume => exact hrest
    | xpcall_ret t => exact hrest

/-- Without calls, those that wait are those that get in and those that still wait. -/
theorem Good.line_ends (h : Good s) {es : List (Event Thread)} (hends : ∀ e ∈ es, e.Ends) :
    s.line = admissions s es ++ (Queue.run s es).line := by
  rw [← h.line_run es, arrivals_ends s hends, List.append_nil]

/-- The thread that is in leaves one call after the other, -/
theorem Good.leaves_of (h : Good s) (hdepth : ∀ u, u ≠ t → s.depth u = 0) :
    ∃ es, (∀ e ∈ es, e.Ends) ∧ admissions s es = [] ∧ ∀ u, (Queue.run s es).depth u = 0 := by
  induction hn : s.depth t generalizing s with
  | zero =>
    refine ⟨[], ?_, rfl, ?_⟩
    · intro e he
      cases he
    · intro u
      by_cases hu : u = t
      · exact hu ▸ hn
      · exact hdepth u hu
  | succ n ih =>
    have hless : (Queue.xpcall_ret t s).depth = Function.update s.depth t n := by
      obtain ⟨hzero, -⟩ | ⟨-, -, -, -, -, ⟨-, hstep⟩ | ⟨hone, -, hstep⟩ | ⟨hone, first, rest, -, hstep⟩⟩ :=
        xpcall_ret_cases h t
      · omega
      · rw [hstep, hn]
        rfl
      · obtain rfl : n = 0 := by omega
        rw [hstep]
      · obtain rfl : n = 0 := by omega
        rw [hstep]
    obtain ⟨es, hends, hadmissions, hzero⟩ := ih (s := Queue.xpcall_ret t s) (h.xpcall_ret t)
      (fun u hu => by rw [hless, Function.update_of_ne hu]; exact hdepth u hu) (by rw [hless, Function.update_self])
    refine ⟨.xpcall_ret t :: es, ?_, hadmissions, hzero⟩
    intro e he
    obtain rfl | he := List.mem_cons.mp he
    · exact trivial
    · exact hends e he

/-- and so nobody is in. -/
theorem Good.leaves (h : Good s) : ∃ es, (∀ e ∈ es, e.Ends) ∧ admissions s es = [] ∧
    ∀ u, (Queue.run s es).depth u = 0 := by
  have hout (hdepth : ∀ u, s.depth u = 0) : ∃ es, (∀ e ∈ es, e.Ends) ∧ admissions s es = [] ∧
      ∀ u, (Queue.run s es).depth u = 0 := by
    refine ⟨[], ?_, rfl, hdepth⟩
    intro e he
    cases he
  cases h.holds with
  | free hcurrent href hline hdepth => exact hout hdepth
  | held c hcurrent href hpos hwakeup hnot hdepth => exact h.leaves_of hdepth
  | handed c hcurrent href hwakeup hdepth => exact hout hdepth

/-- **The first of those that wait can get in.** -/
theorem Good.serves_first (h : Good s) {rest : List Thread} (hline : s.line = t :: rest) :
    ∃ es, (∀ e ∈ es, e.Ends) ∧ admissions s es = [t] ∧ (Queue.run s es).line = rest := by
  obtain ⟨es, hends, hadmissions, hzero⟩ := h.leaves
  have hkept := h.line_ends hends
  rw [hadmissions, List.nil_append, hline] at hkept
  have hgood := h.run es
  cases hgood.holds with
  | free hcurrent href hnil hdepth =>
    rw [hnil] at hkept
    cases hkept
  | held c hcurrent href hpos hwakeup hnot hdepth => exact absurd (hzero c) (Nat.ne_of_gt hpos)
  | handed c hcurrent href hwakeup hdepth =>
    have hfirst : (Queue.run s es).line = c :: (Queue.run s es).thread_queue := by
      rw [State.line, hwakeup]
      rfl
    rw [hfirst] at hkept
    obtain ⟨rfl, -⟩ := List.cons.inj hkept
    have hends' : ∀ e ∈ es ++ [.resume], e.Ends := by
      intro e he
      obtain he | he := List.mem_append.mp he
      · exact hends e he
      · obtain rfl := List.mem_singleton.mp he
        exact trivial
    have hadmitted : admissions s (es ++ [.resume]) = [t] := by
      rw [admissions_append, hadmissions, List.nil_append, admissions, admitted, hwakeup]
      rfl
    refine ⟨es ++ [.resume], hends', hadmitted, ?_⟩
    have hend := h.line_ends hends'
    rw [hadmitted, hline] at hend
    exact (List.cons.inj hend).2.symm

theorem Good.serves (h : Good s) {ahead behind : List Thread} (hline : s.line = ahead ++ t :: behind) :
    ∃ es, (∀ e ∈ es, e.Ends) ∧ admissions s es = ahead ++ [t] := by
  induction ahead generalizing s with
  | nil =>
    obtain ⟨es, hends, hadmissions, -⟩ := h.serves_first hline
    exact ⟨es, hends, hadmissions⟩
  | cons first ahead ih =>
    obtain ⟨es, hends, hadmissions, hrest⟩ := h.serves_first hline
    obtain ⟨fs, hends', hadmissions'⟩ := ih (h.run es) hrest
    refine ⟨es ++ fs, ?_, ?_⟩
    · intro e he
      obtain he | he := List.mem_append.mp he
      · exact hends e he
      · exact hends' e he
    · rw [admissions_append, hadmissions, hadmissions']
      rfl

/-- **Every thread that waits can get in**: after any run, without any new call, those
before it get in, and then the thread. -/
theorem queue_serves (es : List (Event Thread)) (t : Thread) (ahead behind : List Thread)
    (hline : (run initial es).line = ahead ++ t :: behind) :
    ∃ fs, (∀ e ∈ fs, e.Ends) ∧ admissions (run initial es) fs = ahead ++ [t] :=
  (good_initial.run es).serves hline

/-- Three threads call, and two wait. -/
theorem queue_serves_three : ∃ fs : List (Event ℕ), (∀ e ∈ fs, e.Ends) ∧
    admissions (run initial [.call 1, .call 2, .call 3]) fs = [2] ++ [3] :=
  queue_serves [.call 1, .call 2, .call 3] 3 [2] [] (by decide)

end Queue

end Skynet

end Athena
