import Athena.Log.Order
/-!
# The logger — shutdown

`log_exit` clears `running` and joins the worker, which tests `running`
at the top of its loop only. Past that test and before the takeover, the
worker takes everything over and writes it before it looks again. At any
other place the takeover of its last iteration is behind it, and what is
pending at that moment is never written.
-/

namespace Athena

namespace Log

variable {s t : State} {mday : Day → ℕ} {arg : Int64} {es : List Event}

/-- The worker is past its test of `running` and before the takeover. -/
def BeforeTake (s : State) : Prop := s.pc = .lock ∨ s.pc = .wait

/-- **The last iteration.** With `running` cleared and no takeover to
come, the worker ends having written what it holds, and nothing else. -/
theorem bytes_of_last (hp : (few mday arg).Path s es t) (hs : WellFormed s)
    (hr : s.running = false) (hb : ¬ BeforeTake s) (hdone : t.pc = .done) :
    t.out.bytes = s.out.bytes ++ writing s := by
  induction hp with
  | nil s =>
    rw [writing_of_pc (by simp [hdone]) (by simp [hdone])]
    simp
  | @cons s s' t e es hst hp ih =>
    obtain ⟨hst, hfew⟩ := hst
    obtain ⟨hs', he⟩ := hs.step hst
    have ih := ih hs'
    cases he with
    | append hpc _ _ _ hwr same =>
      rw [ih (same.running.trans hr) (by rwa [BeforeTake, hpc]) hdone, hwr, same.out]
    | exit eq =>
      subst eq
      exact ih rfl hb hdone
    | start hpc hpc' roll _ _ hrun _ =>
      obtain ⟨file, n, -, ho⟩ := rollfile_spec roll
      rw [ih (hrun.trans hr) (by simp [BeforeTake, hpc']) hdone,
        writing_of_pc (by simp [hpc']) (by simp [hpc']),
        writing_of_pc (by simp [hpc]) (by simp [hpc]), ho]
      rfl
    | test hpc eq =>
      rw [hr] at eq
      subst eq
      rw [ih rfl (by simp [BeforeTake]) hdone, writing_of_pc (by simp) (by simp),
        writing_of_pc (by simp [hpc]) (by simp [hpc])]
    | wait hpc _ _ => exact absurd (Or.inl hpc) hb
    | take htakes _ _ _ _ _ _ _ _ => exact absurd htakes.pc hb
    | keep hpc _ eq =>
      subst eq
      rw [ih hr (by simp [BeforeTake]) hdone, writing_keep hpc]
    | drop hpc many _ _ _ _ _ _ =>
      have := hfew _ rfl hpc
      rw [hs.size_taken hpc] at this
      omega
    | emit hpc hpc' hwr out _ _ hrun _ _ =>
      have hh := hs.handle (by simp [hpc])
      rw [ih (hrun.trans hr) (by simp [BeforeTake, hpc']) hdone, out, fwrite_bytes hh, hwr]
      simp
    | finish hpc hpc' roll _ _ hrun _ =>
      rw [ih (hrun.trans hr) (by simp [BeforeTake, hpc']) hdone,
        writing_of_pc (by simp [hpc']) (by simp [hpc']), writing_end hpc, Output.bytes,
        (sizeRoll_rolls roll).written]
      rfl

/-- **Before the takeover**, everything appended will be written. -/
theorem appended_of_beforeTake (hp : (few mday arg).Path s es t) (hs : WellFormed s)
    (ho : InOrder s) (hr : s.running = false) (hb : BeforeTake s) (hdone : t.pc = .done) :
    s.appended <+: t.out.bytes := by
  induction hp with
  | nil s => rcases hb with hb | hb <;> simp [hb] at hdone
  | @cons s s' t e es hst hp ih =>
    obtain ⟨hst, hfew⟩ := hst
    obtain ⟨hs', he⟩ := hs.step hst
    have ho' := ho.step hs hfew he
    have ih := ih hs' ho'
    have hbefore : ∀ pc, s.pc = pc → pc ≠ .lock → pc ≠ .wait → False := by
      rintro pc rfl h1 h2
      rcases hb with hb | hb
      · exact h1 hb
      · exact h2 hb
    cases he with
    | append hpc happ _ _ _ same =>
      have := ih (same.running.trans hr) (by rwa [BeforeTake, hpc]) hdone
      rw [happ] at this
      exact (List.prefix_append _ _).trans this
    | exit eq =>
      subst eq
      exact ih rfl hb hdone
    | start hpc _ _ _ _ _ _ => exact (hbefore _ hpc (by simp) (by simp)).elim
    | test hpc _ => exact (hbefore _ hpc (by simp) (by simp)).elim
    | wait hpc _ eq =>
      subst eq
      exact ih hr (Or.inr rfl) hdone
    | take htakes hpc' roll _ hwr _ _ hrun _ =>
      -- the takeover takes the whole chain, and nothing was left to write
      have hlast := bytes_of_last hp hs' (hrun.trans hr) (by simp [BeforeTake, hpc']) hdone
      have hidle : writing s = [] := by
        rcases htakes.pc with hpc | hpc <;> exact writing_of_pc (by simp [hpc]) (by simp [hpc])
      have hout : s'.out.bytes = s.out.bytes := by
        rw [Output.bytes, Output.bytes, (dayRoll_rolls roll).written]
      rw [InOrder, hidle, List.append_nil] at ho
      rw [hlast, hwr, hout, ho]
    | keep hpc _ _ => exact (hbefore _ hpc (by simp) (by simp)).elim
    | drop hpc _ _ _ _ _ _ _ => exact (hbefore _ hpc (by simp) (by simp)).elim
    | emit hpc _ _ _ _ _ _ _ _ => exact (hbefore _ hpc (by simp) (by simp)).elim
    | finish hpc _ _ _ _ _ _ => exact (hbefore _ hpc (by simp) (by simp)).elim

/-- **What shutdown flushes.** `log_exit` clears `running` in some state
of a run without dropped buffers, and returns when the worker is done:
then every line appended before is in the file if and only if the worker
was past its test and before the takeover, or nothing was pending. -/
theorem exit_flushes_iff (h : (few mday arg).Reachable s)
    (hp : (few mday arg).Path { s with running := false } es t) (hdone : t.pc = .done) :
    s.appended <+: t.out.bytes ↔ BeforeTake s ∨ pending s = [] := by
  obtain ⟨hs, ho⟩ := inOrder_of_few h
  have hexit : (few mday arg).step s .exit { s with running := false } :=
    ⟨⟨trivial, rfl⟩, by simp [Few]⟩
  obtain ⟨hs', he⟩ := hs.step hexit.1
  have ho' := ho.step hs hexit.2 he
  by_cases hb : BeforeTake s
  · have := appended_of_beforeTake hp hs' ho' rfl hb hdone
    exact ⟨fun _ => Or.inl hb, fun _ => this⟩
  · have hlast := bytes_of_last hp hs' rfl hb hdone
    have happ : s.appended = t.out.bytes ++ pending s := by
      rw [hlast, ← ho]
      rfl
    constructor
    · intro hpre
      have := hpre.length_le
      rw [happ, List.length_append] at this
      exact Or.inr (List.eq_nil_of_length_eq_zero (by omega))
    · rintro (h | h)
      · exact absurd h hb
      · rw [happ, h, List.append_nil]

/-- A line that comes while the worker waits is written: `log_exit` right
after it returns with the line in the file. -/
theorem exit_flushes_waiting :
    ∃ s t, (few id 1).Reachable s ∧
      (few id 1).Path { s with running := false } (.replicate 5 (.worker (still 0))) t ∧
      t.pc = .done ∧ s.appended = ascii "[FATAL] x\n" ∧ s.appended <+: t.out.bytes := by
  obtain ⟨s, hs, hpc, happ, t, ht, hdone⟩ : ∃ s, (few id 1).Path (initial 1 0)
      [.worker (still 0), .worker (still 0), .worker (still 0), .append (ascii "[FATAL] x\n")] s ∧
      s.pc = .wait ∧ s.appended = ascii "[FATAL] x\n" ∧
      ∃ t, (few id 1).Path { s with running := false } (.replicate 5 (.worker (still 0))) t ∧
        t.pc = .done := by
    exact ⟨_, .cons (few_worker (by decide) (by decide) rfl) <|
      .cons (few_worker (by decide) (by decide) rfl) <|
      .cons (few_worker (by decide) (by decide) rfl) <|
      .cons (few_append (by decide) rfl) <| .nil _, rfl, rfl, _,
      .cons (few_worker (by decide) (by decide) rfl) <|
      .cons (few_worker (by decide) (by decide) rfl) <|
      .cons (few_worker (by decide) (by decide) rfl) <|
      .cons (few_worker (by decide) (by decide) rfl) <|
      .cons (few_worker (by decide) (by decide) rfl) <| .nil _, rfl⟩
  have hr : (few id 1).Reachable s := ⟨initial 1 0, _, ⟨0, rfl⟩, hs⟩
  exact ⟨s, t, hr, ht, hdone, happ, (exit_flushes_iff hr ht hdone).mpr (Or.inl (Or.inr hpc))⟩

/-- A fatal line that comes while the worker is writing is lost: the
takeover of the last iteration is over, `log_exit` returns, and the file
is empty. -/
theorem fatal_line_lost :
    ∃ s t, (few id 1).Reachable s ∧
      (few id 1).Path { s with running := false } (.replicate 4 (.worker (still 0))) t ∧
      t.pc = .done ∧ s.appended = ascii "[FATAL] x\n" ∧ t.out.bytes = [] ∧
      ¬ s.appended <+: t.out.bytes := by
  obtain ⟨s, hs, happ, t, ht, hdone, hbytes⟩ : ∃ s, (few id 1).Path (initial 1 0)
      [.worker (still 0), .worker (still 0), .worker (still 0), .worker (still 0),
        .append (ascii "[FATAL] x\n")] s ∧ s.appended = ascii "[FATAL] x\n" ∧
      ∃ t, (few id 1).Path { s with running := false } (.replicate 4 (.worker (still 0))) t ∧
        t.pc = .done ∧ t.out.bytes = [] := by
    exact ⟨_, .cons (few_worker (by decide) (by decide) rfl) <|
      .cons (few_worker (by decide) (by decide) rfl) <|
      .cons (few_worker (by decide) (by decide) rfl) <|
      .cons (few_worker (by decide) (by decide) rfl) <|
      .cons (few_append (by decide) rfl) <| .nil _, rfl, _,
      .cons (few_worker (by decide) (by decide) rfl) <|
      .cons (few_worker (by decide) (by decide) rfl) <|
      .cons (few_worker (by decide) (by decide) rfl) <|
      .cons (few_worker (by decide) (by decide) rfl) <| .nil _, rfl, rfl⟩
  refine ⟨s, t, ⟨initial 1 0, _, ⟨0, rfl⟩, hs⟩, ht, hdone, happ, hbytes, ?_⟩
  rw [happ, hbytes]
  decide

end Log

end Athena
