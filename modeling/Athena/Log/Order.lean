import Athena.Log.Step
/-!
# The logger — order and no loss

As long as no takeover is larger than `25` buffers, what was written,
what the worker is still writing and what is pending are, put together,
exactly the appended lines in the order of their appends. A larger
takeover appends one notice and writes its first two buffers.
-/

namespace Athena

namespace Log

variable {s t u : State} {mday : Day → ℕ} {arg : Int64}

/-- No excess is dropped at this event. -/
def Few (s : State) (e : Event) : Prop :=
  ∀ c, e = .worker c → s.pc = .taken → s.buffersToWrite.size ≤ 25

/-- **The logger without takeovers of more than `25` buffers.** -/
def few (mday : Day → ℕ) (arg : Int64) : System State Event := (system mday arg).restrict Few

/-- Nothing is lost, duplicated or reordered. -/
def InOrder (s : State) : Prop := s.out.bytes ++ writing s ++ pending s = s.appended

/-! ## One event -/

theorem fwrite_bytes {o : Output} (ho : o.handle.isSome) (round : ℕ) (data : Bytes) :
    (fwrite round data o).bytes = o.bytes ++ data := by
  obtain ⟨file, hf⟩ := Option.isSome_iff_exists.mp ho
  simp [fwrite, hf, Output.bytes]

/-- The size the worker took over is the length of its chain. -/
theorem WellFormed.size_taken (h : WellFormed s) (hpc : s.pc = .taken) :
    s.buffersToWrite.size = (writingChain s).length := by
  obtain ⟨full, w, hs⟩ := h.shape
  obtain ⟨-, hheld⟩ : s.newBuffer1 = none ∧ Held s w := by
    have := hs.locals
    rwa [Locals, hpc] at this
  rw [hheld.size, hs.writingChain_taken hpc]

/-- Outside the loop that writes, the worker writes nothing. -/
theorem writing_of_pc (hpc : s.pc ≠ .taken) (hw : ∀ node, s.pc ≠ .write node) : writing s = [] := by
  unfold writing writingChain
  cases h : s.pc with
  | taken => exact absurd h hpc
  | write node => exact absurd h (hw node)
  | _ => rfl

/-- At the end of the loop, nothing is left to write. -/
theorem writing_end (hpc : s.pc = .write none) : writing s = [] := by
  unfold writing writingChain
  rw [hpc]
  cases s.fresh <;> rfl

/-- The worker begins its loop where it took the chain over. -/
theorem writing_keep (hpc : s.pc = .taken) :
    writing { s with pc := .write s.buffersToWrite.head } = writing s := by
  simp [writing, writingChain, hpc]

/-- **One event keeps the order.** -/
theorem InOrder.step {e : Event} (hs : WellFormed s) (h : InOrder s) (hfew : Few s e)
    (he : Effect mday s t e) : InOrder t := by
  unfold InOrder at h ⊢
  cases he with
  | append _ happ hpend _ hwr same =>
    rw [happ, hpend, hwr, same.out, ← h]
    simp
  | exit eq =>
    subst eq
    exact h
  | start hpc hpc' roll hpend happ _ _ =>
    have hw : writing s = [] := writing_of_pc (by simp [hpc]) (by simp [hpc])
    have hw' : writing t = [] := writing_of_pc (by simp [hpc']) (by simp [hpc'])
    obtain ⟨file, n, -, ho⟩ := rollfile_spec roll
    rw [happ, hpend, hw', ← h, hw, ho]
    rfl
  | test hpc eq =>
    have hw : writing s = [] := writing_of_pc (by simp [hpc]) (by simp [hpc])
    have hw' : writing t = [] := by
      refine writing_of_pc ?_ ?_ <;> (subst eq; cases s.running <;> simp)
    subst eq
    rw [hw']
    rw [hw] at h
    exact h
  | wait hpc _ eq =>
    have hw : writing s = [] := writing_of_pc (by simp [hpc]) (by simp [hpc])
    subst eq
    have hw' : writing { s with pc := .wait } = [] := writing_of_pc (by simp) (by simp)
    rw [hw']
    rw [hw] at h
    exact h
  | take htakes _ roll _ hwr hpend happ _ _ =>
    have hw : writing s = [] := by
      rcases htakes.pc with hpc | hpc <;> exact writing_of_pc (by simp [hpc]) (by simp [hpc])
    rw [happ, hpend, hwr, ← h, hw, Output.bytes, (dayRoll_rolls roll).written]
    simp [Output.bytes]
  | keep hpc _ eq =>
    subst eq
    rw [writing_keep hpc]
    exact h
  | drop hpc many _ _ _ _ _ _ =>
    -- dropped buffers would break the order, but there are too few to drop any
    have := hfew _ rfl hpc
    rw [hs.size_taken hpc] at this
    omega
  | emit hpc _ hwr out hpend happ _ _ _ =>
    have hh := hs.handle (by simp [hpc])
    rw [happ, hpend, out, fwrite_bytes hh, ← h, hwr]
    simp
  | finish hpc hpc' roll hpend happ _ _ =>
    have hw' : writing t = [] := writing_of_pc (by simp [hpc']) (by simp [hpc'])
    rw [happ, hpend, hw', ← h, writing_end hpc, Output.bytes, (sizeRoll_rolls roll).written]
    rfl

theorem inOrder_initial (today : Day) : InOrder (initial arg today) := by
  have hw : writing (initial arg today) = [] := writing_of_pc (by simp [initial]) (by simp [initial])
  unfold InOrder
  rw [hw]
  rfl

/-! ## Whole runs -/

theorem inOrder_of_few (h : (few mday arg).Reachable s) : WellFormed s ∧ InOrder s := by
  refine h.invariant (P := fun s => WellFormed s ∧ InOrder s) ?_ ?_
  · rintro s ⟨today, rfl⟩
    exact ⟨wellFormed_initial arg today, inOrder_initial today⟩
  · rintro s e t ⟨hst, hfew⟩ ⟨hs, ho⟩
    obtain ⟨ht, he⟩ := hs.step hst
    exact ⟨ht, ho.step hs hfew he⟩

/-- Takeovers are counted upwards. -/
theorem Effect.round_le {e : Event} (h : Effect mday s t e) : s.round ≤ t.round := by
  cases h with
  | append _ _ _ _ _ same => exact same.round.ge
  | exit eq => exact eq ▸ le_rfl
  | start _ _ _ _ _ _ round => exact round.ge
  | test _ eq => exact eq ▸ le_rfl
  | wait _ _ eq => exact eq ▸ le_rfl
  | take _ _ _ _ _ _ _ _ round => omega
  | keep _ _ eq => exact eq ▸ le_rfl
  | drop _ _ _ _ _ _ _ same => exact same.round.ge
  | emit _ _ _ _ _ _ _ round _ => exact round.ge
  | finish _ _ _ _ _ _ round => exact round.ge

/-- The worker is between two iterations. -/
def Between (s : State) : Prop := s.pc ≠ .taken ∧ ∀ node, s.pc ≠ .write node

/-- **The rest of an iteration writes the rest of its chain**: a run from
inside the loop to its end, with no further takeover, has written
exactly what was left. -/
theorem bytes_of_iteration {es : List Event} (hp : (system mday arg).Path s es u)
    (hs : WellFormed s) (hround : u.round = s.round) (hend : u.pc = .write none) :
    ¬ Between s ∧ ((∃ node, s.pc = .write node) → u.out.bytes = s.out.bytes ++ writing s) := by
  induction hp with
  | nil s =>
    refine ⟨fun hb => hb.2 none hend, fun _ => ?_⟩
    rw [writing_end hend]
    simp
  | @cons s s' u e es hst hp ih =>
    obtain ⟨hs', he⟩ := hs.step hst
    have hle : s'.round ≤ u.round := hp.invariant (P := fun x => WellFormed x ∧ s'.round ≤ x.round)
      (fun _ _ _ h hx => ⟨(hx.1.step h).1, hx.2.trans (hx.1.step h).2.round_le⟩) ⟨hs', le_rfl⟩ |>.2
    have hle' := he.round_le
    obtain ⟨hnb, hw⟩ := ih hs' (by omega) hend
    cases he with
    | append hpc _ _ _ hwr same =>
      rw [Between, hpc] at hnb
      rw [hpc, hwr, same.out] at hw
      exact ⟨hnb, hw⟩
    | exit eq =>
      subst eq
      exact ⟨hnb, hw⟩
    | start _ hpc' _ _ _ _ _ => exact absurd ⟨by simp [hpc'], by simp [hpc']⟩ hnb
    | test _ eq =>
      refine absurd ⟨?_, ?_⟩ hnb <;> (subst eq; cases s.running <;> simp)
    | wait _ _ eq => exact absurd (by subst eq; exact ⟨by simp, by simp⟩) hnb
    | take _ _ _ _ _ _ _ _ round => omega
    | keep hpc _ _ => exact ⟨fun hb => hb.1 hpc, fun ⟨node, hn⟩ => by simp [hpc] at hn⟩
    | drop hpc _ _ _ _ _ _ _ => exact ⟨fun hb => hb.1 hpc, fun ⟨node, hn⟩ => by simp [hpc] at hn⟩
    | emit hpc hpc' hwr out _ _ _ _ _ =>
      refine ⟨fun hb => hb.2 _ hpc, fun _ => ?_⟩
      have hh := hs.handle (by simp [hpc])
      rw [hw ⟨_, hpc'⟩, out, fwrite_bytes hh, hwr]
      simp
    | finish _ hpc' _ _ _ _ _ => exact absurd ⟨by simp [hpc'], by simp [hpc']⟩ hnb

/-! ### The loop ends -/

/-- A step of the worker. -/
def Event.isWorker : Event → Bool
  | .worker _ => true
  | _ => false

/-- The loop stands at the first buffer that is left. -/
theorem WellFormed.node {node : Option Ptr} (h : WellFormed s) (hpc : s.pc = .write node) :
    node = (writingChain s).head? := by
  obtain ⟨full, w, hs⟩ := h.shape
  obtain ⟨-, -, pre, rest, hw, hnode⟩ := hs.write_locals hpc
  rw [hs.writingChain_write hpc hw hnode, hnode]

/-- **Each step of the worker writes one buffer**, whatever is appended
meanwhile: after as many steps as there are buffers it is at the end of
its loop and has written them. -/
theorem loop_ends {es : List Event} (hp : (system mday arg).Path s es u) (hs : WellFormed s)
    {node : Option Ptr} (hpc : s.pc = .write node)
    (hcount : es.countP Event.isWorker = (writingChain s).length) :
    u.pc = .write none ∧ u.round = s.round ∧ u.out.bytes = s.out.bytes ++ writing s := by
  induction hp generalizing node with
  | nil s =>
    have hchain : writingChain s = [] := List.eq_nil_of_length_eq_zero hcount.symm
    have hnode := hs.node hpc
    rw [hchain] at hnode
    have hend : s.pc = .write none := hpc.trans (congrArg Pc.write hnode)
    exact ⟨hend, rfl, by rw [writing_end hend, List.append_nil]⟩
  | @cons s s' u e es hst hp ih =>
    obtain ⟨hs', he⟩ := hs.step hst
    cases he with
    | append hpc' _ _ hchain hwr same =>
      obtain ⟨hend, hround, hout⟩ := ih hs' (hpc'.trans hpc) (by rw [hchain]; exact hcount)
      exact ⟨hend, hround.trans same.round, by rw [hout, same.out, hwr]⟩
    | exit eq =>
      subst eq
      exact ih hs' hpc hcount
    | emit hpc' hpc'' hwr out _ _ _ hround hchain =>
      have hcount' : es.countP Event.isWorker = (writingChain s').length := by
        rw [hchain] at hcount
        simpa [List.countP_cons, Event.isWorker] using hcount
      obtain ⟨hend, hround', hout⟩ := ih hs' hpc'' hcount'
      have hh := hs.handle (by simp [hpc])
      refine ⟨hend, hround'.trans hround, ?_⟩
      rw [hout, out, fwrite_bytes hh, hwr, List.append_assoc]
    | finish hpc' _ _ _ _ _ _ =>
      -- no buffer is left, and no step of the worker
      have hnode := hs.node hpc'
      rw [List.head?_eq_none_iff.mp hnode.symm] at hcount
      simp [List.countP_cons, Event.isWorker] at hcount
    | start hpc' => simp [hpc] at hpc'
    | test hpc' => simp [hpc] at hpc'
    | wait hpc' => simp [hpc] at hpc'
    | take htakes => rcases htakes.pc with hpc' | hpc' <;> simp [hpc] at hpc'
    | keep hpc' => simp [hpc] at hpc'
    | drop hpc' => simp [hpc] at hpc'

/-- A clock that stands still for a step of the worker. -/
def still (d : Day) : Clock := ⟨d, fun _ => d, d, []⟩

theorem still_forward {d : Day} (h : s.out.today ≤ d) : (still d).Forward s.out.today :=
  ⟨h, fun _ => le_rfl, monotone_const, fun _ => le_rfl⟩

/-- A buffer that is left can be written. -/
theorem write_next {p : Ptr} (hs : WellFormed s) (hpc : s.pc = .write (some p)) :
    ∃ t, (system mday arg).step s (.worker (still s.out.today)) t := by
  rcases hs.progress mday (e := .worker (still s.out.today)) (still_forward le_rfl) with
    ⟨t, hrun, -⟩ | ⟨hno, -⟩ | hno
  · exact ⟨t, still_forward le_rfl, hrun⟩
  all_goals
    rw [step, worker, hpc] at hno
    simp only [writeNode, load] at hno
    split at hno <;> cases hno

/-- **The steps that write what is left** are there. -/
theorem loop_steps {n : ℕ} {node : Option Ptr} (hs : WellFormed s) (hpc : s.pc = .write node)
    (hn : (writingChain s).length = n) :
    ∃ es u, (system mday arg).Path s es u ∧ es.countP Event.isWorker = n := by
  induction n generalizing s node with
  | zero => exact ⟨[], s, .nil s, rfl⟩
  | succ n ih =>
    obtain ⟨p, hnode⟩ : ∃ p, (writingChain s).head? = some p := by
      cases hchain : writingChain s with
      | nil => simp [hchain] at hn
      | cons p rest => exact ⟨p, rfl⟩
    have hpc' : s.pc = .write (some p) := by rw [hpc, hs.node hpc, hnode]
    obtain ⟨t, hst⟩ : ∃ t, (system mday arg).step s (.worker (still s.out.today)) t := write_next hs hpc'
    obtain ⟨ht, he⟩ := hs.step hst
    cases he with
    | emit _ hpct _ _ _ _ _ _ hchain =>
      rw [hchain] at hn
      obtain ⟨es, u, hp, hcount⟩ := ih ht hpct (Nat.succ.inj hn)
      exact ⟨_, u, .cons hst hp, by simp [List.countP_cons, Event.isWorker, hcount]⟩
    | finish hpc'' => cases hpc'.symm.trans hpc''
    | start hpc'' => simp [hpc] at hpc''
    | test hpc'' => simp [hpc] at hpc''
    | wait hpc'' => simp [hpc] at hpc''
    | take htakes => rcases htakes.pc with hpc'' | hpc'' <;> simp [hpc] at hpc''
    | keep hpc'' => simp [hpc] at hpc''
    | drop hpc'' => simp [hpc] at hpc''

/-- **A takeover of more than `25` buffers**: one notice is appended, and
what the iteration writes is exactly its first two buffers, in the next
two steps of the worker. -/
theorem excess_dropped {c : Clock} (hs : WellFormed s) (hpc : s.pc = .taken)
    (hmany : 25 < s.buffersToWrite.size) (hst : (system mday arg).step s (.worker c) t) :
    ∃ p q rest, writingChain s = p :: q :: rest ∧
      t.appended = s.appended ++ notice c.timebuf (s.buffersToWrite.size - 2) ∧
      pending t = pending s ++ notice c.timebuf (s.buffersToWrite.size - 2) ∧
      (∃ es u, (system mday arg).Path t es u ∧ es.countP Event.isWorker = 2) ∧
      (∀ es u, (system mday arg).Path t es u → es.countP Event.isWorker = 2 →
        u.pc = .write none ∧ u.round = t.round ∧ u.out.bytes = s.out.bytes ++ s.bytes [p, q]) ∧
      ∀ es u, (system mday arg).Path t es u → u.round = t.round → u.pc = .write none →
        u.out.bytes = s.out.bytes ++ s.bytes [p, q] := by
  have hsize := hs.size_taken hpc
  obtain ⟨ht, he⟩ := hs.step hst
  match hchain : writingChain s, (show 25 < (writingChain s).length by omega) with
  | p :: q :: rest, _ =>
    cases he with
    | drop _ _ hpc' htwo hwr happ hpend same =>
      have htwo' : (writingChain t).length = 2 := by
        rw [htwo, hchain]
        rfl
      refine ⟨p, q, rest, rfl, hsize ▸ happ, hsize ▸ hpend, loop_steps ht hpc' htwo',
        fun es u hp hcount => ?_, fun es u hp hround hend => ?_⟩
      · obtain ⟨hend, hround, hout⟩ := loop_ends hp ht hpc' (hcount.trans htwo'.symm)
        refine ⟨hend, hround, ?_⟩
        rw [hout, same.out, hwr, hchain]
        rfl
      · rw [(bytes_of_iteration hp ht hround hend).2 ⟨_, hpc'⟩, same.out, hwr, hchain]
        rfl
    | keep _ few _ => omega
    | start hpc' => simp [hpc] at hpc'
    | test hpc' => simp [hpc] at hpc'
    | wait hpc' => simp [hpc] at hpc'
    | take htakes => rcases htakes.pc with hpc' | hpc' <;> simp [hpc] at hpc'
    | emit hpc' => simp [hpc] at hpc'
    | finish hpc' => simp [hpc] at hpc'

/-- **The logger keeps the order and loses nothing.** In every state the
logger reaches, under every interleaving of appends with its worker: if
no takeover so far was larger than `25` buffers, the written bytes, then
the bytes being written, then the bytes on the chain from `buffers.head`
up to the current buffer are the appended lines in order; every buffer
is smaller than `LOG_BUFFER_SIZE`; no assertion fails, no bad pointer is
followed and no copy overruns a buffer; and a larger takeover appends
one notice and writes its first two buffers, in the next two steps of
the worker. -/
theorem logger_in_order (h : (system mday arg).Reachable s) :
    ((few mday arg).Reachable s → s.out.bytes ++ writing s ++ pending s = s.appended) ∧
    (pendingChain s).getLast? = some s.currBuffer ∧
    (∀ p b, s.mem p = some b → b.data.length < logBufferSize) ∧
    (∀ e f, Admissible s e → step mday s e = .error f → f = .hang ∨ f = .returned) ∧
    (s.pc = .taken → 25 < s.buffersToWrite.size → ∀ c t, (system mday arg).step s (.worker c) t →
      ∃ p q rest, writingChain s = p :: q :: rest ∧
        t.appended = s.appended ++ notice c.timebuf (s.buffersToWrite.size - 2) ∧
        pending t = pending s ++ notice c.timebuf (s.buffersToWrite.size - 2) ∧
        (∃ es u, (system mday arg).Path t es u ∧ es.countP Event.isWorker = 2) ∧
        (∀ es u, (system mday arg).Path t es u → es.countP Event.isWorker = 2 →
          u.pc = .write none ∧ u.round = t.round ∧ u.out.bytes = s.out.bytes ++ s.bytes [p, q]) ∧
        ∀ es u, (system mday arg).Path t es u → u.round = t.round → u.pc = .write none →
          u.out.bytes = s.out.bytes ++ s.bytes [p, q]) := by
  have hs := wellFormed_of_reachable h
  obtain ⟨full, w, hshape⟩ := hs.shape
  refine ⟨fun hfew => (inOrder_of_few hfew).2, ?_, hshape.small, fun e f ha hf => ?_,
    fun hpc hmany c t hst => excess_dropped hs hpc hmany hst⟩
  · rw [hshape.pendingChain_eq]
    simp
  · rcases hs.progress mday ha with ⟨t, hrun, -⟩ | ⟨hno, -⟩ | hno
    · rw [hrun] at hf
      cases hf
    · exact Or.inl (Except.error.inj (hf.symm.trans hno))
    · exact Or.inr (Except.error.inj (hf.symm.trans hno))

/-! ## Concrete runs -/

theorem few_worker {d : Day} (hd : s.out.today ≤ d) (hsize : s.buffersToWrite.size ≤ 25)
    (h : worker mday s (still d) = .ok t) : (few mday arg).step s (.worker (still d)) t :=
  ⟨⟨still_forward hd, h⟩, fun _ _ _ => hsize⟩

theorem few_append {line : Bytes} (hl : line.length < logMax) (h : append s line = .ok t) :
    (few mday arg).step s (.append line) t :=
  ⟨⟨hl, h⟩, by simp [Few]⟩

/-- **Two iterations**: the first has written two lines, the second is writing two more,
and the fifth line is pending in the buffer that the first wrote. -/
theorem logger_in_order_two : ∃ s, (system id 1).Reachable s ∧
    s.out.bytes = ascii "a\nb\n" ∧ writing s = ascii "c\nd\n" ∧ pending s = ascii "e\n" ∧
    (pendingChain s = [0] ∧ writingChain s = [2]) ∧
    s.appended = ascii "a\nb\nc\nd\ne\n" ∧ s.out.bytes ++ writing s ++ pending s = s.appended := by
  obtain ⟨s, hp, hout, hwr, hpend, hchains, happ⟩ : ∃ s, (few id 1).Path (initial 1 0)
      [.append (ascii "a\n"), .worker (still 0), .append (ascii "b\n"), .worker (still 0), .worker (still 0),
        .worker (still 0), .append (ascii "c\n"), .worker (still 0), .worker (still 0), .worker (still 0),
        .append (ascii "d\n"), .worker (still 0), .worker (still 0), .worker (still 0), .append (ascii "e\n")] s ∧
      s.out.bytes = ascii "a\nb\n" ∧ writing s = ascii "c\nd\n" ∧ pending s = ascii "e\n" ∧
      (pendingChain s = [0] ∧ writingChain s = [2]) ∧ s.appended = ascii "a\nb\nc\nd\ne\n" := by
    exact ⟨_, .cons (few_append (by decide) rfl) <| .cons (few_worker (by decide) (by decide) rfl) <|
      .cons (few_append (by decide) rfl) <| .cons (few_worker (by decide) (by decide) rfl) <|
      .cons (few_worker (by decide) (by decide) rfl) <| .cons (few_worker (by decide) (by decide) rfl) <|
      .cons (few_append (by decide) rfl) <| .cons (few_worker (by decide) (by decide) rfl) <|
      .cons (few_worker (by decide) (by decide) rfl) <| .cons (few_worker (by decide) (by decide) rfl) <|
      .cons (few_append (by decide) rfl) <| .cons (few_worker (by decide) (by decide) rfl) <|
      .cons (few_worker (by decide) (by decide) rfl) <| .cons (few_worker (by decide) (by decide) rfl) <|
      .cons (few_append (by decide) rfl) <| .nil _, rfl, rfl, rfl, ⟨rfl, rfl⟩, rfl⟩
  have hr : (few id 1).Reachable s := ⟨initial 1 0, _, ⟨0, rfl⟩, hp⟩
  exact ⟨s, hr.of_restrict, hout, hwr, hpend, hchains, happ, (logger_in_order hr.of_restrict).1 hr⟩

end Log

end Athena
