import Athena.Log.Shape
/-!
# The logger — what one event does

The state holds three stretches of bytes: what was written, what the
worker is still writing, and what is pending on the chain from
`buffers.head` to the current buffer. `Effect` says what each event does
to them, to the place of the worker and to its output; every event that
does not halt has one of these effects and keeps a shape
(`append_effect`, `worker_effect`). The statements about whole runs read
the effects and never the heap.
-/

namespace Athena

namespace Log

variable {s t : State} {full w : List Ptr} {mday : Day → ℕ} {c : Clock}

/-- The chain from `buffers.head`, or from the current buffer when the
list is empty. -/
def pendingChain (s : State) : List Ptr :=
  walk Buffer.next s.mem s.fresh (some (s.buffers.head.getD s.currBuffer))

/-- The buffers the worker is still writing. -/
def writingChain (s : State) : List Ptr :=
  match s.pc with
  | .taken => walk Buffer.next s.mem s.fresh s.buffersToWrite.head
  | .write node => walk Buffer.next s.mem s.fresh node
  | _ => []

def pending (s : State) : Bytes := s.bytes (pendingChain s)

def writing (s : State) : Bytes := s.bytes (writingChain s)

/-- The bytes written so far, to whatever file. -/
def Output.bytes (o : Output) : Bytes := o.written.flatMap Entry.data

/-- The next step of the worker is the takeover. -/
def Takes (s : State) : Prop := s.pc = .wait ∨ s.pc = .lock ∧ s.buffers.head.isSome

/-- **The effects of an event.** -/
inductive Effect (mday : Day → ℕ) (s t : State) : Event → Prop
  | append {line : Bytes} (pc : t.pc = s.pc) (appended : t.appended = s.appended ++ line)
      (pend : pending t = pending s ++ line) (chain : writingChain t = writingChain s)
      (writ : writing t = writing s) (same : SameLog s t) : Effect mday s t (.append line)
  | exit (eq : t = { s with running := false }) : Effect mday s t .exit
  | start {c : Clock} (pc : s.pc = .start) (pc' : t.pc = .test)
      (roll : rollfile mday c s.out = .ok t.out) (pend : pending t = pending s)
      (appended : t.appended = s.appended) (running : t.running = s.running)
      (round : t.round = s.round) : Effect mday s t (.worker c)
  | test {c : Clock} (pc : s.pc = .test)
      (eq : t = { s with pc := if s.running then .lock else .done }) : Effect mday s t (.worker c)
  | wait {c : Clock} (pc : s.pc = .lock) (empty : s.buffers.head = none)
      (eq : t = { s with pc := .wait }) : Effect mday s t (.worker c)
  | take {c : Clock} (takes : Takes s) (pc' : t.pc = .taken)
      (roll : dayRoll mday c s.out = .ok t.out) (chain : writingChain t = pendingChain s)
      (writ : writing t = pending s) (pend : pending t = [])
      (appended : t.appended = s.appended) (running : t.running = s.running)
      (round : t.round = s.round + 1) : Effect mday s t (.worker c)
  | keep {c : Clock} (pc : s.pc = .taken) (few : (writingChain s).length ≤ 25)
      (eq : t = { s with pc := .write s.buffersToWrite.head }) : Effect mday s t (.worker c)
  | drop {c : Clock} (pc : s.pc = .taken) (many : 25 < (writingChain s).length)
      (pc' : t.pc = .write (writingChain s).head?)
      (chain : writingChain t = (writingChain s).take 2)
      (writ : writing t = s.bytes ((writingChain s).take 2))
      (appended : t.appended = s.appended ++ notice c.timebuf ((writingChain s).length - 2))
      (pend : pending t = pending s ++ notice c.timebuf ((writingChain s).length - 2))
      (same : SameLog s t) : Effect mday s t (.worker c)
  | emit {c : Clock} {p : Ptr} {node : Option Ptr} {d : Bytes} (pc : s.pc = .write (some p))
      (pc' : t.pc = .write node) (writ : writing s = d ++ writing t)
      (out : t.out = fwrite s.round d s.out) (pend : pending t = pending s)
      (appended : t.appended = s.appended) (running : t.running = s.running)
      (round : t.round = s.round) (chain : writingChain s = p :: writingChain t) :
      Effect mday s t (.worker c)
  | finish {c : Clock} (pc : s.pc = .write none) (pc' : t.pc = .test)
      (roll : sizeRoll mday c s.out = .ok t.out) (pend : pending t = pending s)
      (appended : t.appended = s.appended) (running : t.running = s.running)
      (round : t.round = s.round) : Effect mday s t (.worker c)

/-! ## The chains of a shape -/

theorem Shape.length_le {l : List Ptr} (h : Shape s full w) (hl : l.Sublist (owned s full w)) :
    l.length ≤ s.fresh :=
  length_le_of_nodup (hl.nodup h.nodup) fun p hp => h.bound p (hl.subset hp)

theorem Shape.pendingChain_eq (h : Shape s full w) : pendingChain s = full ++ [s.currBuffer] := by
  have hhead : some (s.buffers.head.getD s.currBuffer) = (full ++ [s.currBuffer]).head? := by
    rw [h.head]
    cases full <;> simp
  rw [pendingChain, hhead]
  refine walk_head? h.linked (h.length_le ?_)
  exact List.Sublist.append_left (by simp) full

theorem Shape.pending_eq (h : Shape s full w) : pending s = s.bytes (full ++ [s.currBuffer]) := by
  rw [pending, h.pendingChain_eq]

/-- The worker's chain, cut anywhere. -/
theorem Shape.walk_worker {pre rest : List Ptr} (h : Shape s full w) (hw : w = pre ++ rest)
    (hl : Linked Buffer.next s.mem w) : walk Buffer.next s.mem s.fresh rest.head? = rest := by
  subst hw
  refine walk_head? hl.right (h.length_le ?_)
  have h1 : rest.Sublist (pre ++ rest) := List.sublist_append_right pre rest
  refine h1.trans ?_
  simp only [owned]
  refine List.Sublist.trans ?_ (List.sublist_append_right full _)
  refine List.Sublist.trans ?_ (List.sublist_cons_self _ _)
  refine List.Sublist.trans ?_ (List.sublist_append_right _ _)
  refine List.Sublist.trans ?_ (List.sublist_append_right _ _)
  exact List.sublist_append_right _ _

theorem Shape.writingChain_taken (h : Shape s full w) (hpc : s.pc = .taken) : writingChain s = w := by
  obtain ⟨-, hheld⟩ : s.newBuffer1 = none ∧ Held s w := by
    have := h.locals
    rwa [Locals, hpc] at this
  rw [writingChain, hpc]
  simp only
  rw [hheld.head]
  exact h.walk_worker (List.nil_append w).symm hheld.linked

/-- The worker in its loop: the chain being written is a tail of what the
worker holds. -/
theorem Shape.write_locals {node : Option Ptr} (h : Shape s full w) (hpc : s.pc = .write node) :
    s.newBuffer1 = none ∧ Held s w ∧ ∃ pre rest, w = pre ++ rest ∧ node = rest.head? := by
  have := h.locals
  rwa [Locals, hpc] at this

theorem Shape.writingChain_write {node : Option Ptr} {pre rest : List Ptr} (h : Shape s full w)
    (hpc : s.pc = .write node) (hw : w = pre ++ rest) (hnode : node = rest.head?) :
    writingChain s = rest := by
  obtain ⟨-, hheld, -⟩ := h.write_locals hpc
  rw [writingChain, hpc]
  simp only
  rw [hnode]
  exact h.walk_worker hw hheld.linked

/-! ## The effects -/

variable (mday) in
/-- **`append` has its effect.** -/
theorem append_effect (h : Shape s full w) {line : Bytes} (hl : line.length < logMax) :
    ∃ t full', append s line = .ok t ∧ Shape t full' w ∧ Effect mday s t (.append line) := by
  obtain ⟨t, full', happ, hf, hs, hm, ha, hb⟩ := append_spec h hl
  have hpc : t.pc = s.pc := by rw [hf]; rfl
  have hchain : writingChain t = writingChain s ∧ ∀ p ∈ writingChain s, p ∈ w := by
    cases hpc' : s.pc with
    | taken =>
      rw [hs.writingChain_taken (hpc.trans hpc'), h.writingChain_taken hpc']
      exact ⟨rfl, fun _ hp => hp⟩
    | write node =>
      obtain ⟨-, -, pre, rest, hw, hnode⟩ := h.write_locals hpc'
      rw [hs.writingChain_write (hpc.trans hpc') hw hnode, h.writingChain_write hpc' hw hnode]
      exact ⟨rfl, fun p hp => by simp [hw, hp]⟩
    | _ => simp [writingChain, hpc, hpc']
  refine ⟨t, full', happ, hs, .append hpc ha ?_ hchain.1 ?_ ?_⟩
  · rw [hs.pending_eq, h.pending_eq, hb]
  · rw [writing, writing, hchain.1]
    refine contents_congr fun p hp => hm p ?_
    simp only [others, List.mem_append]
    exact Or.inr (Or.inr (hchain.2 p hp))
  · rw [hf]
    exact ⟨rfl, rfl, rfl⟩

/-- Only a `rollsize` of zero keeps the loop from ending. -/
theorem sizeT_of_rollLoop {rollsize : Int32} {names : ℕ → Day} {n i : ℕ}
    (h : rollLoop rollsize names 2 n i = none) : sizeT rollsize = 0 := by
  by_contra h0
  have h0 : ¬ sizeT rollsize ≤ 0 := by omega
  simp only [rollLoop, if_neg h0] at h
  split at h <;> cases h

theorem rollfile_hang {o : Output} {e : Halt} (h : rollfile mday c o = .error e) :
    e = .hang ∧ sizeT o.rollsize = 0 := by
  unfold rollfile at h
  split at h
  · rename_i hloop
    exact ⟨(Except.error.inj h).symm, sizeT_of_rollLoop hloop⟩
  · cases h

/-- What a step of the worker comes to: an effect, or no step because
`rollfile` hangs or the worker has returned. -/
def Steps (mday : Day → ℕ) (s : State) (c : Clock) : Prop :=
  (∃ t full' w', worker mday s c = .ok t ∧ Shape t full' w' ∧ Effect mday s t (.worker c)) ∨
    worker mday s c = .error .hang ∧ sizeT s.out.rollsize = 0 ∨
    worker mday s c = .error .returned

/-- **The start**: a first file, and two spares of the worker's own. -/
theorem start_effect (h : Shape s full w) (hpc : s.pc = .start) : Steps mday s c := by
  obtain ⟨h1, h2, hb, rfl⟩ :
      s.newBuffer1 = none ∧ s.newBuffer2 = none ∧ s.buffersToWrite.head = none ∧ w = [] := by
    have := h.locals
    rwa [Locals, hpc] at this
  cases hroll : rollfile mday c s.out with
  | error e =>
    obtain ⟨rfl, hz⟩ := rollfile_hang hroll
    refine Or.inr (Or.inl ⟨?_, hz⟩)
    rw [worker, hpc]
    simp only [hroll]
    rfl
  | ok o =>
    let mem := Function.update (Function.update s.mem s.fresh (some .zero)) (s.fresh + 1) (some .zero)
    let t : State := { s with
      out := o, mem := mem, fresh := s.fresh + 1 + 1
      newBuffer1 := some s.fresh, newBuffer2 := some (s.fresh + 1), pc := .test }
    have hrun : worker mday s c = .ok t := by
      rw [worker, hpc]
      simp only [hroll]
      rfl
    -- the two spares lie above all that was allocated, so nothing else is touched
    have howned : owned t full [] = owned s full [] ++ [s.fresh, s.fresh + 1] := by
      simp [owned, t, h1, h2]
    have hmem : ∀ p ∈ owned s full [], mem p = s.mem p := by
      intro p hp
      have := h.bound p hp
      have h1 : p ≠ s.fresh := Nat.ne_of_lt this
      have h2 : p ≠ s.fresh + 1 := Nat.ne_of_lt (Nat.lt_succ_of_lt this)
      simp [mem, h1, h2]
    have hchain : ∀ p ∈ full ++ [s.currBuffer], mem p = s.mem p := fun p hp => by
      refine hmem p ?_
      simp only [owned, List.mem_append, List.mem_cons] at hp ⊢
      tauto
    have hs : Shape t full [] := by
      refine ⟨h.head, h.tail, h.size, h.linked.congr hchain, fun p hp => ?_, h.used, fun p hp => ?_,
        fun p hp => ?_, ?_, fun p hp => ?_, fun p b hpb => ?_, ⟨rfl, rfl, hb, rfl⟩⟩
      · have hp' : s.nextBuffer = some p := hp
        exact (hmem p (by simp [owned, hp'])).trans (h.spare p hp)
      · obtain rfl : s.fresh = p := Option.some.inj hp
        simp [t, mem]
      · obtain rfl : s.fresh + 1 = p := Option.some.inj hp
        simp [t, mem]
      · rw [howned]
        refine List.nodup_append.mpr ⟨h.nodup, by simp, fun p hp q hq => ?_⟩
        have := h.bound p hp
        rintro rfl
        rcases List.mem_cons.mp hq with rfl | hq
        · exact lt_irrefl _ this
        · rw [List.mem_singleton.mp hq] at this
          exact absurd this (Nat.not_lt.mpr (Nat.le_succ _))
      · rw [howned] at hp
        rcases List.mem_append.mp hp with hp | hp
        · exact Nat.lt_succ_of_lt (Nat.lt_succ_of_lt (h.bound p hp))
        · rcases List.mem_cons.mp hp with rfl | hp
          · exact Nat.lt_succ_of_lt (Nat.lt_succ_self _)
          · rw [List.mem_singleton.mp hp]
            exact Nat.lt_succ_self _
      · have hpb : mem p = some b := hpb
        by_cases h2 : p = s.fresh + 1
        · obtain rfl : b = .zero := by simpa [mem, h2] using hpb.symm
          simp [Buffer.zero, logBufferSize]
        · by_cases h1 : p = s.fresh
          · obtain rfl : b = .zero := by simpa [mem, h1] using hpb.symm
            simp [Buffer.zero, logBufferSize]
          · exact h.small p b (by simpa [mem, h1, h2] using hpb)
    refine Or.inl ⟨t, full, [], hrun, hs, .start hpc rfl hroll ?_ rfl rfl rfl⟩
    rw [hs.pending_eq, h.pending_eq]
    exact contents_congr hchain

/-- A worker that holds both spares and nothing else. -/
theorem Shape.idle (h : Shape s full w) (hpc : s.pc = .test ∨ s.pc = .lock ∨ s.pc = .wait) :
    s.newBuffer1.isSome ∧ s.newBuffer2.isSome ∧ s.buffersToWrite.head = none ∧ w = [] := by
  have := h.locals
  rcases hpc with hpc | hpc | hpc <;> rwa [Locals, hpc] at this

/-- The place of the worker may change where what it holds does not
depend on it. -/
theorem Shape.setPc (h : Shape s full w) {p : Pc} (hl : Locals { s with pc := p } w) :
    Shape { s with pc := p } full w :=
  ⟨h.head, h.tail, h.size, h.linked, h.spare, h.used, h.new1, h.new2, h.nodup, h.bound, h.small, hl⟩

theorem test_effect (h : Shape s full w) (hpc : s.pc = .test) : Steps mday s c := by
  have hidle := h.idle (Or.inl hpc)
  refine Or.inl ⟨_, full, w, ?_, h.setPc (p := if s.running then .lock else .done) ?_, .test hpc rfl⟩
  · rw [worker, hpc]
  · cases hr : s.running <;> exact hidle

theorem take_fields (s : State) :
    (take s).pc = .taken ∧ (take s).out = s.out ∧ (take s).appended = s.appended ∧
      (take s).running = s.running ∧ (take s).round = s.round + 1 := by
  unfold take
  dsimp only
  split <;> exact ⟨rfl, rfl, rfl, rfl, rfl⟩

theorem Takes.pc (h : Takes s) : s.pc = .lock ∨ s.pc = .wait := by
  rcases h with h | ⟨h, -⟩
  · exact Or.inr h
  · exact Or.inl h

/-- **The takeover**, after the wait or at once. -/
theorem wake_effect (h : Shape s full w) (htakes : Takes s) :
    (∃ t full' w', wake mday c s = .ok t ∧ Shape t full' w' ∧ Effect mday s t (.worker c)) ∨
      wake mday c s = .error .hang ∧ sizeT s.out.rollsize = 0 := by
  obtain ⟨h1, h2, -, rfl⟩ := h.idle (Or.inr htakes.pc)
  cases hroll : dayRoll mday c s.out with
  | error e =>
    have he : e = .hang ∧ sizeT s.out.rollsize = 0 := by
      unfold dayRoll at hroll
      dsimp only at hroll
      split at hroll
      · exact rollfile_hang hroll
      · cases hroll
    refine Or.inr ⟨?_, he.2⟩
    rw [wake, hroll, he.1]
    rfl
  | ok o =>
    have hs : Shape { s with out := o } full [] := h.congr rfl
    obtain ⟨ht, hmem, hbytes⟩ := take_spec hs h1 h2 rfl
    obtain ⟨hpc', hout, happ, hrun, hround⟩ := take_fields { s with out := o }
    have hchain := ht.writingChain_taken hpc'
    refine Or.inl ⟨take { s with out := o }, [], _, ?_, ht,
      .take htakes hpc' (hroll.trans (congrArg Except.ok hout.symm)) ?_ ?_ ?_ happ hrun hround⟩
    · rw [wake, hroll]
      rfl
    · rw [hchain, h.pendingChain_eq]
    · rw [writing, hchain, h.pending_eq, State.bytes, hmem]
    · rw [ht.pending_eq, hbytes]

theorem lock_effect (h : Shape s full w) (hpc : s.pc = .lock) : Steps mday s c := by
  obtain ⟨h1, h2, hb, hw⟩ := h.idle (Or.inr (Or.inl hpc))
  obtain ⟨a, ha⟩ := Option.isSome_iff_exists.mp h1
  obtain ⟨b, hb'⟩ := Option.isSome_iff_exists.mp h2
  have hz1 := load_of_mem (h.new1 a ha)
  have hz2 := load_of_mem (h.new2 b hb')
  -- the assertions at the top of the loop hold
  cases hhead : s.buffers.head with
  | none =>
    refine Or.inl ⟨_, full, w, ?_, h.setPc (p := .wait) ⟨h1, h2, hb, hw⟩, .wait hpc hhead rfl⟩
    rw [worker, hpc]
    simp only [hb, ha, hb', hz1, hz2, hhead, bind_ok, Option.isNone_none, assert_true, Buffer.zero,
      List.isEmpty_nil]
  | some p =>
    have hrun : worker mday s c = wake mday c s := by
      rw [worker, hpc]
      simp only [hb, ha, hb', hz1, hz2, hhead, bind_ok, Option.isNone_none, assert_true,
        Buffer.zero, List.isEmpty_nil]
    rcases wake_effect h (Or.inr ⟨hpc, by simp [hhead]⟩) with ⟨t, full', w', hw', hs, he⟩ | hhang
    · exact Or.inl ⟨t, full', w', hrun.trans hw', hs, he⟩
    · exact Or.inr (Or.inl ⟨hrun.trans hhang.1, hhang.2⟩)

theorem wait_effect (h : Shape s full w) (hpc : s.pc = .wait) : Steps mday s c := by
  have hrun : worker mday s c = wake mday c s := by rw [worker, hpc]
  rcases wake_effect h (Or.inl hpc) with ⟨t, full', w', hw', hs, he⟩ | hhang
  · exact Or.inl ⟨t, full', w', hrun.trans hw', hs, he⟩
  · exact Or.inr (Or.inl ⟨hrun.trans hhang.1, hhang.2⟩)

theorem taken_effect (h : Shape s full w) (hpc : s.pc = .taken) : Steps mday s c := by
  obtain ⟨h1, hheld⟩ : s.newBuffer1 = none ∧ Held s w := by
    have := h.locals
    rwa [Locals, hpc] at this
  have hchain := h.writingChain_taken hpc
  have hassert : assert (decide (0 < w.length)) = .ok () := by
    rw [decide_eq_true hheld.pos, assert_true]
  by_cases hlen : 25 < w.length
  · obtain ⟨t, full', hdrop, hs, hhead, hbytes, happ, hpend, hsame⟩ := dropExcess_spec (c := c) h hpc hlen
    have hhead' : t.buffersToWrite.head = w.head? := by
      rw [hhead]
      cases w <;> rfl
    have hwr : writingChain { t with pc := .write t.buffersToWrite.head } = w.take 2 :=
      hs.writingChain_write rfl (List.nil_append _).symm hhead
    refine Or.inl ⟨_, full', w.take 2, ?_, hs,
      .drop hpc (by rwa [hchain]) ?_ ?_ ?_ ?_ ?_ ⟨hsame.out, hsame.running, hsame.round⟩⟩
    · rw [worker, hpc]
      simp only [hheld.size, hassert, bind_ok, if_pos hlen, hdrop]
    · rw [hchain]
      exact congrArg Pc.write hhead'
    · rw [hchain, hwr]
    · rw [hchain, writing, hwr]
      exact hbytes
    · rw [hchain]
      exact happ
    · rw [hs.pending_eq, h.pending_eq, hchain]
      exact hpend
  · refine Or.inl ⟨_, full, w, ?_, h.setPc (p := .write s.buffersToWrite.head) ?_,
      .keep hpc (by rw [hchain]; omega) rfl⟩
    · rw [worker, hpc]
      simp only [hheld.size, hassert, bind_ok, if_neg hlen]
    · exact ⟨h1, ⟨hheld.head, hheld.size, hheld.linked, hheld.pos, hheld.two⟩, [], w, rfl,
        hheld.head⟩

theorem write_effect {p : Ptr} (h : Shape s full w) (hpc : s.pc = .write (some p)) :
    Steps mday s c := by
  obtain ⟨h1, hheld, pre, rest, hw, hnode⟩ := h.write_locals hpc
  obtain ⟨rest, rfl⟩ : ∃ l, rest = p :: l := by
    cases rest with
    | nil => simp at hnode
    | cons q l => exact ⟨l, by rw [Option.some.inj hnode]⟩
  have hchain := h.writingChain_write hpc hw hnode
  obtain ⟨⟨b, hb, hbn⟩, -⟩ : Linked Buffer.next s.mem (p :: rest) := (hw ▸ hheld.linked).right
  have hcut : w = (pre ++ [p]) ++ rest := by rw [hw]; simp
  have hs : Shape { s with out := fwrite s.round b.data s.out, pc := .write b.next } full w :=
    (h.congr (t := { s with out := fwrite s.round b.data s.out }) rfl).setPc
      ⟨h1, ⟨hheld.head, hheld.size, hheld.linked, hheld.pos, hheld.two⟩, pre ++ [p], rest, hcut, hbn⟩
  have hchain' := hs.writingChain_write rfl hcut hbn
  refine Or.inl ⟨_, full, w, ?_, hs, .emit (d := b.data) hpc rfl ?_ rfl rfl rfl rfl rfl ?_⟩
  · rw [worker, hpc]
    simp only [writeNode, load_of_mem hb, bind_ok]
  · rw [writing, writing, hchain, hchain']
    exact contents_cons hb
  · rw [hchain, hchain']

theorem finish_effect (h : Shape s full w) (hpc : s.pc = .write none) : Steps mday s c := by
  obtain ⟨h1, hheld, -⟩ := h.write_locals hpc
  cases hroll : sizeRoll mday c s.out with
  | error e =>
    have he : e = .hang ∧ sizeT s.out.rollsize = 0 := by
      unfold sizeRoll at hroll
      dsimp only at hroll
      split at hroll
      · exact rollfile_hang hroll
      · cases hroll
    refine Or.inr (Or.inl ⟨?_, he.2⟩)
    rw [worker, hpc]
    simp only [hroll, he.1]
    rfl
  | ok o =>
    have hs : Shape { s with out := o } full w := h.congr rfl
    obtain ⟨t, hrun, ht, hpc', hcurr, hmem, hsame, happ⟩ := refill_spec hs h1
      ⟨hheld.head, hheld.size, hheld.linked, hheld.pos, hheld.two⟩
    refine Or.inl ⟨t, full, [], ?_, ht, .finish hpc hpc' ?_ ?_ happ hsame.running hsame.round⟩
    · rw [worker, hpc]
      rw [hpc] at hrun
      simp only [hroll, bind_ok]
      exact hrun
    · rw [hroll, hsame.out]
    · rw [ht.pending_eq, h.pending_eq, hcurr]
      exact contents_congr fun p hp => hmem p fun hw => (h.not_mem_of_worker hw).1 hp

variable (mday c) in
/-- **Every step of the worker has its effect**, or is none: it halts on
no assertion and no pointer. -/
theorem worker_effect (h : Shape s full w) : Steps mday s c := by
  cases hpc : s.pc with
  | start => exact start_effect h hpc
  | test => exact test_effect h hpc
  | lock => exact lock_effect h hpc
  | wait => exact wait_effect h hpc
  | taken => exact taken_effect h hpc
  | write node =>
    cases node with
    | some p => exact write_effect h hpc
    | none => exact finish_effect h hpc
  | done =>
    refine Or.inr (Or.inr ?_)
    rw [worker, hpc]

/-! ## Well-formed states -/

/-- **A well-formed state**: the heap has a shape, and there is a file
once the worker has started. -/
structure WellFormed (s : State) : Prop where
  shape : ∃ full w, Shape s full w
  handle : s.pc ≠ .start → s.out.handle.isSome

theorem wellFormed_initial (arg : Int64) (today : Day) : WellFormed (initial arg today) := by
  refine ⟨⟨[], [], rfl, rfl, rfl, ⟨⟨.zero, rfl, rfl⟩, trivial⟩, fun p hp => ?_, by simp [initial],
    by simp [initial], by simp [initial], by simp [owned, initial], ?_, fun p b hb => ?_,
    ⟨rfl, rfl, rfl, rfl⟩⟩, fun h => absurd rfl h⟩
  · obtain rfl : (1 : ℕ) = p := Option.some.inj hp
    rfl
  · simp [owned, initial]
  · simp only [initial] at hb
    split at hb
    · obtain rfl : b = .zero := (Option.some.inj hb).symm
      simp [Buffer.zero, logBufferSize]
    · cases hb

theorem rollfile_spec {o o' : Output} (h : rollfile mday c o = .ok o') :
    ∃ file n, rollLoop o.rollsize c.names 2 o.writtenBytes 0 = some (file, n) ∧
      o' = { o with
        handle := some file, writtenBytes := n, rollMday := mday c.stamp, today := c.stamp
        sinceRoll := 0
        pastZero := if file.index = 0 then o.pastZero else file.day :: o.pastZero } := by
  unfold rollfile at h
  split at h
  · cases h
  · rename_i file n hloop
    exact ⟨file, n, hloop, (Except.ok.inj h).symm⟩

/-- A roll that was due, or none. -/
def Rolls (mday : Day → ℕ) (c : Clock) (due : Prop) (o o' : Output) : Prop :=
  due ∧ rollfile mday c { o with today := c.now } = .ok o' ∨ ¬ due ∧ o' = { o with today := c.now }

theorem dayRoll_rolls {o o' : Output} (h : dayRoll mday c o = .ok o') :
    Rolls mday c (o.rollMday ≠ mday c.now) o o' := by
  unfold dayRoll at h
  dsimp only at h
  split at h
  · rename_i hdue
    exact Or.inl ⟨hdue, h⟩
  · rename_i hdue
    exact Or.inr ⟨hdue, (Except.ok.inj h).symm⟩

theorem sizeRoll_rolls {o o' : Output} (h : sizeRoll mday c o = .ok o') :
    Rolls mday c (sizeT o.rollsize < o.writtenBytes) o o' := by
  unfold sizeRoll at h
  dsimp only at h
  split at h
  · rename_i hdue
    exact Or.inl ⟨hdue, h⟩
  · rename_i hdue
    exact Or.inr ⟨hdue, (Except.ok.inj h).symm⟩

theorem rollfile_handle {o o' : Output} (h : rollfile mday c o = .ok o') : o'.handle.isSome := by
  obtain ⟨file, n, -, rfl⟩ := rollfile_spec h
  rfl

theorem Rolls.handle {due : Prop} {o o' : Output} (h : Rolls mday c due o o')
    (ho : o.handle.isSome) : o'.handle.isSome := by
  rcases h with ⟨-, h⟩ | ⟨-, rfl⟩
  · exact rollfile_handle h
  · exact ho

theorem Rolls.written {due : Prop} {o o' : Output} (h : Rolls mday c due o o') :
    o'.written = o.written := by
  rcases h with ⟨-, h⟩ | ⟨-, rfl⟩
  · obtain ⟨file, n, -, rfl⟩ := rollfile_spec h
    rfl
  · rfl

theorem fwrite_handle (round : ℕ) (data : Bytes) (o : Output) :
    (fwrite round data o).handle = o.handle := by
  unfold fwrite
  split <;> simp_all

/-- An effect keeps a file open. -/
theorem Effect.handle {e : Event} (h : Effect mday s t e) (hs : s.pc ≠ .start → s.out.handle.isSome) :
    t.pc ≠ .start → t.out.handle.isSome := by
  intro ht
  cases h with
  | append pc _ _ _ _ same =>
    rw [same.out]
    exact hs (pc ▸ ht)
  | exit eq =>
    subst eq
    exact hs ht
  | start _ _ roll => exact rollfile_handle roll
  | test pc eq =>
    subst eq
    exact hs (by simp [pc])
  | wait pc _ eq =>
    subst eq
    exact hs (by simp [pc])
  | take takes _ roll =>
    refine (dayRoll_rolls roll).handle (hs ?_)
    rcases takes.pc with pc | pc <;> simp [pc]
  | keep pc _ eq =>
    subst eq
    exact hs (by simp [pc])
  | drop pc _ _ _ _ _ _ same =>
    rw [same.out]
    exact hs (by simp [pc])
  | emit pc _ _ out =>
    rw [out, fwrite_handle]
    exact hs (by simp [pc])
  | finish pc _ roll => exact (sizeRoll_rolls roll).handle (hs (by simp [pc]))

/-- The end of the loop is the place of the size roll. -/
theorem Effect.sizeRoll (h : Effect mday s t (.worker c)) (hpc : s.pc = .write none) :
    sizeRoll mday c s.out = .ok t.out := by
  cases h with
  | finish _ _ roll => exact roll
  | take takes => rcases takes.pc with pc | pc <;> simp [hpc] at pc
  | start pc => simp [hpc] at pc
  | test pc => simp [hpc] at pc
  | wait pc => simp [hpc] at pc
  | keep pc => simp [hpc] at pc
  | drop pc => simp [hpc] at pc
  | emit pc => simp [hpc] at pc

/-- The takeover is the place of the day roll. -/
theorem Effect.dayRoll (h : Effect mday s t (.worker c)) (htakes : Takes s) :
    dayRoll mday c s.out = .ok t.out := by
  cases h with
  | take _ _ roll => exact roll
  | wait pc empty _ =>
    rcases htakes with hpc | ⟨-, hhead⟩
    · simp [hpc] at pc
    · simp [empty] at hhead
  | start pc => rcases htakes.pc with hpc | hpc <;> simp [hpc] at pc
  | test pc => rcases htakes.pc with hpc | hpc <;> simp [hpc] at pc
  | keep pc => rcases htakes.pc with hpc | hpc <;> simp [hpc] at pc
  | drop pc => rcases htakes.pc with hpc | hpc <;> simp [hpc] at pc
  | emit pc => rcases htakes.pc with hpc | hpc <;> simp [hpc] at pc
  | finish pc => rcases htakes.pc with hpc | hpc <;> simp [hpc] at pc

variable (mday) in
/-- **What may happen in a well-formed state**: an event has its effect
and leads to a well-formed state, or the worker takes no step. -/
theorem WellFormed.progress {e : Event} (h : WellFormed s) (ha : Admissible s e) :
    (∃ t, step mday s e = .ok t ∧ WellFormed t ∧ Effect mday s t e) ∨
      step mday s e = .error .hang ∧ sizeT s.out.rollsize = 0 ∨
      step mday s e = .error .returned := by
  obtain ⟨full, w, hs⟩ := h.shape
  cases e with
  | append line =>
    obtain ⟨t, full', hrun, ht, he⟩ := append_effect mday hs ha
    exact Or.inl ⟨t, hrun, ⟨⟨full', w, ht⟩, he.handle h.handle⟩, he⟩
  | exit =>
    exact Or.inl ⟨_, rfl, ⟨⟨full, w, hs.congr rfl⟩, h.handle⟩, .exit rfl⟩
  | worker c =>
    rcases worker_effect mday c hs with ⟨t, full', w', hrun, ht, he⟩ | hno
    · exact Or.inl ⟨t, hrun, ⟨⟨full', w', ht⟩, he.handle h.handle⟩, he⟩
    · exact Or.inr hno

variable {arg : Int64}

theorem WellFormed.step {e : Event} (h : WellFormed s) (hst : (system mday arg).step s e t) :
    WellFormed t ∧ Effect mday s t e := by
  obtain ⟨ha, hst⟩ := hst
  rcases h.progress mday ha with ⟨t', hrun, ht, he⟩ | ⟨hno, -⟩ | hno
  · obtain rfl : t' = t := Except.ok.inj (hrun.symm.trans hst)
    exact ⟨ht, he⟩
  · rw [hno] at hst
    cases hst
  · rw [hno] at hst
    cases hst

theorem wellFormed_of_reachable (h : (system mday arg).Reachable s) : WellFormed s :=
  h.invariant (by rintro s ⟨today, rfl⟩; exact wellFormed_initial arg today)
    fun _ _ _ hst hs => (hs.step hst).1

end Log

end Athena
