import Athena.Log.Model
/-!
# The logger — the shape of its heap

A full buffer is linked to the buffer that replaces it at once, while it
is the current one that the list `buffers` does not hold yet. So the
chain from `buffers.head` runs one cell past `buffers.tail`, to the
current buffer, and the worker may move `tail` there without touching a
link. `Shape` says this with two lists: `full`, the buffers on the list,
and `w`, the ones the worker holds. The spare buffer is missing only
after it was used, that is while `full` is not empty, which is what makes
the second pop of the worker safe.

Every event keeps a shape, and no event halts on a failed assertion, a
bad pointer or a copy past a buffer.
-/

namespace Athena

namespace Log

variable {s t : State} {full w : List Ptr} {mday : Day → ℕ} {c : Clock}

/-- The buffers in use, each under one of its roles. -/
def owned (s : State) (full w : List Ptr) : List Ptr :=
  full ++ s.currBuffer ::
    (s.nextBuffer.toList ++ (s.newBuffer1.toList ++ (s.newBuffer2.toList ++ w)))

/-- The chain `w` is `buffers_to_write`, long enough to refill the spares
of the worker. -/
structure Held (s : State) (w : List Ptr) : Prop where
  head : s.buffersToWrite.head = w.head?
  size : s.buffersToWrite.size = w.length
  linked : Linked Buffer.next s.mem w
  pos : 0 < w.length
  two : s.newBuffer2 = none → 2 ≤ w.length

/-- What the worker holds, by where it stands. -/
def Locals (s : State) (w : List Ptr) : Prop :=
  match s.pc with
  | .start =>
    s.newBuffer1 = none ∧ s.newBuffer2 = none ∧ s.buffersToWrite.head = none ∧ w = []
  | .taken => s.newBuffer1 = none ∧ Held s w
  | .write node => s.newBuffer1 = none ∧ Held s w ∧ ∃ pre rest, w = pre ++ rest ∧ node = rest.head?
  | _ => s.newBuffer1.isSome ∧ s.newBuffer2.isSome ∧ s.buffersToWrite.head = none ∧ w = []

/-- **The shape of the heap.** -/
structure Shape (s : State) (full w : List Ptr) : Prop where
  head : s.buffers.head = full.head?
  tail : s.buffers.tail = full.getLast?
  size : s.buffers.size = full.length
  linked : Linked Buffer.next s.mem (full ++ [s.currBuffer])
  spare : ∀ p, s.nextBuffer = some p → s.mem p = some .zero
  used : s.nextBuffer = none → full ≠ []
  new1 : ∀ p, s.newBuffer1 = some p → s.mem p = some .zero
  new2 : ∀ p, s.newBuffer2 = some p → s.mem p = some .zero
  nodup : (owned s full w).Nodup
  bound : ∀ p ∈ owned s full w, p < s.fresh
  small : ∀ p b, s.mem p = some b → b.data.length < logBufferSize
  locals : Locals s w

/-- What a list of buffers holds. -/
abbrev State.bytes (s : State) (l : List Ptr) : Bytes := contents Buffer.data s.mem l

/-! ## Reading the monad -/

@[simp]
theorem bind_ok {α β : Type} (a : α) (f : α → Except Halt β) : (Except.ok a >>= f) = f a := rfl

@[simp]
theorem assert_true : assert true = .ok () := rfl

theorem load_of_mem {p : Ptr} {b : Buffer} (h : s.mem p = some b) : load s (some p) = .ok b := by
  simp [load, h]

/-! ## Appending -/

/-- The buffers an append does not touch. -/
def others (s : State) (w : List Ptr) : List Ptr :=
  s.newBuffer1.toList ++ (s.newBuffer2.toList ++ w)

theorem mem_owned_of_others {p : Ptr} (hp : p ∈ others s w) : p ∈ owned s full w := by
  simp only [others, List.mem_append] at hp
  simp only [owned, List.mem_append, List.mem_cons]
  tauto

/-- **The spare, or the new buffer**, is empty and in no other role. -/
theorem spare_spec (h : Shape s full w) :
    ∃ n fresh, (∀ buffers, spare { s with buffers := buffers } = ({ s with
        buffers := buffers, nextBuffer := none, mem := Function.update s.mem n (some .zero),
        fresh := fresh }, n)) ∧
      s.fresh ≤ fresh ∧ n < fresh ∧ (full ++ s.currBuffer :: n :: others s w).Nodup := by
  unfold spare
  cases hn : s.nextBuffer with
  | some n =>
    have hmem : Function.update s.mem n (some .zero) = s.mem := by
      rw [← h.spare n hn, Function.update_eq_self]
    have howned : owned s full w = full ++ s.currBuffer :: n :: others s w := by
      simp [owned, others, hn]
    refine ⟨n, s.fresh, fun _ => by rw [hmem], le_rfl, h.bound n (by simp [howned]), howned ▸ h.nodup⟩
  | none =>
    have howned : owned s full w = full ++ s.currBuffer :: others s w := by
      simp [owned, others, hn]
    have hfresh : s.fresh ∉ full ++ s.currBuffer :: others s w := fun hmem =>
      lt_irrefl _ (h.bound s.fresh (howned ▸ hmem))
    refine ⟨s.fresh, s.fresh + 1, fun _ => by simp [calloc, store], Nat.le_succ _,
      Nat.lt_succ_self _, ?_⟩
    have hperm : (full ++ s.currBuffer :: s.fresh :: others s w).Perm
        (s.fresh :: (full ++ s.currBuffer :: others s w)) := by
      refine List.perm_iff_count.mpr fun a => ?_
      simp only [List.count_append, List.count_cons]
      omega
    exact hperm.nodup_iff.mpr (List.nodup_cons.mpr ⟨hfresh, howned ▸ h.nodup⟩)

/-- **The current buffer goes on the list**; the link the source stores
is there already. -/
theorem enqueue_spec (h : Shape s full w) :
    enqueue s = .ok { s with
      buffers := ⟨(full ++ [s.currBuffer]).head?, some s.currBuffer, full.length + 1⟩ } := by
  unfold enqueue
  rcases List.eq_nil_or_concat full with rfl | ⟨pre, q, rfl⟩
  · have hhead : s.buffers.head = none := h.head
    have htail : s.buffers.tail = none := h.tail
    have hsize : s.buffers.size = 0 := h.size
    simp [hhead, htail, hsize]
  · rw [List.concat_eq_append] at h ⊢
    have htail : s.buffers.tail = some q := by rw [h.tail]; simp
    obtain ⟨a, hhead⟩ : ∃ a, s.buffers.head = some a := by
      rw [h.head]
      cases pre <;> simp
    have hlink : Linked Buffer.next s.mem (pre ++ [q, s.currBuffer]) := by
      simpa using h.linked
    obtain ⟨⟨b, hb, hnext⟩, -⟩ := hlink.right
    have hstore : store s q { b with next := some s.currBuffer } = s := by
      have : ({ b with next := some s.currBuffer } : Buffer) = b := by
        rw [← (by simpa using hnext : b.next = some s.currBuffer)]
      rw [this, store, ← hb, Function.update_eq_self]
    have hfirst : (pre ++ [q] ++ [s.currBuffer]).head? = some a := by
      rw [← hhead, h.head]
      cases pre <;> simp
    simp only [hhead, htail, load_of_mem hb, bind_ok, Option.getD_some, hstore]
    rw [h.size, hfirst]

/-- `s` with the fields an append may write, from `t`. -/
def State.withFront (s t : State) : State :=
  { s with
    mem := t.mem, fresh := t.fresh, currBuffer := t.currBuffer, nextBuffer := t.nextBuffer,
    buffers := t.buffers, appended := t.appended }

theorem Locals.congr (h : Locals s w) (hpc : t.pc = s.pc) (h1 : t.newBuffer1 = s.newBuffer1)
    (h2 : t.newBuffer2 = s.newBuffer2) (hb : t.buffersToWrite = s.buffersToWrite)
    (hm : ∀ p ∈ w, t.mem p = s.mem p) : Locals t w := by
  have hheld : Held s w → Held t w := fun h =>
    ⟨hb ▸ h.head, hb ▸ h.size, h.linked.congr hm, h.pos, h2 ▸ h.two⟩
  unfold Locals at h ⊢
  rw [hpc, h1, h2, hb]
  cases hs : s.pc with
  | taken =>
    rw [hs] at h
    exact ⟨h.1, hheld h.2⟩
  | write node =>
    rw [hs] at h
    exact ⟨h.1, hheld h.2.1, h.2.2⟩
  | _ =>
    rw [hs] at h
    exact h

/-- `s` with the fields that are no part of its shape, from `t`. -/
def State.withLog (s t : State) : State :=
  { s with out := t.out, running := t.running, appended := t.appended, round := t.round }

theorem Shape.congr (h : Shape s full w) (ht : t = s.withLog t) : Shape t full w := by
  rw [ht]
  exact ⟨h.head, h.tail, h.size, h.linked, h.spare, h.used, h.new1, h.new2, h.nodup, h.bound,
    h.small, h.locals.congr rfl rfl rfl rfl fun _ _ => rfl⟩

/-- The current buffer has no other role. -/
theorem Shape.curr_not_mem (h : Shape s full w) :
    s.currBuffer ∉ full ∧ s.currBuffer ∉ s.nextBuffer.toList ∧ s.currBuffer ∉ others s w := by
  have hn := h.nodup
  simp only [owned, List.nodup_append, List.nodup_cons, List.mem_append, List.mem_cons] at hn
  refine ⟨fun hf => hn.2.2 _ hf _ (Or.inl rfl) rfl, fun hf => hn.2.1.1 (Or.inl hf), fun hf => ?_⟩
  simp only [others, List.mem_append] at hf
  exact hn.2.1.1 (Or.inr hf)

theorem Shape.curr_mem (h : Shape s full w) : ∃ b, s.mem s.currBuffer = some b ∧ b.next = none := by
  obtain ⟨⟨b, hb, hn⟩, -⟩ := h.linked.right
  exact ⟨b, hb, hn⟩

/-- **A line that fits** is copied to the end of the current buffer. -/
theorem Shape.copy (h : Shape s full w) {b : Buffer} {line : Bytes}
    (hb : s.mem s.currBuffer = some b) (hfit : b.data.length + line.length < logBufferSize) :
    ∃ t, copyLine s line = .ok t ∧ t = s.withFront t ∧ t.appended = s.appended ∧
      Shape t full w ∧ (∀ p ∈ others s w, t.mem p = s.mem p) ∧
      t.bytes (full ++ [t.currBuffer]) = s.bytes (full ++ [s.currBuffer]) ++ line := by
  obtain ⟨hcf, hcn, hco⟩ := h.curr_not_mem
  have hne : ∀ p, p ≠ s.currBuffer →
      (store s s.currBuffer { b with data := b.data ++ line }).mem p = s.mem p :=
    fun p hp => Function.update_of_ne hp _ _
  have hkeep : ∀ l : List Ptr, s.currBuffer ∉ l → ∀ p ∈ l,
      (store s s.currBuffer { b with data := b.data ++ line }).mem p = s.mem p := by
    intro l hl p hp
    refine hne p ?_
    rintro rfl
    exact hl hp
  have hoth : ∀ p, p ∈ others s w → p ≠ s.currBuffer := by
    rintro p hp rfl
    exact hco hp
  refine ⟨store s s.currBuffer { b with data := b.data ++ line }, ?_, rfl, rfl, ?_,
    hkeep _ hco, ?_⟩
  · simp only [copyLine, load_of_mem hb, bind_ok]
    rw [if_neg (by omega)]
  · refine ⟨h.head, h.tail, h.size, h.linked.store hb rfl, fun p hp => ?_, h.used,
      fun p hp => ?_, fun p hp => ?_, h.nodup, h.bound, fun p b' hb' => ?_, ?_⟩
    · have hp' : s.nextBuffer = some p := hp
      exact (hkeep _ hcn p (by simp [hp'])).trans (h.spare p hp)
    · have hp' : s.newBuffer1 = some p := hp
      exact (hne p (hoth p (by simp [others, hp']))).trans (h.new1 p hp)
    · have hp' : s.newBuffer2 = some p := hp
      exact (hne p (hoth p (by simp [others, hp']))).trans (h.new2 p hp)
    · by_cases hpc : p = s.currBuffer
      · subst hpc
        have : b' = { b with data := b.data ++ line } := by
          simpa [store] using hb'.symm
        simpa [this] using hfit
      · exact h.small p b' ((hne p hpc).symm.trans hb')
    · exact h.locals.congr rfl rfl rfl rfl fun p hp => hkeep _ hco p (by simp [others, hp])
  · have hfull : contents Buffer.data (store s s.currBuffer { b with data := b.data ++ line }).mem
        full = contents Buffer.data s.mem full := contents_congr (hkeep _ hcf)
    simp only [State.bytes, contents_append, hfull]
    simp [contents, store, hb]

/-- **A full buffer is replaced**: it goes to the list, and the chain
goes on with the spare. -/
theorem Shape.advance (h : Shape s full w) :
    ∃ s' b' t, enqueue s = .ok s' ∧ load s' s'.buffers.tail = .ok b' ∧ b'.next = none ∧
      replaceCurr s' = .ok t ∧ t = s.withFront t ∧ t.appended = s.appended ∧
      Shape t (full ++ [s.currBuffer]) w ∧ (∀ p ∈ others s w, t.mem p = s.mem p) ∧
      t.mem t.currBuffer = some .zero ∧
      t.bytes (full ++ [s.currBuffer] ++ [t.currBuffer]) = s.bytes (full ++ [s.currBuffer]) := by
  obtain ⟨b, hb, hbn⟩ := h.curr_mem
  obtain ⟨n, fresh, hspare, hle, hlt, hnd⟩ := spare_spec h
  -- the roles are disjoint
  have hdis := hnd
  simp only [List.nodup_append, List.nodup_cons, List.mem_cons] at hdis
  obtain ⟨-, ⟨hcn, hno, -⟩, hfull⟩ := hdis
  have hcurr : s.currBuffer ≠ n := fun heq => hcn (Or.inl heq)
  have hnf : n ∉ full := fun hf => hfull n hf n (Or.inr (Or.inl rfl)) rfl
  have hcf : s.currBuffer ∉ full := h.curr_not_mem.1
  have hco : s.currBuffer ∉ others s w := h.curr_not_mem.2.2
  -- the memory: `n` cleared, and the current buffer linked to it
  let mem := Function.update (Function.update s.mem n (some .zero)) s.currBuffer
    (some { b with next := some n })
  have hmem : ∀ p, p ≠ n → p ≠ s.currBuffer → mem p = s.mem p := fun p hp hc => by
    simp [mem, hp, hc]
  have hmem' : ∀ l : List Ptr, n ∉ l → s.currBuffer ∉ l → ∀ p ∈ l, mem p = s.mem p := by
    intro l hl hc p hp
    refine hmem p ?_ ?_
    · rintro rfl
      exact hl hp
    · rintro rfl
      exact hc hp
  let t : State := { s with
    buffers := ⟨(full ++ [s.currBuffer]).head?, some s.currBuffer, full.length + 1⟩
    nextBuffer := none, mem := mem, fresh := fresh, currBuffer := n }
  have howned : owned t (full ++ [s.currBuffer]) w = full ++ s.currBuffer :: n :: others s w := by
    simp [owned, others, t]
  refine ⟨_, b, t, enqueue_spec h, load_of_mem hb, hbn, ?_, rfl, rfl, ?_,
    hmem' _ hno hco, ?_, ?_⟩
  · simp only [replaceCurr, hspare]
    rw [load_of_mem (b := b) (by simp [hcurr, hb])]
    rfl
  · refine ⟨rfl, by simp [t], by simp [t], ?_, by simp [t], by simp, fun p hp => ?_,
      fun p hp => ?_, howned ▸ hnd, fun p hp => ?_, fun p b' hb' => ?_, ?_⟩
    · have hlink : Linked Buffer.next (Function.update s.mem n (some .zero))
          (full ++ [s.currBuffer]) := by
        refine h.linked.congr fun p hp => Function.update_of_ne ?_ _ _
        rintro rfl
        rcases List.mem_append.mp hp with hp | hp
        · exact hnf hp
        · exact hcurr (List.mem_singleton.mp hp).symm
      have := hlink.splice (t := [n]) (c := { b with next := some n }) hcf
        ⟨⟨.zero, by simp, rfl⟩, trivial⟩ (by simpa using hcurr) rfl
      simpa [t] using this
    · exact (hmem' _ hno hco p (by simp [others, show s.newBuffer1 = some p from hp])).trans
        (h.new1 p hp)
    · exact (hmem' _ hno hco p (by simp [others, show s.newBuffer2 = some p from hp])).trans
        (h.new2 p hp)
    · rw [howned] at hp
      simp only [List.mem_append, List.mem_cons] at hp
      rcases hp with hp | rfl | rfl | hp
      · exact lt_of_lt_of_le (h.bound p (by simp [owned, hp])) hle
      · exact lt_of_lt_of_le (h.bound _ (by simp [owned])) hle
      · exact hlt
      · exact lt_of_lt_of_le (h.bound p (mem_owned_of_others hp)) hle
    · by_cases hpn : p = n
      · obtain rfl : b' = .zero := by simpa [t, mem, hpn, hcurr.symm] using hb'.symm
        simp [Buffer.zero, logBufferSize]
      · by_cases hpc : p = s.currBuffer
        · subst hpc
          obtain rfl : b' = { b with next := some n } := by simpa [t, mem] using hb'.symm
          exact h.small _ b hb
        · exact h.small p b' ((hmem p hpn hpc).symm.trans hb')
    · exact h.locals.congr rfl rfl rfl rfl fun p hp => hmem' _ hno hco p (by simp [others, hp])
  · simp [t, mem, hcurr.symm]
  · have hf : contents Buffer.data mem full = contents Buffer.data s.mem full :=
      contents_congr (hmem' _ hnf hcf)
    simp only [State.bytes, contents_append, t, hf]
    simp [contents, mem, hb, hcurr.symm, Buffer.zero]

/-- **`append` keeps the shape**, puts its line behind the pending bytes
and leaves the worker's buffers alone. -/
theorem append_spec (h : Shape s full w) {line : Bytes} (hl : line.length < logMax) :
    ∃ t full', append s line = .ok t ∧ t = s.withFront t ∧ Shape t full' w ∧
      (∀ p ∈ others s w, t.mem p = s.mem p) ∧ t.appended = s.appended ++ line ∧
      t.bytes (full' ++ [t.currBuffer]) = s.bytes (full ++ [s.currBuffer]) ++ line := by
  obtain ⟨b, hb, hbn⟩ := h.curr_mem
  by_cases hfit : b.data.length + line.length < logBufferSize
  · obtain ⟨t, ht, hf, ha, hs, hm, hbytes⟩ := h.copy hb hfit
    refine ⟨{ t with appended := t.appended ++ line }, full, ?_, ?_, ?_, hm, by rw [ha], hbytes⟩
    · simp only [append, load_of_mem hb, bind_ok, if_pos hfit, ht]
    · rw [hf]
      rfl
    · exact hs.congr rfl
  · obtain ⟨s₁, b₁, s₂, he, hload, hnext, hr, hf₂, ha₂, hs₂, hm₂, hz, hbytes₂⟩ := h.advance
    have hfit₂ : Buffer.zero.data.length + line.length < logBufferSize := by
      simp only [Buffer.zero, List.length_nil, logMax, logBufferSize] at hl ⊢
      omega
    obtain ⟨t, ht, hf, ha, hs, hm, hbytes⟩ := hs₂.copy hz hfit₂
    have hoth : others s₂ w = others s w := by rw [hf₂]; rfl
    refine ⟨{ t with appended := t.appended ++ line }, full ++ [s.currBuffer], ?_, ?_, ?_, ?_, ?_, ?_⟩
    · simp only [append, load_of_mem hb, bind_ok, if_neg hfit, he, hload, hnext, Option.isNone_none,
        assert_true, hr, ht]
    · rw [hf, hf₂]
      rfl
    · exact hs.congr rfl
    · exact fun p hp => (hm p (hoth ▸ hp)).trans (hm₂ p hp)
    · simp only [ha, ha₂]
    · exact hbytes.trans (by rw [hbytes₂])

/-! ## The worker -/

/-- **The loop that frees a chain** ends, and frees it. -/
theorem freeChain_spec {l : List Ptr} {n : ℕ} (h : Linked Buffer.next s.mem l) (hl : l.Nodup)
    (hn : l.length ≤ n) :
    ∃ mem, freeChain n s l.head? = .ok { s with mem := mem } ∧ (∀ p, p ∉ l → mem p = s.mem p) ∧
      ∀ p ∈ l, mem p = none := by
  induction l generalizing n s with
  | nil => exact ⟨s.mem, by cases n <;> rfl, fun _ _ => rfl, by simp⟩
  | cons q l ih =>
    obtain ⟨⟨b, hb, hbn⟩, ht⟩ := h
    obtain ⟨hq, hl⟩ := List.nodup_cons.mp hl
    cases n with
    | zero => simp at hn
    | succ n =>
      have ht' : Linked Buffer.next (Function.update s.mem q none) l := by
        refine ht.congr fun p hp => Function.update_of_ne ?_ _ _
        rintro rfl
        exact hq hp
      obtain ⟨mem, hfree, hmem, hfreed⟩ :=
        ih (s := { s with mem := Function.update s.mem q none }) ht' hl (by simpa using hn)
      refine ⟨mem, ?_, fun p hp => ?_, fun p hp => ?_⟩
      · simp only [List.head?_cons, freeChain, load_of_mem hb, bind_ok, hbn]
        exact hfree
      · obtain ⟨hpq, hpl⟩ : p ≠ q ∧ p ∉ l := by simpa using hp
        exact (hmem p hpl).trans (Function.update_of_ne hpq _ _)
      · rcases List.mem_cons.mp hp with rfl | hp
        · exact (hmem p hq).trans (Function.update_self _ _ _)
        · exact hfreed p hp

/-- **`take` hands the chain over**: what was pending is what the worker
holds, and the pending part is empty. -/
theorem take_spec (h : Shape s full w) (h1 : s.newBuffer1.isSome) (h2 : s.newBuffer2.isSome)
    (hw : w = []) :
    Shape (take s) [] (full ++ [s.currBuffer]) ∧ (take s).mem = s.mem ∧
      (take s).bytes ([] ++ [(take s).currBuffer]) = [] := by
  subst hw
  obtain ⟨a, ha⟩ := Option.isSome_iff_exists.mp h1
  obtain ⟨b, hb⟩ := Option.isSome_iff_exists.mp h2
  have hza := h.new1 a ha
  have hlinked : Linked Buffer.next s.mem [a] := ⟨⟨.zero, hza, rfl⟩, trivial⟩
  have hhead : some (s.buffers.head.getD s.currBuffer) = (full ++ [s.currBuffer]).head? := by
    rw [h.head]
    cases full <;> simp
  have hbytes : contents Buffer.data s.mem ([] ++ [a]) = [] := by
    simp [contents, hza, Buffer.zero]
  unfold take
  cases hn : s.nextBuffer with
  | some n =>
    have hperm : (a :: n :: b :: (full ++ [s.currBuffer])).Perm (owned s full []) := by
      refine List.perm_iff_count.mpr fun x => ?_
      simp only [owned, hn, ha, hb, Option.toList_some, List.count_append, List.count_cons,
        List.count_nil]
      omega
    refine ⟨⟨rfl, rfl, rfl, by simpa [ha] using hlinked, ?_, ?_, ?_, ?_, ?_, ?_, ?_, ?_⟩, rfl,
      by simpa [ha] using hbytes⟩
    · exact fun p hp => h.spare p (hn.trans (by simpa [hn] using hp))
    · simp
    · simp
    · exact h.new2
    · simpa [owned, hn, ha, hb] using hperm.nodup_iff.mpr h.nodup
    · intro p hp
      exact h.bound p (hperm.mem_iff.mp (by simpa [owned, hn, ha, hb] using hp))
    · exact h.small
    · exact ⟨rfl, hhead, by simp [h.size], h.linked, by simp, by simp [hb]⟩
  | none =>
    -- the spare was used, so the list is not empty
    have hfull : 0 < full.length := List.length_pos_of_ne_nil (h.used hn)
    have hperm : (a :: b :: (full ++ [s.currBuffer])).Perm (owned s full []) := by
      refine List.perm_iff_count.mpr fun x => ?_
      simp only [owned, hn, ha, hb, Option.toList_some, Option.toList_none, List.count_append,
        List.count_cons, List.count_nil]
      omega
    refine ⟨⟨rfl, rfl, rfl, by simpa [ha] using hlinked, ?_, ?_, ?_, ?_, ?_, ?_, ?_, ?_⟩, rfl,
      by simpa [ha] using hbytes⟩
    · exact h.new2
    · simp [hb]
    · simp
    · simp
    · simpa [owned, ha, hb] using hperm.nodup_iff.mpr h.nodup
    · intro p hp
      exact h.bound p (hperm.mem_iff.mp (by simpa [owned, ha, hb] using hp))
    · exact h.small
    · refine ⟨rfl, hhead, by simp [h.size], h.linked, by simp, fun _ => ?_⟩
      simp only [List.length_append, List.length_singleton]
      omega

/-- The buffers of the worker have no other role. -/
theorem Shape.not_mem_of_worker (h : Shape s full w) {p : Ptr} (hp : p ∈ w) :
    p ∉ full ++ [s.currBuffer] ∧ s.nextBuffer ≠ some p ∧ s.newBuffer1 ≠ some p ∧
      s.newBuffer2 ≠ some p := by
  have hn := List.nodup_iff_count_le_one.mp h.nodup p
  have hw := List.one_le_count_iff.mpr hp
  simp only [owned, List.count_append, List.count_cons] at hn
  refine ⟨fun hf => ?_, fun hf => ?_, fun hf => ?_, fun hf => ?_⟩
  · have := List.one_le_count_iff.mpr hf
    simp only [List.count_append, List.count_cons, List.count_nil] at this
    omega
  · simp [hf] at hn
    omega
  · simp [hf] at hn
    omega
  · simp [hf] at hn
    omega

/-- **A change to the worker's own buffers** keeps the shape of the
front: the new roles are among the old ones, and only cells of `w` are
written. -/
theorem Shape.rework {w' : List Ptr} (h : Shape s full w) (hb : t.buffers = s.buffers)
    (hc : t.currBuffer = s.currBuffer) (hn : t.nextBuffer = s.nextBuffer)
    (hf : t.fresh = s.fresh) (hmem : ∀ p, p ∉ w → t.mem p = s.mem p)
    (hcount : ∀ p, (others t w').count p ≤ (others s w).count p)
    (h1 : ∀ p, t.newBuffer1 = some p → t.mem p = some .zero)
    (h2 : ∀ p, t.newBuffer2 = some p → t.mem p = some .zero)
    (hsmall : ∀ p ∈ w, ∀ b, t.mem p = some b → b.data.length < logBufferSize)
    (hloc : Locals t w') : Shape t full w' := by
  have howned : ∀ p, (owned t full w').count p ≤ (owned s full w).count p := by
    intro p
    have := hcount p
    simp only [others, List.count_append] at this
    simp only [owned, List.count_append, List.count_cons, hc, hn]
    omega
  have hmem_owned : ∀ p, p ∈ owned t full w' → p ∈ owned s full w := by
    intro p hp
    exact List.one_le_count_iff.mp (le_trans (List.one_le_count_iff.mpr hp) (howned p))
  have hchain : ∀ p ∈ full ++ [s.currBuffer], t.mem p = s.mem p := fun p hp =>
    hmem p fun hw => (h.not_mem_of_worker hw).1 hp
  refine ⟨hb ▸ h.head, hb ▸ h.tail, hb ▸ h.size, hc ▸ h.linked.congr hchain, fun p hp => ?_,
    hn ▸ h.used, h1, h2, ?_, fun p hp => ?_, fun p b hpb => ?_, hloc⟩
  · rw [hn] at hp
    rw [hmem p fun hw => (h.not_mem_of_worker hw).2.1 hp]
    exact h.spare p hp
  · refine List.nodup_iff_count_le_one.mpr fun p => ?_
    exact le_trans (howned p) (List.nodup_iff_count_le_one.mp h.nodup p)
  · rw [hf]
    exact h.bound p (hmem_owned p hp)
  · by_cases hw : p ∈ w
    · exact hsmall p hw b hpb
    · exact h.small p b (hmem p hw ▸ hpb)

/-- The output and the flags are left as they are. -/
structure SameLog (s t : State) : Prop where
  out : t.out = s.out
  running : t.running = s.running
  round : t.round = s.round

theorem notice_length (timebuf : Bytes) (n : ℕ) : (notice timebuf n).length < logMax := by
  have : (notice timebuf n).length ≤ 255 := by
    unfold notice
    exact List.length_take_le _ _
  simp only [logMax]
  omega

/-- **More than `25` buffers**: one notice is appended, and of the chain
the first two are left, as they were. -/
theorem dropExcess_spec (h : Shape s full w) (hpc : s.pc = .taken) (hlen : 25 < w.length) :
    ∃ t full', dropExcess c s = .ok t ∧
      Shape { t with pc := .write t.buffersToWrite.head } full' (w.take 2) ∧
      t.buffersToWrite.head = (w.take 2).head? ∧ t.bytes (w.take 2) = s.bytes (w.take 2) ∧
      t.appended = s.appended ++ notice c.timebuf (w.length - 2) ∧
      t.bytes (full' ++ [t.currBuffer]) =
        s.bytes (full ++ [s.currBuffer]) ++ notice c.timebuf (w.length - 2) ∧
      SameLog s t := by
  obtain ⟨h1, hheld⟩ : s.newBuffer1 = none ∧ Held s w := by
    have := h.locals
    rwa [Locals, hpc] at this
  match w, hlen with
  | p :: q :: rest, _ =>
    obtain ⟨t₁, full', happ, hfr, hs₁, hm₁, ha₁, hb₁⟩ :=
      append_spec h (notice_length c.timebuf (s.buffersToWrite.size - 2))
    have hh : t₁.buffersToWrite.head = some p := by rw [hfr]; exact hheld.head
    have hn1 : t₁.newBuffer1 = none := by rw [hfr]; exact h1
    have hmw : ∀ x ∈ p :: q :: rest, t₁.mem x = s.mem x := fun x hx =>
      hm₁ x (by simp only [others, List.mem_append]; exact Or.inr (Or.inr hx))
    have hlink := hheld.linked.congr hmw
    obtain ⟨⟨bp, hbp, hpn⟩, ⟨bq, hbq, hqn⟩, hrest⟩ := hlink
    -- no buffer is held twice, so the two that stay are none of those freed
    have hnd : (p :: q :: rest).Nodup := by
      refine List.nodup_iff_count_le_one.mpr fun x => ?_
      have := List.nodup_iff_count_le_one.mp h.nodup x
      simp only [owned, List.count_append, List.count_cons] at this ⊢
      omega
    obtain ⟨hp, hq, hrnd⟩ : (p ≠ q ∧ p ∉ rest) ∧ q ∉ rest ∧ rest.Nodup := by
      simpa using hnd
    -- the chain is no longer than the memory, which is the fuel of `freeChain`
    have hbound : rest.length ≤ t₁.fresh := by
      refine length_le_of_nodup hrnd fun x hx => hs₁.bound x (mem_owned_of_others ?_)
      simp only [others, List.mem_append, List.mem_cons]
      exact Or.inr (Or.inr (Or.inr (Or.inr hx)))
    obtain ⟨mem, hfree, hmem, hfreed⟩ := freeChain_spec hrest hrnd hbound
    have hmem' : ∀ x, x ∉ p :: q :: rest →
        Function.update mem q (some { bq with next := none }) x = t₁.mem x := by
      intro x hx
      obtain ⟨-, hxq, hxr⟩ : x ≠ p ∧ x ≠ q ∧ x ∉ rest := by simpa using hx
      rw [Function.update_of_ne hxq, hmem x hxr]
    have hmp : Function.update mem q (some { bq with next := none }) p = some bp := by
      rw [Function.update_of_ne hp.1, hmem p hp.2, hbp]
    have hsz : s.buffersToWrite.size = (p :: q :: rest).length := hheld.size
    refine ⟨{ t₁ with
        mem := Function.update mem q (some { bq with next := none })
        buffersToWrite := ⟨some p, some q, 2⟩ }, full', ?_, ?_, rfl, ?_, ?_, ?_, ?_⟩
    · simp only [dropExcess, happ, bind_ok, hh, List.head?_cons, load_of_mem hbp, hpn,
        load_of_mem hbq, hqn, hfree, Option.getD_some, store]
    · refine hs₁.rework rfl rfl rfl rfl hmem' (fun x => ?_) ?_ ?_ ?_ ?_
      · simp only [others, List.count_append, List.count_cons, List.take, List.count_nil]
        omega
      · intro x hx
        have hx : t₁.newBuffer1 = some x := hx
        rw [hn1] at hx
        cases hx
      · exact fun x hx => (hmem' x fun hxw => (hs₁.not_mem_of_worker hxw).2.2.2 hx).trans
          (hs₁.new2 x hx)
      · intro x hx b hb
        have hb : Function.update mem q (some { bq with next := none }) x = some b := hb
        have hold := hs₁.small x
        by_cases hxq : x = q
        · subst hxq
          obtain rfl : b = { bq with next := none } := by simpa using hb.symm
          exact hold bq hbq
        · rw [Function.update_of_ne hxq] at hb
          by_cases hxr : x ∈ rest
          · rw [hfreed x hxr] at hb
            cases hb
          · exact hold b (hmem x hxr ▸ hb)
      · refine ⟨hn1, ⟨rfl, rfl, ?_, by simp, fun _ => by simp⟩, [], [p, q], rfl, rfl⟩
        exact ⟨⟨bp, hmp, hpn⟩, ⟨_, Function.update_self _ _ _, rfl⟩, trivial⟩
    · simp only [State.bytes, List.take]
      rw [contents_cons hmp, contents_cons (Function.update_self _ _ _),
        contents_cons ((hmw p (by simp)).symm.trans hbp),
        contents_cons ((hmw q (by simp)).symm.trans hbq)]
      rfl
    · rw [ha₁, hsz]
    · rw [hsz] at hb₁
      rw [← hb₁]
      refine contents_congr fun x hx => hmem' x fun hxw => (hs₁.not_mem_of_worker hxw).1 hx
    · rw [hfr]
      exact ⟨rfl, rfl, rfl⟩

/-- A pop of the chain the worker holds. -/
theorem recycle_spec {p : Ptr} {l : List Ptr} (hhead : s.buffersToWrite.head = some p)
    (hsize : s.buffersToWrite.size = l.length + 1) (hl : Linked Buffer.next s.mem (p :: l)) :
    recycle s = .ok ({ s with
      mem := Function.update s.mem p (some .zero)
      buffersToWrite := ⟨l.head?, s.buffersToWrite.tail, l.length⟩ }, p) := by
  obtain ⟨⟨b, hb, hn⟩, -⟩ := hl
  simp [recycle, hhead, hsize, load_of_mem hb, hn, store]

/-- With both spares `a` and `b` cleared, the rest `l` of the chain is
freed, and the iteration is over. -/
theorem refill_end {m : Ptr → Option Buffer} {a b : Ptr} {l : List Ptr} {k : BufferList}
    (h : Shape s full w) (hmem : ∀ x, x ∉ w → m x = s.mem x) (ha : m a = some .zero)
    (hb : m b = some .zero) (hl : Linked Buffer.next m l) (hal : a ∉ l) (hbl : b ∉ l)
    (hcount : ∀ x, List.count x (a :: b :: l) ≤ (others s w).count x) (hlw : l ⊆ w)
    (hsmall : ∀ x ∈ w, ∀ c, m x = some c → c.data.length < logBufferSize) :
    ∃ mem', freeChain s.fresh { s with
          mem := m, newBuffer1 := some a, newBuffer2 := some b, buffersToWrite := k } l.head? =
        .ok { s with
          mem := mem', newBuffer1 := some a, newBuffer2 := some b, buffersToWrite := k } ∧
      (∀ x, x ∉ w → mem' x = s.mem x) ∧
      Shape { s with
        mem := mem', newBuffer1 := some a, newBuffer2 := some b, buffersToWrite := .empty
        pc := .test } full [] := by
  have hnd : l.Nodup := by
    refine List.nodup_iff_count_le_one.mpr fun x => ?_
    have hx := List.nodup_iff_count_le_one.mp h.nodup x
    have hc := hcount x
    simp only [owned, others, List.count_append, List.count_cons] at hx hc
    omega
  have hlen : l.length ≤ s.fresh := by
    refine length_le_of_nodup hnd fun x hx => h.bound x (mem_owned_of_others ?_)
    simp only [others, List.mem_append]
    exact Or.inr (Or.inr (hlw hx))
  obtain ⟨mem', hfree, hkeep, hfreed⟩ := freeChain_spec (s := { s with
    mem := m, newBuffer1 := some a, newBuffer2 := some b, buffersToWrite := k }) hl hnd hlen
  have hout : ∀ x, x ∉ w → mem' x = s.mem x := fun x hx =>
    (hkeep x fun hxl => hx (hlw hxl)).trans (hmem x hx)
  refine ⟨mem', hfree, hout, h.rework rfl rfl rfl rfl hout (fun x => ?_) (fun x hx => ?_)
    (fun x hx => ?_) (fun x hx c hc => ?_) ⟨rfl, rfl, rfl, rfl⟩⟩
  · have := hcount x
    simp only [others, Option.toList_some, List.count_append, List.count_cons, List.count_nil] at *
    omega
  · obtain rfl : a = x := Option.some.inj hx
    exact (hkeep a hal).trans ha
  · obtain rfl : b = x := Option.some.inj hx
    exact (hkeep b hbl).trans hb
  · have hc : mem' x = some c := hc
    by_cases hxl : x ∈ l
    · rw [hfreed x hxl] at hc
      cases hc
    · exact hsmall x hx c ((hkeep x hxl).symm.trans hc)

/-- **The end of an iteration** keeps the shape: the worker has both its
spares again, empty, and holds nothing else. -/
theorem refill_spec (h : Shape s full w) (h1 : s.newBuffer1 = none) (hheld : Held s w) :
    ∃ t, refill s = .ok t ∧ Shape t full [] ∧ t.pc = .test ∧ t.currBuffer = s.currBuffer ∧
      (∀ p, p ∉ w → t.mem p = s.mem p) ∧ SameLog s t ∧ t.appended = s.appended := by
  have hnd : w.Nodup := by
    refine List.nodup_iff_count_le_one.mpr fun x => ?_
    have := List.nodup_iff_count_le_one.mp h.nodup x
    simp only [owned, List.count_append, List.count_cons] at this ⊢
    omega
  have hzero : Buffer.zero.data.length < logBufferSize := by simp [Buffer.zero, logBufferSize]
  cases h2 : s.newBuffer2 with
  | some q =>
    -- one pop, for the buffer that went to the front
    obtain ⟨p, l, rfl⟩ := List.exists_cons_of_length_pos hheld.pos
    obtain ⟨hpl, hlnd⟩ := List.nodup_cons.mp hnd
    have hq : q ∉ p :: l := fun hq => (h.not_mem_of_worker hq).2.2.2 h2
    obtain ⟨hqp, hql⟩ : q ≠ p ∧ q ∉ l := by simpa using hq
    have hlink : Linked Buffer.next (Function.update s.mem p (some .zero)) l := by
      refine hheld.linked.2.congr fun x hx => Function.update_of_ne ?_ _ _
      rintro rfl
      exact hpl hx
    obtain ⟨mem', hfree, hout, hs⟩ := refill_end (a := p) (b := q)
      (m := Function.update s.mem p (some .zero))
      (k := ⟨l.head?, s.buffersToWrite.tail, l.length⟩) h
      (fun x hx => Function.update_of_ne (by rintro rfl; simp at hx) _ _)
      (Function.update_self _ _ _) ((Function.update_of_ne hqp _ _).trans (h.new2 q h2)) hlink hpl hql
      (fun x => by
        simp only [others, h1, h2, Option.toList_none, Option.toList_some, List.count_append,
          List.count_cons, List.count_nil]
        omega)
      (List.subset_cons_self p l)
      (fun x hx c hc => by
        by_cases hxp : x = p
        · obtain rfl : c = .zero := by simpa [hxp] using hc.symm
          exact hzero
        · exact h.small x c (by rwa [Function.update_of_ne hxp] at hc))
    refine ⟨_, ?_, hs, rfl, rfl, hout, ⟨rfl, rfl, rfl⟩, rfl⟩
    simp only [refill, h1, h2, recycle_spec hheld.head hheld.size hheld.linked, bind_ok] at hfree ⊢
    rw [hfree]
    rfl
  | none =>
    -- two pops: the spare went to the front too, so two buffers are there
    match w, hheld.two h2 with
    | p :: r :: l, _ =>
      obtain ⟨⟨hpr, hpl⟩, hrl, -⟩ : (p ≠ r ∧ p ∉ l) ∧ r ∉ l ∧ l.Nodup := by simpa using hnd
      have hlink1 : Linked Buffer.next (Function.update s.mem p (some .zero)) (r :: l) := by
        refine hheld.linked.2.congr fun x hx => Function.update_of_ne ?_ _ _
        rintro rfl
        rcases List.mem_cons.mp hx with hx | hx
        · exact hpr hx
        · exact hpl hx
      let mem := Function.update (Function.update s.mem p (some .zero)) r (some .zero)
      have hlink2 : Linked Buffer.next mem l := by
        refine hlink1.2.congr fun x hx => Function.update_of_ne ?_ _ _
        rintro rfl
        exact hrl hx
      obtain ⟨mem', hfree, hout, hs⟩ := refill_end (a := p) (b := r) (m := mem)
        (k := ⟨l.head?, s.buffersToWrite.tail, l.length⟩) h
        (fun x hx => by
          obtain ⟨hxp, hxr, -⟩ : x ≠ p ∧ x ≠ r ∧ x ∉ l := by simpa using hx
          simp [mem, hxp, hxr])
        (by simp [mem, hpr]) (by simp [mem]) hlink2 hpl hrl
        (fun x => by
          simp only [others, h1, h2, Option.toList_none, List.count_append, List.count_cons,
            List.count_nil]
          omega)
        (fun x hx => by simp [hx])
        (fun x hx c hc => by
          by_cases hxr : x = r
          · obtain rfl : c = .zero := by simpa [mem, hxr] using hc.symm
            exact hzero
          · by_cases hxp : x = p
            · obtain rfl : c = .zero := by simpa [mem, hxr, hxp, hpr] using hc.symm
              exact hzero
            · exact h.small x c (by simpa [mem, hxr, hxp] using hc))
      have hrec := recycle_spec (s := { s with
        mem := Function.update s.mem p (some .zero)
        buffersToWrite := ⟨some r, s.buffersToWrite.tail, l.length + 1⟩
        newBuffer1 := some p }) (p := r) (l := l) rfl rfl hlink1
      refine ⟨_, ?_, hs, rfl, rfl, hout, ⟨rfl, rfl, rfl⟩, rfl⟩
      simp only [refill, h1, h2, recycle_spec hheld.head hheld.size hheld.linked, bind_ok,
        List.head?_cons, List.length_cons] at hrec hfree ⊢
      rw [hrec]
      simp only [bind_ok]
      rw [hfree]
      rfl

end Log

end Athena
