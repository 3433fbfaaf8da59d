import Athena.Common.Tally
import Athena.Skynet.Mq
import Mathlib.Algebra.BigOperators.Fin
import Mathlib.Algebra.Order.BigOperators.Group.Finset
/-!
# Services and their message queues — every message once, by one worker at a time

A queue that is awake, which has its flag or is marked for release, is at one
place: on the global queue or with one thread (`Tokens`). A context lives as long
as it is counted, by the handle it is under and by the threads that have grabbed
it (`Counted`), and its queue lives longer. So no thread reads what is freed and
no `assert` fails (`Sound.step`).
-/

namespace Athena

namespace Skynet

variable {T : Type} {s t : State T} {l : List Ptr} {p q c : Ptr} {mq : MessageQueue} {m : Message}
  {x : Context} {a b : T} {pc z : Pc} {k : Next}

/-! ## The global queue -/

/-- **The global queue is a list**, and a queue that is not on it points nowhere. -/
structure Listed (head tail : Option Ptr) (next : Ptr → Option Ptr) (l : List Ptr) : Prop where
  linked : Linked id (fun p => some (next p)) l
  head : head = l.head?
  tail : tail = l.getLast?
  nodup : l.Nodup
  alone : ∀ q, q ∉ l → next q = none

theorem some_update {next : Ptr → Option Ptr} {v : Option Ptr} :
    (fun r => some (Function.update next p v r)) = Function.update (fun r => some (next r)) p (some v) := by
  funext r
  by_cases h : r = p
  · subst h
    simp
  · simp [h]

theorem queue_ok (h : s.queues q = some mq) : s.queue q = .ok mq := by simp [State.queue, h]

theorem context_ok (h : s.contexts c = some x) : s.context c = .ok x := by simp [State.context, h]

@[simp] theorem assert_true : assert true = .ok () := rfl

@[simp] theorem bind_ok {ε α β : Type} (v : α) (f : α → Except ε β) : (Except.ok v >>= f) = f v := rfl

/-- **`skynet_globalmq_push`** adds at the end. -/
theorem globalmq_push_spec (h : Listed s.head s.tail s.next l) (hq : (s.queues q).isSome) (hnot : q ∉ l)
    (halive : ∀ p ∈ l, (s.queues p).isSome) :
    ∃ head tail next, globalmq_push s q = .ok { s with head := head, tail := tail, next := next } ∧
      Listed head tail next (l ++ [q]) := by
  obtain ⟨mq, hmq⟩ := Option.isSome_iff_exists.mp hq
  unfold globalmq_push
  simp only [queue_ok hmq, bind_ok, h.alone q hnot, Option.isNone_none, assert_true]
  rcases l.eq_nil_or_concat with rfl | ⟨l', p, rfl⟩
  · rw [h.tail]
    refine ⟨_, _, s.next, rfl, ?_⟩
    exact ⟨⟨⟨_, rfl, h.alone q hnot⟩, trivial⟩, rfl, rfl, List.nodup_singleton q,
      fun r hr => h.alone r List.not_mem_nil⟩
  · rw [List.concat_eq_append] at h hnot halive ⊢
    obtain ⟨mp, hmp⟩ := Option.isSome_iff_exists.mp (halive p (by simp))
    have hlast : s.tail = some p := by rw [h.tail, List.getLast?_concat]
    rw [hlast]
    simp only [queue_ok hmp, bind_ok]
    refine ⟨_, _, _, rfl, ?_⟩
    have hqp : q ≠ p := fun heq => hnot (by simp [heq])
    have hpl : p ∉ l' := fun hmem => (List.nodup_append.mp h.nodup).2.2 p hmem p (by simp) rfl
    refine ⟨?_, ?_, ?_, ?_, ?_⟩
    · rw [some_update, List.append_assoc]
      exact h.linked.splice hpl ⟨⟨_, rfl, h.alone q hnot⟩, trivial⟩ (by simpa using hqp.symm) rfl
    · rw [h.head]
      cases l' <;> rfl
    · simp
    · exact List.nodup_append.mpr ⟨h.nodup, List.nodup_singleton q, fun r hr r' hr' heq => hnot (by
        rw [← List.mem_singleton.mp hr', ← heq]
        exact hr)⟩
    · intro r hr
      have hrp : r ≠ p := fun heq => hr (by simp [heq])
      rw [Function.update_of_ne hrp]
      exact h.alone r fun hmem => hr (List.mem_append_left _ hmem)

/-- **`skynet_globalmq_pop`** takes from the front. -/
theorem globalmq_pop_spec (h : Listed s.head s.tail s.next l) (halive : ∀ p ∈ l, (s.queues p).isSome) :
    (l = [] ∧ globalmq_pop s = .ok (none, s)) ∨ ∃ q l' head tail next, l = q :: l' ∧
      globalmq_pop s = .ok (some q, { s with head := head, tail := tail, next := next }) ∧
        Listed head tail next l' := by
  unfold globalmq_pop
  cases l with
  | nil => exact .inl ⟨rfl, by rw [h.head]; rfl⟩
  | cons q l =>
    obtain ⟨mq, hmq⟩ := Option.isSome_iff_exists.mp (halive q List.mem_cons_self)
    obtain ⟨⟨v, hv, hv'⟩, hlinked⟩ := h.linked
    have hnext : s.next q = l.head? := (Option.some.inj hv).trans hv'
    obtain ⟨hnot, hnodup⟩ := List.nodup_cons.mp h.nodup
    have hlinked' : Linked id (fun p => some (Function.update s.next q none p)) l := by
      rw [some_update]
      refine hlinked.congr fun p hp => Function.update_of_ne (fun heq => hnot ?_) _ _
      rw [← heq]
      exact hp
    have halone : ∀ p, p ∉ l → Function.update s.next q none p = none := fun p hp => by
      by_cases hpq : p = q
      · rw [hpq, Function.update_self]
      · rw [Function.update_of_ne hpq]
        exact h.alone p (by simp [hpq, hp])
    rw [h.head]
    simp only [List.head?_cons, queue_ok hmq, bind_ok]
    cases hcase : l with
    | nil =>
      subst hcase
      have htail : s.tail = some q := h.tail
      rw [hnext]
      simp only [List.head?_nil, htail, decide_true, assert_true, bind_ok]
      exact .inr ⟨q, [], _, _, _, rfl, rfl, hlinked', rfl, rfl, hnodup, halone⟩
    | cons r l' =>
      subst hcase
      rw [hnext]
      refine .inr ⟨q, r :: l', _, _, _, rfl, rfl, hlinked', rfl, ?_, hnodup, halone⟩
      rw [h.tail]
      rfl

/-! ## What the threads have -/

def Next.queues : Next → List Ptr
  | .idle => []
  | .held q => [q]
  | .launch q => [q]
  | .fail q _ => [q]
  | .orphan q => [q]

/-- **The queues a thread has**: nobody else works on them. -/
def Pc.queues : Pc → List Ptr
  | .idle => []
  | .held q => [q]
  | .orphan q => [q]
  | .dropping q => [q]
  | .granted q _ _ _ => [q]
  | .popped q _ _ _ => [q]
  | .handling q _ _ _ => [q]
  | .spent q _ => [q]
  | .swapping q _ nq => [q, nq]
  | .pushing _ _ => []
  | .releasing _ k => k.queues
  | .marking _ k => k.queues
  | .initing _ q => [q]
  | .launching _ q => [q]
  | .enqueuing q _ => [q]
  | .logging _ => []
  | .retiring q _ => [q]

/-- The contexts a thread has a reference of. -/
def Pc.refs : Pc → List Ptr
  | .granted _ c _ _ => [c]
  | .popped _ c _ _ => [c]
  | .handling _ c _ _ => [c]
  | .spent _ c => [c]
  | .swapping _ c _ => [c]
  | .pushing c _ => [c]
  | .releasing c _ => [c]
  | .initing c _ => [c]
  | _ => []

/-- The context a thread is to delete. -/
def Pc.marks : Pc → List Ptr
  | .marking c _ => [c]
  | _ => []

def Next.creates : Next → Option Ptr
  | .launch q => some q
  | .fail q _ => some q
  | _ => none

/-- The service a thread is about to start. -/
def Pc.creates : Pc → Option Ptr
  | .releasing _ k => k.creates
  | .marking _ k => k.creates
  | .initing _ q => some q
  | .launching _ q => some q
  | .retiring q _ => some q
  | _ => none

theorem mem_queues_of_creates (h : pc.creates = some q) : q ∈ pc.queues := by
  have hnext : ∀ k : Next, k.creates = some q → q ∈ k.queues := by
    intro k hk
    cases k <;> simp_all [Next.creates, Next.queues]
  cases pc <;> simp_all [Pc.creates, Pc.queues]

/-- **What all threads have** of something. -/
def tot [Fintype T] (f : Pc → List Ptr) (pc : T → Pc) (p : Ptr) : ℕ := ∑ t, (f (pc t)).count p

section

variable [Fintype T] {f : Pc → List Ptr}

theorem tot_update [DecidableEq T] (f : Pc → List Ptr) (g : T → Pc) (p : Ptr) (a : T) (pc : Pc) :
    tot f (Function.update g a pc) p + (f (g a)).count p = tot f g p + (f pc).count p :=
  sum_update (f := fun pc => (f pc).count p)

theorem count_le_tot (f : Pc → List Ptr) (g : T → Pc) (p : Ptr) (a : T) : (f (g a)).count p ≤ tot f g p :=
  Finset.single_le_sum (f := fun t => (f (g t)).count p) (fun _ _ => Nat.zero_le _) (Finset.mem_univ a)

theorem count_add_le_tot (f : Pc → List Ptr) (g : T → Pc) (p : Ptr) (hab : a ≠ b) :
    (f (g a)).count p + (f (g b)).count p ≤ tot f g p := by
  classical
  rw [tot, ← Finset.add_sum_erase Finset.univ _ (Finset.mem_univ a)]
  exact Nat.add_le_add_left (Finset.single_le_sum (f := fun t => (f (g t)).count p) (fun _ _ => Nat.zero_le _)
    (Finset.mem_erase.mpr ⟨hab.symm, Finset.mem_univ b⟩)) _

end

/-! ## What there is of a queue -/

/-- Its handle, and whether it is marked. -/
def State.face (s : State T) (q : Ptr) : Option (ℕ × Bool) :=
  (s.queues q).map fun mq => (mq.handle, mq.release)

/-- It is in use, or marked for release. -/
def State.awake (s : State T) (q : Ptr) : Bool := (s.queues q).any fun mq => mq.inGlobal || mq.release

def State.contents (s : State T) (q : Ptr) : List Message :=
  (s.queues q).elim [] fun mq => mq.ring.toList

theorem face_setqueue : (s.setqueue q mq).face = Function.update s.face q (some (mq.handle, mq.release)) := by
  funext p
  by_cases h : p = q
  · subst h
    simp [State.face, State.setqueue]
  · simp [State.face, State.setqueue, h]

theorem awake_setqueue : (s.setqueue q mq).awake = Function.update s.awake q (mq.inGlobal || mq.release) := by
  funext p
  by_cases h : p = q
  · subst h
    simp [State.awake, State.setqueue]
  · simp [State.awake, State.setqueue, h]

theorem contents_setqueue : (s.setqueue q mq).contents = Function.update s.contents q mq.ring.toList := by
  funext p
  by_cases h : p = q
  · subst h
    simp [State.contents, State.setqueue]
  · simp [State.contents, State.setqueue, h]

theorem face_eq (h : s.queues q = some mq) : s.face q = some (mq.handle, mq.release) := by simp [State.face, h]

theorem awake_eq (h : s.queues q = some mq) : s.awake q = (mq.inGlobal || mq.release) := by
  simp [State.awake, h]

theorem contents_eq (h : s.queues q = some mq) : s.contents q = mq.ring.toList := by simp [State.contents, h]

theorem face_eq_none : s.face q = none ↔ s.queues q = none := by simp [State.face]

/-- What a thread relies on. -/
def Fine (s : State T) : Pc → Prop
  | .granted q c _ _ => q = c ∧ ∃ x, s.contexts c = some x ∧ x.init = true
  | .popped q c _ _ => q = c ∧ ∃ x, s.contexts c = some x ∧ x.init = true
  | .handling q c _ _ => q = c ∧ ∃ x, s.contexts c = some x ∧ x.init = true
  | .spent q c => q = c ∧ ∃ x, s.contexts c = some x ∧ x.init = true
  | .swapping q c _ => q = c ∧ ∃ x, s.contexts c = some x ∧ x.init = true
  | .releasing c (.launch q) => q = c
  | .marking c (.launch q) => q = c
  | .releasing _ (.fail q h) => ∃ r, s.face q = some (h, r)
  | .marking _ (.fail q h) => ∃ r, s.face q = some (h, r)
  | .retiring q h => ∃ r, s.face q = some (h, r)
  | .initing c q => q = c
  | .launching c q => q = c ∧ ∃ x, s.contexts c = some x ∧ s.slot x.handle = some c
  | .dropping q => ∃ h, s.face q = some (h, true)
  | _ => True

variable {s' : State T}

theorem Fine.mono (h : Fine s pc)
    (hctx : ∀ c x, c ∈ pc.refs → s.contexts c = some x → x.init = true →
      ∃ x', s'.contexts c = some x' ∧ x'.init = true)
    (hface : ∀ q v r, q ∈ pc.queues → s.face q = some (v, r) →
      ∃ r', s'.face q = some (v, r') ∧ (r = true → r' = true))
    (hlaunch : ∀ c x, pc = .launching c c → s.contexts c = some x → s.slot x.handle = some c →
      ∃ x', s'.contexts c = some x' ∧ s'.slot x'.handle = some c) : Fine s' pc := by
  have hrun : ∀ q c : Ptr, c ∈ pc.refs → (q = c ∧ ∃ x, s.contexts c = some x ∧ x.init = true) →
      q = c ∧ ∃ x, s'.contexts c = some x ∧ x.init = true := by
    rintro q c hc ⟨heq, x, hx, hi⟩
    exact ⟨heq, hctx c x hc hx hi⟩
  have hname : ∀ q v, q ∈ pc.queues → (∃ r, s.face q = some (v, r)) → ∃ r, s'.face q = some (v, r) := by
    rintro q v hq ⟨r, hr⟩
    obtain ⟨r', hr', -⟩ := hface q v r hq hr
    exact ⟨r', hr'⟩
  cases pc with
  | granted q c i n => exact hrun q c (List.mem_singleton_self c) h
  | popped q c i n => exact hrun q c (List.mem_singleton_self c) h
  | handling q c i n => exact hrun q c (List.mem_singleton_self c) h
  | spent q c => exact hrun q c (List.mem_singleton_self c) h
  | swapping q c nq => exact hrun q c (List.mem_singleton_self c) h
  | releasing c k =>
    cases k with
    | fail q v => exact hname q v (List.mem_singleton_self q) h
    | _ => exact h
  | marking c k =>
    cases k with
    | fail q v => exact hname q v (List.mem_singleton_self q) h
    | _ => exact h
  | retiring q v => exact hname q v (List.mem_singleton_self q) h
  | launching c q =>
    obtain ⟨rfl, x, hx, hs⟩ := h
    exact ⟨rfl, hlaunch q x rfl hx hs⟩
  | dropping q =>
    obtain ⟨v, hv⟩ := h
    obtain ⟨r', hr', hr⟩ := hface q v true (List.mem_singleton_self q) hv
    rw [hr rfl] at hr'
    exact ⟨v, hr'⟩
  | _ => exact h

/-- What nobody notices: a count or a flag of a context, what is in a queue. -/
theorem Fine.keep (h : Fine s pc) (hface : s'.face = s.face) (hslot : s'.slot = s.slot)
    (hctx : ∀ c x, s.contexts c = some x → ∃ x', s'.contexts c = some x' ∧ x'.handle = x.handle ∧
      (x.init = true → x'.init = true)) : Fine s' pc := by
  refine h.mono ?_ ?_ ?_
  · intro c x _ hx hi
    obtain ⟨x', hx', -, hi'⟩ := hctx c x hx
    exact ⟨x', hx', hi' hi⟩
  · intro q v r _ hr
    exact ⟨r, by rw [hface]; exact hr, id⟩
  · intro c x _ hx hs
    obtain ⟨x', hx', hh, -⟩ := hctx c x hx
    exact ⟨x', hx', by rw [hslot, hh]; exact hs⟩

theorem creates_update [DecidableEq T] {d : Ptr} (hkeep : (s.pc a).creates = some d → z.creates = some d)
    (h : ∃ b, (s.pc b).creates = some d) : ∃ b, (Function.update s.pc a z b).creates = some d := by
  obtain ⟨b, hb⟩ := h
  by_cases hba : b = a
  · subst hba
    exact ⟨b, by rw [Function.update_self]; exact hkeep hb⟩
  · exact ⟨b, by rw [Function.update_of_ne hba]; exact hb⟩

/-! ## The invariant -/

section

variable [Fintype T]

/-- **A queue that is awake is at one place**, and the others are at none. -/
def Tokens (s : State T) (l : List Ptr) : Prop :=
  ∀ q, l.count q + tot Pc.queues s.pc q = if s.awake q then 1 else 0

/-- **A context is counted**, by its handle and by the threads that have grabbed
it, and its queue lives as long as it. -/
structure Lives (s : State T) (c : Ptr) (x : Context) : Prop where
  queue : x.queue = c
  face : s.face c = some (x.handle, false)
  counted : x.ref = (if s.slot x.handle = some c then 1 else 0) + (tot Pc.refs s.pc c : ℤ)
  marked : tot Pc.marks s.pc c = if x.ref = 0 then 1 else 0
  ready : x.init = false → s.slot x.handle = some c → ∃ a, (s.pc a).creates = some c

/-- What is freed is counted no more. -/
structure Held (s : State T) (c : Ptr) : Prop where
  lives : ∀ x, s.contexts c = some x → Lives s c x
  gone : s.contexts c = none → tot Pc.refs s.pc c = 0 ∧ tot Pc.marks s.pc c = 0

/-- **Contexts, handles and threads** fit together. -/
structure Counted (s : State T) : Prop where
  held : ∀ c, Held s c
  slotted : ∀ h c, s.slot h = some c → ∃ x, s.contexts c = some x ∧ x.handle = h
  handles : ∀ p q h r r', s.face p = some (h, r) → s.face q = some (h, r') → p = q
  fine : ∀ a, Fine s (s.pc a)

/-- **Every message that was pushed** is in the queue or has left it, in order. -/
structure Kept (s : State T) : Prop where
  fifo : ∀ q, s.sent q = s.handled q ++ s.dropped q ++ s.contents q
  undropped : ∀ q h, s.face q = some (h, false) → s.dropped q = []
  asleep : ∀ q, s.awake q = false → s.contents q = []

/-- **The invariant.** -/
structure Sound (s : State T) (l : List Ptr) : Prop where
  listed : Listed s.head s.tail s.next l
  tokens : Tokens s l
  counted : Counted s
  kept : Kept s
  unmade : ∀ p, s.fresh ≤ p → s.face p = none ∧ s.contexts p = none ∧ s.sent p = []

/-! ## What a step does to it -/

section

variable [DecidableEq T] {l' : List Ptr}

theorem Tokens.move (h : Tokens s l) (hpc : s'.pc = Function.update s.pc a z)
    (hmove : ∀ q, l'.count q + z.queues.count q + (if s.awake q then 1 else 0) =
      l.count q + (s.pc a).queues.count q + (if s'.awake q then 1 else 0)) : Tokens s' l' := by
  intro q
  have htot := tot_update Pc.queues s.pc q a z
  have hq := h q
  have hm := hmove q
  rw [hpc]
  omega

/-- A step changes one context at most. -/
structure Moves (s s' : State T) (a : T) (z : Pc) (c : Ptr) : Prop where
  pc : s'.pc = Function.update s.pc a z
  contexts : ∀ d, d ≠ c → s'.contexts d = s.contexts d
  face : ∀ d, d ≠ c → s'.face d = s.face d
  slot : ∀ h d, d ≠ c → (s'.slot h = some d ↔ s.slot h = some d)
  refs : ∀ d, d ≠ c → z.refs.count d = (s.pc a).refs.count d
  marks : ∀ d, d ≠ c → z.marks.count d = (s.pc a).marks.count d
  creates : ∀ d x, d ≠ c → s.contexts d = some x → s.slot x.handle = some d →
    (s.pc a).creates = some d → z.creates = some d

theorem Moves.held {d : Ptr} (hm : Moves s s' a z c) (hd : d ≠ c) (h : Held s d) : Held s' d := by
  have hrefs := tot_update Pc.refs s.pc d a z
  have hmarks := tot_update Pc.marks s.pc d a z
  rw [← hm.pc, hm.refs d hd, Nat.add_right_cancel_iff] at hrefs
  rw [← hm.pc, hm.marks d hd, Nat.add_right_cancel_iff] at hmarks
  constructor
  · intro x hx
    rw [hm.contexts d hd] at hx
    have hlives := h.lives x hx
    refine ⟨hlives.queue, (hm.face d hd).trans hlives.face, ?_, hmarks.trans hlives.marked, fun hi hs => ?_⟩
    · simp only [hm.slot _ d hd, hrefs]
      exact hlives.counted
    · rw [hm.slot _ d hd] at hs
      rw [hm.pc]
      exact creates_update (hm.creates d x hd hx hs) (hlives.ready hi hs)
  · intro hnone
    rw [hm.contexts d hd] at hnone
    rw [hrefs, hmarks]
    exact h.gone hnone

/-- **Contexts, handles and threads fit together after a step**, if they do where
it changes something. -/
theorem Counted.move (h : Counted s) (hm : Moves s s' a z c) (hc : Held s' c)
    (hslot : ∀ h, s'.slot h = some c → ∃ x, s'.contexts c = some x ∧ x.handle = h)
    (hnamed : ∀ h r, s'.face c = some (h, r) → ∀ p r', p ≠ c → s.face p ≠ some (h, r'))
    (hfine : Fine s' z) (hothers : ∀ b, b ≠ a → Fine s' (s.pc b)) : Counted s' where
  held d := by
    by_cases hd : d = c
    · rw [hd]
      exact hc
    · exact hm.held hd (h.held d)
  slotted v d hv := by
    by_cases hd : d = c
    · subst hd
      exact hslot v hv
    · rw [hm.contexts d hd]
      exact h.slotted v d ((hm.slot v d hd).mp hv)
  handles p q v r r' hp hq := by
    by_cases hpc : p = c
    · by_cases hqc : q = c
      · rw [hpc, hqc]
      · subst hpc
        rw [hm.face q hqc] at hq
        exact absurd hq (hnamed v r hp q r' hqc)
    · rw [hm.face p hpc] at hp
      by_cases hqc : q = c
      · subst hqc
        exact absurd hp (hnamed v r' hq p r hpc)
      · rw [hm.face q hqc] at hq
        exact h.handles p q v r r' hp hq
  fine b := by
    rw [hm.pc]
    by_cases hba : b = a
    · subst hba
      rw [Function.update_self]
      exact hfine
    · rw [Function.update_of_ne hba]
      exact hothers b hba

/-- A step that leaves contexts and handles as they are. -/
theorem Counted.stay (h : Counted s) (hpc : s'.pc = Function.update s.pc a z)
    (hctx : s'.contexts = s.contexts) (hface : s'.face = s.face) (hslot : s'.slot = s.slot)
    (hrefs : ∀ d, z.refs.count d = (s.pc a).refs.count d)
    (hmarks : ∀ d, z.marks.count d = (s.pc a).marks.count d)
    (hcreates : ∀ d x, s.contexts d = some x → s.slot x.handle = some d →
      (s.pc a).creates = some d → z.creates = some d) (hfine : Fine s' z) : Counted s' := by
  have hm : ∀ c, Moves s s' a z c := fun c =>
    ⟨hpc, fun d _ => by rw [hctx], fun d _ => by rw [hface], fun v d _ => by rw [hslot], fun d _ => hrefs d,
      fun d _ => hmarks d, fun d x _ => hcreates d x⟩
  have hc : Held s' 0 := (hm 1).held Nat.zero_ne_one (h.held 0)
  refine h.move (hm 0) hc ?_ ?_ hfine ?_
  · intro v hv
    rw [hslot] at hv
    rw [hctx]
    exact h.slotted v 0 hv
  · intro v r hv p r' hp hpv
    rw [hface] at hv
    exact hp (h.handles p 0 v r' r hpv hv)
  · intro b _
    exact (h.fine b).keep hface hslot fun d x hx => ⟨x, by rw [hctx]; exact hx, rfl, id⟩

end

end

end Skynet

end Athena
