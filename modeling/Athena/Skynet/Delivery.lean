import Athena.Skynet.Sound
/-!
# Services and their message queues — delivery

What happens to the messages, and with it what a whole node does: no step fails,
no message is lost, doubled or overtaken, and no two threads are in one service.
-/

namespace Athena

namespace Skynet

variable {T : Type} [Fintype T] [DecidableEq T] {s s' : State T} {l l' : List Ptr} {p q c nq : Ptr}
  {mq u : MessageQueue} {m : Message} {x : Context} {a b : T} {pc z : Pc} {k : Next} {i n : ℕ}
  {weight : T → Option ℕ}

/-! ## What becomes of a queue -/

theorem mq_pop_none (h : mq_pop mq = (none, u)) :
    mq.ring.toList = [] ∧ u = { mq with overloadThreshold := mqOverload, inGlobal := false } := by
  unfold mq_pop at h
  split at h
  · rename_i hpop
    exact ⟨Ring.pop_eq_none.mp hpop, (Prod.mk.inj h).2.symm⟩
  · cases h

theorem mq_pop_some (h : mq_pop mq = (some m, u)) : mq.ring.toList = m :: u.ring.toList ∧
    u.handle = mq.handle ∧ u.release = mq.release ∧ u.inGlobal = mq.inGlobal := by
  unfold mq_pop at h
  split at h
  · cases h
  · rename_i m' ring hpop
    obtain ⟨hm, rfl⟩ := Prod.mk.inj h
    obtain rfl := Option.some.inj hm
    exact ⟨Ring.pop_eq_some hpop, rfl, rfl, rfl⟩

/-- A step at one queue. -/
structure Edits (s s' : State T) (q : Ptr) (u : MessageQueue) : Prop where
  queues : s'.queues = Function.update s.queues q (some u)
  contexts : s'.contexts = s.contexts
  slot : s'.slot = s.slot
  fresh : s'.fresh = s.fresh
  sent : ∀ p, p ≠ q → s'.sent p = s.sent p
  handled : ∀ p, p ≠ q → s'.handled p = s.handled p
  dropped : ∀ p, p ≠ q → s'.dropped p = s.dropped p

omit [Fintype T] [DecidableEq T] in
theorem Edits.others (he : Edits s s' q u) (hp : p ≠ q) : s'.queues p = s.queues p := by
  rw [he.queues, Function.update_of_ne hp]

omit [Fintype T] [DecidableEq T] in
theorem Edits.self (he : Edits s s' q u) : s'.queues q = some u := by
  rw [he.queues, Function.update_self]

/-- **A thread changes what is in a queue.** -/
theorem Sound.edit (h : Sound s l) (hmq : s.queues q = some mq) (he : Edits s s' q u)
    (hhandle : u.handle = mq.handle) (hrelease : u.release = mq.release)
    (hpc : s'.pc = Function.update s.pc a z) (hlike : Like (s.pc a) z)
    (hl : Listed s'.head s'.tail s'.next l')
    (hmove : ∀ p, l'.count p + z.queues.count p + (if s.awake p then 1 else 0) =
      l.count p + (s.pc a).queues.count p +
        (if Function.update s.awake q (u.inGlobal || u.release) p then 1 else 0))
    (hfifo : s'.sent q = s'.handled q ++ s'.dropped q ++ u.ring.toList)
    (hdropped : mq.release = false → s'.dropped q = s.dropped q)
    (hasleep : (u.inGlobal || u.release) = false → u.ring.toList = []) (hfine : Fine s z) :
    Sound s' l' := by
  have hface : s'.face = s.face := by
    funext p
    by_cases hp : p = q
    · rw [hp, face_eq he.self, face_eq hmq, hhandle, hrelease]
    · simp only [State.face, he.others hp]
  have hawake : s'.awake = Function.update s.awake q (u.inGlobal || u.release) := by
    funext p
    by_cases hp : p = q
    · rw [hp, awake_eq he.self, Function.update_self]
    · rw [Function.update_of_ne hp]
      simp only [State.awake, he.others hp]
  have hcontents : ∀ p, p ≠ q → s'.contents p = s.contents p := by
    intro p hp
    simp only [State.contents, he.others hp]
  refine ⟨hl, h.tokens.move hpc fun p => by rw [hawake]; exact hmove p,
    h.counted.stay hpc he.contexts hface he.slot (fun d => by rw [hlike.refs]) (fun d => by rw [hlike.marks])
      (fun d _ _ _ hd => by rw [hlike.creates]; exact hd)
      (hfine.keep hface he.slot fun d y hy => ⟨y, by rw [he.contexts]; exact hy, rfl, id⟩),
    ⟨fun p => ?_, fun p v hp => ?_, fun p hp => ?_⟩, fun p hp => ?_⟩
  · by_cases hp : p = q
    · rw [hp, contents_eq he.self]
      exact hfifo
    · rw [he.sent p hp, he.handled p hp, he.dropped p hp, hcontents p hp]
      exact h.kept.fifo p
  · rw [hface] at hp
    by_cases hpq : p = q
    · subst hpq
      have hopen : mq.release = false := by
        rw [face_eq hmq] at hp
        exact (Prod.mk.inj (Option.some.inj hp)).2
      rw [hdropped hopen]
      exact h.kept.undropped p v hp
    · rw [he.dropped p hpq]
      exact h.kept.undropped p v hp
  · rw [hawake] at hp
    by_cases hpq : p = q
    · rw [hpq, Function.update_self] at hp
      rw [hpq, contents_eq he.self]
      exact hasleep hp
    · rw [Function.update_of_ne hpq] at hp
      rw [hcontents p hpq]
      exact h.kept.asleep p hp
  · rw [he.fresh] at hp
    obtain ⟨hp', hctx, hsent⟩ := h.unmade p hp
    have hpq : p ≠ q := by
      rintro rfl
      rw [face_eq hmq] at hp'
      cases hp'
    exact ⟨by rw [hface]; exact hp', by rw [he.contexts]; exact hctx, by rw [he.sent p hpq]; exact hsent⟩

/-- A queue that is marked and empty is freed. -/
theorem Sound.free (h : Sound s l) (hpc : s.pc a = .dropping q) (hctx : s.contexts q = none)
    (hmq : s.queues q = some mq) (hnil : mq.ring.toList = []) :
    Sound ({ s with queues := Function.update s.queues q none }.goto a .idle) l := by
  obtain ⟨-, -, hflag, hnot, halone⟩ := h.mine (a := a) (q := q) (by rw [hpc]; exact List.mem_singleton_self q)
  have hface : ∀ p, ({ s with queues := Function.update s.queues q none }.goto a .idle : State T).face p =
      if p = q then none else s.face p := by
    intro p
    by_cases hp : p = q <;> simp [State.face, State.goto, hp]
  have hawake : ∀ p, ({ s with queues := Function.update s.queues q none }.goto a .idle : State T).awake p =
      (decide (p ≠ q) && s.awake p) := by
    intro p
    by_cases hp : p = q <;> simp [State.awake, State.goto, hp]
  have hcontents : ({ s with queues := Function.update s.queues q none }.goto a .idle : State T).contents =
      s.contents := by
    funext p
    by_cases hp : p = q
    · rw [hp, contents_eq hmq, hnil]
      simp [State.contents, State.goto]
    · simp [State.contents, State.goto, hp]
  refine ⟨h.listed, h.tokens.move (a := a) (z := .idle) rfl fun p => ?_, ?_, ⟨fun p => ?_, fun p v hp => ?_, fun p hp => ?_⟩,
    fun p hp => ?_⟩
  · have hself := h.tokens q
    rw [hawake, hpc]
    by_cases hp : p = q
    · subst hp
      have := count_le_tot Pc.queues s.pc p a
      rw [hpc] at this
      simp [Pc.queues] at this ⊢
      split at hself <;> simp_all
    · simp [Pc.queues, hp, Ne.symm hp]
  · refine h.counted.move (a := a) (z := .idle) (c := q) ⟨rfl, fun _ _ => rfl, fun d hd => ?_, fun _ _ _ => Iff.rfl,
      fun d _ => ?_, fun d _ => ?_, fun d y _ _ _ hmake => ?_⟩ ⟨fun y hy => ?_, fun _ => ?_⟩ (fun v hv => ?_)
      (fun v r hv => ?_) trivial fun b hb => ?_
    · rw [hface, if_neg hd]
    · rw [hpc]
      rfl
    · rw [hpc]
      rfl
    · rw [hpc] at hmake
      cases hmake
    · exact absurd (hctx.symm.trans hy) (by simp)
    · have hrefs := tot_update Pc.refs s.pc q a .idle
      have hmarks := tot_update Pc.marks s.pc q a .idle
      rw [hpc] at hrefs hmarks
      have hgone := (h.counted.held q).gone hctx
      simp only [Pc.refs, Pc.marks, List.count_nil] at hrefs hmarks
      exact ⟨hrefs.trans hgone.1, hmarks.trans hgone.2⟩
    · obtain ⟨y, hy, -⟩ := h.counted.slotted v q hv
      rw [hctx] at hy
      cases hy
    · rw [hface, if_pos rfl] at hv
      cases hv
    · refine (h.counted.fine b).mono (fun d y _ hy hi => ⟨y, hy, hi⟩) (fun p v r hp hr => ⟨r, ?_, id⟩)
        fun d y _ hy hs => ⟨y, hy, hs⟩
      have hpq : p ≠ q := by
        rintro rfl
        exact halone b hb hp
      rw [hface, if_neg hpq]
      exact hr
  · rw [hcontents]
    exact h.kept.fifo p
  · rw [hface] at hp
    split at hp
    · cases hp
    · exact h.kept.undropped p v hp
  · rw [hcontents]
    by_cases hpq : p = q
    · rw [hpq, contents_eq hmq, hnil]
    · rw [hawake] at hp
      simp only [ne_eq, hpq, not_false_eq_true, decide_true, Bool.true_and] at hp
      exact h.kept.asleep p hp
  · obtain ⟨hp', hctx', hsent⟩ := h.unmade p hp
    refine ⟨?_, hctx', hsent⟩
    rw [hface]
    split
    · rfl
    · exact hp'

omit [DecidableEq T] in
/-- The context under a queue's handle has the queue. -/
theorem Sound.service (h : Sound s l) (hmq : s.queues q = some mq) (hx : s.contexts q = some x) :
    mq.handle = x.handle ∧ mq.release = false := by
  have hface := ((h.counted.held q).lives x hx).face
  rw [face_eq hmq] at hface
  exact Prod.mk.inj (Option.some.inj hface)

/-! ## The steps of a worker -/

/-- It looks for the service of the queue it has. -/
theorem Sound.lookup (h : Sound s l) (hpc : s.pc a = .held q) : Runs weight s a := by
  obtain ⟨mq, hmq, -, -, halone⟩ := h.mine (a := a) (q := q) (by rw [hpc]; exact List.mem_singleton_self q)
  rcases h.grab mq.handle with hgrab | ⟨c, x, s', hslot, hx, hv, hgrab, hsound⟩
  · refine ⟨s.goto a (.orphan q), l, by simp [run, hpc, queue_ok hmq, hgrab], ?_⟩
    exact h.goto (by rw [hpc]; exact ⟨rfl, rfl, rfl⟩) (fun p => by rw [hpc]; rfl) trivial
  · obtain rfl : q = c := h.owner (x := x) (by rw [hv]; exact hslot) (by rw [hv]; exact face_eq hmq)
    refine ⟨s'.goto a (.granted q q 0 1), l, by simp [run, hpc, queue_ok hmq, hgrab], hsound a _ ?_ ?_ ?_ ?_ ?_⟩
    · rw [hpc]
      rfl
    · rw [hpc]
      rfl
    · rw [hpc]
      rfl
    · rw [hpc]
      rfl
    · refine ⟨rfl, x, hx, ?_⟩
      -- One that is not started yet has its queue with the thread that starts it.
      cases hinit : x.init with
      | true => rfl
      | false =>
        obtain ⟨b, hb⟩ := ((h.counted.held q).lives x hx).ready hinit (by rw [hv]; exact hslot)
        have hmem := mem_queues_of_creates hb
        have hba : b ≠ a := by
          rintro rfl
          rw [hpc] at hb
          cases hb
        exact absurd hmem (halone b hba)

/-- **`skynet_mq_release`.** -/
theorem Sound.abandon (h : Sound s l) (hpc : s.pc a = .orphan q) : Runs weight s a := by
  obtain ⟨mq, hmq, -⟩ := h.mine (a := a) (q := q) (by rw [hpc]; exact List.mem_singleton_self q)
  cases hrelease : mq.release with
  | true =>
    refine ⟨s.goto a (.dropping q), l, by simp [run, hpc, queue_ok hmq, hrelease], ?_⟩
    refine h.goto (by rw [hpc]; exact ⟨rfl, rfl, rfl⟩) (fun p => by rw [hpc]; rfl) ⟨mq.handle, ?_⟩
    rw [face_eq hmq, hrelease]
  | false =>
    obtain ⟨s', hpush, hsound⟩ := h.give (a := a) (z := .idle) (q := q) (by rw [hpc]; exact ⟨rfl, rfl, rfl⟩)
      (by rw [hpc]; exact List.Perm.refl _) trivial
    exact ⟨_, _, by simp [run, hpc, queue_ok hmq, hrelease, hpush], hsound⟩

/-- **`skynet_mq_pop`** for the callback: the message in front is handled, and a
queue in which there is none sleeps. -/
theorem Sound.pop (h : Sound s l) (hpc : s.pc a = .granted q c i n) : Runs weight s a := by
  have hfine := h.counted.fine a
  rw [hpc] at hfine
  obtain ⟨rfl, x, hx, hinit⟩ := hfine
  obtain ⟨mq, hmq, hflag, hnot, -⟩ := h.mine (a := a) (q := q) (by rw [hpc]; exact List.mem_singleton_self q)
  obtain ⟨-, hrelease⟩ := h.service hmq hx
  have hawake := awake_eq hmq
  rw [hflag] at hawake
  have hglobal : mq.inGlobal = true := by simpa [hrelease] using hflag
  have hfifo := h.kept.fifo q
  rw [contents_eq hmq] at hfifo
  cases hpop : mq_pop mq with
  | mk o u =>
    cases o with
    | none =>
      obtain ⟨hnil, rfl⟩ := mq_pop_none hpop
      refine ⟨_, l, by simp only [run, hpc, queue_ok hmq, bind_ok, hpop]; rfl, ?_⟩
      refine h.edit hmq ⟨rfl, rfl, rfl, rfl, fun _ _ => rfl, fun _ _ => rfl, fun _ _ => rfl⟩ rfl rfl rfl
        (by rw [hpc]; exact ⟨rfl, rfl, rfl⟩) h.listed (fun p => ?_) hfifo (fun _ => rfl) (fun _ => hnil) trivial
      rw [hpc, hrelease]
      by_cases hp : p = q
      · subst hp
        rw [Function.update_self, hawake]
        simp [Pc.queues, Next.queues]
      · rw [Function.update_of_ne hp]
        simp [Pc.queues, Next.queues, Ne.symm hp]
    | some m =>
      obtain ⟨hcons, hhandle, hrelease', hglobal'⟩ := mq_pop_some hpop
      refine ⟨_, l, by simp only [run, hpc, queue_ok hmq, bind_ok, hpop]; rfl, ?_⟩
      refine h.edit hmq ⟨rfl, rfl, rfl, rfl, fun _ _ => rfl, fun p hp => Function.update_of_ne hp .., fun _ _ => rfl⟩
        hhandle hrelease' rfl (by rw [hpc]; exact ⟨rfl, rfl, rfl⟩) h.listed (fun p => ?_) ?_ (fun _ => rfl)
        (fun hsleep => ?_) ⟨rfl, x, hx, hinit⟩
      · rw [hpc, hglobal', hglobal, Bool.true_or, ← hawake, Function.update_eq_self]
        rfl
      · have hdropped := h.kept.undropped q mq.handle (by rw [face_eq hmq, hrelease])
        rw [hcons, hdropped] at hfifo
        change s.sent q = Function.update s.handled q (s.handled q ++ [m]) q ++ s.dropped q ++ _
        rw [Function.update_self, hdropped, hfifo]
        simp
      · rw [hglobal', hglobal] at hsleep
        cases hsleep

/-- `skynet_mq_length`, `skynet_mq_overload` and, where there is a callback,
`assert(ctx->init)`. -/
theorem Sound.check (h : Sound s l) (hpc : s.pc a = .popped q c i n) : Runs weight s a := by
  have hfine := h.counted.fine a
  rw [hpc] at hfine
  obtain ⟨rfl, x, hx, hinit⟩ := hfine
  obtain ⟨mq, hmq, -⟩ := h.mine (a := a) (q := q) (by rw [hpc]; exact List.mem_singleton_self q)
  have hawake := awake_eq hmq
  have hgo : ∀ z : Pc, Like (.popped q q i n) z → z.queues = [q] → Fine s z →
      Sound ((s.setqueue q { mq with overload := 0 }).goto a z) l := by
    intro z hlike hqueues hz
    refine h.edit hmq ⟨rfl, rfl, rfl, rfl, fun _ _ => rfl, fun _ _ => rfl, fun _ _ => rfl⟩ rfl rfl rfl
      (by rw [hpc]; exact hlike) h.listed (fun p => ?_) ?_ (fun _ => rfl) (fun hsleep => ?_) hz
    · rw [hpc, ← hawake, Function.update_eq_self, hqueues]
      rfl
    · have hfifo := h.kept.fifo q
      rw [contents_eq hmq] at hfifo
      exact hfifo
    · rw [← contents_eq hmq]
      exact h.kept.asleep q (hawake.trans hsleep)
  cases hcb : x.cb with
  | true =>
    refine ⟨_, l, by simp only [run, hpc, queue_ok hmq, bind_ok, context_ok hx, hcb, hinit, assert_true, if_true]; rfl, ?_⟩
    exact hgo _ ⟨rfl, rfl, rfl⟩ rfl ⟨rfl, x, hx, hinit⟩
  | false =>
    refine ⟨_, l, by simp only [run, hpc, queue_ok hmq, bind_ok, context_ok hx, hcb, Bool.false_eq_true, if_false]; rfl, ?_⟩
    unfold again
    split
    · exact hgo _ ⟨rfl, rfl, rfl⟩ rfl ⟨rfl, x, hx, hinit⟩
    · exact hgo _ ⟨rfl, rfl, rfl⟩ rfl ⟨rfl, x, hx, hinit⟩

/-- The callback returns. -/
theorem Sound.called (h : Sound s l) (hpc : s.pc a = .handling q c i n) : Runs weight s a := by
  have hfine := h.counted.fine a
  rw [hpc] at hfine
  refine ⟨_, l, by simp only [run, hpc]; rfl, ?_⟩
  unfold again
  split
  · exact h.goto (by rw [hpc]; exact ⟨rfl, rfl, rfl⟩) (fun p => by rw [hpc]; rfl) hfine
  · exact h.goto (by rw [hpc]; exact ⟨rfl, rfl, rfl⟩) (fun p => by rw [hpc]; rfl) hfine

/-- It takes another queue, if there is one, -/
theorem Sound.swap (h : Sound s l) (hpc : s.pc a = .spent q c) : Runs weight s a := by
  have hfine := h.counted.fine a
  rw [hpc] at hfine
  obtain ⟨rfl, x, hx, hinit⟩ := hfine
  have hqueue : x.queue = q := ((h.counted.held q).lives x hx).queue
  rcases h.take with hpop | ⟨nq, s', hpop, hsound⟩
  · refine ⟨s.goto a (.releasing q (.held q)), l, by simp [run, hpc, context_ok hx, hqueue, hpop], ?_⟩
    exact h.goto (by rw [hpc]; exact ⟨rfl, rfl, rfl⟩) (fun p => by rw [hpc]; rfl) trivial
  · obtain ⟨l', hl'⟩ := hsound a (.swapping q q nq) (by rw [hpc]; exact ⟨rfl, rfl, rfl⟩)
      (by rw [hpc]; exact List.Perm.swap ..) ⟨rfl, x, hx, hinit⟩
    exact ⟨_, l', by simp [run, hpc, context_ok hx, hqueue, hpop], hl'⟩

/-- and gives the first back. -/
theorem Sound.swapped (h : Sound s l) (hpc : s.pc a = .swapping q c nq) : Runs weight s a := by
  obtain ⟨s', hpush, hsound⟩ := h.give (a := a) (z := .releasing c (.held nq)) (q := q)
    (by rw [hpc]; exact ⟨rfl, rfl, rfl⟩) (by rw [hpc]; exact List.Perm.refl _) trivial
  exact ⟨_, _, by simp [run, hpc, hpush], hsound⟩

/-- **`_drop_queue`** drops what is left, and the queue with it. -/
theorem Sound.drop (h : Sound s l) (hpc : s.pc a = .dropping q) : Runs weight s a := by
  have hfine := h.counted.fine a
  rw [hpc] at hfine
  obtain ⟨v, hv⟩ := hfine
  obtain ⟨mq, hmq, -, hnot, halone⟩ := h.mine (a := a) (q := q) (by rw [hpc]; exact List.mem_singleton_self q)
  have hrelease : mq.release = true := by
    rw [face_eq hmq] at hv
    exact (Prod.mk.inj (Option.some.inj hv)).2
  have hawake := awake_eq hmq
  rw [hrelease, Bool.or_true] at hawake
  have hfifo := h.kept.fifo q
  rw [contents_eq hmq] at hfifo
  cases hpop : mq_pop mq with
  | mk o u =>
    cases o with
    | some m =>
      obtain ⟨hcons, hhandle, hrelease', -⟩ := mq_pop_some hpop
      refine ⟨_, l, by simp only [run, hpc, queue_ok hmq, bind_ok, hpop]; rfl, ?_⟩
      refine h.edit (a := a) (z := .dropping q) hmq
        ⟨rfl, rfl, rfl, rfl, fun _ _ => rfl, fun _ _ => rfl, fun p hp => Function.update_of_ne hp ..⟩
        hhandle hrelease' ?_ (by rw [hpc]; exact ⟨rfl, rfl, rfl⟩) h.listed (fun p => ?_) ?_ (fun hopen => ?_)
        (fun hsleep => ?_) ⟨v, hv⟩
      · rw [← hpc]
        exact (Function.update_eq_self ..).symm
      · rw [hpc, hrelease', hrelease, Bool.or_true, ← hawake, Function.update_eq_self]
      · rw [hcons] at hfifo
        change s.sent q = s.handled q ++ Function.update s.dropped q (s.dropped q ++ [m]) q ++ _
        rw [Function.update_self, hfifo]
        simp
      · rw [hrelease] at hopen
        cases hopen
      · rw [hrelease', hrelease, Bool.or_true] at hsleep
        cases hsleep
    | none =>
      obtain ⟨hnil, -⟩ := mq_pop_none hpop
      have hnext := h.listed.alone q hnot
      have hctx : s.contexts q = none := by
        cases hx : s.contexts q with
        | none => rfl
        | some x =>
          rw [(h.service hmq hx).2] at hrelease
          cases hrelease
      refine ⟨{ s with queues := Function.update s.queues q none }.goto a .idle, l,
        by simp [run, hpc, queue_ok hmq, hpop, hnext], ?_⟩
      exact h.free hpc hctx hmq hnil

/-! ## Sending -/

/-- **`skynet_mq_push`** wakes a queue that sleeps. -/
theorem Sound.post (h : Sound s l) (hpc : s.pc a = .pushing c m) : Runs weight s a := by
  obtain ⟨x, hx, hlives⟩ := h.grabbed (a := a) (c := c) (by rw [hpc]; exact List.mem_singleton_self c)
  obtain ⟨mq, hmq, -⟩ := Option.map_eq_some_iff.mp hlives.face
  obtain ⟨-, hrelease⟩ := h.service hmq hx
  have hawake := awake_eq hmq
  rw [hrelease, Bool.or_false] at hawake
  have hfifo := h.kept.fifo c
  rw [contents_eq hmq] at hfifo
  have hfifo' : s.sent c ++ [m] = s.handled c ++ s.dropped c ++ (mq.ring.push m mq.ring.cap mq.ring.cap_pos).toList := by
    rw [Ring.toList_push, hfifo, List.append_assoc]
  have hlike : Like (s.pc a) (.releasing c .idle) := by
    rw [hpc]
    exact ⟨rfl, rfl, rfl⟩
  by_cases hglobal : mq.inGlobal = true
  · refine ⟨_, l, by simp only [run, hpc, context_ok hx, bind_ok, mq_push, hlives.queue, queue_ok hmq, if_pos hglobal]; rfl, ?_⟩
    refine h.edit hmq ⟨rfl, rfl, rfl, rfl, fun p hp => Function.update_of_ne hp .., fun _ _ => rfl, fun _ _ => rfl⟩
      rfl rfl rfl hlike h.listed (fun p => ?_) ?_ (fun _ => rfl) (fun hsleep => ?_) trivial
    · simp only [hglobal, Bool.true_or]
      rw [hpc, ← hglobal, ← hawake, Function.update_eq_self]
      rfl
    · exact (Function.update_self ..).trans hfifo'
    · simp [hglobal] at hsleep
  · have hcount := h.tokens c
    rw [hawake, if_neg hglobal] at hcount
    have hnot : c ∉ l := fun hmem => by
      have := List.count_pos_iff.mpr hmem
      omega
    obtain ⟨head, tail, next, hpush, hl⟩ := globalmq_push_spec (q := c)
      (s := ({ s with sent := Function.update s.sent c (s.sent c ++ [m]) } : State T).setqueue c
        { mq with ring := mq.ring.push m mq.ring.cap mq.ring.cap_pos, inGlobal := true })
      h.listed (by simp [State.setqueue]) hnot fun p hp => by
        by_cases hpc' : p = c
        · simp [State.setqueue, hpc']
        · simpa [State.setqueue, hpc'] using h.listed_alive p hp
    refine ⟨_, l ++ [c], by
      simp only [run, hpc, context_ok hx, bind_ok, mq_push, hlives.queue, queue_ok hmq, if_neg hglobal, hpush]; rfl, ?_⟩
    refine h.edit (u := { mq with ring := mq.ring.push m mq.ring.cap mq.ring.cap_pos, inGlobal := true }) hmq
      ⟨rfl, rfl, rfl, rfl, fun p hp => Function.update_of_ne hp .., fun _ _ => rfl, fun _ _ => rfl⟩
      rfl rfl rfl hlike hl (fun p => ?_) ?_ (fun _ => rfl) (fun hsleep => ?_) trivial
    · rw [hpc, List.count_append]
      by_cases hp : p = c
      · subst hp
        rw [Function.update_self, hawake, if_neg hglobal]
        simp [Pc.queues, Next.queues]
      · rw [Function.update_of_ne hp]
        simp [Pc.queues, Next.queues, Ne.symm hp]
    · exact (Function.update_self ..).trans hfifo'
    · simp at hsleep

/-! ## A step of the node -/

/-- **What the node is left to itself with**: a handle is not given twice while its
queue is there, and a service is not killed while it starts. -/
def Fair (s : State T) : Event T → Prop
  | .create _ v => ∀ q r, s.face q ≠ some (v, r)
  | .retire _ v => ∀ c, s.slot v = some c → ∀ b q, s.pc b ≠ .launching c q
  | .step a => ∀ c q x, s.pc a = .releasing c (.launch q) → s.contexts c = some x →
      x.ref = 1 ∨ s.slot x.handle = some c
  | _ => True

/-- **A service is there until `skynet_context_new` returns it**, which has no reference of
it when it reads it for the log. -/
def Present (s : State T) : Event T → Prop
  | .step a => ∀ c, s.pc a = .logging c → (s.contexts c).isSome
  | _ => True

/-- A module sets its callback. -/
theorem Sound.callback (a : T) {b : Bool} (h : Sound s l) (hx : s.contexts c = some x) :
    Sound (s.setcontext c { x with cb := b }) l := by
  have hset := h.recount (a := a) (z := s.pc a) (r := x.ref) (i := x.init) (b := b) hx (fun _ => rfl) id
    (fun _ _ => rfl) (fun _ _ => rfl) (fun _ _ hd => hd) rfl rfl ?_
  · rw [State.goto, State.setcontext, Function.update_eq_self] at hset
    exact hset
  · refine (h.counted.fine a).keep rfl rfl fun d y hy => ?_
    by_cases hd : d = c
    · subst hd
      obtain rfl := Option.some.inj (hx.symm.trans hy)
      exact ⟨_, Function.update_self .., rfl, id⟩
    · exact ⟨y, (Function.update_of_ne hd ..).trans hy, rfl, id⟩

/-- **Every step of a thread succeeds.** -/
theorem Sound.run (h : Sound s l) (hfair : Fair s (.step a)) (hpresent : Present s (.step a))
    (hbusy : Skynet.run weight s a ≠ .error .busy) : Runs weight s a := by
  cases hpc : s.pc a with
  | idle => exact absurd (by simp [Skynet.run, hpc]) hbusy
  | held q => exact h.lookup hpc
  | orphan q => exact h.abandon hpc
  | dropping q => exact h.drop hpc
  | granted q c i n => exact h.pop hpc
  | popped q c i n => exact h.check hpc
  | handling q c i n => exact h.called hpc
  | spent q c => exact h.swap hpc
  | swapping q c nq => exact h.swapped hpc
  | pushing c m => exact h.post hpc
  | releasing c k =>
    refine h.release hpc fun q x hk hx => hfair c q x ?_ hx
    rw [hpc, hk]
  | marking c k => exact h.delete hpc
  | initing c q => exact absurd (by simp [Skynet.run, hpc]) hbusy
  | launching c q => exact h.launch hpc
  | enqueuing q ret =>
    cases ret with
    | none =>
      obtain ⟨s', hpush, hsound⟩ := h.give (a := a) (z := .idle) (q := q) (by rw [hpc]; exact ⟨rfl, rfl, rfl⟩)
        (by rw [hpc]; exact List.Perm.refl _) trivial
      exact ⟨_, _, by simp [Skynet.run, hpc, hpush], hsound⟩
    | some c =>
      obtain ⟨s', hpush, hsound⟩ := h.give (a := a) (z := .logging c) (q := q) (by rw [hpc]; exact ⟨rfl, rfl, rfl⟩)
        (by rw [hpc]; exact List.Perm.refl _) trivial
      exact ⟨_, _, by simp [Skynet.run, hpc, hpush], hsound⟩
  | logging c =>
    obtain ⟨x, hx⟩ := Option.isSome_iff_exists.mp (hpresent c hpc)
    refine ⟨s.goto a .idle, l, by simp [Skynet.run, hpc, context_ok hx], ?_⟩
    exact h.goto (by rw [hpc]; exact ⟨rfl, rfl, rfl⟩) (fun p => by rw [hpc]; rfl) trivial
  | retiring q v =>
    have hfine := h.counted.fine a
    rw [hpc] at hfine
    obtain ⟨-, -, -, -, halone⟩ := h.mine (a := a) (q := q) (by rw [hpc]; exact List.mem_singleton_self q)
    have hmake : ∀ d, (s.pc a).creates = some d → ∃ r, s.face d = some (v, r) := by
      intro d hd
      rw [hpc] at hd
      obtain rfl := Option.some.inj hd
      exact hfine
    -- Who starts a service has its queue, and this thread has it.
    have hlaunch : ∀ c, s.slot v = some c → ∀ b q, s.pc b ≠ .launching c q := by
      intro c hc b q' hb
      obtain ⟨r, hr⟩ := hfine
      obtain ⟨x, hx, rfl⟩ := h.counted.slotted v c hc
      obtain rfl := h.owner hc hr
      have hfine' := h.counted.fine b
      rw [hb] at hfine'
      obtain ⟨rfl, -⟩ := hfine'
      refine halone b ?_ (by rw [hb]; exact List.mem_singleton_self _)
      rintro rfl
      rw [hpc] at hb
      cases hb
    obtain ⟨s', hretire, hsound⟩ := h.retire (a := a) (k := .orphan q) v (by rw [hpc]; rfl) (by rw [hpc]; rfl)
      hmake hlaunch (by rw [hpc]; rfl) (fun _ => trivial) trivial rfl
    exact ⟨s', l, by simp only [Skynet.run, hpc]; exact hretire, hsound⟩

/-- **Every step succeeds** that is the thread's to take. -/
theorem Sound.step (weight : T → Option ℕ) (h : Sound s l) (e : Event T) (hfair : Fair s e) (hpresent : Present s e)
    (hbusy : Skynet.step weight s e ≠ .error .busy) :
    ∃ s' l', Skynet.step weight s e = .ok s' ∧ Sound s' l' := by
  have hidle : ∀ {t : T} {x : Except Halt (State T)}, (if s.pc t = .idle then x else .error .busy) ≠ .error .busy →
      s.pc t = .idle := by
    intro t x hx
    by_contra hne
    exact hx (if_neg hne)
  cases e with
  | dispatch t =>
    have hpc := hidle hbusy
    rcases h.take with hpop | ⟨q, s', hpop, hsound⟩
    · exact ⟨s, l, by simp [Skynet.step, hpc, hpop], h⟩
    · obtain ⟨l', hl'⟩ := hsound t (.held q) (by rw [hpc]; exact ⟨rfl, rfl, rfl⟩)
        (by rw [hpc]; exact List.Perm.refl _) trivial
      exact ⟨_, l', by simp [Skynet.step, hpc, hpop], hl'⟩
  | send t v m =>
    have hpc := hidle hbusy
    rcases h.grab v with hgrab | ⟨c, x, s', hslot, hx, hv, hgrab, hsound⟩
    · exact ⟨s, l, by simp [Skynet.step, hpc, hgrab], h⟩
    · refine ⟨s'.goto t (.pushing c m), l, by simp [Skynet.step, hpc, hgrab], hsound t _ ?_ ?_ ?_ ?_ trivial⟩
      · rw [hpc]
        rfl
      · rw [hpc]
        rfl
      · rw [hpc]
        rfl
      · rw [hpc]
        rfl
  | retire t v =>
    have hpc := hidle hbusy
    obtain ⟨s', hretire, hsound⟩ := h.retire (a := t) (k := .idle) v (by rw [hpc]; rfl) (by rw [hpc]; rfl)
      (fun d hd => by rw [hpc] at hd; cases hd) hfair (by rw [hpc]; rfl) (fun _ => trivial) trivial rfl
    exact ⟨s', l, by simp only [Skynet.step, if_pos hpc]; exact hretire, hsound⟩
  | create t v =>
    have hnew : s.pc t = .idle ∧ s.slot v = none := by
      by_contra hne
      exact hbusy (if_neg hne)
    exact ⟨_, l, if_pos hnew, h.create hnew.1 hnew.2 hfair⟩
  | inited t ok =>
    cases hpc : s.pc t with
    | initing c q =>
      obtain ⟨x, hx, hlives⟩ := h.grabbed (a := t) (c := c) (by rw [hpc]; exact List.mem_singleton_self c)
      have hfine := h.counted.fine t
      rw [hpc] at hfine
      have hcq : q = c := hfine
      subst hcq
      refine ⟨_, l, by simp only [Skynet.step, hpc, context_ok hx, bind_ok]; rfl, ?_⟩
      cases ok with
      | true => exact h.goto (by rw [hpc]; exact ⟨rfl, rfl, rfl⟩) (fun p => by rw [hpc]; rfl) rfl
      | false =>
        exact h.goto (by rw [hpc]; exact ⟨rfl, rfl, rfl⟩) (fun p => by rw [hpc]; rfl) ⟨false, hlives.face⟩
    | _ => exact absurd (by simp [Skynet.step, hpc]) hbusy
  | callback t cb =>
    have hset : ∀ c, c ∈ (s.pc t).refs → ∃ s' l', (do
        let x ← s.context c
        Except.ok (s.setcontext c { x with cb := cb }) : Except Halt (State T)) = .ok s' ∧ Sound s' l' := by
      intro c hc
      obtain ⟨x, hx, -⟩ := h.grabbed hc
      exact ⟨s.setcontext c { x with cb := cb }, l, by simp only [context_ok hx, bind_ok], h.callback t hx⟩
    cases hpc : s.pc t with
    | initing c q =>
      simp only [Skynet.step, hpc]
      exact hset c (by rw [hpc]; exact List.mem_singleton_self c)
    | handling q c i n =>
      simp only [Skynet.step, hpc]
      exact hset c (by rw [hpc]; exact List.mem_singleton_self c)
    | _ => exact absurd (by simp [Skynet.step, hpc]) hbusy
  | step t => exact h.run hfair hpresent hbusy

/-! ## A node -/

omit [DecidableEq T] in
theorem sound_initial : Sound (initial : State T) [] where
  listed := ⟨trivial, rfl, rfl, List.nodup_nil, fun _ _ => rfl⟩
  tokens q := by simp [tot, initial, Pc.queues, State.awake]
  counted := by
    refine ⟨fun c => ⟨fun x hx => ?_, fun _ => ?_⟩, fun v c hv => ?_, fun p q v r r' hp => ?_, fun a => trivial⟩
    · cases hx
    · simp [tot, initial, Pc.refs, Pc.marks]
    · cases hv
    · cases hp
  kept := ⟨fun _ => rfl, fun _ _ _ => rfl, fun _ _ => rfl⟩
  unmade _ _ := ⟨rfl, rfl, rfl⟩

omit [Fintype T] in
theorem reachable_step {e : Event T} (h : ((node weight).restrict Fair).Reachable s) (hstep : step weight s e = .ok s')
    (hfair : Fair s e) : ((node weight).restrict Fair).Reachable s' :=
  h.step ⟨hstep, hfair⟩

/-- **Every run keeps the invariant.** -/
theorem sound_of_reachable (h : ((node weight).restrict Fair).Reachable s) : ∃ l, Sound s l := by
  refine h.invariant (P := fun s => ∃ l, Sound s l) ?_ ?_
  · intro s hs
    rw [show s = initial from hs]
    exact ⟨[], sound_initial⟩
  · rintro s e t ⟨hstep, hfair⟩ ⟨l, hl⟩
    have hstep' : Skynet.step weight s e = .ok t := hstep
    have hpresent : Present s e := by
      cases e with
      | step a =>
        intro c hpc
        cases hctx : s.contexts c with
        | some x => rfl
        | none =>
          simp only [Skynet.step, Skynet.run, hpc, State.context, hctx] at hstep'
          cases hstep'
      | _ => trivial
    obtain ⟨t', l', hok, hsound⟩ := hl.step weight e hfair hpresent (by rw [hstep']; intro hbusy; cases hbusy)
    rw [hstep'] at hok
    obtain rfl := Except.ok.inj hok
    exact ⟨l', hsound⟩

/-- A service is started by a thread, which then sends to it, and another thread
handles the message. -/
theorem greeted : ∃ s : State Bool, ((node fun _ => none).restrict Fair).Reachable s ∧
    s.pc false = .handling 0 0 0 1 ∧ s.handled 0 = [⟨1, 1, 0, 0⟩] ∧ (s.contexts 0).isSome := by
  have h0 : ((node fun _ : Bool => none).restrict Fair).Reachable initial := System.Reachable.of_init rfl
  have h1 := reachable_step (e := .create true 1) h0 rfl fun q r hq => by cases hq
  have h1' := reachable_step (e := .callback true true) h1 rfl trivial
  have h2 := reachable_step (e := .inited true true) h1' rfl trivial
  have h3 := reachable_step (e := .step true) h2 rfl fun c q x hpc hx => by
    cases hpc
    cases hx
    exact .inr rfl
  have h4 := reachable_step (e := .step true) h3 rfl fun c q x hpc => by cases hpc
  have h5 := reachable_step (e := .step true) h4 rfl fun c q x hpc => by cases hpc
  have h5' := reachable_step (e := .step true) h5 rfl fun c q x hpc => by cases hpc
  have h6 := reachable_step (e := .send true 1 ⟨1, 1, 0, 0⟩) h5' rfl trivial
  have h7 := reachable_step (e := .dispatch false) h6 rfl trivial
  have h8 := reachable_step (e := .step true) h7 rfl fun c q x hpc => by cases hpc
  have h9 := reachable_step (e := .step false) h8 rfl fun c q x hpc => by cases hpc
  have h10 := reachable_step (e := .step false) h9 rfl fun c q x hpc => by cases hpc
  have h11 := reachable_step (e := .step false) h10 rfl fun c q x hpc => by cases hpc
  exact ⟨_, h11, rfl, rfl, rfl⟩

/-- **No thread reads what is freed and no `assert` fails**, in any run, but where a service
is gone before its start is written to the log. -/
theorem never_faults (h : ((node weight).restrict Fair).Reachable s) {e : Event T} (hfair : Fair s e)
    (hpresent : Present s e) :
    step weight s e = .error .busy ∨ ∃ t, step weight s e = .ok t := by
  obtain ⟨l, hl⟩ := sound_of_reachable h
  by_cases hbusy : step weight s e = .error .busy
  · exact .inl hbusy
  · obtain ⟨t, -, hok, -⟩ := hl.step _ e hfair hpresent hbusy
    exact .inr ⟨t, hok⟩

theorem never_faults_greeted : ∃ s : State Bool, s.pc false = .handling 0 0 0 1 ∧
    (step (fun _ => none) s (.step false) = .error .busy ∨ ∃ t, step (fun _ => none) s (.step false) = .ok t) := by
  obtain ⟨s, hs, hpc, -⟩ := greeted
  refine ⟨s, hpc, never_faults hs (fun c q x hpc' => ?_) fun c hpc' => ?_⟩
  · rw [hpc] at hpc'
    cases hpc'
  · rw [hpc] at hpc'
    cases hpc'

/-- A service that is killed while it starts is written to when it is gone. -/
example : [Event.create true 1, .inited true true, .step true, .retire false 1, .step false, .step false,
    .step true].foldlM (step fun _ => none) (initial : State Bool) = .error .segv := rfl

/-- So is one that is killed before its start is written to the log. -/
example : [Event.create true 1, .inited true true, .step true, .step true, .step true, .retire false 1, .step false,
    .step false, .step true].foldlM (step fun _ => none) (initial : State Bool) = .error .segv := rfl

/-- The service whose module a thread is in: its `init`, its callback or its
`release`. -/
def Pc.calling : Pc → Option Ptr
  | .initing c _ => some c
  | .handling _ c _ _ => some c
  | .marking c _ => some c
  | _ => none

/-- **No two threads are in one service**, in any run. -/
theorem calling_exclusive (h : ((node weight).restrict Fair).Reachable s) (ha : (s.pc a).calling = some c)
    (hb : (s.pc b).calling = some c) : a = b := by
  obtain ⟨l, hl⟩ := sound_of_reachable h
  -- A thread in a service is to delete it, or has its queue and a reference.
  have hcases : ∀ a, (s.pc a).calling = some c →
      c ∈ (s.pc a).marks ∨ c ∈ (s.pc a).refs ∧ c ∈ (s.pc a).queues := by
    intro a ha
    have hfine := hl.counted.fine a
    cases hpc : s.pc a with
    | initing c' q =>
      rw [hpc] at ha hfine
      obtain rfl := Option.some.inj ha
      have hq : q = c' := hfine
      exact .inr ⟨List.mem_singleton_self _, by rw [hq]; exact List.mem_singleton_self _⟩
    | handling q c' i n =>
      rw [hpc] at ha hfine
      obtain rfl := Option.some.inj ha
      exact .inr ⟨List.mem_singleton_self _, by rw [hfine.1]; exact List.mem_singleton_self _⟩
    | marking c' k =>
      rw [hpc] at ha
      obtain rfl := Option.some.inj ha
      exact .inl (List.mem_singleton_self _)
    | _ =>
      rw [hpc] at ha
      cases ha
  have hmarked : ∀ a b, c ∈ (s.pc a).marks → c ∉ (s.pc b).refs := by
    intro a b ha hb
    obtain ⟨x, -, hlives, hzero⟩ := hl.condemned ha
    have hcounted := hlives.counted
    have := List.count_pos_iff.mpr hb
    have := count_le_tot Pc.refs s.pc c b
    split at hcounted <;> omega
  by_contra hab
  rcases hcases a ha with hma | ⟨hra, hqa⟩
  · rcases hcases b hb with hmb | ⟨hrb, -⟩
    · obtain ⟨x, -, hlives, hzero⟩ := hl.condemned hma
      have hmarks := hlives.marked
      rw [if_pos hzero] at hmarks
      have := List.count_pos_iff.mpr hma
      have := List.count_pos_iff.mpr hmb
      have := count_add_le_tot Pc.marks s.pc c hab
      omega
    · exact hmarked a b hma hrb
  · rcases hcases b hb with hmb | ⟨-, hqb⟩
    · exact hmarked b a hmb hra
    · obtain ⟨-, -, -, -, halone⟩ := hl.mine hqa
      exact halone b (Ne.symm hab) hqb

theorem calling_exclusive_greeted : ∃ s : State Bool, (s.pc false).calling = some 0 ∧
    ∀ b, (s.pc b).calling = some 0 → b = false := by
  obtain ⟨s, hs, hpc, -⟩ := greeted
  have hcalling : (s.pc false).calling = some 0 := by
    rw [hpc]
    rfl
  exact ⟨s, hcalling, fun b hb => calling_exclusive hs hb hcalling⟩

/-- **No wake-up is lost**: a queue with messages, or one that is to be dropped, is
on the global queue or with one thread, and not both. -/
theorem awake_placed (h : ((node weight).restrict Fair).Reachable s) : ∃ l, Listed s.head s.tail s.next l ∧
    ∀ q, (s.contents q ≠ [] ∨ ∃ v, s.face q = some (v, true)) →
      (q ∈ l ∧ ∀ a, q ∉ (s.pc a).queues) ∨ (q ∉ l ∧ ∃ a, ∀ b, q ∈ (s.pc b).queues ↔ b = a) := by
  obtain ⟨l, hl⟩ := sound_of_reachable h
  refine ⟨l, hl.listed, fun q hq => ?_⟩
  have hawake : s.awake q = true := by
    rcases hq with hq | ⟨v, hv⟩
    · by_contra hasleep
      exact hq (hl.kept.asleep q (Bool.eq_false_iff.mpr hasleep))
    · obtain ⟨mq, hmq, hface⟩ := Option.map_eq_some_iff.mp hv
      rw [awake_eq hmq, (Prod.mk.inj hface).2, Bool.or_true]
  have htok := hl.tokens q
  rw [if_pos hawake] at htok
  by_cases hmem : q ∈ l
  · refine .inl ⟨hmem, fun a ha => ?_⟩
    obtain ⟨-, -, -, hnot, -⟩ := hl.mine ha
    exact hnot hmem
  · rw [List.count_eq_zero.mpr hmem] at htok
    obtain ⟨a, -, ha⟩ := Finset.exists_ne_zero_of_sum_ne_zero (by rw [tot] at htok; omega : ∑ t, (s.pc t).queues.count q ≠ 0)
    have ha' := List.count_pos_iff.mp (Nat.pos_of_ne_zero ha)
    refine .inr ⟨hmem, a, fun b => ⟨fun hb => ?_, fun hb => by rw [hb]; exact ha'⟩⟩
    obtain ⟨-, -, -, -, halone⟩ := hl.mine ha'
    by_contra hne
    exact halone b hne hb

theorem awake_placed_greeted : ∃ s : State Bool, s.pc false = .handling 0 0 0 1 ∧
    ∃ l, Listed s.head s.tail s.next l ∧ ∀ q, (s.contents q ≠ [] ∨ ∃ v, s.face q = some (v, true)) →
      (q ∈ l ∧ ∀ a, q ∉ (s.pc a).queues) ∨ (q ∉ l ∧ ∃ a, ∀ b, q ∈ (s.pc b).queues ↔ b = a) := by
  obtain ⟨s, hs, hpc, -⟩ := greeted
  exact ⟨s, hpc, awake_placed hs⟩

/-- **Every message leaves once and in its turn**: those of a queue that a worker took
out, those that were dropped and those that wait are those that were sent, and
none is dropped while the service is there. -/
theorem delivered (h : ((node weight).restrict Fair).Reachable s) (q : Ptr) :
    s.sent q = s.handled q ++ s.dropped q ++ s.contents q ∧ ((s.contexts q).isSome → s.dropped q = []) := by
  obtain ⟨l, hl⟩ := sound_of_reachable h
  refine ⟨hl.kept.fifo q, fun hq => ?_⟩
  obtain ⟨x, hx⟩ := Option.isSome_iff_exists.mp hq
  exact hl.kept.undropped q x.handle ((hl.counted.held q).lives x hx).face

theorem delivered_greeted : ∃ s : State Bool, s.handled 0 = [⟨1, 1, 0, 0⟩] ∧ (s.contexts 0).isSome ∧
    s.sent 0 = s.handled 0 ++ s.dropped 0 ++ s.contents 0 ∧ ((s.contexts 0).isSome → s.dropped 0 = []) := by
  obtain ⟨s, hs, -, hhandled, hctx⟩ := greeted
  exact ⟨s, hhandled, hctx, delivered hs 0⟩

end Skynet

end Athena
