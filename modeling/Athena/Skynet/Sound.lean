import Athena.Skynet.Dispatch
/-!
# Services and their message queues — contexts

Every step of a thread finds what it reads, passes its `assert`s and leaves what it
found in order (`Sound.run`).
-/

namespace Athena

namespace Skynet

variable {T : Type} [Fintype T] {s s' : State T} {l l' : List Ptr} {p q c : Ptr} {mq : MessageQueue}
  {m : Message} {x : Context} {a b : T} {pc z : Pc} {k : Next} {weight : T → Option ℕ}

/-! ## What a thread finds -/

theorem Sound.alive (h : Sound s l) (hq : 0 < l.count q + tot Pc.queues s.pc q) :
    ∃ mq, s.queues q = some mq ∧ (mq.inGlobal || mq.release) = true := by
  have htok := h.tokens q
  by_cases hawake : s.awake q = true
  · obtain ⟨mq, hmq, hflag⟩ := (Option.any_eq_true _ _).mp hawake
    exact ⟨mq, hmq, hflag⟩
  · rw [if_neg hawake] at htok
    omega

theorem Sound.listed_alive (h : Sound s l) (p : Ptr) (hp : p ∈ l) : (s.queues p).isSome := by
  have hpos := List.count_pos_iff.mpr hp
  obtain ⟨mq, hmq, -⟩ := h.alive (q := p) (by omega)
  simp [hmq]

/-- A queue that a thread has is there, and nowhere else. -/
theorem Sound.mine (h : Sound s l) (hq : q ∈ (s.pc a).queues) :
    ∃ mq, s.queues q = some mq ∧ (mq.inGlobal || mq.release) = true ∧ q ∉ l ∧
      ∀ b, b ≠ a → q ∉ (s.pc b).queues := by
  have hpos := List.count_pos_iff.mpr hq
  have hle := count_le_tot Pc.queues s.pc q a
  have htok := h.tokens q
  have hone : (if s.awake q then 1 else 0) ≤ 1 := by split <;> omega
  obtain ⟨mq, hmq, hflag⟩ := h.alive (q := q) (by omega)
  refine ⟨mq, hmq, hflag, fun hmem => ?_, fun b hb hmem => ?_⟩
  · have := List.count_pos_iff.mpr hmem
    omega
  · have := List.count_pos_iff.mpr hmem
    have := count_add_le_tot Pc.queues s.pc q hb
    omega

/-- A context that a thread has grabbed is there. -/
theorem Sound.grabbed (h : Sound s l) (hc : c ∈ (s.pc a).refs) :
    ∃ x, s.contexts c = some x ∧ Lives s c x := by
  have hpos := List.count_pos_iff.mpr hc
  have hle := count_le_tot Pc.refs s.pc c a
  cases hx : s.contexts c with
  | none =>
    have := ((h.counted.held c).gone hx).1
    omega
  | some x => exact ⟨x, rfl, (h.counted.held c).lives x hx⟩

/-- One that a thread is to delete is there as well, and nobody has it. -/
theorem Sound.condemned (h : Sound s l) (hc : c ∈ (s.pc a).marks) :
    ∃ x, s.contexts c = some x ∧ Lives s c x ∧ x.ref = 0 := by
  have hpos := List.count_pos_iff.mpr hc
  have hle := count_le_tot Pc.marks s.pc c a
  cases hx : s.contexts c with
  | none =>
    have := ((h.counted.held c).gone hx).2
    omega
  | some x =>
    have hlives := (h.counted.held c).lives x hx
    refine ⟨x, rfl, hlives, ?_⟩
    have hmarked := hlives.marked
    split at hmarked
    · assumption
    · omega

/-! ## Steps that leave services as they are -/

/-- The global queue and the threads apart, all that is spoken of is the same. -/
structure Same (s s' : State T) : Prop where
  contexts : s'.contexts = s.contexts
  slot : s'.slot = s.slot
  face : s'.face = s.face
  awake : s'.awake = s.awake
  contents : s'.contents = s.contents
  fresh : s'.fresh = s.fresh
  sent : s'.sent = s.sent
  handled : s'.handled = s.handled
  dropped : s'.dropped = s.dropped

/-- The thread keeps the contexts it has. -/
structure Like (pc z : Pc) : Prop where
  refs : z.refs = pc.refs
  marks : z.marks = pc.marks
  creates : z.creates = pc.creates

omit [Fintype T] in
theorem Kept.same (h : Kept s) (hs : Same s s') : Kept s' where
  fifo q := by
    rw [hs.sent, hs.handled, hs.dropped, hs.contents]
    exact h.fifo q
  undropped q v hq := by
    rw [hs.face] at hq
    rw [hs.dropped]
    exact h.undropped q v hq
  asleep q hq := by
    rw [hs.awake] at hq
    rw [hs.contents]
    exact h.asleep q hq

variable [DecidableEq T]

theorem Sound.shift (h : Sound s l) (hs : Same s s') (hl : Listed s'.head s'.tail s'.next l')
    (hpc : s'.pc = Function.update s.pc a z) (hlike : Like (s.pc a) z)
    (hmove : ∀ q, l'.count q + z.queues.count q = l.count q + (s.pc a).queues.count q)
    (hfine : Fine s z) : Sound s' l' where
  listed := hl
  tokens := h.tokens.move hpc fun q => by
    have := hmove q
    rw [hs.awake]
    omega
  counted := h.counted.stay hpc hs.contexts hs.face hs.slot (fun d => by rw [hlike.refs])
    (fun d => by rw [hlike.marks]) (fun d _ _ _ hd => by rw [hlike.creates]; exact hd)
    (hfine.keep hs.face hs.slot fun d x hx => ⟨x, by rw [hs.contexts]; exact hx, rfl, id⟩)
  kept := h.kept.same hs
  unmade p hp := by
    rw [hs.fresh] at hp
    rw [hs.face, hs.contexts, hs.sent]
    exact h.unmade p hp

/-- A thread goes on. -/
theorem Sound.goto (h : Sound s l) (hlike : Like (s.pc a) z)
    (hmove : ∀ q, z.queues.count q = (s.pc a).queues.count q) (hfine : Fine s z) :
    Sound (s.goto a z) l :=
  h.shift ⟨rfl, rfl, rfl, rfl, rfl, rfl, rfl, rfl, rfl⟩ h.listed rfl hlike
    (fun q => by rw [hmove q]) hfine

/-- A thread gives a queue to the global queue. -/
theorem Sound.give (h : Sound s l) (hlike : Like (s.pc a) z)
    (hmove : (s.pc a).queues.Perm (q :: z.queues)) (hfine : Fine s z) :
    ∃ s', globalmq_push s q = .ok s' ∧ Sound (s'.goto a z) (l ++ [q]) := by
  obtain ⟨mq, hmq, -, hnot, -⟩ := h.mine (a := a) (q := q) (hmove.mem_iff.mpr List.mem_cons_self)
  obtain ⟨head, tail, next, hpush, hl⟩ := globalmq_push_spec h.listed (by simp [hmq]) hnot h.listed_alive
  refine ⟨_, hpush, h.shift ⟨rfl, rfl, rfl, rfl, rfl, rfl, rfl, rfl, rfl⟩ hl rfl hlike (fun p => ?_) hfine⟩
  have := hmove.count_eq p
  rw [List.count_append, this, List.count_cons, List.count_cons]
  simp only [List.count_nil]
  omega

/-- A thread takes a queue from it. -/
theorem Sound.take (h : Sound s l) : globalmq_pop s = .ok (none, s) ∨
    ∃ q s', globalmq_pop s = .ok (some q, s') ∧ ∀ a z, Like (s.pc a) z →
      z.queues.Perm (q :: (s.pc a).queues) → Fine s z → ∃ l', Sound (s'.goto a z) l' := by
  rcases globalmq_pop_spec h.listed h.listed_alive with ⟨-, hpop⟩ | ⟨q, l', head, tail, next, rfl, hpop, hl⟩
  · exact .inl hpop
  · refine .inr ⟨q, _, hpop, fun a z hlike hmove hfine => ⟨l', ?_⟩⟩
    refine h.shift ⟨rfl, rfl, rfl, rfl, rfl, rfl, rfl, rfl, rfl⟩ hl rfl hlike (fun p => ?_) hfine
    rw [hmove.count_eq p, List.count_cons, List.count_cons]
    omega

/-! ## Steps at a context -/

theorem Counted.recount {r : ℤ} {i b : Bool} (h : Counted s) (hx : s.contexts c = some x)
    (hpc : s'.pc = Function.update s.pc a z)
    (hctx : s'.contexts = Function.update s.contexts c (some { x with ref := r, init := i, cb := b }))
    (hface : s'.face = s.face) (hslot : s'.slot = s.slot) (hi : x.init = true → i = true)
    (hrefs : ∀ d, d ≠ c → z.refs.count d = (s.pc a).refs.count d)
    (hmarks : ∀ d, d ≠ c → z.marks.count d = (s.pc a).marks.count d)
    (hcreates : ∀ d, d ≠ c ∨ i = false → (s.pc a).creates = some d → z.creates = some d)
    (hr : r + (s.pc a).refs.count c = x.ref + z.refs.count c)
    (hm : (if r = 0 then 1 else 0) + (s.pc a).marks.count c = (if x.ref = 0 then 1 else 0) + z.marks.count c)
    (hfine : Fine s' z) : Counted s' := by
  have hlives := (h.held c).lives x hx
  have hself : s'.contexts c = some { x with ref := r, init := i, cb := b } := by rw [hctx, Function.update_self]
  refine h.move (a := a) (z := z) (c := c) ⟨hpc, fun d hd => by rw [hctx, Function.update_of_ne hd],
    fun d _ => by rw [hface], fun v d _ => by rw [hslot], hrefs, hmarks,
    fun d _ hd _ _ => hcreates d (.inl hd)⟩ ⟨?_, ?_⟩ ?_ ?_ hfine ?_
  · intro x' hx'
    rw [hself] at hx'
    obtain rfl := Option.some.inj hx'
    have htot := tot_update Pc.refs s.pc c a z
    have htot' := tot_update Pc.marks s.pc c a z
    rw [← hpc] at htot htot'
    have hcounted := hlives.counted
    have hmarked := hlives.marked
    refine ⟨hlives.queue, by rw [hface]; exact hlives.face, ?_, ?_, fun hi' hs => ?_⟩
    · simp only [hslot]
      omega
    · simp only
      omega
    · rw [hslot] at hs
      rw [hpc]
      refine creates_update (hcreates c (.inr hi')) (hlives.ready ?_ hs)
      cases hinit : x.init with
      | false => rfl
      | true => exact absurd (hi hinit) (by simp_all)
  · intro hnone
    rw [hself] at hnone
    cases hnone
  · intro v hv
    rw [hslot] at hv
    obtain ⟨x', hx', hv'⟩ := h.slotted v c hv
    obtain rfl := Option.some.inj (hx.symm.trans hx')
    exact ⟨_, hself, hv'⟩
  · intro v r hv p r' hp hpv
    rw [hface] at hv
    exact hp (h.handles p c v r' r hpv hv)
  · intro b _
    refine (h.fine b).keep hface hslot fun d y hy => ?_
    by_cases hd : d = c
    · subst hd
      obtain rfl := Option.some.inj (hx.symm.trans hy)
      exact ⟨_, hself, rfl, hi⟩
    · exact ⟨y, by rw [hctx, Function.update_of_ne hd]; exact hy, rfl, id⟩

/-- A count or a flag of a context changes. -/
theorem Sound.recount {r : ℤ} {i b : Bool} (h : Sound s l) (hx : s.contexts c = some x)
    (hmove : ∀ q, z.queues.count q = (s.pc a).queues.count q) (hi : x.init = true → i = true)
    (hrefs : ∀ d, d ≠ c → z.refs.count d = (s.pc a).refs.count d)
    (hmarks : ∀ d, d ≠ c → z.marks.count d = (s.pc a).marks.count d)
    (hcreates : ∀ d, d ≠ c ∨ i = false → (s.pc a).creates = some d → z.creates = some d)
    (hr : r + (s.pc a).refs.count c = x.ref + z.refs.count c)
    (hm : (if r = 0 then 1 else 0) + (s.pc a).marks.count c = (if x.ref = 0 then 1 else 0) + z.marks.count c)
    (hfine : Fine (s.setcontext c { x with ref := r, init := i, cb := b }) z) :
    Sound ((s.setcontext c { x with ref := r, init := i, cb := b }).goto a z) l where
  listed := h.listed
  tokens := h.tokens.move rfl fun q => by
    have := hmove q
    change _ + (if s.awake q then 1 else 0) = _ + (if s.awake q then 1 else 0)
    omega
  counted := h.counted.recount hx rfl rfl rfl rfl hi hrefs hmarks hcreates hr hm
    (hfine.keep rfl rfl fun d y hy => ⟨y, hy, rfl, id⟩)
  kept := ⟨h.kept.fifo, h.kept.undropped, h.kept.asleep⟩
  unmade p hp := by
    obtain ⟨hface, hctx, hsent⟩ := h.unmade p hp
    refine ⟨hface, ?_, hsent⟩
    have hpc : p ≠ c := by
      rintro rfl
      rw [hx] at hctx
      cases hctx
    change Function.update s.contexts c _ p = none
    rw [Function.update_of_ne hpc]
    exact hctx

omit [DecidableEq T] in
/-- Whose handle a queue has. -/
theorem Sound.owner {r : Bool} (h : Sound s l) (hslot : s.slot x.handle = some c)
    (hq : s.face q = some (x.handle, r)) : q = c := by
  obtain ⟨y, hy, hv⟩ := h.counted.slotted x.handle c hslot
  have hface := ((h.counted.held c).lives y hy).face
  rw [hv] at hface
  exact h.counted.handles q c x.handle r false hq hface

/-- **`skynet_handle_grab`** counts the reference it gives. -/
theorem Sound.grab (h : Sound s l) (v : ℕ) : grab s v = .ok (none, s) ∨ ∃ c x s',
    s.slot v = some c ∧ s.contexts c = some x ∧ x.handle = v ∧ grab s v = .ok (some c, s') ∧
      ∀ a z, z.refs = c :: (s.pc a).refs → z.marks = (s.pc a).marks →
        z.creates = (s.pc a).creates → z.queues = (s.pc a).queues → Fine s z →
        Sound (s'.goto a z) l := by
  cases hslot : s.slot v with
  | none => exact .inl (by simp [Skynet.grab, hslot])
  | some c =>
    obtain ⟨x, hx, hv⟩ := h.counted.slotted v c hslot
    have hlives := (h.counted.held c).lives x hx
    refine .inr ⟨c, x, s.setcontext c { x with ref := x.ref + 1 }, rfl, hx, hv, ?_,
      fun a z hrefs hmarks hcreates hqueues hfine => ?_⟩
    · simp [Skynet.grab, hslot, context_ok hx, hv]
    · have hcounted := hlives.counted
      rw [if_pos (by rw [hv]; exact hslot)] at hcounted
      have hctx : ∀ d y, s.contexts d = some y → ∃ y', (s.setcontext c { x with ref := x.ref + 1 }).contexts d =
          some y' ∧ y'.handle = y.handle ∧ (y.init = true → y'.init = true) := by
        intro d y hy
        by_cases hd : d = c
        · subst hd
          obtain rfl := Option.some.inj (hx.symm.trans hy)
          exact ⟨_, Function.update_self .., rfl, id⟩
        · exact ⟨y, (Function.update_of_ne hd ..).trans hy, rfl, id⟩
      refine h.recount hx (fun q => by rw [hqueues]) id (fun d hd => ?_) (fun d _ => by rw [hmarks])
        (fun d _ hd => by rw [hcreates]; exact hd) ?_ ?_ (hfine.keep rfl rfl hctx)
      · rw [hrefs, List.count_cons_of_ne hd.symm]
      · rw [hrefs, List.count_cons_self]
        omega
      · rw [hmarks, if_neg (by omega), if_neg (by omega)]

@[simp] theorem Next.queues_after (k : Next) (c : Ptr) : (k.after c).queues = k.queues := by cases k <;> rfl

@[simp] theorem Next.queues_gone (k : Next) : k.gone.queues = k.queues := by cases k <;> rfl

@[simp] theorem Next.refs_after (k : Next) (c : Ptr) : (k.after c).refs = [] := by cases k <;> rfl

@[simp] theorem Next.refs_gone (k : Next) : k.gone.refs = [] := by cases k <;> rfl

@[simp] theorem Next.marks_after (k : Next) (c : Ptr) : (k.after c).marks = [] := by cases k <;> rfl

@[simp] theorem Next.marks_gone (k : Next) : k.gone.marks = [] := by cases k <;> rfl

@[simp] theorem Next.creates_after (k : Next) (c : Ptr) : (k.after c).creates = k.creates := by cases k <;> rfl

/-- A step that is taken. -/
def Runs (weight : T → Option ℕ) (s : State T) (a : T) : Prop :=
  ∃ s' l', run weight s a = .ok s' ∧ Sound s' l'

/-- **`skynet_context_release`**, up to `delete_context`. -/
theorem Sound.release (h : Sound s l) (hpc : s.pc a = .releasing c k)
    (hsteady : ∀ q x, k = .launch q → s.contexts c = some x → x.ref = 1 ∨ s.slot x.handle = some c) :
    Runs weight s a := by
  obtain ⟨x, hx, hlives⟩ := h.grabbed (a := a) (c := c) (by rw [hpc]; exact List.mem_singleton_self c)
  have hcounted := hlives.counted
  have hle := count_le_tot Pc.refs s.pc c a
  have hfine := h.counted.fine a
  rw [hpc] at hle hfine
  have hone : (Pc.releasing c k).refs.count c = 1 := List.count_singleton_self
  have hpos : 0 < x.ref := by
    split at hcounted <;> omega
  have hother : ∀ d, d ≠ c → (Pc.releasing c k).refs.count d = 0 := fun d hd => by
    simp [Pc.refs, hd.symm]
  by_cases hzero : x.ref - 1 = 0
  · refine ⟨(s.setcontext c { x with ref := x.ref - 1 }).goto a (.marking c k), l,
      by simp [run, hpc, context_ok hx, hzero], ?_⟩
    refine h.recount hx ?_ id ?_ ?_ ?_ ?_ ?_ ?_
    · intro q
      rw [hpc]
      rfl
    · intro d hd
      rw [hpc, hother d hd]
      rfl
    · intro d hd
      rw [hpc]
      simp [Pc.marks, hd.symm]
    · intro d _ hd
      rw [hpc] at hd
      exact hd
    · rw [hpc, hone]
      simp [Pc.refs]
    · rw [hpc, if_pos hzero, if_neg (by omega)]
      simp [Pc.marks]
    · cases k <;> exact hfine
  · refine ⟨(s.setcontext c { x with ref := x.ref - 1 }).goto a (k.after c), l,
      by simp [run, hpc, context_ok hx, hzero], ?_⟩
    refine h.recount hx ?_ id ?_ ?_ ?_ ?_ ?_ ?_
    · intro q
      rw [hpc, Next.queues_after]
      rfl
    · intro d hd
      rw [hpc, hother d hd, Next.refs_after]
      rfl
    · intro d _
      rw [hpc, Next.marks_after]
      rfl
    · intro d _ hd
      rw [hpc] at hd
      rw [Next.creates_after]
      exact hd
    · rw [hpc, hone]
      simp
    · rw [hpc, if_neg hzero, if_neg (by omega), Next.marks_after]
      rfl
    · cases k with
      | launch q =>
        refine ⟨hfine, _, Function.update_self .., ?_⟩
        rcases hsteady q x rfl hx with hone | hslot
        · omega
        · exact hslot
      | fail q v => exact hfine
      | _ => trivial

/-- `ctx->init = true`. -/
theorem Sound.launch (h : Sound s l) (hpc : s.pc a = .launching c q) : Runs weight s a := by
  have hfine := h.counted.fine a
  rw [hpc] at hfine
  obtain ⟨rfl, x, hx, -⟩ := hfine
  refine ⟨(s.setcontext q { x with init := true }).goto a (.enqueuing q (some q)), l,
    by simp [run, hpc, context_ok hx], ?_⟩
  refine h.recount hx ?_ (fun _ => rfl) ?_ ?_ ?_ ?_ ?_ trivial
  · intro p
    rw [hpc]
    rfl
  · intro d _
    rw [hpc]
    rfl
  · intro d _
    rw [hpc]
    rfl
  · rintro d (hd | hd) hcreates
    · rw [hpc] at hcreates
      exact absurd (Option.some.inj hcreates).symm hd
    · cases hd
  · rw [hpc]
    rfl
  · rw [hpc]
    rfl

omit [DecidableEq T] in
/-- Nobody has the handle of a context that nobody counts. -/
theorem Counted.unslotted (h : Counted s) (hx : s.contexts c = some x) (hzero : x.ref = 0) (v : ℕ) :
    s.slot v ≠ some c := by
  intro hv
  obtain ⟨y, hy, rfl⟩ := h.slotted v c hv
  obtain rfl := Option.some.inj (hx.symm.trans hy)
  have hcounted := ((h.held c).lives x hx).counted
  rw [hzero, if_pos hv] at hcounted
  omega

theorem Counted.delete (h : Counted s) (hpc : s.pc a = .marking c k) (hx : s.contexts c = some x)
    (hzero : x.ref = 0) (hpc' : s'.pc = Function.update s.pc a k.gone)
    (hctx : s'.contexts = Function.update s.contexts c none)
    (hface : s'.face = Function.update s.face c (some (x.handle, true))) (hslot : s'.slot = s.slot) :
    Counted s' := by
  have hfine := h.fine a
  rw [hpc] at hfine
  have hlives := (h.held c).lives x hx
  have hcounted := hlives.counted
  rw [hzero, if_neg (h.unslotted hx hzero _)] at hcounted
  have hmarked := hlives.marked
  rw [if_pos hzero] at hmarked
  have hnames : ∀ q v r, s.face q = some (v, r) → ∃ r', s'.face q = some (v, r') ∧ (r = true → r' = true) := by
    intro q v r hr
    rw [hface]
    by_cases hq : q = c
    · subst hq
      rw [hlives.face] at hr
      obtain ⟨rfl, -⟩ := Prod.mk.inj (Option.some.inj hr)
      exact ⟨true, Function.update_self .., fun _ => rfl⟩
    · exact ⟨r, (Function.update_of_ne hq ..).trans hr, id⟩
  refine h.move (a := a) (z := k.gone) (c := c) ⟨hpc', ?_, ?_, ?_, ?_, ?_, ?_⟩ ⟨?_, ?_⟩ ?_ ?_ ?_ ?_
  · intro d hd
    rw [hctx, Function.update_of_ne hd]
  · intro d hd
    rw [hface, Function.update_of_ne hd]
  · intro v d _
    rw [hslot]
  · intro d _
    rw [hpc, Next.refs_gone]
    rfl
  · intro d hd
    rw [hpc, Next.marks_gone]
    simp [Pc.marks, hd.symm]
  · intro d y hd _ _ hcreates
    rw [hpc] at hcreates
    cases k with
    | launch q =>
      obtain rfl := Option.some.inj hcreates
      exact absurd hfine hd
    | _ => exact hcreates
  · intro y hy
    rw [hctx, Function.update_self] at hy
    cases hy
  · intro _
    have hrefs := tot_update Pc.refs s.pc c a k.gone
    have hmarks := tot_update Pc.marks s.pc c a k.gone
    rw [hpc, Next.refs_gone, ← hpc'] at hrefs
    rw [hpc, Next.marks_gone, ← hpc'] at hmarks
    simp only [Pc.refs, Pc.marks, List.count_nil, List.count_singleton_self] at hrefs hmarks
    omega
  · intro v hv
    rw [hslot] at hv
    exact absurd hv (h.unslotted hx hzero v)
  · intro v r hv p r' hp hpv
    rw [hface, Function.update_self] at hv
    obtain ⟨rfl, -⟩ := Prod.mk.inj (Option.some.inj hv)
    exact hp (h.handles p c _ r' false hpv hlives.face)
  · cases k with
    | fail q v =>
      obtain ⟨r, hr⟩ := hfine
      obtain ⟨r', hr', -⟩ := hnames q v r hr
      exact ⟨r', hr'⟩
    | _ => trivial
  · intro b _
    refine (h.fine b).mono ?_ (fun q v r _ => hnames q v r) ?_
    · intro d y hd hy hi
      have hdc : d ≠ c := by
        rintro rfl
        have := List.count_pos_iff.mpr hd
        have := count_le_tot Pc.refs s.pc d b
        omega
      exact ⟨y, by rw [hctx, Function.update_of_ne hdc]; exact hy, hi⟩
    · intro d y _ hy hs
      have hdc : d ≠ c := by
        rintro rfl
        exact h.unslotted hx hzero _ hs
      exact ⟨y, by rw [hctx, Function.update_of_ne hdc]; exact hy, by rw [hslot]; exact hs⟩

omit [Fintype T] [DecidableEq T] in
theorem Kept.mark (h : Kept s) (hmq : s.queues q = some mq) (hsent : s'.sent = s.sent)
    (hhandled : s'.handled = s.handled) (hdropped : s'.dropped = s.dropped)
    (hqueues : s'.queues = Function.update s.queues q (some { mq with release := true })) : Kept s' := by
  have hcontents : ∀ p, s'.contents p = s.contents p := by
    intro p
    by_cases hp : p = q
    · subst hp
      simp [State.contents, hqueues, hmq]
    · simp [State.contents, hqueues, hp]
  refine ⟨fun p => ?_, fun p v hp => ?_, fun p hp => ?_⟩
  · rw [hsent, hhandled, hdropped, hcontents]
    exact h.fifo p
  · have hpq : p ≠ q := by
      rintro rfl
      simp [State.face, hqueues] at hp
    rw [hdropped]
    refine h.undropped p v ?_
    simpa [State.face, hqueues, hpq] using hp
  · rw [hcontents]
    have hpq : p ≠ q := by
      rintro rfl
      simp [State.awake, hqueues] at hp
    refine h.asleep p ?_
    simpa [State.awake, hqueues, hpq] using hp

/-- **`delete_context`** leaves the queue to the worker that has it, or to the
global queue. -/
theorem Sound.delete (h : Sound s l) (hpc : s.pc a = .marking c k) : Runs weight s a := by
  obtain ⟨x, hx, hlives, hzero⟩ := h.condemned (a := a) (c := c) (by rw [hpc]; exact List.mem_singleton_self c)
  obtain ⟨mq, hmq, hmq'⟩ := Option.map_eq_some_iff.mp hlives.face
  obtain ⟨hhandle, hrelease⟩ := Prod.mk.inj hmq'
  have hawake : (s.setqueue c { mq with release := true }).awake = Function.update s.awake c true := by
    rw [awake_setqueue, Bool.or_true]
  -- What does not depend on whether the queue is on the global queue already.
  have hrest : ∀ (s' : State T) (l' : List Ptr), s'.queues = (s.setqueue c { mq with release := true }).queues → s'.contexts = s.contexts →
      s'.slot = s.slot → s'.fresh = s.fresh → s'.pc = s.pc → s'.sent = s.sent → s'.handled = s.handled →
      s'.dropped = s.dropped → Listed s'.head s'.tail s'.next l' →
      (∀ q, l'.count q + (if s.awake q then 1 else 0) =
        l.count q + (if Function.update s.awake c true q then 1 else 0)) →
      Sound ({ s' with contexts := Function.update s'.contexts c none }.goto a k.gone) l' := by
    intro s' l' hqueues hctx hslot hfresh hpc' hsent hhandled hdropped hl hcount
    have hawake' : s'.awake = Function.update s.awake c true := by
      rw [← hawake]
      funext q
      simp only [State.awake, hqueues]
    have hface : s'.face = Function.update s.face c (some (x.handle, true)) := by
      have hset : (s.setqueue c { mq with release := true }).face =
          Function.update s.face c (some (mq.handle, true)) := face_setqueue
      rw [← hhandle, ← hset]
      funext q
      simp only [State.face, hqueues]
    refine ⟨hl, h.tokens.move (z := k.gone) (a := a) (by simp [State.goto, hpc']) fun q => ?_,
      h.counted.delete hpc hx hzero (by simp [State.goto, hpc']) (by simp [State.goto, hctx]) hface hslot,
      h.kept.mark hmq hsent hhandled hdropped hqueues, fun p hp => ?_⟩
    · have hq := hcount q
      rw [hpc, Next.queues_gone]
      change _ = _ + (if s'.awake q then 1 else 0)
      rw [hawake']
      change l'.count q + k.queues.count q + _ = l.count q + k.queues.count q + _
      omega
    · obtain ⟨hp', hctx', hsent'⟩ := h.unmade p (by rw [← hfresh]; exact hp)
      have hpc'' : p ≠ c := by
        rintro rfl
        rw [hx] at hctx'
        cases hctx'
      refine ⟨(congrFun hface p).trans ((Function.update_of_ne hpc'' ..).trans hp'), ?_, ?_⟩
      · simp [State.goto, hpc'', hctx, hctx']
      · simp [State.goto, hsent, hsent']
  have hrun : run weight s a = (if mq.inGlobal then .ok (s.setqueue c { mq with release := true })
      else globalmq_push (s.setqueue c { mq with release := true }) c) >>= fun s =>
        .ok ({ s with contexts := Function.update s.contexts c none }.goto a k.gone) := by
    simp [run, hpc, context_ok hx, hlives.queue, mq_mark_release, queue_ok hmq, hrelease]
  unfold Runs
  rw [hrun]
  have hflag := awake_eq hmq
  rw [hrelease, Bool.or_false] at hflag
  by_cases hglobal : mq.inGlobal = true
  · rw [if_pos hglobal]
    refine ⟨_, l, rfl, hrest _ _ rfl rfl rfl rfl rfl rfl rfl rfl h.listed fun q => ?_⟩
    rw [Function.update_eq_self_iff.mpr (by rw [hflag, hglobal])]
  · rw [if_neg hglobal]
    have hcount := h.tokens c
    rw [hflag, if_neg hglobal] at hcount
    have hnot : c ∉ l := fun hmem => by
      have := List.count_pos_iff.mpr hmem
      omega
    obtain ⟨head, tail, next, hpush, hl⟩ := globalmq_push_spec (s := s.setqueue c { mq with release := true }) (q := c)
      h.listed (by simp [State.setqueue]) hnot fun p hp => by
        by_cases hpc' : p = c
        · simp [State.setqueue, hpc']
        · simpa [State.setqueue, hpc'] using h.listed_alive p hp
    rw [hpush]
    refine ⟨_, _, rfl, hrest _ _ rfl rfl rfl rfl rfl rfl rfl rfl hl fun q => ?_⟩
    rw [List.count_append]
    by_cases hqc : q = c
    · subst hqc
      rw [Function.update_self, hflag, if_neg hglobal]
      simp
    · rw [Function.update_of_ne hqc]
      simp [Ne.symm hqc]

/-! ## Handles come and go -/

theorem Counted.unslot (h : Counted s) {v : ℕ} (hv : s.slot v = some c) (hrefs : (s.pc a).refs = [])
    (hmarks : (s.pc a).marks = []) (hcreates : ∀ d, (s.pc a).creates = some d → ∃ r, s.face d = some (v, r))
    (hlaunch : ∀ b q, s.pc b ≠ .launching c q)
    (hpc : s'.pc = Function.update s.pc a (.releasing c k)) (hctx : s'.contexts = s.contexts)
    (hface : s'.face = s.face) (hslot : s'.slot = Function.update s.slot v none)
    (hfine : Fine s' (.releasing c k)) : Counted s' := by
  obtain ⟨x, hx, hxv⟩ := h.slotted v c hv
  subst hxv
  have hlives := (h.held c).lives x hx
  have hcounted := hlives.counted
  rw [if_pos hv] at hcounted
  have hmarked := hlives.marked
  rw [if_neg (by omega)] at hmarked
  have hkeep : ∀ w d, d ≠ c → (s'.slot w = some d ↔ s.slot w = some d) := by
    intro w d hd
    rw [hslot]
    by_cases hw : w = x.handle
    · subst hw
      rw [Function.update_self, hv]
      simp [hd.symm]
    · rw [Function.update_of_ne hw]
  have hnone : ∀ w, s'.slot w ≠ some c := by
    intro w hw
    rw [hslot] at hw
    by_cases hwx : w = x.handle
    · rw [hwx, Function.update_self] at hw
      cases hw
    · rw [Function.update_of_ne hwx] at hw
      obtain ⟨y, hy, hyw⟩ := h.slotted w c hw
      obtain rfl := Option.some.inj (hx.symm.trans hy)
      exact hwx hyw.symm
  refine h.move (a := a) (z := .releasing c k) (c := c) ⟨hpc, ?_, ?_, hkeep, ?_, ?_, ?_⟩ ⟨?_, ?_⟩ ?_ ?_ hfine ?_
  · intro d _
    rw [hctx]
  · intro d _
    rw [hface]
  · intro d hd
    rw [hrefs]
    simp [Pc.refs, hd.symm]
  · intro d _
    rw [hmarks]
    rfl
  · intro d y hd hy hs hmake
    obtain ⟨r, hr⟩ := hcreates d hmake
    exact absurd (h.handles d c x.handle r false hr hlives.face) hd
  · intro y hy
    rw [hctx, hx] at hy
    obtain rfl := Option.some.inj hy
    have htot := tot_update Pc.refs s.pc c a (.releasing c k)
    have htot' := tot_update Pc.marks s.pc c a (.releasing c k)
    rw [hrefs, ← hpc] at htot
    rw [hmarks, ← hpc] at htot'
    simp only [Pc.refs, Pc.marks, List.count_nil, List.count_singleton_self] at htot htot'
    refine ⟨hlives.queue, by rw [hface]; exact hlives.face, ?_, ?_, fun _ hs => absurd hs (hnone _)⟩
    · rw [if_neg (hnone _)]
      omega
    · rw [if_neg (by omega)]
      omega
  · intro hgone
    rw [hctx, hx] at hgone
    cases hgone
  · intro w hw
    exact absurd hw (hnone w)
  · intro w r hw p r' hp hpw
    rw [hface] at hw
    exact hp (h.handles p c w r' r hpw hw)
  · intro b _
    refine (h.fine b).mono ?_ ?_ ?_
    · intro d y _ hy hi
      exact ⟨y, by rw [hctx]; exact hy, hi⟩
    · intro q w r _ hr
      exact ⟨r, by rw [hface]; exact hr, id⟩
    · intro d y hd hy hs
      have hdc : d ≠ c := by
        rintro rfl
        exact hlaunch b d hd
      exact ⟨y, by rw [hctx]; exact hy, (hkeep _ d hdc).mpr hs⟩

/-- **`skynet_handle_retire`** takes the reference of the handle. -/
theorem Sound.retire (h : Sound s l) (v : ℕ) (hrefs : (s.pc a).refs = []) (hmarks : (s.pc a).marks = [])
    (hcreates : ∀ d, (s.pc a).creates = some d → ∃ r, s.face d = some (v, r))
    (hlaunch : ∀ c, s.slot v = some c → ∀ b q, s.pc b ≠ .launching c q)
    (hqueues : k.queues = (s.pc a).queues) (hfine : ∀ c, Fine s (.releasing c k)) (hgone : Fine s k.gone)
    (hk : k.gone.creates = none) : ∃ s', retire s a v k = .ok s' ∧ Sound s' l := by
  cases hslot : s.slot v with
  | none =>
    refine ⟨s.goto a k.gone, by simp [Skynet.retire, hslot], h.listed, h.tokens.move rfl fun q => ?_, ?_,
      ⟨h.kept.fifo, h.kept.undropped, h.kept.asleep⟩, h.unmade⟩
    · rw [Next.queues_gone, hqueues]
      rfl
    · refine h.counted.stay (a := a) rfl rfl rfl rfl ?_ ?_ ?_ (hgone.keep rfl rfl fun c x hx => ⟨x, hx, rfl, id⟩)
      · intro d
        rw [hrefs, Next.refs_gone]
      · intro d
        rw [hmarks, Next.marks_gone]
      · intro d x hx hs hmake
        obtain ⟨r, hr⟩ := hcreates d hmake
        rw [((h.counted.held d).lives x hx).face] at hr
        rw [(Prod.mk.inj (Option.some.inj hr)).1, hslot] at hs
        cases hs
  | some c =>
    obtain ⟨x, hx, hxv⟩ := h.counted.slotted v c hslot
    refine ⟨{ s with slot := Function.update s.slot v none }.goto a (.releasing c k),
      by simp [Skynet.retire, hslot, context_ok hx, hxv], h.listed, h.tokens.move rfl fun q => ?_, ?_,
      ⟨h.kept.fifo, h.kept.undropped, h.kept.asleep⟩, h.unmade⟩
    · rw [← hqueues]
      rfl
    · refine h.counted.unslot hslot hrefs hmarks hcreates (hlaunch c hslot) rfl rfl rfl rfl ?_
      cases k with
      | launch q => exact hfine c
      | fail q w => exact hfine c
      | _ => trivial

theorem Counted.create (h : Counted s) {v : ℕ} (hpc : s.pc a = .idle) (hnew : s.contexts c = none)
    (hunmade : s.face c = none) (hv : s.slot v = none) (hfresh : ∀ q r, s.face q ≠ some (v, r))
    (hpc' : s'.pc = Function.update s.pc a (.initing c c))
    (hctx : s'.contexts = Function.update s.contexts c (some ⟨v, c, 2, false, false⟩))
    (hface : s'.face = Function.update s.face c (some (v, false)))
    (hslot : s'.slot = Function.update s.slot v (some c)) : Counted s' := by
  have hself : s'.contexts c = some ⟨v, c, 2, false, false⟩ := by rw [hctx, Function.update_self]
  have hwho : ∀ w d, s'.slot w = some d → w = v ∧ d = c ∨ d ≠ c ∧ s.slot w = some d := by
    intro w d hw
    rw [hslot] at hw
    by_cases hwv : w = v
    · rw [hwv, Function.update_self] at hw
      exact .inl ⟨hwv, (Option.some.inj hw).symm⟩
    · rw [Function.update_of_ne hwv] at hw
      obtain ⟨y, hy, -⟩ := h.slotted w d hw
      refine .inr ⟨?_, hw⟩
      rintro rfl
      rw [hnew] at hy
      cases hy
  have hkeep : ∀ w d, d ≠ c → s.slot w = some d → s'.slot w = some d := by
    intro w d _ hw
    have hwv : w ≠ v := by
      rintro rfl
      rw [hv] at hw
      cases hw
    rw [hslot, Function.update_of_ne hwv]
    exact hw
  obtain ⟨hrefs, hmarks⟩ := (h.held c).gone hnew
  refine h.move (a := a) (z := .initing c c) (c := c) ⟨hpc', ?_, ?_, ?_, ?_, ?_, ?_⟩ ⟨?_, ?_⟩ ?_ ?_ rfl ?_
  · intro d hd
    rw [hctx, Function.update_of_ne hd]
  · intro d hd
    rw [hface, Function.update_of_ne hd]
  · intro w d hd
    refine ⟨fun hw => ?_, hkeep w d hd⟩
    rcases hwho w d hw with ⟨-, heq⟩ | ⟨-, hw'⟩
    · exact absurd heq hd
    · exact hw'
  · intro d hd
    rw [hpc]
    simp [Pc.refs, hd.symm]
  · intro d _
    rw [hpc]
    rfl
  · intro d y _ _ _ hmake
    rw [hpc] at hmake
    cases hmake
  · intro y hy
    rw [hself] at hy
    obtain rfl := Option.some.inj hy
    have htot := tot_update Pc.refs s.pc c a (.initing c c)
    have htot' := tot_update Pc.marks s.pc c a (.initing c c)
    rw [hpc, ← hpc'] at htot htot'
    simp only [Pc.refs, Pc.marks, List.count_nil, List.count_singleton_self] at htot htot'
    refine ⟨rfl, by rw [hface, Function.update_self], ?_, ?_, fun _ _ => ⟨a, ?_⟩⟩
    · rw [hslot, Function.update_self, if_pos rfl]
      simp only
      omega
    · change _ = if (2 : ℤ) = 0 then 1 else 0
      rw [if_neg (by decide)]
      omega
    · rw [hpc', Function.update_self]
      rfl
  · intro hgone
    rw [hself] at hgone
    cases hgone
  · intro w hw
    rcases hwho w c hw with ⟨rfl, -⟩ | ⟨hne, -⟩
    · exact ⟨_, hself, rfl⟩
    · exact absurd rfl hne
  · intro w r hw p r' _ hpw
    rw [hface, Function.update_self] at hw
    obtain ⟨rfl, -⟩ := Prod.mk.inj (Option.some.inj hw)
    exact hfresh p r' hpw
  · intro b _
    refine (h.fine b).mono ?_ ?_ ?_
    · intro d y _ hy hi
      have hdc : d ≠ c := by
        rintro rfl
        rw [hnew] at hy
        cases hy
      exact ⟨y, by rw [hctx, Function.update_of_ne hdc]; exact hy, hi⟩
    · intro q w r _ hr
      have hqc : q ≠ c := by
        rintro rfl
        rw [hunmade] at hr
        cases hr
      exact ⟨r, by rw [hface, Function.update_of_ne hqc]; exact hr, id⟩
    · intro d y _ hy hs
      have hdc : d ≠ c := by
        rintro rfl
        rw [hnew] at hy
        cases hy
      exact ⟨y, by rw [hctx, Function.update_of_ne hdc]; exact hy, hkeep _ d hdc hs⟩

/-- **`skynet_context_new`** makes a context and a queue that nobody knows. -/
theorem Sound.create (h : Sound s l) {v : ℕ} (hpc : s.pc a = .idle) (hv : s.slot v = none)
    (hfresh : ∀ q r, s.face q ≠ some (v, r)) : Sound (Skynet.create s a v) l := by
  obtain ⟨hface, hctx, hsent⟩ := h.unmade s.fresh le_rfl
  have hawake : s.awake s.fresh = false := by
    simp [State.awake, face_eq_none.mp hface]
  have hawake' : (Skynet.create s a v).awake = Function.update s.awake s.fresh true := awake_setqueue
  have hface' : (Skynet.create s a v).face = Function.update s.face s.fresh (some (v, false)) := face_setqueue
  have hcontents : (Skynet.create s a v).contents = Function.update s.contents s.fresh [] := by
    refine contents_setqueue.trans ?_
    rw [mq_create, Ring.toList_empty]
  refine ⟨h.listed, h.tokens.move (z := .initing s.fresh s.fresh) (a := a) rfl fun q => ?_,
    h.counted.create hpc hctx hface hv hfresh rfl rfl hface' rfl,
    ⟨fun q => ?_, fun q w hq => ?_, fun q hq => ?_⟩, fun p hp => ?_⟩
  · rw [hpc, hawake']
    by_cases hq : q = s.fresh
    · subst hq
      rw [Function.update_self, hawake]
      simp [Pc.queues]
    · rw [Function.update_of_ne hq]
      simp [Pc.queues, Ne.symm hq]
  · rw [hcontents]
    by_cases hq : q = s.fresh
    · subst hq
      rw [Function.update_self]
      have hfifo := h.kept.fifo s.fresh
      rw [hsent] at hfifo
      have hnil := List.append_eq_nil_iff.mp hfifo.symm
      exact hsent.trans (by rw [List.append_nil]; exact hnil.1.symm)
    · rw [Function.update_of_ne hq]
      exact h.kept.fifo q
  · by_cases hq' : q = s.fresh
    · subst hq'
      have hfifo := h.kept.fifo s.fresh
      rw [hsent] at hfifo
      exact (List.append_eq_nil_iff.mp (List.append_eq_nil_iff.mp hfifo.symm).1).2
    · rw [hface', Function.update_of_ne hq'] at hq
      exact h.kept.undropped q w hq
  · rw [hcontents]
    by_cases hq' : q = s.fresh
    · rw [hq', Function.update_self]
    · rw [hawake', Function.update_of_ne hq'] at hq
      rw [Function.update_of_ne hq']
      exact h.kept.asleep q hq
  · have hp' : s.fresh + 1 ≤ p := hp
    have hne : p ≠ s.fresh := by
      intro heq
      rw [heq] at hp'
      exact absurd hp' (Nat.not_succ_le_self _)
    obtain ⟨hfacep, hctxp, hsentp⟩ := h.unmade p (Nat.le_of_succ_le hp')
    refine ⟨?_, (Function.update_of_ne hne ..).trans hctxp, hsentp⟩
    rw [hface', Function.update_of_ne hne]
    exact hfacep

end Skynet

end Athena
