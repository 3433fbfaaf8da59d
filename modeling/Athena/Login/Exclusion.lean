import Athena.Login.Model
/-!
# The login master — one login handler per uid

With `multilogin` off the mark `user_login[uid]` is a lock: `accept`
tests it and sets it in the segment that enters `conf.login_handler`,
and the segment that leaves the handler clears it. `step_cases` says
what one segment does to the marks and to the coroutines inside a
handler, in three cases; the invariant is read off them.
-/

namespace Athena

namespace Login

variable {Uid Server Secret Ret : Type} [DecidableEq Uid]
variable {conf : Conf} {m m' : Master Uid Server Secret Ret}

/-- Coroutine `c` is inside `conf.login_handler` for `uid`. -/
def InHandler (m : Master Uid Server Secret Ret) (c : ℕ) (uid : Uid) : Prop :=
  ∃ server secret, m.phase c = .handler server (some uid) secret

/-- Coroutine `c` is writing the 406 reply. -/
def Rejected (m : Master Uid Server Secret Ret) (c : ℕ) : Prop :=
  ∃ next, m.phase c = .writing .notAcceptable next

omit [DecidableEq Uid] in
@[simp] theorem goto_userLogin (c : ℕ) (p : Phase Uid Server Secret Ret) :
    (m.goto c p).userLogin = m.userLogin := rfl

omit [DecidableEq Uid] in
theorem goto_phase_self (c : ℕ) (p : Phase Uid Server Secret Ret) :
    (m.goto c p).phase c = p := Function.update_self ..

omit [DecidableEq Uid] in
theorem goto_phase_of_ne {c d : ℕ} (p : Phase Uid Server Secret Ret) (h : d ≠ c) :
    (m.goto c p).phase d = m.phase d := Function.update_of_ne h ..

omit [DecidableEq Uid] in
/-- A coroutine that stays outside the handler moves nothing: the same
coroutines are inside for the same uids. -/
theorem inHandler_goto {c : ℕ} {p : Phase Uid Server Secret Ret}
    (hc : ∀ uid, ¬ InHandler m c uid) (hp : ∀ sv uid sec, p ≠ .handler sv (some uid) sec)
    (d : ℕ) (uid : Uid) : InHandler (m.goto c p) d uid ↔ InHandler m d uid := by
  rcases eq_or_ne d c with rfl | hne
  · constructor
    · rintro ⟨sv, sec, h⟩
      rw [goto_phase_self] at h
      exact absurd h (hp sv uid sec)
    · exact fun h => absurd h (hc uid)
  · simp only [InHandler, goto_phase_of_ne p hne]

/-- **What one segment does** to the marks and to the coroutines inside a
handler: nothing; or it finds `uid` unmarked, marks it and enters its
handler; or it leaves a handler and clears that handler's mark. -/
theorem step_cases (hconf : conf.multilogin = false) {e : Event Uid Server Secret Ret}
    (h : step conf m e = some m') :
    (m'.userLogin = m.userLogin ∧ ∀ d uid, InHandler m' d uid ↔ InHandler m d uid) ∨
    (∃ uid, m.userLogin uid = false ∧ m'.userLogin = Function.update m.userLogin uid true ∧
      (∃ s, m.phase e.coroutine = .slave s) ∧
      ∀ d u, InHandler m' d u ↔ (d = e.coroutine ∧ u = uid) ∨ InHandler m d u) ∨
    (∃ uid, InHandler m e.coroutine uid ∧
      m'.userLogin = Function.update m.userLogin uid false ∧ ¬ Rejected m' e.coroutine ∧
      ∀ d u, InHandler m' d u ↔ d ≠ e.coroutine ∧ InHandler m d u) := by
  cases e with
  | accept c =>
    simp only [step] at h
    split at h
    · rename_i hc
      obtain rfl := Option.some.inj h
      refine Or.inl ⟨rfl, fun d uid => ?_⟩
      have hout : ∀ uid, ¬ InHandler m c uid := by rintro uid ⟨sv, sec, h'⟩; simp [hc] at h'
      exact inHandler_goto (m := { m with balance := _ }) hout (by simp) d uid
    · simp at h
  | slaveReply c r =>
    simp only [step] at h
    split at h
    · rename_i s hc
      have hout : ∀ uid, ¬ InHandler m c uid := by rintro uid ⟨sv, sec, h'⟩; simp [hc] at h'
      have quiet : ∀ p : Phase Uid Server Secret Ret,
          (∀ sv uid sec, p ≠ .handler sv (some uid) sec) → m' = m.goto c p →
          m'.userLogin = m.userLogin ∧ ∀ d uid, InHandler m' d uid ↔ InHandler m d uid := by
        rintro p hp rfl
        exact ⟨rfl, inHandler_goto hout hp⟩
      have h := (Option.some.inj h).symm
      unfold afterSlave at h
      -- every refusal before the handler is quiet
      split at h
      · exact Or.inl (quiet _ (by simp) h)
      · exact Or.inl (quiet _ (by simp) h)
      · rw [if_neg (by simp [hconf] : ¬ conf.multilogin = true)] at h
        split_ifs at h
        · exact Or.inl (quiet _ (by simp) h)
        · split at h
          · exact Or.inl (quiet _ (by simp) h)
          · rename_i uid huid
            split_ifs at h with hmark
            · exact Or.inl (quiet _ (by simp) h)
            · -- the test finds no mark, so this segment sets it and enters
              subst h
              refine Or.inr (Or.inl ⟨uid, by simpa using hmark, rfl, ⟨s, hc⟩, fun d u => ?_⟩)
              rcases eq_or_ne d c with rfl | hne
              · simp only [InHandler, goto_phase_self, Event.coroutine]
                constructor
                · rintro ⟨sv, sec, h⟩
                  simp only [Phase.handler.injEq, Option.some.injEq] at h
                  exact Or.inl ⟨trivial, h.2.1.symm⟩
                · rintro (⟨-, rfl⟩ | h)
                  · exact ⟨_, _, rfl⟩
                  · exact absurd h (hout u)
              · simp only [InHandler, goto_phase_of_ne _ hne, Event.coroutine, hne, false_and,
                  false_or]
    · simp at h
  | written c ok =>
    simp only [step] at h
    split at h
    · rename_i reply next hc
      obtain rfl := Option.some.inj h
      have hout : ∀ uid, ¬ InHandler m c uid := by rintro uid ⟨sv, sec, h'⟩; simp [hc] at h'
      exact Or.inl ⟨rfl, inHandler_goto hout (by simp)⟩
    · simp at h
  | handlerReturn c ok ret =>
    simp only [step] at h
    split at h
    · rename_i sv uid sec hc
      have h := (Option.some.inj h).symm
      unfold afterHandler at h
      split at h
      · -- without a uid there was no mark to clear
        have hout : ∀ uid, ¬ InHandler m c uid := by rintro uid ⟨sv, sec, h'⟩; simp [hc] at h'
        subst h
        exact Or.inl ⟨rfl, inHandler_goto hout (by simp)⟩
      · rename_i uid _
        subst h
        refine Or.inr (Or.inr ⟨uid, ⟨sv, sec, hc⟩, rfl, ?_, fun d u => ?_⟩)
        · rintro ⟨next, hr⟩
          simp only [Event.coroutine, goto_phase_self] at hr
          split at hr <;> simp at hr
        rcases eq_or_ne d c with rfl | hne
        · simp only [InHandler, goto_phase_self, Event.coroutine, ne_eq, not_true_eq_false,
            false_and, iff_false, not_exists]
          intro sv sec
          split <;> simp
        · simp only [InHandler, goto_phase_of_ne _ hne, Event.coroutine, ne_eq, hne,
            not_false_eq_true, true_and]
    · simp at h

/-- **The lock invariant**: the mark is set exactly while a handler runs,
and never two handlers for one uid. -/
structure Locked (m : Master Uid Server Secret Ret) : Prop where
  unique : ∀ uid c d, InHandler m c uid → InHandler m d uid → c = d
  marked : ∀ uid, m.userLogin uid = true ↔ ∃ c, InHandler m c uid

omit [DecidableEq Uid] in
theorem locked_initial : Locked (initial : Master Uid Server Secret Ret) where
  unique := by rintro uid c d ⟨sv, sec, h⟩; simp [initial] at h
  marked := by simp [initial, InHandler]

/-- A segment keeps the invariant. -/
theorem Locked.step (hconf : conf.multilogin = false) (hm : Locked m)
    {e : Event Uid Server Secret Ret} (h : step conf m e = some m') : Locked m' := by
  rcases step_cases hconf h with
    ⟨hl, hin⟩ | ⟨uid, hfree, hl, -, hin⟩ | ⟨uid, hc, hl, -, hin⟩
  · constructor
    · intro uid c d h1 h2
      exact hm.unique uid c d ((hin c uid).mp h1) ((hin d uid).mp h2)
    · intro uid
      rw [hl, hm.marked uid]
      simp only [hin]
  · -- entering: no handler ran for `uid`, since it was not marked
    have hnone : ∀ d, ¬ InHandler m d uid := by
      intro d hd
      have := (hm.marked uid).mpr ⟨d, hd⟩
      rw [hfree] at this
      exact Bool.false_ne_true this
    constructor
    · intro u c d h1 h2
      rcases (hin c u).mp h1 with ⟨rfl, rfl⟩ | h1
      · rcases (hin d u).mp h2 with ⟨rfl, -⟩ | h2
        · rfl
        · exact absurd h2 (hnone d)
      · rcases (hin d u).mp h2 with ⟨-, rfl⟩ | h2
        · exact absurd h1 (hnone c)
        · exact hm.unique u c d h1 h2
    · intro u
      rw [hl]
      rcases eq_or_ne u uid with rfl | hne
      · rw [Function.update_self]
        exact ⟨fun _ => ⟨_, (hin _ u).mpr (Or.inl ⟨rfl, rfl⟩)⟩, fun _ => rfl⟩
      · rw [Function.update_of_ne hne, hm.marked u]
        simp only [hin, hne, and_false, false_or]
  · -- leaving: the coroutine was the only one inside for `uid`
    constructor
    · intro u c d h1 h2
      exact hm.unique u c d ((hin c u).mp h1).2 ((hin d u).mp h2).2
    · intro u
      rw [hl]
      rcases eq_or_ne u uid with rfl | hne
      · rw [Function.update_self]
        refine ⟨fun h => absurd h (by simp), ?_⟩
        rintro ⟨d, hd⟩
        obtain ⟨hne, hd⟩ := (hin d u).mp hd
        exact absurd (hm.unique u d _ hd hc) hne
      · rw [Function.update_of_ne hne, hm.marked u]
        constructor
        · rintro ⟨d, hd⟩
          refine ⟨d, (hin d u).mpr ⟨?_, hd⟩⟩
          rintro rfl
          -- one coroutine is inside one handler
          obtain ⟨sv, sec, h1⟩ := hd
          obtain ⟨sv', sec', h2⟩ := hc
          rw [h1] at h2
          simp only [Phase.handler.injEq, Option.some.injEq] at h2
          exact hne h2.2.1
        · rintro ⟨d, hd⟩
          exact ⟨d, ((hin d u).mp hd).2⟩

theorem locked_of_reachable (hconf : conf.multilogin = false)
    (hm : (system conf).Reachable m) : Locked m :=
  hm.invariant (by rintro s rfl; exact locked_initial) fun _ _ _ h hs => hs.step hconf h

/-- A handler's return, whatever its outcome, clears its own mark. -/
theorem step_handlerReturn {c : ℕ} {uid : Uid} (hc : InHandler m c uid) (ok : Bool)
    (ret : Option Ret) :
    ∃ m', step conf m (.handlerReturn c ok ret) = some m' ∧ m'.userLogin uid = false := by
  obtain ⟨sv, sec, hph⟩ := hc
  refine ⟨afterHandler m c (some uid) ok ret, by simp [step, hph], ?_⟩
  simp [afterHandler]

/-- The segments of a rejected attempt, the one that rejects it
included, leave every mark alone. -/
theorem userLogin_of_rejected (hconf : conf.multilogin = false)
    {e : Event Uid Server Secret Ret} (h : step conf m e = some m')
    (hr : Rejected m e.coroutine ∨ Rejected m' e.coroutine) : m'.userLogin = m.userLogin := by
  rcases step_cases hconf h with ⟨hl, -⟩ | ⟨uid, -, -, ⟨s, hs⟩, hin⟩ | ⟨uid, hc, -, hnr, -⟩
  · exact hl
  · -- the coroutine was waiting for its slave and is now in the handler
    obtain ⟨sv, sec, hin'⟩ := (hin e.coroutine uid).mpr (Or.inl ⟨rfl, rfl⟩)
    rcases hr with ⟨next, hr⟩ | ⟨next, hr⟩
    · rw [hs] at hr
      cases hr
    · rw [hin'] at hr
      cases hr
  · obtain ⟨sv, sec, hc⟩ := hc
    rcases hr with ⟨next, hr⟩ | hr
    · rw [hc] at hr
      cases hr
    · exact absurd hr hnr

/-- **Login mutual exclusion.** In every state of the master, under every
interleaving: no two login handlers run for one uid; the mark of a uid
is set exactly while a handler runs for it; no segment of an attempt
rejected with 406 changes a mark; and a handler that returns, with
success or with an error, clears the mark it holds. -/
theorem login_mutual_exclusion (hconf : conf.multilogin = false)
    (hm : (system conf).Reachable m) :
    (∀ uid c d, InHandler m c uid → InHandler m d uid → c = d) ∧
    (∀ uid, m.userLogin uid = true ↔ ∃ c, InHandler m c uid) ∧
    (∀ e m', step conf m e = some m' → Rejected m e.coroutine ∨ Rejected m' e.coroutine →
      m'.userLogin = m.userLogin) ∧
    (∀ uid c, InHandler m c uid → ∀ ok ret, ∃ m',
      step conf m (.handlerReturn c ok ret) = some m' ∧ m'.userLogin uid = false) := by
  have hl := locked_of_reachable hconf hm
  refine ⟨hl.unique, hl.marked, fun e m' h hr => userLogin_of_rejected hconf h hr, ?_⟩
  exact fun uid c hc ok ret => step_handlerReturn hc ok ret

/-- The events of two logins of uid `7`: the second is answered while the
first is inside its handler. -/
def twoLogins : List (Event ℕ Unit Unit Unit) :=
  [.accept 0, .accept 1, .slaveReply 0 ⟨some true, some 1, none, some 7, none⟩,
    .slaveReply 1 ⟨some true, some 1, none, some 7, none⟩]

/-- The second of two logins is rejected, and its reply leaves the mark
of the first. -/
theorem login_mutual_exclusion_two :
    ∃ m : Master ℕ Unit Unit Unit, (system ⟨false, 8⟩).Reachable m ∧ InHandler m 0 7 ∧
      Rejected m 1 ∧ m.userLogin 7 = true ∧
      ∀ m', step ⟨false, 8⟩ m (.written 1 true) = some m' → m'.userLogin = m.userLogin := by
  have hp : ∃ m, (system ⟨false, 8⟩).Path initial twoLogins m ∧ InHandler m 0 7 ∧
      Rejected m 1 := by
    refine ⟨_, .cons rfl (.cons rfl (.cons rfl (.cons rfl (.nil _)))), ⟨none, none, rfl⟩,
      ⟨_, rfl⟩⟩
  obtain ⟨m, hp, h0, h1⟩ := hp
  have hr : (system ⟨false, 8⟩).Reachable m := ⟨initial, twoLogins, rfl, hp⟩
  obtain ⟨-, hmark, hrej, -⟩ := login_mutual_exclusion rfl hr
  exact ⟨m, hr, h0, h1, (hmark 7).mpr ⟨0, h0⟩, fun m' h => hrej _ m' h (Or.inl h1)⟩

end Login

end Athena
