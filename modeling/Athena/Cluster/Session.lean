import Athena.Cluster.Sound
/-!
# One session for each uid

Over every run of the cluster in which a gate's login returns the subid
it took, a uid is held by one gate at most, and with no login of it under
way the entry of the master names the session there is
(`single_session`).

By design the entry is behind while a notice is on its way, and a notice
that overtakes the answer of its own login finds no entry to clear: the
entry made afterwards stays until the next kick asks the gate again. With
neither of the two the entry is exact.
-/

namespace Athena

namespace Cluster

open Lua Gated

variable {N : Type} [DecidableEq N] {conf : N → Conf} {strict : Prop} {s t : State N} {n : N}
  {uid : Int64}

/-- **The sessions and the entries of the master.** -/
structure SingleSession (conf : N → Conf) (s : State N) : Prop where
  /-- Two gates do not hold one uid. -/
  single : ∀ uid n n' u u', (s.gates n).users uid = some u → (s.gates n').users uid = some u' →
    n = n'
  /-- With no login under way the entry names the session there is. -/
  named : ∀ uid n u, s.stage uid = .idle → (s.gates n).users uid = some u →
    s.userOnline uid = some ⟨u.subid, n⟩ ∧
      u.username = Gate.username uid u.subid (conf n).node
  /-- A notice clears the entry of its own session only. -/
  clears : ∀ n x rest r, s.notices n = x :: rest → s.userOnline x.uid = some r →
    r = ⟨x.subid, n⟩

/-- **The entry is exact**, with no login under way and no notice either. -/
def Exact (s : State N) : Prop :=
  ∀ uid, s.stage uid = .idle → (∀ n, mine uid (s.notices n) = []) → ∀ n subid,
    s.userOnline uid = some ⟨subid, n⟩ ↔ ∃ u, (s.gates n).users uid = some u ∧ u.subid = subid

/-! ## The master moves -/

omit [DecidableEq N] in
/-- The master goes on with one uid, and may make its next call. -/
theorem Sound.master (hs : Sound conf strict s) (hgates : t.gates = s.gates)
    (hnotices : t.notices = s.notices) (hrecord : ∀ uid', uid' ≠ uid → t.userOnline uid' = s.userOnline uid')
    (hstage : ∀ uid', uid' ≠ uid → t.stage uid' = s.stage uid') (hcalls : s.calls ≤ t.calls)
    (hissued : ∀ n k, (t.stage uid).Target n k → k < t.calls)
    (hbusy : ∀ n k, ((s.gates n).phase (.call k uid)).idle = false → (t.stage uid).Target n k)
    (hagreed : Agreed conf strict uid { view s uid with record := t.userOnline uid } (t.stage uid)) :
    Sound conf strict t := by
  have hview : ∀ uid', view t uid' = { view s uid' with record := t.userOnline uid' } := by
    intro uid'
    simp [view, hgates, hnotices]
  refine ⟨fun n => ?_, fun n j => ?_, fun n k uid' hk => ?_, fun uid' n k ht => ?_,
    fun n k uid' hb => ?_, fun uid' => ?_⟩
  · rw [hgates]
    exact hs.gates n
  · rw [hgates]
    exact hs.own n j
  · rw [hgates]
    exact hs.fresh n k uid' (by omega)
  · by_cases huid : uid' = uid
    · subst huid
      exact hissued n k ht
    · rw [hstage uid' huid] at ht
      have := hs.issued uid' n k ht
      omega
  · rw [hgates] at hb
    by_cases huid : uid' = uid
    · subst huid
      exact hbusy n k hb
    · rw [hstage uid' huid]
      exact hs.busy n k uid' hb
  · rw [hview]
    by_cases huid : uid' = uid
    · subst huid
      exact hagreed
    · rw [hstage uid' huid, hrecord uid' huid]
      exact hs.agreed uid'

omit [DecidableEq N] in
/-- A call that has ended, or was never made, does not run at any gate. -/
theorem Sound.not_busy (hs : Sound conf strict s)
    (h : ∀ n k, (s.stage uid).Target n k → ((s.gates n).phase (.call k uid)).idle = true) (n : N)
    (k : ℕ) : ((s.gates n).phase (.call k uid)).idle ≠ false := by
  intro hb
  rw [h n k (hs.busy n k uid hb)] at hb
  cases hb

omit [DecidableEq N] in
/-- `login_handler` begins. -/
theorem Sound.login (hs : Sound conf strict s) (hidle : s.stage uid = .idle) (server : N)
    (secret : Str) : Sound conf strict (loginHandler s uid server secret) := by
  have hag := hs.agreed uid
  rw [hidle] at hag
  have hnext : Agreed conf strict uid (view s uid)
      (nextStage (view s uid).record s.calls server secret) :=
    hag.login fun n => hs.fresh n s.calls uid le_rfl
  have hnb := hs.not_busy (by rw [hidle]; exact fun n k h => h.elim)
  unfold loginHandler callLogin
  cases hr : s.userOnline uid with
  | none =>
    refine hs.master rfl rfl (fun _ _ => rfl)
      (fun uid' h => Function.update_of_ne h _ _) (Nat.le_succ _) ?_ (fun n k h => (hnb n k h).elim) ?_
    · simp [Stage.Target]
    · rw [show (view s uid).record = none from hr] at hnext
      simpa [nextStage, view, hr] using hnext
  | some last =>
    refine hs.master rfl rfl (fun _ _ => rfl)
      (fun uid' h => Function.update_of_ne h _ _) (Nat.le_succ _) ?_ (fun n k h => (hnb n k h).elim) ?_
    · simp [Stage.Target]
    · rw [show (view s uid).record = some last from hr] at hnext
      simpa [nextStage, view, hr] using hnext

omit [DecidableEq N] in
/-- `login_handler` goes on after its call. -/
theorem Sound.answer (hs : Sound conf strict s) (h : answer s uid = some t) :
    Sound conf strict t := by
  have hag := hs.agreed uid
  have hfresh := fun n => hs.fresh n s.calls uid le_rfl
  unfold Cluster.answer at h
  cases hst : s.stage uid with
  | idle => simp [hst] at h
  | kicking k server secret last =>
    simp only [hst] at h hag
    split at h
    · rename_i r hf
      obtain h := Option.some.inj h
      obtain ⟨rfl, hsome, hnone⟩ := hag.afterKick hf hfresh
      have hnb := hs.not_busy (by
        rw [hst]
        rintro n k' ⟨rfl, rfl⟩
        rw [hf]
        rfl)
      simp only [afterKick, ne_eq, reduceCtorEq, not_false_eq_true, decide_true, if_true] at h
      cases hr : s.userOnline uid with
      | some x =>
        -- the kick has returned and the session is still recorded: the login gives up
        rw [hr] at h
        subst h
        refine hs.master rfl rfl (fun _ _ => rfl)
          (fun uid' h => Function.update_of_ne h _ _) le_rfl ?_ (fun n k h => (hnb n k h).elim) ?_
        · simp [Stage.Target]
        · simpa [view, hr] using hsome ⟨x, hr⟩
      | none =>
        rw [hr] at h
        subst h
        refine hs.master rfl rfl (fun _ _ => rfl)
          (fun uid' h => Function.update_of_ne h _ _) (Nat.le_succ _) ?_
          (fun n k h => (hnb n k h).elim) ?_
        · simp [callLogin, Stage.Target]
        · simpa [view, hr, callLogin] using hnone hr
    · cases h
  | logging k server secret =>
    simp only [hst] at h hag
    have hnb : ∀ {r}, (s.gates server).phase (.call k uid) = .finished r →
        ∀ n k', ((s.gates n).phase (.call k' uid)).idle ≠ false := by
      intro r hf
      refine hs.not_busy ?_
      rw [hst]
      rintro n k' ⟨rfl, rfl⟩
      rw [hf]
      rfl
    split at h
    · rename_i u sent ret hf
      obtain rfl := Option.some.inj h
      refine hs.master rfl rfl (fun uid' h => Function.update_of_ne h _ _)
        (fun uid' h => Function.update_of_ne h _ _) le_rfl ?_ (fun n k h => (hnb hf n k h).elim) ?_
      · simp [afterLogin, Stage.Target]
      · simpa [afterLogin] using hag.loggedIn hf
    · rename_i hf
      obtain rfl := Option.some.inj h
      refine hs.master rfl rfl (fun _ _ => rfl)
        (fun uid' h => Function.update_of_ne h _ _) le_rfl ?_ (fun n k h => (hnb hf n k h).elim) ?_
      · simp [afterLogin, Stage.Target]
      · simpa [afterLogin, view] using hag.loginFailed hf
    · cases h

/-- A notice reaches the master. -/
theorem Sound.notice (hs : Sound conf strict s) {x : Notice} {rest : List Notice}
    (hx : s.notices n = x :: rest)
    (htimely : strict → ∀ k server secret, s.stage x.uid ≠ .logging k server secret) :
    (∀ r, s.userOnline x.uid = some r → r = ⟨x.subid, n⟩) ∧
      Sound conf strict (logout { s with notices := Function.update s.notices n rest } x.uid) := by
  have hmine : (view s x.uid).notices n = x :: mine x.uid rest := by
    simp [view, hx, mine]
  have he : Elsewhere (view s x.uid)
      (view (logout { s with notices := Function.update s.notices n rest } x.uid) x.uid) n :=
    ⟨fun _ _ => rfl, fun n' h => by simp [view, logout, h], fun _ _ => rfl⟩
  obtain ⟨hclears, hag⟩ := (hs.agreed x.uid).notice hmine htimely he
    (by simp [view, logout]) rfl (by simp [view, logout]) rfl
  refine ⟨hclears, hs.gates, hs.own, hs.fresh, hs.issued, hs.busy, fun uid => ?_⟩
  by_cases huid : uid = x.uid
  · subst huid
    exact hag
  · -- the notices of the others are the same
    have hview : view (logout { s with notices := Function.update s.notices n rest } x.uid) uid =
        view s uid := by
      have hn : (fun n' => mine uid (Function.update s.notices n rest n')) =
          fun n' => mine uid (s.notices n') := by
        funext n'
        by_cases hn' : n' = n
        · subst hn'
          simp [hx, mine, Ne.symm huid]
        · rw [Function.update_of_ne hn']
      simp only [view, logout, hn, Function.update_of_ne huid]
    rw [hview]
    exact hs.agreed uid

/-! ## Every run -/

/-- **One step keeps the cluster sound.** -/
theorem Sound.step (hs : Sound conf strict s) {e : Event N} (hown : OwnId conf s e)
    (htimely : strict → Timely s e) (h : step conf s e = some t) : Sound conf strict t := by
  cases e with
  | login uid server secret =>
    simp only [Cluster.step] at h
    split at h
    · rename_i hidle
      obtain rfl := Option.some.inj h
      exact hs.login hidle server secret
    · cases h
  | deliver uid =>
    simp only [Cluster.step, deliver] at h
    split at h
    · cases h
    · rename_i hst
      exact hs.deliverKick hst h
    · rename_i hst
      exact hs.deliverLogin hst h
  | answer uid => exact hs.answer h
  | notice n =>
    simp only [Cluster.step] at h
    split at h
    · cases h
    · rename_i x rest hx
      obtain rfl := Option.some.inj h
      exact (hs.notice hx fun hst => htimely hst x rest hx).2
  | reported n c =>
    simp only [Cluster.step] at h
    split at h
    · cases h
    · rename_i hc
      exact hs.reported hc h
  | gate n e =>
    simp only [Cluster.step] at h
    split at h
    · rename_i hby
      exact hs.gate hby hown h
    · cases h

omit [DecidableEq N] in
theorem sound_initial (conf : N → Conf) (strict : Prop) (day : ℕ) :
    Sound conf strict (initial conf day) := by
  refine ⟨fun n => .of_init ⟨day, rfl⟩, fun _ _ => rfl, fun _ _ _ _ => rfl, fun _ _ _ h => h.elim,
    fun _ _ _ h => ?_, fun uid => .offline rfl fun n => ⟨rfl, rfl⟩⟩
  cases h

omit [DecidableEq N] in
/-- What the situations say of the sessions and the entries. -/
theorem Agreed.online {v : View N} {stage : Stage N} (h : Agreed conf strict uid v stage) {u : User}
    (hu : v.users n = some u) :
    (∀ n' u', v.users n' = some u' → n = n') ∧ (stage = .idle →
      v.record = some ⟨u.subid, n⟩ ∧ u.username = Gate.username uid u.subid (conf n).node) := by
  have hne : ∀ {n'}, v.users n' = none → n' ≠ n := by
    rintro n' hc rfl
    rw [hc] at hu
    cases hu
  -- all gates but one are clear
  have hone : ∀ {m}, (∀ n', n' ≠ m → Clear v n') → n = m ∧ ∀ n' u', v.users n' = some u' → n = n' := by
    intro m hclear
    have hm : n = m := eq_of_users hu hclear
    exact ⟨hm, fun n' u' hu' => hm.trans (eq_of_users hu' hclear).symm⟩
  cases h with
  | offline record clear => exact absurd rfl (hne (clear n).users)
  | recorded record clear stands =>
    obtain ⟨rfl, hsingle⟩ := hone clear
    refine ⟨hsingle, fun _ => ?_⟩
    cases stands with
    | online user name hsub quiet unasked =>
      rw [hu] at user
      cases user
      rw [hsub]
      exact ⟨record, name⟩
    | leaving offline notices => exact absurd rfl (hne offline)
    | gone loose offline notices => exact absurd rfl (hne offline)
  | kicking record clear stands asks => exact ⟨(hone clear).2, fun h => by cases h⟩
  | kicked record clear offline notices asks => exact ⟨(hone clear).2, fun h => by cases h⟩
  | logging record clear call => exact absurd rfl (hne (clear n).users)
  | logged record clear call stands => exact ⟨(hone clear).2, fun h => by cases h⟩

theorem Sound.single (hs : Sound conf False s) : SingleSession conf s := by
  refine ⟨?_, ?_, ?_⟩
  · intro uid n n' u u' hu hu'
    exact ((hs.agreed uid).online hu).1 n' u' hu'
  · intro uid n u hst hu
    exact ((hs.agreed uid).online hu).2 hst
  · intro n x rest r hx hr
    exact (hs.notice hx False.elim).1 r hr

omit [DecidableEq N] in
/-- Where nothing overtakes, an entry has its session. -/
theorem Sound.exact (hs : Sound conf True s) : Exact s := by
  intro uid hidle hquiet n subid
  constructor
  · intro hr
    have hag := hs.agreed uid
    rw [hidle] at hag
    have hr : (view s uid).record = some ⟨subid, n⟩ := hr
    cases hag with
    | offline record clear =>
      rw [hr] at record
      cases record
    | recorded record clear stands =>
      rw [hr] at record
      cases record
      cases stands with
      | online user name hsub quiet unasked => exact ⟨_, user, hsub⟩
      | leaving offline notices =>
        have := hquiet n
        rw [show mine uid (s.notices n) = _ from notices] at this
        cases this
      | gone loose offline notices => exact absurd trivial loose
  · rintro ⟨u, hu, rfl⟩
    exact (((hs.agreed uid).online hu).2 hidle).1

/-- **One session for each uid.** In every state of a run in which the
gates' logins return the subids they took, two gates do not hold one
uid; with no login of a uid under way the entry of the master names the
session that a gate holds, so there is none without an entry; and a
notice clears the entry of its own session only. When moreover no notice
is handled while a login of its uid waits for the gate, the entry is
exact as soon as no notice of the uid is on its way. -/
theorem single_session (h : ((system conf).restrict (OwnId conf)).Reachable s) :
    SingleSession conf s ∧
      (((system conf).restrict fun s e => OwnId conf s e ∧ Timely s e).Reachable s → Exact s) := by
  constructor
  · refine (System.Reachable.invariant (P := Sound conf False) ?_ ?_ h).single
    · rintro s ⟨day, rfl⟩
      exact sound_initial conf False day
    · rintro s e t ⟨hst, hown⟩ hs
      exact hs.step hown False.elim hst
  · intro ht
    refine (System.Reachable.invariant (P := Sound conf True) ?_ ?_ ht).exact
    · rintro s ⟨day, rfl⟩
      exact sound_initial conf True day
    · rintro s e t ⟨hst, hown, htimely⟩ hs
      exact hs.step hown (fun _ => htimely) hst

/-- Two gates of a kind. -/
def twins : Bool → Conf := fun _ => { small with maxclient := 20 }

/-- Player 7 logs in to the first gate. -/
theorem single_session_seven :
    ∃ s : State Bool, SingleSession twins s ∧ Exact s ∧ s.userOnline 7 = some ⟨1, false⟩ ∧
      ∃ u, (s.gates false).users 7 = some u := by
  let C := fun (s : State Bool) (e : Event Bool) => OwnId twins s e ∧ Timely s e
  obtain ⟨s, hreach, hrec, u, hu⟩ : ∃ s : State Bool, ((system twins).restrict C).Reachable s ∧
      s.userOnline 7 = some ⟨1, false⟩ ∧ ∃ u, (s.gates false).users 7 = some u := by
    refine ⟨_, ⟨initial twins 0, [.login 7 false "k".toList, .deliver 7,
      .gate false (.entered (.call 0 7) true), .answer 7], ⟨0, rfl⟩,
      .cons ⟨rfl, trivial, trivial⟩ (.cons ⟨rfl, trivial, trivial⟩
        (.cons ⟨rfl, ?enters, trivial⟩ (.cons ⟨rfl, trivial, trivial⟩ (.nil _))))⟩, rfl, _, rfl⟩
    case enters =>
      intro u secret sent hph
      cases hph
      rfl
  obtain ⟨hsingle, hexact⟩ := single_session (hreach.restrict_mono fun _ _ h => h.1)
  exact ⟨s, hsingle, hexact hreach, hrec, u, hu⟩

/-- **Where the entry is not the session.** The session of player 7 is
over and its notice is on its way; its notice has overtaken the answer of
its login, and the entry stays; and after two logins at once player 7 is
told the subid of player 8, so the kick fails and a second gate holds 7
beside the first. -/
theorem entry_without_session :
    (∃ es s, (system twins).Path (initial twins 0) es s ∧ s.stage 7 = .idle ∧
      s.userOnline 7 = some ⟨1, false⟩ ∧ ∀ n, (s.gates n).users 7 = none) ∧
    (∃ es s, (system twins).Path (initial twins 0) es s ∧ s.stage 7 = .idle ∧
      s.userOnline 7 = some ⟨1, false⟩ ∧ (∀ n, s.notices n = []) ∧
      ∀ n, (s.gates n).users 7 = none) ∧
    ∃ es s, (system twins).Path (initial twins 0) es s ∧
      ((s.gates false).users 7).isSome ∧ ((s.gates true).users 7).isSome := by
  refine ⟨?_, ?_, ?_⟩
  · have hexec : ∃ s, exec twins (initial twins 0) [.login 7 false "k".toList, .deliver 7,
        .gate false (.entered (.call 0 7) true), .answer 7,
        .gate false (.logout (.own 0) 7 1)] = some s ∧ s.stage 7 = .idle ∧
        s.userOnline 7 = some ⟨1, false⟩ ∧ (s.gates false).users 7 = none ∧
        (s.gates true).users 7 = none := ⟨_, rfl, rfl, rfl, rfl, rfl⟩
    obtain ⟨s, hs, hst, hrec, h1, h2⟩ := hexec
    exact ⟨_, s, path_of_exec hs, hst, hrec, Bool.forall_bool.mpr ⟨h1, h2⟩⟩
  · have hexec : ∃ s, exec twins (initial twins 0) [.login 7 false "k".toList, .deliver 7,
        .gate false (.entered (.call 0 7) true), .gate false (.logout (.own 0) 7 1),
        .notice false, .answer 7] = some s ∧ s.stage 7 = .idle ∧
        s.userOnline 7 = some ⟨1, false⟩ ∧ (s.notices false = [] ∧ s.notices true = []) ∧
        (s.gates false).users 7 = none ∧ (s.gates true).users 7 = none :=
      ⟨_, rfl, rfl, rfl, ⟨rfl, rfl⟩, rfl, rfl⟩
    obtain ⟨s, hs, hst, hrec, hn, h1, h2⟩ := hexec
    exact ⟨_, s, path_of_exec hs, hst, hrec, Bool.forall_bool.mpr hn, Bool.forall_bool.mpr ⟨h1, h2⟩⟩
  · have hexec : ∃ s, exec twins (initial twins 0) [.login 7 false "k".toList, .deliver 7,
        .login 8 false "l".toList, .deliver 8, .gate false (.entered (.call 0 7) true), .answer 7,
        .login 7 true "m".toList, .deliver 7, .answer 7, .deliver 7,
        .gate true (.entered (.call 3 7) true)] = some s ∧
        ((s.gates false).users 7).isSome ∧ ((s.gates true).users 7).isSome :=
      ⟨_, rfl, rfl, rfl⟩
    obtain ⟨s, hs, h1, h2⟩ := hexec
    exact ⟨_, s, path_of_exec hs, h1, h2⟩

end Cluster

end Athena
