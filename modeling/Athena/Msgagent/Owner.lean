import Athena.Gated.Pool
import Athena.Msgagent.Agent
/-!
# Whose agent it is

The gate and its agents together. Every agent is at one place of the gate
(`At`, from `Gated.Placed`) and fits it (`Fits`). Over a run without
`user_logout`, in which a new agent's login still has the last subid and
no second session of a user is entered, an agent serves the user the gate
gave it to until that session's own logout clears it, does everything for
each session once and in order, and does nothing of the next session
before the last one is over (`agent_owned`).

The gate puts an agent back into the pool inside its `logout_handler`,
which the agent's logout waits for: the agent is in the pool while it
still has to unload. The queue makes up for that. A `user_logout` does
not go through the queue.
-/

namespace Athena

namespace Msgagent

open Lua Gated

variable {conf : Conf} {s t : State} {gs gs' : Gated.State Task} {a : ℕ} {st : Standing}
  {e : Gated.Event Task} {out : List (Out Task)}

/-- The runs the queue is enough for. -/
def Orderly (conf : Conf) (s : State) (l : Event × List Act) : Prop :=
  match l.1 with
  | .gate (.created c true) => ∀ uid secret name, s.gate.phase c = .creating uid secret name →
      name = Gate.username uid s.gate.internalId conf.node
  | .entered n => ∀ u secret sent, s.gate.phase (.call n) = .entering u secret sent →
      s.gate.users u.uid = none
  | .client _ _ => False
  | _ => True

/-- What an agent has done for its sessions. -/
def journal (a : ℕ) (acts : List Act) : List (Login × Do) :=
  acts.filterMap fun act => if act.agent = a then act.session.map fun l => (l, act.act) else none

/-- **An agent belongs to the session it was given to.** -/
structure Owned (s : State) (acts : List Act) : Prop where
  /-- The agent of an online user has the user's session. -/
  online : ∀ uid u, s.gate.users uid = some u →
    (s.agents u.agent).session = some ⟨uid, u.subid⟩
  /-- It still has it while the gate logs the user out. -/
  leaving : ∀ c u, s.gate.phase c = .leaving u →
    (s.agents u.agent).session = some ⟨u.uid, u.subid⟩
  /-- Everything is done once for each session, and one session after the
  other. -/
  once : ∀ a, ∃ (done : List Login) (rest : List (Login × Do)),
    journal a acts = done.flatMap life ++ rest ∧
    match (s.agents a).session with
    | none => rest = []
    | some l => rest ≠ [] ∧ rest <+: life l ∧ rest ≠ life l
  /-- An agent in the pool has only the end of its logout to do. -/
  pooled : ∀ a ∈ s.gate.agentPool, ∀ l, (s.agents a).session = some l → ∃ j,
    (s.agents a).doing j = .leaving l ∨ (s.agents a).doing j = .unloading

/-! ## Where the gate has an agent -/

/-- **The place of an agent at the gate.** -/
inductive At (gs : Gated.State Task) (a : ℕ) : Standing → Prop
  | free (users : ∀ uid u, gs.users uid = some u → u.agent ≠ a)
      (phases : ∀ c, (gs.phase c).agent ≠ some a) : At gs a .free
  | called {n : ℕ} {u : User} {secret : Str} {sent : ℕ}
      (entering : gs.phase (.call n) = .entering u secret sent) (agent : u.agent = a) :
      At gs a (.called n ⟨u.uid, u.subid⟩)
  | ready {n : ℕ} {u : User} {secret : Str} {sent : ℕ}
      (entering : gs.phase (.call n) = .entering u secret sent) (agent : u.agent = a) :
      At gs a (.ready n ⟨u.uid, u.subid⟩)
  | online {u : User} (user : gs.users u.uid = some u) (agent : u.agent = a) :
      At gs a (.online ⟨u.uid, u.subid⟩)
  | leaving {j : Job} {u : User} (leaving : gs.phase (.own a j) = .leaving u)
      (agent : u.agent = a) : At gs a (.leaving j ⟨u.uid, u.subid⟩)

/-- The place of `st`, among the holders of agents. -/
theorem At.holds (h : At gs a st) :
    st = .free ∨ ∃ k, gs.holds k = some a ∧ match st with
      | .free => False
      | .called n _ => k = .handled (.call n)
      | .ready n _ => k = .handled (.call n)
      | .online l => k = .online l.uid
      | .leaving j _ => k = .handled (.own a j) := by
  cases h with
  | free _ _ => exact Or.inl rfl
  | called entering agent =>
    exact Or.inr ⟨_, by simp [Gated.State.holds, entering, Phase.agent, agent], rfl⟩
  | ready entering agent =>
    exact Or.inr ⟨_, by simp [Gated.State.holds, entering, Phase.agent, agent], rfl⟩
  | online user agent => exact Or.inr ⟨_, by simp [Gated.State.holds, user, agent], rfl⟩
  | leaving leaving agent =>
    exact Or.inr ⟨_, by simp [Gated.State.holds, leaving, Phase.agent, agent], rfl⟩

/-- An agent in the pool is free. -/
theorem At.of_pool (h : At gs a st) (hp : Placed gs) (ha : a ∈ gs.agentPool) : st = .free := by
  obtain ⟨i, hi, hget⟩ := List.getElem_of_mem ha
  have hpool : gs.holds (.pooled i) = some a := List.getElem?_eq_some_iff.mpr ⟨hi, hget⟩
  rcases h.holds with hst | ⟨k, hk, hst⟩
  · exact hst
  · have := hp.one _ _ _ hpool hk
    subst this
    cases h <;> simp at hst

/-- And where an agent of the pool is. -/
theorem At.free_of_pool (hp : Placed gs) (ha : a ∈ gs.agentPool) : At gs a .free := by
  obtain ⟨i, hi, hget⟩ := List.getElem_of_mem ha
  have hpool : gs.holds (.pooled i) = some a := List.getElem?_eq_some_iff.mpr ⟨hi, hget⟩
  refine .free (fun uid u hu hagent => ?_) fun c hc => ?_
  · have := hp.one _ (.online uid) _ hpool (by simp [Gated.State.holds, hu, hagent])
    cases this
  · have := hp.one _ (.handled c) _ hpool hc
    cases this

/-- The agent of a login that calls it. -/
theorem At.of_entering {c : Task} {u : User} {secret : Str} {sent : ℕ} (h : At gs u.agent st)
    (hp : Placed gs) (hc : gs.phase c = .entering u secret sent) :
    ∃ n, c = .call n ∧ (st = .called n ⟨u.uid, u.subid⟩ ∨ st = .ready n ⟨u.uid, u.subid⟩) := by
  have hk : gs.holds (.handled c) = some u.agent := by
    simp [Gated.State.holds, hc, Phase.agent]
  cases h with
  | free users phases => exact absurd (by rw [hc]; rfl) (phases c)
  | @called n v _ _ entering agent =>
    have := hp.one _ (.handled (.call n)) _ hk
      (by simp [Gated.State.holds, entering, Phase.agent, agent])
    cases this
    rw [hc] at entering
    cases entering
    exact ⟨n, rfl, Or.inl rfl⟩
  | @ready n v _ _ entering agent =>
    have := hp.one _ (.handled (.call n)) _ hk
      (by simp [Gated.State.holds, entering, Phase.agent, agent])
    cases this
    rw [hc] at entering
    cases entering
    exact ⟨n, rfl, Or.inr rfl⟩
  | @online v user agent =>
    have := hp.one _ (.online v.uid) _ hk (by simp [Gated.State.holds, user, agent])
    cases this
  | @leaving j v leaving agent =>
    have := hp.one _ (.handled (.own u.agent j)) _ hk
      (by simp [Gated.State.holds, leaving, Phase.agent, agent])
    cases this
    rw [hc] at leaving
    cases leaving

/-- The agent of an online user. -/
theorem At.of_online {uid : Int64} {u : User} (h : At gs u.agent st) (hp : Placed gs)
    (hu : gs.users uid = some u) : st = .online ⟨u.uid, u.subid⟩ := by
  have hk : gs.holds (.online uid) = some u.agent := by simp [Gated.State.holds, hu]
  rcases h.holds with rfl | ⟨k, hk', hst⟩
  · cases h with
    | free users phases => exact absurd rfl (users uid u hu)
  · have := hp.one _ _ _ hk hk'
    subst this
    cases h with
    | @online v user agent =>
      have : uid = v.uid := Place.online.inj hst
      subst this
      rw [hu] at user
      cases user
      rfl
    | _ => simp at hst

/-- The user of an agent that serves. -/
theorem At.user {l : Login} (h : At gs a (.online l)) :
    ∃ u, gs.users l.uid = some u ∧ a = u.agent ∧ u.subid = l.subid := by
  cases h with
  | online user agent => exact ⟨_, user, agent.symm, rfl⟩

/-- The agent of a session on its way out. -/
theorem At.of_leaving {c : Task} {u : User} (h : At gs u.agent st) (hp : Placed gs)
    (hc : gs.phase c = .leaving u) :
    ∃ j, c = .own u.agent j ∧ st = .leaving j ⟨u.uid, u.subid⟩ := by
  have hk : gs.holds (.handled c) = some u.agent := by
    simp [Gated.State.holds, hc, Phase.agent]
  rcases h.holds with rfl | ⟨k, hk', hst⟩
  · cases h with
    | free users phases => exact absurd (by rw [hc]; rfl) (phases c)
  · have := hp.one _ _ _ hk hk'
    subst this
    cases h with
    | free _ _ => simp at hst
    | @leaving j v leaving agent =>
      have : c = .own u.agent j := Place.handled.inj hst
      subst this
      rw [hc] at leaving
      cases leaving
      exact ⟨j, rfl, rfl⟩
    | @called n v _ _ entering agent =>
      have : c = .call n := Place.handled.inj hst
      subst this
      rw [hc] at entering
      cases entering
    | @ready n v _ _ entering agent =>
      have : c = .call n := Place.handled.inj hst
      subst this
      rw [hc] at entering
      cases entering
    | online _ _ => simp at hst

/-- An agent none of whose places is touched. -/
theorem At.keep (h : At gs a st)
    (husers : ∀ uid u, u.agent = a → (gs'.users uid = some u ↔ gs.users uid = some u))
    (hphase : ∀ c, (gs.phase c).agent = some a ∨ (gs'.phase c).agent = some a →
      gs'.phase c = gs.phase c) : At gs' a st := by
  cases h with
  | free users phases =>
    refine .free (fun uid u hu hagent => users uid u ((husers uid u hagent).mp hu) hagent) ?_
    intro c hc
    have := hphase c (Or.inr hc)
    rw [this] at hc
    exact phases c hc
  | called entering agent =>
    refine .called ((hphase _ (Or.inl ?_)).trans entering) agent
    rw [entering, ← agent]
    rfl
  | ready entering agent =>
    refine .ready ((hphase _ (Or.inl ?_)).trans entering) agent
    rw [entering, ← agent]
    rfl
  | online user agent => exact .online ((husers _ _ agent).mpr user) agent
  | leaving leaving agent =>
    refine .leaving ((hphase _ (Or.inl ?_)).trans leaving) agent
    rw [leaving, ← agent]
    rfl

/-! ## The gate by itself -/

/-- **What the gate keeps** in such runs, whatever the agents do: the
names of the sessions have their subids, and each coroutine is of its
kind. -/
structure Base (conf : Conf) (gs : Gated.State Task) : Prop where
  named : Named conf gs
  placed : Placed gs
  mapped : ∀ name u, gs.usernameMap name = some u →
    gs.users u.uid = some u ∧ u.username = name
  told : ∀ uid u, gs.users uid = some u →
    u.username = Gate.username uid u.subid conf.node
  tells : ∀ c u secret sent, gs.phase c = .entering u secret sent →
    u.username = Gate.username u.uid u.subid conf.node ∧ sent = u.subid
  call : ∀ n u, gs.phase (.call n) ≠ .leaving u
  own : ∀ a j, gs.phase (.own a j) = .absent ∨ (∃ u, gs.phase (.own a j) = .leaving u) ∨
    ∃ r, gs.phase (.own a j) = .finished r

/-- The events of the gate here, and what they are under. -/
def Sane (conf : Conf) (gs : Gated.State Task) : Gated.Event Task → Prop
  | .login c _ _ => ∃ n, c = .call n
  | .created c true => ∀ uid secret name, gs.phase c = .creating uid secret name →
      name = Gate.username uid gs.internalId conf.node
  | .entered c ok => ok = true ∧ ∀ u secret sent, gs.phase c = .entering u secret sent →
      gs.users u.uid = none
  | .logout c _ _ => ∃ a j, c = .own a j
  | .kick c _ _ => ∃ n, c = .call n
  | _ => True

theorem goto_phase_of_ne {g : Gated.State Task} {c d : Task} {p : Phase} (h : d ≠ c) :
    (g.goto c p).phase d = g.phase d :=
  Function.update_of_ne h _ _

@[simp] theorem goto_phase_self (gs : Gated.State Task) (c : Task) (p : Phase) :
    (gs.goto c p).phase c = p :=
  Function.update_self _ _ _

/-- The parts that only look at the coroutines. -/
theorem Base.phases (hb : Base conf gs) {g : Gated.State Task} {c : Task} {p : Phase}
    (hphase : g.phase = gs.phase)
    (hentering : ∀ u secret sent, p = .entering u secret sent →
      u.username = Gate.username u.uid u.subid conf.node ∧ sent = u.subid)
    (hcall : ∀ n u, c = .call n → p ≠ .leaving u)
    (hown : ∀ a j, c = .own a j → (∃ u, p = .leaving u) ∨ ∃ r, p = .finished r) :
    (∀ c' u secret sent, (g.goto c p).phase c' = .entering u secret sent →
      u.username = Gate.username u.uid u.subid conf.node ∧ sent = u.subid) ∧
    (∀ n u, (g.goto c p).phase (.call n) ≠ .leaving u) ∧
    ∀ a j, (g.goto c p).phase (.own a j) = .absent ∨
      (∃ u, (g.goto c p).phase (.own a j) = .leaving u) ∨
      ∃ r, (g.goto c p).phase (.own a j) = .finished r := by
  refine ⟨fun c' u secret sent h => ?_, fun n u h => ?_, fun a j => ?_⟩
  · by_cases hc : c' = c
    · subst hc
      rw [goto_phase_self] at h
      exact hentering u secret sent h
    · rw [goto_phase_of_ne hc, hphase] at h
      exact hb.tells c' u secret sent h
  · by_cases hc : Task.call n = c
    · subst hc
      rw [goto_phase_self] at h
      exact hcall n u rfl h
    · rw [goto_phase_of_ne hc, hphase] at h
      exact hb.call n u h
  · by_cases hc : Task.own a j = c
    · subst hc
      rw [goto_phase_self]
      exact Or.inr (hown a j rfl)
    · rw [goto_phase_of_ne hc, hphase]
      exact hb.own a j

/-- **One step of the gate.** -/
theorem Base.step (hb : Base conf gs) (h : Does conf gs e gs' out) (hs : Sane conf gs e) :
    Base conf gs' := by
  have hkept : Kept gs e := by
    intro c ok u secret sent he hph
    subst he
    exact ⟨hs.1, hs.2 u secret sent hph⟩
  have hnamed := hb.named.step h
  have hplaced := hb.placed.step h hkept
  -- the tables stay, and a coroutine ends or waits
  have hgo : ∀ {c : Task} {p : Phase} {g₁ : Gated.State Task}, gs' = g₁.goto c p →
      g₁.phase = gs.phase → g₁.users = gs.users → g₁.usernameMap = gs.usernameMap →
      (∀ u secret sent, p = .entering u secret sent →
        u.username = Gate.username u.uid u.subid conf.node ∧ sent = u.subid) →
      (∀ u, p ≠ .leaving u) → (∀ a j, c = .own a j → ∃ r, p = .finished r) → Base conf gs' := by
    rintro c p g₁ rfl hph hu hm hentering hleaving hown
    obtain ⟨h1, h2, h3⟩ := hb.phases (c := c) hph hentering (fun n u _ => hleaving u)
      (fun a j hc => Or.inr (hown a j hc))
    refine ⟨hnamed, hplaced, fun name u hmap => ?_, fun uid u huser => ?_, h1, h2, h3⟩
    · have hmap : g₁.usernameMap name = some u := hmap
      rw [hm] at hmap
      obtain ⟨hx, hy⟩ := hb.mapped name u hmap
      exact ⟨(congrFun hu _).trans hx, hy⟩
    · have huser : g₁.users uid = some u := huser
      rw [hu] at huser
      exact hb.told uid u huser
  -- the session of a coroutine that runs is not an agent's call
  have hcall : ∀ {c : Task} {x : Phase}, gs.phase c = x → x ≠ .absent → (∀ u, x ≠ .leaving u) →
      (∀ r, x ≠ .finished r) → ∀ a j, c ≠ .own a j := by
    rintro c x rfl h1 h2 h3 a j rfl
    rcases hb.own a j with h | ⟨u, h⟩ | ⟨r, h⟩
    · exact h1 h
    · exact h2 u h
    · exact h3 r h
  cases h with
  | alreadyLogin _ _ => exact hgo rfl rfl rfl rfl (by simp) (by simp) (fun _ _ _ => ⟨_, rfl⟩)
  | reuses _ _ _ session =>
    obtain ⟨n, rfl⟩ := hs
    refine hgo rfl rfl rfl rfl (fun u secret sent hp => ?_) (by simp) (fun _ _ h => by cases h)
    cases hp
    subst session
    exact ⟨rfl, rfl⟩
  | creates _ _ _ _ =>
    obtain ⟨n, rfl⟩ := hs
    exact hgo rfl rfl rfl rfl (by simp) (by simp) (fun _ _ h => by cases h)
  | tooMany _ _ _ _ => exact hgo rfl rfl rfl rfl (by simp) (by simp) (fun _ _ _ => ⟨_, rfl⟩)
  | created creating session =>
    refine hgo rfl rfl rfl rfl (fun u secret sent hp => ?_) (by simp)
      (fun a j h => absurd h (hcall creating (by simp) (by simp) (by simp) a j))
    cases hp
    subst session
    exact ⟨hs _ _ _ creating, rfl⟩
  | createFails _ => exact hgo rfl rfl rfl rfl (by simp) (by simp) (fun _ _ _ => ⟨_, rfl⟩)
  | @entered c u secret sent entering unregistered =>
    obtain ⟨h1, h2, h3⟩ := hb.phases (c := c) (p := .finished (.loggedIn u sent gs.internalId))
      (g := { gs with
        users := Function.update gs.users u.uid (some u)
        usernameMap := Function.update gs.usernameMap u.username (some u)
        msg := (Gate.login gs.msg u.username secret).1 }) rfl (by simp) (by simp)
      (fun _ _ _ => Or.inr ⟨_, rfl⟩)
    have hnone := hs.2 u secret sent entering
    refine ⟨hnamed, hplaced, fun name v hmap => ?_, fun uid v huser => ?_, h1, h2, h3⟩
    · have hmap : Function.update gs.usernameMap u.username (some u) name = some v := hmap
      show Function.update gs.users u.uid (some u) v.uid = some v ∧ v.username = name
      by_cases hname : name = u.username
      · subst hname
        rw [Function.update_self] at hmap
        cases hmap
        exact ⟨Function.update_self _ _ _, rfl⟩
      · rw [Function.update_of_ne hname] at hmap
        obtain ⟨hv, hn⟩ := hb.mapped name v hmap
        have huid : v.uid ≠ u.uid := by
          intro heq
          rw [heq, hnone] at hv
          cases hv
        exact ⟨(Function.update_of_ne huid _ _).trans hv, hn⟩
    · have huser : Function.update gs.users u.uid (some u) uid = some v := huser
      by_cases huid : uid = u.uid
      · subst huid
        rw [Function.update_self] at huser
        cases huser
        exact (hb.tells c u secret sent entering).1
      · rw [Function.update_of_ne huid] at huser
        exact hb.told uid v huser
  | registered entering registered =>
    rw [hb.named.fresh entering] at registered
    cases registered
  | loginFails _ => exact absurd hs.1 (by decide)
  | notOnline _ _ => exact hgo rfl rfl rfl rfl (by simp) (by simp) (fun _ _ _ => ⟨_, rfl⟩)
  | wrongLogout _ _ _ => exact hgo rfl rfl rfl rfl (by simp) (by simp) (fun _ _ _ => ⟨_, rfl⟩)
  | @leaves c uid subid u absent online right =>
    obtain ⟨a, j, rfl⟩ := hs
    obtain ⟨h1, h2, h3⟩ := hb.phases (c := .own a j) (p := .leaving u)
      (g := { gs with
        msg := (Gate.logout gs.msg u.username).1
        users := Function.update gs.users uid none
        usernameMap := Function.update gs.usernameMap u.username none }) rfl (by simp)
      (fun n v h => by cases h) (fun _ _ _ => Or.inl ⟨u, rfl⟩)
    refine ⟨hnamed, hplaced, fun name v hmap => ?_, fun uid' v huser => ?_, h1, h2, h3⟩
    · have hmap : Function.update gs.usernameMap u.username none name = some v := hmap
      show Function.update gs.users uid none v.uid = some v ∧ v.username = name
      by_cases hname : name = u.username
      · subst hname
        rw [Function.update_self] at hmap
        cases hmap
      · rw [Function.update_of_ne hname] at hmap
        obtain ⟨hv, hn⟩ := hb.mapped name v hmap
        have huid : v.uid ≠ uid := by
          intro heq
          rw [heq, online] at hv
          cases hv
          exact hname hn.symm
        exact ⟨(Function.update_of_ne huid _ _).trans hv, hn⟩
    · have huser : Function.update gs.users uid none uid' = some v := huser
      by_cases huid : uid' = uid
      · subst huid
        rw [Function.update_self] at huser
        cases huser
      · rw [Function.update_of_ne huid] at huser
        exact hb.told uid' v huser
  | pooled _ => exact hgo rfl rfl rfl rfl (by simp) (by simp) (fun _ _ _ => ⟨_, rfl⟩)
  | reported _ => exact hgo rfl rfl rfl rfl (by simp) (by simp) (fun _ _ _ => ⟨_, rfl⟩)
  | kicks _ _ _ =>
    obtain ⟨n, rfl⟩ := hs
    exact hgo rfl rfl rfl rfl (by simp) (by simp) (fun _ _ h => by cases h)
  | wrongKick _ _ _ => exact hgo rfl rfl rfl rfl (by simp) (by simp) (fun _ _ _ => ⟨_, rfl⟩)
  | kicksNobody _ _ =>
    obtain ⟨n, rfl⟩ := hs
    exact hgo rfl rfl rfl rfl (by simp) (by simp) (fun _ _ h => by cases h)
  | kicked _ => exact hgo rfl rfl rfl rfl (by simp) (by simp) (fun _ _ _ => ⟨_, rfl⟩)
  | socket _ =>
    exact ⟨hnamed, hplaced, hb.mapped, hb.told, hb.tells, hb.call, hb.own⟩

theorem base_initial (conf : Conf) (day : ℕ) : Base conf (Gated.initial conf day) := by
  refine ⟨named_initial conf day, placed_initial conf day, ?_, ?_, ?_, ?_, fun _ _ => Or.inl rfl⟩
  · intro name u h
    cases h
  · intro uid u h
    cases h
  · intro c u secret sent h
    cases h
  · intro n u h
    cases h

/-! ## The gate and its agents -/

/-- Where the gate is with the `logout` of each job of an agent. -/
def calls (gs : Gated.State Task) (a : ℕ) (j : Job) : Phase := gs.phase (.own a j)

/-- An agent is where the gate has it, with its record. -/
structure Fit (gs : Gated.State Task) (a : ℕ) (ag : Agent) (h : List (Login × Do)) : Prop where
  queued : Queued (calls gs a) ag
  recorded : Recorded ag h
  placed : ∃ st, At gs a st ∧ Fits (calls gs a) ag st

/-- **The invariant of the gate and its agents.** -/
structure Sound (conf : Conf) (s : State) (acts : List Act) : Prop where
  base : Base conf s.gate
  /-- A coroutine that has called no agent has no job there. -/
  fresh : ∀ n, s.gate.phase (.call n) = .absent ∨
    (∃ uid secret name, s.gate.phase (.call n) = .creating uid secret name) →
    ∀ a, (s.agents a).doing (.gate n) = .absent
  /-- An agent logs out its own session. -/
  home : ∀ a j u, s.gate.phase (.own a j) = .leaving u → u.agent = a
  fits : ∀ a, Fit s.gate a (s.agents a) (journal a acts)

variable {acts : List Act} {ag : Agent} {h : List (Login × Do)}

/-- The gate moves elsewhere. -/
theorem Fit.keep (hf : Fit gs a ag h)
    (husers : ∀ uid u, u.agent = a → (gs'.users uid = some u ↔ gs.users uid = some u))
    (hphase : ∀ c, (gs.phase c).agent = some a ∨ (gs'.phase c).agent = some a →
      gs'.phase c = gs.phase c) (hcalls : ∀ j, gs'.phase (.own a j) = gs.phase (.own a j)) :
    Fit gs' a ag h := by
  obtain ⟨hq, hr, st, hat, hfit⟩ := hf
  have heq : calls gs' a = calls gs a := funext hcalls
  exact ⟨by rw [heq]; exact hq, hr, st, hat.keep husers hphase, by rw [heq]; exact hfit⟩

/-- A coroutine of the login server goes on, and touches no agent's place. -/
theorem Fit.goto (hf : Fit gs a ag h) {g₁ : Gated.State Task} {n : ℕ} {p : Phase}
    (hphase : g₁.phase = gs.phase) (husers : g₁.users = gs.users)
    (hb : (gs.phase (.call n)).agent ≠ some a) (hp : p.agent ≠ some a) :
    Fit (g₁.goto (.call n) p) a ag h := by
  refine hf.keep (fun uid u _ => by rw [← husers]; rfl) (fun c hc => ?_) (fun j => ?_)
  · by_cases heq : c = .call n
    · subst heq
      rw [goto_phase_self] at hc
      exact absurd hc (by simp [hb, hp])
    · rw [goto_phase_of_ne heq, hphase]
  · rw [goto_phase_of_ne (by simp), hphase]

/-- A coroutine of the login server goes on without any agent. -/
theorem Sound.idle (hs : Sound conf s acts) {g₁ : Gated.State Task} {n : ℕ} {p : Phase}
    (hbase : Base conf (g₁.goto (.call n) p)) (hphase : g₁.phase = s.gate.phase)
    (husers : g₁.users = s.gate.users) (hb : (s.gate.phase (.call n)).agent = none)
    (hp : p.agent = none)
    (hfresh : p = .absent ∨ (∃ uid secret name, p = .creating uid secret name) →
      s.gate.phase (.call n) = .absent) :
    Sound conf ⟨g₁.goto (.call n) p, s.agents⟩ acts := by
  refine ⟨hbase, fun n' hn' a => ?_, fun a j u h => ?_, fun a => ?_⟩
  · by_cases heq : n' = n
    · subst heq
      simp only [goto_phase_self] at hn'
      exact hs.fresh n' (Or.inl (hfresh hn')) a
    · have hne : Task.call n' ≠ .call n := by simpa using heq
      simp only [goto_phase_of_ne hne, hphase] at hn'
      exact hs.fresh n' hn' a
  · rw [goto_phase_of_ne (by simp), hphase] at h
    exact hs.home a j u h
  · exact (hs.fits a).goto hphase husers (by simp [hb]) (by simp [hp])

/-- A coroutine of the login server gives an agent that is free to a
player. -/
theorem Sound.calls (hs : Sound conf s acts) {g₁ : Gated.State Task} {n : ℕ} {u : User}
    {secret : Str} (hbase : Base conf (g₁.goto (.call n) (.entering u secret u.subid)))
    (hphase : g₁.phase = s.gate.phase) (husers : g₁.users = s.gate.users)
    (hbefore : s.gate.phase (.call n) = .absent ∨
      ∃ uid secret name, s.gate.phase (.call n) = .creating uid secret name)
    (hfree : ∀ st, At s.gate u.agent st → st = .free) :
    Sound conf ⟨g₁.goto (.call n) (.entering u secret u.subid),
      Function.update s.agents u.agent ((s.agents u.agent).push (.gate n) (.login ⟨u.uid, u.subid⟩))⟩
      acts := by
  have habs := hs.fresh n hbefore
  have hnone : (s.gate.phase (.call n)).agent = none := by
    rcases hbefore with h | ⟨uid, sec, name, h⟩ <;> rw [h] <;> rfl
  refine ⟨hbase, fun n' hn' a => ?_, fun a j v h => ?_, fun a => ?_⟩
  · by_cases heq : n' = n
    · subst heq
      simp only [goto_phase_self] at hn'
      simp at hn'
    · have hne : Task.call n' ≠ .call n := by simpa using heq
      simp only [goto_phase_of_ne hne, hphase] at hn'
      have hold := hs.fresh n' hn'
      show (Function.update s.agents u.agent _ a).doing (.gate n') = .absent
      by_cases ha : a = u.agent
      · subst ha
        rw [Function.update_self]
        exact (Function.update_of_ne (by simpa using heq) _ _).trans (hold u.agent)
      · rw [Function.update_of_ne ha]
        exact hold a
  · rw [goto_phase_of_ne (by simp), hphase] at h
    exact hs.home a j v h
  · show Fit _ a (Function.update s.agents u.agent _ a) _
    by_cases ha : a = u.agent
    · subst ha
      rw [Function.update_self]
      obtain ⟨hq, hr, st, hat, hfit⟩ := hs.fits u.agent
      obtain rfl := hfree st hat
      have hcalls : Msgagent.calls (g₁.goto (.call n) (.entering u secret u.subid)) u.agent =
          Msgagent.calls s.gate u.agent := by
        funext j
        exact (goto_phase_of_ne (by simp)).trans (congrFun hphase _)
      refine ⟨by rw [hcalls]; exact hq.push (habs _) _, hr.push hq (habs _) _, .called n ⟨u.uid, u.subid⟩,
        .called (goto_phase_self _ _ _) rfl, by rw [hcalls]; exact hfit.call hq (habs _) _⟩
    · rw [Function.update_of_ne ha]
      refine (hs.fits a).goto hphase husers (by simp [hnone]) ?_
      exact fun h => ha (Option.some.inj h).symm

/-- The agent of an online user is asked to log out. -/
theorem Sound.asks (hs : Sound conf s acts) {uid : Int64} {u : User} {j : Job} (kick : Bool)
    (hu : s.gate.users uid = some u) (hj : (s.agents u.agent).doing j = .absent)
    (hnew : ∀ n, j = .gate n → s.gate.phase (.call n) ≠ .absent ∧
      ∀ uid secret name, s.gate.phase (.call n) ≠ .creating uid secret name) :
    Sound conf ⟨s.gate,
      Function.update s.agents u.agent ((s.agents u.agent).push j (.logout kick))⟩ acts := by
  refine ⟨hs.base, fun n hn a => ?_, hs.home, fun a => ?_⟩
  · show (Function.update s.agents u.agent _ a).doing (.gate n) = .absent
    have hold := hs.fresh n hn
    by_cases ha : a = u.agent
    · subst ha
      rw [Function.update_self]
      have hne : Job.gate n ≠ j := by
        rintro rfl
        obtain ⟨h1, h2⟩ := hnew n rfl
        rcases hn with hn | ⟨uid, secret, name, hn⟩
        · exact h1 hn
        · exact h2 uid secret name hn
      exact (Function.update_of_ne hne _ _).trans (hold u.agent)
    · rw [Function.update_of_ne ha]
      exact hold a
  · show Fit _ a (Function.update s.agents u.agent _ a) _
    by_cases ha : a = u.agent
    · subst ha
      rw [Function.update_self]
      obtain ⟨hq, hr, st, hat, hfit⟩ := hs.fits u.agent
      obtain rfl := hat.of_online hs.base.placed hu
      exact ⟨hq.push hj _, hr.push hq hj _, _, hat, hfit.ask j kick⟩
    · rw [Function.update_of_ne ha]
      exact hs.fits a

/-- **The gate moves without the agents.** -/
theorem Sound.gate (hs : Sound conf s acts) (hun : unattended e = true) (hsane : Sane conf s.gate e)
    (h : s.act conf e = some t) : Sound conf t acts := by
  obtain ⟨⟨gs', out⟩, hstep, rfl⟩ := Option.map_eq_some_iff.mp h
  have hdoes := does_of_step hstep
  have hbase := hs.base.step hdoes hsane
  -- a coroutine that runs, other than a logout, is one of the login server
  have hcall : ∀ {c : Task} {x : Phase}, s.gate.phase c = x → x ≠ .absent → (∀ u, x ≠ .leaving u) →
      (∀ r, x ≠ .finished r) → ∃ n, c = .call n := by
    rintro c x rfl h1 h2 h3
    cases c with
    | call n => exact ⟨n, rfl⟩
    | own a j =>
      rcases hs.base.own a j with h | ⟨u, h⟩ | ⟨r, h⟩
      · exact absurd h h1
      · exact absurd h (h2 u)
      · exact absurd h (h3 r)
  cases hdoes with
  | alreadyLogin absent _ =>
    obtain ⟨n, rfl⟩ := hsane
    exact hs.idle hbase rfl rfl (by rw [absent]; rfl) rfl (by simp)
  | reuses absent _ pooled session =>
    obtain ⟨n, rfl⟩ := hsane
    subst session
    refine hs.calls hbase rfl rfl (Or.inl absent) fun st hat => ?_
    exact hat.of_pool hs.base.placed (by rw [pooled]; simp)
  | creates absent _ _ _ =>
    obtain ⟨n, rfl⟩ := hsane
    exact hs.idle hbase rfl rfl (by rw [absent]; rfl) rfl (fun _ => absent)
  | tooMany absent _ _ _ =>
    obtain ⟨n, rfl⟩ := hsane
    exact hs.idle hbase rfl rfl (by rw [absent]; rfl) rfl (by simp)
  | created creating session =>
    obtain ⟨n, rfl⟩ := hcall creating (by simp) (by simp) (by simp)
    subst session
    refine hs.calls hbase rfl rfl (Or.inr ⟨_, _, _, creating⟩) fun st hat => ?_
    -- nobody has an agent that was not made
    rcases hat.holds with hst | ⟨k, hk, -⟩
    · exact hst
    · exact absurd (hs.base.placed.live_of k _ hk) (by simp)
  | createFails creating =>
    obtain ⟨n, rfl⟩ := hcall creating (by simp) (by simp) (by simp)
    exact hs.idle hbase rfl rfl (by rw [creating]; rfl) rfl (by simp)
  | entered _ _ => cases hun
  | registered _ _ => cases hun
  | loginFails _ => cases hun
  | notOnline _ _ => cases hun
  | wrongLogout _ _ _ => cases hun
  | leaves _ _ _ => cases hun
  | @pooled c u leaving =>
    obtain ⟨a, j, rfl⟩ : ∃ a j, c = .own a j := by
      cases c with
      | call n => exact absurd leaving (hs.base.call n u)
      | own a j => exact ⟨a, j, rfl⟩
    obtain rfl := hs.home a j u leaving
    refine ⟨hbase, fun n hn a => ?_, fun a j' v hv => ?_, fun a => ?_⟩
    · have hph := goto_phase_of_ne (g := { s.gate with agentPool := s.gate.agentPool ++ [u.agent] })
        (c := .own u.agent j) (d := .call n) (p := .finished .returned) (by simp)
      rcases hn with hn | ⟨uid, secret, name, hn⟩
      · exact hs.fresh n (Or.inl (hph.symm.trans hn)) a
      · exact hs.fresh n (Or.inr ⟨uid, secret, name, hph.symm.trans hn⟩) a
    · by_cases heq : Task.own a j' = .own u.agent j
      · rw [heq] at hv
        exact absurd ((goto_phase_self _ _ _).symm.trans hv) (by simp)
      · exact hs.home a j' v ((goto_phase_of_ne heq).symm.trans hv)
    · by_cases ha : a = u.agent
      · subst ha
        obtain ⟨hq, hr, st, hat, hfit⟩ := hs.fits u.agent
        obtain ⟨j', hj, rfl⟩ := hat.of_leaving hs.base.placed leaving
        cases hj
        have hpool : u.agent ∈ s.gate.agentPool ++ [u.agent] := by simp
        cases hfit with
        | leaving session first hleaving called logouts =>
          have hanswer := goto_phase_self { s.gate with agentPool := s.gate.agentPool ++ [u.agent] }
            (.own u.agent j) (.finished .returned)
          refine ⟨hq.recall hleaving fun j' hne => goto_phase_of_ne (by simpa using hne), hr, .free,
            At.free_of_pool hbase.placed hpool, .free (fun j' hj' l => ?_)
              (.left session first hleaving hanswer)⟩
          have hj' : j' ∈ (s.agents u.agent).cs := hj'
          rw [first] at hj'
          rcases List.mem_cons.mp hj' with rfl | hin
          · intro hwaiting
            exact absurd (hleaving.symm.trans hwaiting) (by simp)
          · exact logouts j' hin l
      · refine (hs.fits a).keep (fun _ _ _ => Iff.rfl) (fun c hc => ?_) (fun j' => ?_)
        · refine goto_phase_of_ne ?_
          rintro rfl
          rw [goto_phase_self, leaving] at hc
          rcases hc with hc | hc
          · exact ha (Option.some.inj hc).symm
          · cases hc
        · exact goto_phase_of_ne (by simp [ha])
  | reported reporting =>
    obtain ⟨n, rfl⟩ := hcall reporting (by simp) (by simp) (by simp)
    exact hs.idle hbase rfl rfl (by rw [reporting]; rfl) rfl (by simp)
  | @kicks c uid subid u absent online right =>
    obtain ⟨n, rfl⟩ := hsane
    have hidle := hs.idle hbase rfl rfl (by rw [absent]; rfl) rfl (by simp)
    refine hidle.asks true online (hs.fresh n (Or.inl absent) u.agent) ?_
    rintro n' h
    cases h
    rw [goto_phase_self]
    exact ⟨by simp, by simp⟩
  | wrongKick absent _ _ =>
    obtain ⟨n, rfl⟩ := hsane
    exact hs.idle hbase rfl rfl (by rw [absent]; rfl) rfl (by simp)
  | kicksNobody absent _ =>
    obtain ⟨n, rfl⟩ := hsane
    exact hs.idle hbase rfl rfl (by rw [absent]; rfl) rfl (by simp)
  | kicked _ => cases hun
  | socket _ =>
    refine ⟨hbase, hs.fresh, hs.home, fun a => ?_⟩
    exact (hs.fits a).keep (fun _ _ _ => Iff.rfl) (fun _ _ => rfl) (fun _ => rfl)

/-- A login of the gate has its agent, and enters the session. -/
theorem Sound.entered (hs : Sound conf s acts) {n : ℕ} {u : User} {secret : Str} {sent : ℕ}
    (hph : s.gate.phase (.call n) = .entering u secret sent)
    (hdone : ((s.agents u.agent).doing (.gate n)).ended = true)
    (hnone : s.gate.users u.uid = none)
    (h : s.act conf (.entered (.call n) true) = some t) : Sound conf t acts := by
  obtain ⟨⟨gs', out⟩, hstep, rfl⟩ := Option.map_eq_some_iff.mp h
  have hdoes := does_of_step hstep
  have hbase := hs.base.step hdoes ⟨rfl, fun v sec sn hv => by rw [hph] at hv; cases hv; exact hnone⟩
  cases hdoes with
  | registered entering registered =>
    rw [hs.base.named.fresh entering] at registered
    cases registered
  | @entered c v sec sn entering unregistered =>
    rw [hph] at entering
    cases entering
    refine ⟨hbase, fun n' hn' a => ?_, fun a j v hv => ?_, fun a => ?_⟩
    · by_cases heq : n' = n
      · subst heq
        simp at hn'
      · have hne : Task.call n' ≠ .call n := by simpa using heq
        simp only [goto_phase_of_ne hne] at hn'
        exact hs.fresh n' hn' a
    · exact hs.home a j v ((goto_phase_of_ne (by simp)).symm.trans hv)
    · by_cases ha : a = u.agent
      · subst ha
        obtain ⟨hq, hr, st, hat, hfit⟩ := hs.fits u.agent
        have hcalls : Msgagent.calls ({ s.gate with
            users := Function.update s.gate.users u.uid (some u)
            usernameMap := Function.update s.gate.usernameMap u.username (some u)
            msg := (Gate.login s.gate.msg u.username secret).1 }.goto (.call n)
              (.finished (.loggedIn u sent s.gate.internalId))) u.agent =
            Msgagent.calls s.gate u.agent := by
          funext j
          exact goto_phase_of_ne (by simp)
        obtain ⟨n', hn', hst⟩ := hat.of_entering hs.base.placed hph
        cases hn'
        refine ⟨by rw [hcalls]; exact hq, hr, .online ⟨u.uid, u.subid⟩,
          .online (Function.update_self _ _ _) rfl, ?_⟩
        rw [hcalls]
        -- its `login` has been done, so the agent is ready
        rcases hst with rfl | rfl
        · cases hfit with
          | called queue waiting logouts past =>
            rw [waiting] at hdone
            cases hdone
        · cases hfit with
          | ready queue session done =>
            have hempty : ∀ j, j ∉ (s.agents u.agent).cs := by simp [queue]
            exact .online session (fun j hj => absurd hj (hempty j)) fun j hj =>
              absurd hj (hempty j)
      · refine (hs.fits a).keep (fun uid v hv => ?_) (fun c hc => ?_) fun j => goto_phase_of_ne (by simp)
        · show Function.update s.gate.users u.uid (some u) uid = some v ↔ _
          by_cases huid : uid = u.uid
          · subst huid
            rw [Function.update_self, hnone]
            constructor
            · intro heq
              cases heq
              exact absurd hv.symm ha
            · intro heq
              cases heq
          · rw [Function.update_of_ne huid]
        · refine goto_phase_of_ne ?_
          rintro rfl
          rw [goto_phase_self, hph] at hc
          rcases hc with hc | hc
          · exact ha (Option.some.inj hc).symm
          · cases hc

/-- A kick of the gate goes on after its agent. -/
theorem Sound.kicked (hs : Sound conf s acts) {n : ℕ}
    (h : s.act conf (.kicked (.call n)) = some t) : Sound conf t acts := by
  obtain ⟨⟨gs', out⟩, hstep, rfl⟩ := Option.map_eq_some_iff.mp h
  have hdoes := does_of_step hstep
  have hbase := hs.base.step hdoes trivial
  cases hdoes with
  | kicked kicking => exact hs.idle hbase rfl rfl (by rw [kicking]; rfl) rfl (by simp)

/-- The gate takes up the `logout` of a job. The session is the one the
agent serves, so the assertion holds and the user leaves. -/
theorem Sound.serve (hs : Sound conf s acts) {j : Job} {l : Login}
    (hj : (s.agents a).doing j = .leaving l)
    (h : s.act conf (.logout (.own a j) l.uid l.subid) = some t) : Sound conf t acts := by
  obtain ⟨⟨gs', out⟩, hstep, rfl⟩ := Option.map_eq_some_iff.mp h
  have hdoes := does_of_step hstep
  have hbase := hs.base.step hdoes ⟨a, j, rfl⟩
  obtain ⟨hq, hr, st, hat, hfit⟩ := hs.fits a
  obtain ⟨rest, hcs⟩ := hq.first (j := j) (by simp [hj]) (by simp [hj]) (by simp [hj])
  have habs : s.gate.phase (.own a j) = .absent := by
    cases hdoes with
    | notOnline absent _ => exact absent
    | wrongLogout absent _ _ => exact absent
    | leaves absent _ _ => exact absent
  obtain ⟨rfl, session⟩ := hfit.serving hcs hj habs
  obtain ⟨u, hu, rfl, hl⟩ := hat.user
  have huid : u.uid = l.uid := (hs.base.named.users l.uid u hu).1
  have hright : u.username = Gate.username l.uid l.subid conf.node := by
    rw [← hl]
    exact hs.base.told l.uid u hu
  -- the gate can neither miss the user nor find it under another name
  cases hdoes with
  | notOnline absent offline =>
    rw [hu] at offline
    cases offline
  | wrongLogout absent online wrong =>
    rw [hu] at online
    cases online
    exact absurd hright wrong
  | @leaves c uid subid v absent online right =>
    rw [hu] at online
    cases online
    refine ⟨hbase, fun n hn a' => ?_, fun a' j' v hv => ?_, fun a' => ?_⟩
    · have hph := goto_phase_of_ne (g := { s.gate with
        msg := (Gate.logout s.gate.msg u.username).1
        users := Function.update s.gate.users l.uid none
        usernameMap := Function.update s.gate.usernameMap u.username none })
        (c := .own u.agent j) (d := .call n) (p := .leaving u) (by simp)
      rcases hn with hn | ⟨uid, secret, name, hn⟩
      · exact hs.fresh n (Or.inl (hph.symm.trans hn)) a'
      · exact hs.fresh n (Or.inr ⟨uid, secret, name, hph.symm.trans hn⟩) a'
    · by_cases heq : Task.own a' j' = .own u.agent j
      · cases heq
        cases (goto_phase_self _ _ _).symm.trans hv
        rfl
      · exact hs.home a' j' v ((goto_phase_of_ne heq).symm.trans hv)
    · by_cases ha : a' = u.agent
      · subst ha
        refine ⟨hq.recall hj fun j' hne => goto_phase_of_ne (by simpa using hne), hr,
          .leaving j ⟨u.uid, u.subid⟩, .leaving (goto_phase_self _ _ _) rfl, ?_⟩
        have hll : (⟨u.uid, u.subid⟩ : Login) = l := by rw [huid, hl]
        rw [hll]
        cases hfit with
        | online _ logouts serving =>
          exact .leaving session hcs hj (goto_phase_self _ _ _) fun j' hj' =>
            logouts j' (by rw [hcs]; exact List.mem_cons_of_mem _ hj')
      · -- another agent's users are not this one
        refine (hs.fits a').keep (fun uid v hv => ?_) (fun c hc => ?_) fun j' =>
          goto_phase_of_ne (by simp [ha])
        · show Function.update s.gate.users l.uid none uid = some v ↔ _
          by_cases heq : uid = l.uid
          · subst heq
            rw [Function.update_self, hu]
            constructor
            · intro h'
              cases h'
            · intro h'
              cases h'
              exact absurd hv.symm ha
          · rw [Function.update_of_ne heq]
        · refine goto_phase_of_ne ?_
          rintro rfl
          rw [goto_phase_self, absent] at hc
          rcases hc with hc | hc
          · cases hc
          · exact ha (Option.some.inj hc).symm

/-- An agent goes on by itself. -/
theorem Sound.agent (hs : Sound conf s acts) {r : Agent × List (Option Login × Do)}
    (hdoing : ∀ n, (s.agents a).doing (.gate n) = .absent → r.1.doing (.gate n) = .absent)
    (hfit : Fit s.gate a r.1 (journal a acts ++ forSession r.2)) :
    Sound conf (s.agent a r).1 (acts ++ (s.agent a r).2) := by
  refine ⟨hs.base, fun n hn a' => ?_, hs.home, fun a' => ?_⟩
  · show (Function.update s.agents a r.1 a').doing (.gate n) = .absent
    by_cases ha : a' = a
    · subst ha
      rw [Function.update_self]
      exact hdoing n (hs.fresh n hn a')
    · rw [Function.update_of_ne ha]
      exact hs.fresh n hn a'
  · show Fit s.gate a' (Function.update s.agents a r.1 a') (journal a' (acts ++ r.2.map _))
    have hjournal : journal a' (acts ++ r.2.map fun x => ⟨a, x.1, x.2⟩) =
        journal a' acts ++ if a' = a then forSession r.2 else [] := by
      rw [journal, List.filterMap_append]
      congr 1
      rw [List.filterMap_map]
      split
      · rename_i ha
        subst ha
        simp [forSession]
      · rename_i ha
        simp [Ne.symm ha]
    rw [hjournal]
    by_cases ha : a' = a
    · subst ha
      rw [Function.update_self, if_pos rfl]
      exact hfit
    · rw [Function.update_of_ne ha, if_neg ha, List.append_nil]
      exact hs.fits a'

/-- A command begins. -/
theorem Sound.start (hs : Sound conf s acts) {j : Job} {r : Agent × List (Option Login × Do)}
    (h : start (s.agents a) j = some r) :
    Sound conf (s.agent a r).1 (acts ++ (s.agent a r).2) := by
  obtain ⟨hq, hr, st, hat, hfit⟩ := hs.fits a
  obtain ⟨⟨st', hfit', hst⟩, hq', hr'⟩ := hfit.start hq hr h
  refine hs.agent (fun n hn => ?_) ⟨hq', hr', st', ?_, hfit'⟩
  · exact start_absent h hn
  · rcases hst with rfl | ⟨n, l, rfl, rfl⟩
    · exact hat
    · cases hat with
      | called entering agent => exact .ready entering agent

/-- A job goes on. -/
theorem Sound.resume (hs : Sound conf s acts) {j : Job} {r : Agent × List (Option Login × Do)}
    (h : resume (s.agents a) j (answerOf s.gate a j) = some r) :
    Sound conf (s.agent a r).1 (acts ++ (s.agent a r).2) := by
  obtain ⟨hq, hr, st, hat, hfit⟩ := hs.fits a
  obtain ⟨hfit', hq', hr'⟩ := hfit.resume hq hr rfl h
  exact hs.agent (fun n hn => resume_absent h hn) ⟨hq', hr', st, hat, hfit'⟩

/-! ## Every run -/

/-- **One step keeps the gate and its agents together.** -/
theorem Sound.step (hs : Sound conf s acts) {l : Event × List Act} (hord : Orderly conf s l)
    (h : step conf s l.1 = some (t, l.2)) : Sound conf t (acts ++ l.2) := by
  obtain ⟨e, new⟩ := l
  -- the steps of the gate add nothing to the record
  have hquiet : ∀ {x : Option State}, (x.map fun t => (t, ([] : List Act))) = some (t, new) →
      (∀ t, x = some t → Sound conf t acts) → Sound conf t (acts ++ new) := by
    intro x hx hall
    obtain ⟨t', ht', heq⟩ := Option.map_eq_some_iff.mp hx
    cases heq
    rw [List.append_nil]
    exact hall t ht'
  cases e with
  | gate e =>
    simp only [Msgagent.step] at h
    split at h
    · rename_i hun
      refine hquiet h fun t ht => hs.gate hun ?_ ht
      cases e with
      | login c _ _ =>
        cases c with
        | call n => exact ⟨n, rfl⟩
        | own a j => cases hun
      | created c ok =>
        cases ok with
        | true => exact hord
        | false => trivial
      | entered c ok => cases hun
      | logout c _ _ => cases hun
      | reported c => trivial
      | kick c _ _ =>
        cases c with
        | call n => exact ⟨n, rfl⟩
        | own a j => cases hun
      | kicked c => cases hun
      | socket e => trivial
    · cases h
  | entered n =>
    simp only [Msgagent.step] at h
    split at h
    · rename_i u secret sent hph
      split at h
      · rename_i hdone
        exact hquiet h fun t ht => hs.entered hph hdone (hord u secret sent hph) ht
      · cases h
    · cases h
  | kicked n =>
    simp only [Msgagent.step] at h
    split at h
    · split at h
      · exact hquiet h fun t ht => hs.kicked ht
      · cases h
    · cases h
  | ask name j kick =>
    simp only [Msgagent.step] at h
    split at h
    · rename_i u hu
      split at h
      · rename_i hj
        cases h
        rw [List.map_nil, List.append_nil]
        exact hs.asks kick (hs.base.mapped name u hu).1 hj (by simp)
      · cases h
    · cases h
  | client name j => exact hord.elim
  | start a j =>
    simp only [Msgagent.step] at h
    obtain ⟨r, hr, heq⟩ := Option.map_eq_some_iff.mp h
    obtain ⟨rfl, rfl⟩ : (s.agent a r).1 = t ∧ (s.agent a r).2 = new := Prod.ext_iff.mp heq
    exact hs.start hr
  | resume a j =>
    simp only [Msgagent.step] at h
    obtain ⟨r, hr, heq⟩ := Option.map_eq_some_iff.mp h
    obtain ⟨rfl, rfl⟩ : (s.agent a r).1 = t ∧ (s.agent a r).2 = new := Prod.ext_iff.mp heq
    exact hs.resume hr
  | serve a j =>
    simp only [Msgagent.step] at h
    split at h
    · rename_i l hl
      exact hquiet h fun t ht => hs.serve hl ht
    · cases h

theorem sound_initial (conf : Conf) (day : ℕ) : Sound conf (initial conf day) [] := by
  refine ⟨base_initial conf day, fun _ _ _ => rfl, fun a j u h => (by cases h), fun a => ?_⟩
  refine ⟨⟨List.nodup_nil, fun _ _ => Or.inl rfl, by simp [initial], by simp [initial],
    fun _ _ _ _ => rfl⟩, ⟨⟨[], rfl⟩, by simp [Agent.head, initial]⟩, .free, ?_, ?_⟩
  · exact .free (fun _ _ h => by cases h) fun _ h => by cases h
  · exact .free (fun _ h => by cases h) (.cleared rfl fun _ h => by cases h)

/-- **An agent of such a run belongs to its session.** -/
theorem Sound.owned (hs : Sound conf s acts) : Owned s acts := by
  refine ⟨fun uid u hu => ?_, fun c u hc => ?_, fun a => ?_, fun a ha l hl => ?_⟩
  · obtain ⟨-, -, st, hat, hfit⟩ := hs.fits u.agent
    obtain rfl := hat.of_online hs.base.placed hu
    obtain rfl : u.uid = uid := (hs.base.named.users uid u hu).1
    cases hfit with
    | online session _ _ => exact session
  · obtain ⟨-, -, st, hat, hfit⟩ := hs.fits u.agent
    obtain ⟨j, -, rfl⟩ := hat.of_leaving hs.base.placed hc
    cases hfit with
    | leaving session _ _ _ _ => exact session
  · obtain ⟨done, hdone⟩ := (hs.fits a).recorded.lives
    refine ⟨done, (s.agents a).part, hdone, ?_⟩
    cases hl : (s.agents a).session with
    | none => simp [Agent.part, hl]
    | some l => exact part_life hl
  · obtain ⟨-, -, st, hat, hfit⟩ := hs.fits a
    obtain rfl := hat.of_pool hs.base.placed ha
    cases hfit with
    | free _ past =>
      cases past with
      | cleared session _ =>
        rw [session] at hl
        cases hl
      | @left l' j _ session _ leaving _ =>
        rw [session] at hl
        cases hl
        exact ⟨j, Or.inl leaving⟩
      | @unloading _ j _ _ _ unloading => exact ⟨j, Or.inr unloading⟩

/-- **An agent belongs to the session it was given to**, after every run
of the gate and its agents that the queue is enough for. -/
theorem agent_owned {day : ℕ} {labels : List (Event × List Act)}
    (h : ((system conf).restrict (Orderly conf)).Path (initial conf day) labels s) :
    Owned s (labels.flatMap Prod.snd) := by
  have hsound := h.invariant_history (l := [])
    (P := fun ls s => Sound conf s (ls.flatMap Prod.snd)) ?_ (sound_initial conf day)
  · exact Sound.owned hsound
  · rintro ls s l t ⟨hst, hord⟩ hs
    rw [List.flatMap_append, List.flatMap_singleton]
    exact hs.step hord hst

/-! ## Two runs -/

/-- A test for `Orderly`, in which no agent is made. -/
def orderly (s : State) : Event → Bool
  | .gate (.created _ true) => false
  | .entered n =>
    match s.gate.phase (.call n) with
    | .entering u _ _ => (s.gate.users u.uid).isNone
    | _ => true
  | .client _ _ => false
  | _ => true

theorem orderly_of_test (e : Event) (acts : List Act) (h : orderly s e = true) :
    Orderly conf s (e, acts) := by
  cases e with
  | gate e =>
    cases e with
    | created c ok =>
      cases ok with
      | true => cases h
      | false => trivial
    | _ => trivial
  | entered n =>
    intro u secret sent hph
    simp only [orderly, hph] at h
    exact Option.isNone_iff_eq_none.mp h
  | client name j => cases h
  | _ => trivial

/-- Player 7 enters on the one agent of the pool. -/
def enters : List Event :=
  [.gate (.login (.call 0) 7 "k".toList), .start 0 (.gate 0), .entered 0]

/-- A `logout` of the agent, from its first yield to the call of the gate
and the return of the agent to the pool. -/
def leaves (j : Job) (yields : ℕ) : List Event :=
  List.replicate yields (.resume 0 j) ++ [.serve 0 j, .gate (.reported (.own 0 j))]

/-- The next player is given the agent, which takes up the login at once
or after another job. -/
def reused : List Event := [.gate (.login (.call 1) 8 "l".toList), .start 0 (.gate 1), .entered 1]

/-- Player 7 is kicked and the agent is given to player 8, who is online
with it when the logout of 7 is over. -/
theorem agent_owned_reused :
    ∃ labels s, ((system small).restrict (Orderly small)).Path (initial small 0) labels s ∧
      Owned s (labels.flatMap Prod.snd) ∧ (s.agents 0).session = some ⟨8, 2⟩ ∧
      s.gate.agentPool = [] := by
  have hrun : ((System.exec (step small) orderly (initial small 0)
      (enters ++ [.ask (Gate.username 7 1 small.node) 0 true, .start 0 (.asked 0)] ++
        leaves (.asked 0) 14 ++ [.resume 0 (.asked 0), .resume 0 (.asked 0)] ++ reused)).map
      fun r => ((r.1.agents 0).session, r.1.gate.agentPool)) = some (some ⟨8, 2⟩, []) := by
    decide +kernel
  obtain ⟨⟨s, labels⟩, hr, hend⟩ := Option.map_eq_some_iff.mp hrun
  have hpath := System.path_of_exec (T := (system small).restrict (Orderly small))
    (fun _ e _ acts hok hst => ⟨hst, orderly_of_test e acts hok⟩) hr
  exact ⟨labels, s, hpath, agent_owned hpath, (Prod.ext_iff.mp hend).1, (Prod.ext_iff.mp hend).2⟩

/-- **An agent is in the pool too soon, and one is taken away.** The agent
of a player who was kicked is in the pool while its logout still has to
unload. And after a `user_logout` of player 7 the agent is given to
player 8, who takes it over before that logout is past the gate: the
`unload` of 7 is done for 8, and the end of it clears the session of 8,
who is online. -/
theorem agent_not_owned :
    (∃ labels s, ((system small).restrict (Orderly small)).Path (initial small 0) labels s ∧
      0 ∈ s.gate.agentPool ∧ (s.agents 0).session = some ⟨7, 1⟩ ∧
      (s.agents 0).doing (.asked 0) = .leaving ⟨7, 1⟩) ∧
    ∃ labels s, (system small).Path (initial small 0) labels s ∧
      (∃ u, s.gate.users 8 = some u ∧ u.agent = 0) ∧ (s.agents 0).session = none ∧
      (⟨7, 1⟩, .unload) ∉ journal 0 (labels.flatMap Prod.snd) ∧
      (⟨8, 2⟩, .unload) ∈ journal 0 (labels.flatMap Prod.snd) := by
  constructor
  · have hrun : ((System.exec (step small) orderly (initial small 0)
        (enters ++ [.ask (Gate.username 7 1 small.node) 0 true, .start 0 (.asked 0)] ++
          leaves (.asked 0) 14)).map
        fun r => decide (0 ∈ r.1.gate.agentPool ∧ (r.1.agents 0).session = some ⟨7, 1⟩ ∧
          (r.1.agents 0).doing (.asked 0) = .leaving ⟨7, 1⟩)) = some true := by
      decide +kernel
    obtain ⟨⟨s, labels⟩, hr, hend⟩ := Option.map_eq_some_iff.mp hrun
    have hpath := System.path_of_exec (T := (system small).restrict (Orderly small))
      (fun _ e _ acts hok hst => ⟨hst, orderly_of_test e acts hok⟩) hr
    exact ⟨labels, s, hpath, of_decide_eq_true hend⟩
  · have hrun : ((System.exec (step small) (fun _ _ => true) (initial small 0)
        (enters ++ [.client (Gate.username 7 1 small.node) 0] ++ leaves (.client 0) 14 ++ reused ++
          [.resume 0 (.client 0), .resume 0 (.client 0)])).map
        fun r => decide ((r.1.gate.users 8).map (fun u => u.agent) = some 0 ∧
          (r.1.agents 0).session = none ∧
          (⟨7, 1⟩, .unload) ∉ journal 0 (r.2.flatMap Prod.snd) ∧
          (⟨8, 2⟩, .unload) ∈ journal 0 (r.2.flatMap Prod.snd))) = some true := by
      decide +kernel
    obtain ⟨⟨s, labels⟩, hr, hend⟩ := Option.map_eq_some_iff.mp hrun
    obtain ⟨huser, hnone, h7, h8⟩ := of_decide_eq_true hend
    have hpath := System.path_of_exec (T := system small) (fun _ _ _ _ _ hst => hst) hr
    exact ⟨labels, s, hpath, Option.map_eq_some_iff.mp huser, hnone, h7, h8⟩

end Msgagent

end Athena
