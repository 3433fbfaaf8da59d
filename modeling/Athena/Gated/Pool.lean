import Athena.Common.Holder
import Athena.Gated.Step
import Mathlib.Data.List.Nodup
/-!
# The agents of the gate

An agent waits in `agent_pool`, serves the online user that names it, or
is in the hands of a handler: a login has one from the pool or from
`newservice` on until it has entered the session, a logout has one from
the session's end on until it has put it back. Nothing else has an agent
(`State.holds`), and as long as no step goes wrong every agent made has
exactly one holder (`pool_exact`).

Three things go wrong. Logins that wait inside `newservice` are not
counted in `curr_agent` yet; a login whose agent raises gives the agent
to nobody; and a second login of a uid overwrites the session of the
first. `Accountable` is the condition on a step that none of them
happens, and a step without it does exceed the count or lose an agent
(`lost_of_unaccountable`).
-/

namespace Athena

namespace Gated

open Lua Gate

/-- The agent a handler has. -/
def Phase.agent : Phase → Option ℕ
  | .entering u _ _ => some u.agent
  | .leaving u => some u.agent
  | _ => none

/-- The places an agent may be at. -/
inductive Place (C : Type)
  | pooled (i : ℕ)
  | online (uid : Int64)
  | handled (c : C)

variable {C : Type} {conf : Conf}

/-- **The agent at a place.** -/
def State.holds (s : State C) : Place C → Option ℕ
  | .pooled i => s.agentPool[i]?
  | .online uid => (s.users uid).map User.agent
  | .handled c => (s.phase c).agent

def Quiescent (s : State C) : Prop := ∀ c, (s.phase c).idle = true

/-- **Agents are accounted for.** -/
structure PoolExact (s : State C) : Prop where
  counted : s.currAgent = s.created
  bounded : s.currAgent ≤ s.maxAgent
  /-- Between the calls an agent is in the pool once, or serves one user. -/
  placed : Quiescent s → ∀ a < s.created,
    (s.agentPool.count a = 1 ∧ ∀ uid u, s.users uid = some u → u.agent ≠ a) ∨
    (a ∉ s.agentPool ∧ ∃! uid, ∃ u, s.users uid = some u ∧ u.agent = a)

/-- The agent of a login takes it, for a user who is not online. -/
def Kept (s : State C) (e : Event C) : Prop :=
  ∀ c ok u secret sent, e = .entered c ok → s.phase c = .entering u secret sent →
    ok = true ∧ s.users u.uid = none

/-- There is still room when an agent is made, and no agent is lost. -/
def Accountable (s : State C) (l : Event C × List (Out C)) : Prop :=
  (∀ c, l.1 = .created c true → s.currAgent < s.maxAgent) ∧ Kept s l.1

variable [DecidableEq C] {s t : State C} {e : Event C} {out : List (Out C)}

/-! ## One holder each -/

/-- One holder for each agent made. -/
def Placed (s : State C) : Prop := Held s.holds {a | a < s.created}

/-- **The invariant**: the count, and one holder for each agent. -/
structure Accounted (s : State C) : Prop where
  counted : s.currAgent = s.created
  bounded : s.currAgent ≤ s.maxAgent
  held : Placed s

theorem holds_goto_self (s : State C) (c : C) (p : Phase) :
    (s.goto c p).holds (.handled c) = p.agent := by
  simp [State.holds, State.goto]

theorem holds_goto_of_ne {c : C} {p : Phase} {k : Place C} (h : k ≠ .handled c) :
    (s.goto c p).holds k = s.holds k := by
  cases k with
  | handled c' =>
    have hc : c' ≠ c := fun heq => h (by rw [heq])
    simp [State.holds, State.goto, hc]
  | _ => rfl

/-- A handler goes on with what it has. -/
theorem holds_goto {c : C} {p : Phase} (hp : p.agent = (s.phase c).agent) :
    (s.goto c p).holds = s.holds := by
  funext k
  by_cases hk : k = .handled c
  · subst hk
    rw [holds_goto_self, hp]
    rfl
  · exact holds_goto_of_ne hk

omit [DecidableEq C] in
/-- Steps at which no agent changes hands. -/
theorem Placed.keep (hp : Placed s) (hcreated : t.created = s.created) (hholds : t.holds = s.holds) :
    Placed t := by
  unfold Placed
  rw [hholds, hcreated]
  exact hp

omit [DecidableEq C] in
/-- Steps at which one agent goes from one place to another. -/
theorem Placed.move (hp : Placed s) {a : ℕ} {h r : Place C} (hcreated : t.created = s.created)
    (hfrom : s.holds h = some a) (hto : s.holds r = none) (hfrom' : t.holds h = none)
    (hto' : t.holds r = some a) (hrest : ∀ k, k ≠ h → k ≠ r → t.holds k = s.holds k) :
    Placed t := by
  unfold Placed
  rw [hcreated]
  exact Held.move hp hfrom hto hfrom' hto' hrest

/-- An agent at the end of the pool moves no other. -/
theorem getElem?_concat_of_ne {pool : List ℕ} {a i : ℕ} (hi : i ≠ pool.length) :
    (pool ++ [a])[i]? = pool[i]? := by
  rw [List.getElem?_append]
  split
  · rfl
  · have hlen : pool.length ≤ i := by omega
    have hlen' : 1 ≤ i - pool.length := by omega
    rw [List.getElem?_eq_none hlen, List.getElem?_eq_none (by simpa using hlen')]

/-- The last agent of the pool goes to a login. -/
theorem Placed.reuses (hp : Placed s) {c : C} {pool : List ℕ} {u : User} {secret : Str}
    {id sent : ℕ} (habs : s.phase c = .absent) (hpool : s.agentPool = pool ++ [u.agent]) :
    Placed ({ s with internalId := id, agentPool := pool }.goto c (.entering u secret sent)) := by
  refine hp.move (a := u.agent) (h := .pooled pool.length) (r := .handled c) rfl ?_ ?_ ?_ ?_ ?_
  · simp [State.holds, hpool]
  · simp [State.holds, habs, Phase.agent]
  · simp [State.holds, State.goto]
  · exact holds_goto_self _ _ _
  · intro k hk hk'
    rw [holds_goto_of_ne hk']
    cases k with
    | pooled i =>
      have hi : i ≠ pool.length := fun heq => hk (by rw [heq])
      simp only [State.holds, hpool, getElem?_concat_of_ne hi]
    | _ => rfl

/-- An agent that was not there yet comes to a login. -/
theorem Placed.made (hp : Placed s) {c : C} {u : User} {uid : Int64} {secret name : Str}
    {sent curr : ℕ} (hph : s.phase c = .creating uid secret name) (hu : u.agent = s.created) :
    Placed ({ s with created := s.created + 1, currAgent := curr }.goto c
      (.entering u secret sent)) := by
  have hset : ({a | a < s.created + 1} : Set ℕ) = insert s.created {a | a < s.created} := by
    ext a
    simp only [Set.mem_ofPred_eq, Set.mem_insert_iff]
    omega
  show Held _ {a | a < s.created + 1}
  rw [hset]
  refine Held.add hp (r := .handled c) (by simp) ?_ ?_ ?_
  · simp [State.holds, hph, Phase.agent]
  · rw [holds_goto_self, ← hu]
    rfl
  · intro k hk
    rw [holds_goto_of_ne hk]
    cases k <;> rfl

/-- The agent of a login goes to its user, who had none. -/
theorem Placed.entered (hp : Placed s) {c : C} {u : User} {secret : Str} {sent : ℕ}
    {usernameMap : Str → Option User} {msg : Gate.State} {r : Result}
    (hph : s.phase c = .entering u secret sent) (hnone : s.users u.uid = none) :
    Placed ({ s with
      users := Function.update s.users u.uid (some u), usernameMap := usernameMap,
      msg := msg }.goto c (.finished r)) := by
  refine hp.move (a := u.agent) (h := .handled c) (r := .online u.uid) rfl ?_ ?_ ?_ ?_ ?_
  · simp [State.holds, hph, Phase.agent]
  · simp [State.holds, hnone]
  · simp [holds_goto_self, Phase.agent]
  · simp [State.holds, State.goto]
  · intro k hk hk'
    rw [holds_goto_of_ne hk]
    cases k with
    | online uid =>
      have huid : uid ≠ u.uid := fun heq => hk' (by rw [heq])
      simp [State.holds, huid]
    | _ => rfl

/-- The agent of a session goes to its logout. -/
theorem Placed.leaves (hp : Placed s) {c : C} {uid : Int64} {u : User}
    {usernameMap : Str → Option User} {msg : Gate.State} (habs : s.phase c = .absent)
    (hu : s.users uid = some u) :
    Placed ({ s with
      msg := msg, users := Function.update s.users uid none,
      usernameMap := usernameMap }.goto c (.leaving u)) := by
  refine hp.move (a := u.agent) (h := .online uid) (r := .handled c) rfl ?_ ?_ ?_ ?_ ?_
  · simp [State.holds, hu]
  · simp [State.holds, habs, Phase.agent]
  · simp [State.holds, State.goto]
  · exact holds_goto_self _ _ _
  · intro k hk hk'
    rw [holds_goto_of_ne hk']
    cases k with
    | online uid' =>
      have huid : uid' ≠ uid := fun heq => hk (by rw [heq])
      simp [State.holds, huid]
    | _ => rfl

/-- The agent of a logout goes back to the pool. -/
theorem Placed.pooled (hp : Placed s) {c : C} {u : User} {r : Result}
    (hph : s.phase c = .leaving u) :
    Placed ({ s with agentPool := s.agentPool ++ [u.agent] }.goto c (.finished r)) := by
  refine hp.move (a := u.agent) (h := .handled c) (r := .pooled s.agentPool.length) rfl
    ?_ ?_ ?_ ?_ ?_
  · simp [State.holds, hph, Phase.agent]
  · simp [State.holds]
  · simp [holds_goto_self, Phase.agent]
  · simp [State.holds, State.goto]
  · intro k hk hk'
    rw [holds_goto_of_ne hk]
    cases k with
    | pooled i =>
      have hi : i ≠ s.agentPool.length := fun heq => hk' (by rw [heq])
      simp only [State.holds, getElem?_concat_of_ne hi]
    | _ => rfl

/-- **One step that keeps the agents.** -/
theorem Placed.step (hp : Placed s) (h : Does conf s e t out) (hk : Kept s e) : Placed t := by
  have hends : ∀ {c : C} {p : Phase}, p.agent = (s.phase c).agent → Placed (s.goto c p) :=
    fun heq => hp.keep rfl (holds_goto heq)
  have htook : Placed { s with internalId := s.internalId + 1 } := hp
  cases h with
  | alreadyLogin absent _ => exact hends (by rw [absent]; rfl)
  | reuses absent _ pooled session =>
    subst session
    exact hp.reuses absent pooled
  | creates absent _ _ _ => exact htook.keep rfl (holds_goto (by simp [absent, Phase.agent]))
  | tooMany absent _ _ _ => exact htook.keep rfl (holds_goto (by simp [absent, Phase.agent]))
  | created creating session =>
    subst session
    exact hp.made creating rfl
  | createFails creating => exact hends (by rw [creating]; rfl)
  | entered entering _ => exact hp.entered entering (hk _ _ _ _ _ rfl entering).2
  | registered entering _ => exact hp.entered entering (hk _ _ _ _ _ rfl entering).2
  | loginFails entering => exact absurd (hk _ _ _ _ _ rfl entering).1 (by decide)
  | notOnline absent _ => exact hends (by rw [absent]; rfl)
  | wrongLogout absent _ _ => exact hends (by rw [absent]; rfl)
  | leaves absent online _ => exact hp.leaves absent online
  | pooled leaving => exact hp.pooled leaving
  | reported reporting => exact hends (by rw [reporting]; rfl)
  | kicks absent _ _ => exact hends (by rw [absent]; rfl)
  | wrongKick absent _ _ => exact hends (by rw [absent]; rfl)
  | kicksNobody absent _ => exact hends (by rw [absent]; rfl)
  | kicked kicking => exact hends (by rw [kicking]; rfl)
  | socket _ => exact hp

/-- The count moves with the agents made, and nothing else does. -/
theorem count_step (h : Does conf s e t out) :
    t.maxAgent = s.maxAgent ∧ (t.created = s.created ∧ t.currAgent = s.currAgent ∨
      (∃ c, e = .created c true) ∧ t.created = s.created + 1 ∧ t.currAgent = s.currAgent + 1) := by
  cases h with
  | @created c _ _ _ _ _ _ => exact ⟨rfl, Or.inr ⟨⟨c, rfl⟩, rfl, rfl⟩⟩
  | _ => exact ⟨rfl, Or.inl ⟨rfl, rfl⟩⟩

/-- **One accountable step.** -/
theorem Accounted.step (ha : Accounted s) (h : Does conf s e t out)
    (hacc : Accountable s (e, out)) : Accounted t := by
  obtain ⟨hcount, hbound, hheld⟩ := ha
  obtain ⟨hmax, ⟨h1, h2⟩ | ⟨⟨c, hc⟩, h1, h2⟩⟩ := count_step h
  · exact ⟨by omega, by omega, hheld.step h hacc.2⟩
  · have hroom := hacc.1 c hc
    exact ⟨by omega, by omega, hheld.step h hacc.2⟩

omit [DecidableEq C] in
theorem placed_initial (conf : Conf) (day : ℕ) : Placed (initial (C := C) conf day) := by
  refine ⟨?_, ?_, ?_⟩
  · intro k a hk
    cases k with
    | pooled i =>
      obtain ⟨hi, rfl⟩ := List.getElem?_eq_some_iff.mp hk
      simpa [initial] using hi
    | online uid => cases hk
    | handled c => cases hk
  · intro a ha
    exact ⟨.pooled a, List.getElem?_range ha⟩
  · intro k k' a hk hk'
    have hpool : ∀ {k : Place C}, (initial (C := C) conf day).holds k = some a → k = .pooled a := by
      intro k hk
      cases k with
      | pooled i =>
        obtain ⟨hi, heq⟩ := List.getElem?_eq_some_iff.mp hk
        have : i = a := by simpa [initial] using heq
        rw [this]
      | online uid => cases hk
      | handled c => cases hk
    rw [hpool hk, hpool hk']

omit [DecidableEq C] in
theorem accounted_initial (conf : Conf) (day : ℕ) : Accounted (initial (C := C) conf day) := by
  refine ⟨rfl, ?_, placed_initial conf day⟩
  show conf.maxclient / 10 ≤ 2 * conf.maxclient
  omega

/-! ## The other steps -/

/-- A session that is overwritten had the only hold on its agent. -/
theorem lost_of_overwritten {live : Set ℕ} (hheld : Held s.holds live) {c : C} {u v : User}
    {secret : Str} {sent : ℕ} {usernameMap : Str → Option User} {msg : Gate.State} {r : Result}
    (hph : s.phase c = .entering u secret sent) (hv : s.users u.uid = some v) (k : Place C) :
    ({ s with
      users := Function.update s.users u.uid (some u), usernameMap := usernameMap,
      msg := msg }.goto c (.finished r)).holds k ≠ some v.agent := by
  have hon : s.holds (.online u.uid) = some v.agent := by simp [State.holds, hv]
  have hhan : s.holds (.handled c) = some u.agent := by simp [State.holds, hph, Phase.agent]
  intro heq
  by_cases hkc : k = .handled c
  · subst hkc
    rw [holds_goto_self] at heq
    cases heq
  · rw [holds_goto_of_ne hkc] at heq
    -- a place with that agent is the one that was just overwritten
    have hnot : s.holds k = some v.agent → k = .online u.uid :=
      fun h => hheld.one k _ _ h hon
    cases k with
    | online uid =>
      by_cases huid : uid = u.uid
      · subst huid
        have hagent : u.agent = v.agent := by simpa [State.holds] using heq
        have := hheld.one _ _ _ hon (hagent ▸ hhan)
        cases this
      · have := hnot (by simpa [State.holds, huid] using heq)
        exact huid (Place.online.inj this)
    | pooled i =>
      have := hnot heq
      cases this
    | handled c' =>
      have := hnot heq
      cases this

/-- **What a step that is not accountable does**: there are too many
agents, or one that nobody has. -/
theorem lost_of_unaccountable (ha : Accounted s) (h : Does conf s e t out)
    (hacc : ¬ Accountable s (e, out)) :
    t.maxAgent < t.currAgent ∨ ∃ a < t.created, ∀ k, t.holds k ≠ some a := by
  obtain ⟨hcount, hbound, hheld⟩ := ha
  have hquiet : (∀ c ok, e ≠ .entered c ok) → (∀ c, e ≠ .created c true) →
      Accountable s (e, out) := by
    intro h1 h2
    exact ⟨fun c he => absurd he (h2 c), fun c ok u secret sent he => absurd he (h1 c ok)⟩
  -- a login that ends well is not accountable when its user is online
  have honline : ∀ {c : C} {u : User} {secret : Str} {sent : ℕ}, e = .entered c true →
      s.phase c = .entering u secret sent → ∃ v, s.users u.uid = some v := by
    intro c u secret sent he hph
    rcases hu : s.users u.uid with _ | v
    · refine absurd ⟨fun c' he' => ?_, fun c' ok u' secret' sent' he' hph' => ?_⟩ hacc
      · rw [he] at he'
        cases he'
      · rw [he] at he'
        cases he'
        rw [hph] at hph'
        cases hph'
        exact ⟨rfl, hu⟩
    · exact ⟨v, rfl⟩
  cases h with
  | @created c uid secret name u creating session =>
    left
    by_contra hroom
    refine hacc ⟨fun c' _ => ?_, fun c' ok u secret sent he => by cases he⟩
    have : ¬ s.maxAgent < s.currAgent + 1 := hroom
    omega
  | @loginFails c u secret sent entering =>
    right
    have hk : s.holds (.handled c) = some u.agent := by simp [State.holds, entering, Phase.agent]
    refine ⟨u.agent, hheld.live_of _ _ hk, fun k heq => ?_⟩
    by_cases hkc : k = .handled c
    · subst hkc
      rw [holds_goto_self] at heq
      cases heq
    · rw [holds_goto_of_ne hkc] at heq
      exact hkc (hheld.one k _ _ heq hk)
  | entered entering _ =>
    right
    obtain ⟨v, hv⟩ := honline rfl entering
    have hk : s.holds (.online _) = some v.agent := congrArg (Option.map User.agent) hv
    exact ⟨v.agent, hheld.live_of _ _ hk, lost_of_overwritten hheld entering hv⟩
  | registered entering _ =>
    right
    obtain ⟨v, hv⟩ := honline rfl entering
    have hk : s.holds (.online _) = some v.agent := congrArg (Option.map User.agent) hv
    exact ⟨v.agent, hheld.live_of _ _ hk, lost_of_overwritten hheld entering hv⟩
  | _ => exact absurd (hquiet (by simp) (by simp)) hacc

/-! ## Between the calls -/

omit [DecidableEq C] in
theorem Quiescent.agent (hq : Quiescent s) (c : C) : (s.phase c).agent = none := by
  have := hq c
  cases hph : s.phase c with
  | entering u secret sent => simp [hph, Phase.idle] at this
  | leaving u => simp [hph, Phase.idle] at this
  | _ => rfl

omit [DecidableEq C] in
/-- One holder each is what the pool and the users show. -/
theorem Accounted.exact (ha : Accounted s) : PoolExact s := by
  obtain ⟨hcount, hbound, hheld⟩ := ha
  refine ⟨hcount, hbound, fun hq a hlt => ?_⟩
  obtain ⟨k, hk⟩ := hheld.held a hlt
  cases k with
  | pooled i =>
    obtain ⟨hi, hget⟩ := List.getElem?_eq_some_iff.mp hk
    refine Or.inl ⟨?_, ?_⟩
    · -- two positions of one agent would be two holders
      have hnodup : s.agentPool.Nodup := by
        rw [List.nodup_iff_getElem?_ne_getElem?]
        intro i j hij hj heq
        have hsome : s.agentPool[j]? = some s.agentPool[j] := List.getElem?_eq_getElem hj
        have := hheld.one (.pooled i) (.pooled j) s.agentPool[j] (by rw [← hsome, ← heq]; rfl) hsome
        cases this
        omega
      exact List.count_eq_one_of_mem hnodup (List.mem_of_getElem hget)
    · intro uid u hu hagent
      have := hheld.one (.pooled i) (.online uid) a hk (by simp [State.holds, hu, hagent])
      cases this
  | online uid =>
    refine Or.inr ⟨?_, uid, ?_, ?_⟩
    · intro hmem
      obtain ⟨i, hi, hget⟩ := List.getElem_of_mem hmem
      have := hheld.one (.pooled i) (.online uid) a
        (List.getElem?_eq_some_iff.mpr ⟨hi, hget⟩) hk
      cases this
    · simpa [State.holds] using hk
    · rintro uid' ⟨u, hu, hagent⟩
      have := hheld.one (.online uid') (.online uid) a (by simp [State.holds, hu, hagent]) hk
      exact Place.online.inj this
  | handled c =>
    have : (s.phase c).agent = some a := hk
    rw [hq.agent c] at this
    cases this

/-- **The pool is exact**, in every state of a run whose steps are
accountable: the agents made are counted, there are never too many, and
between the calls each of them is in the pool once or serves one user. -/
theorem pool_exact (h : ((system conf).restrict Accountable).Reachable t) : PoolExact t := by
  refine System.Reachable.invariant (P := fun s : State C => Accounted s) ?_ ?_ h |>.exact
  · rintro s ⟨day, rfl⟩
    exact accounted_initial conf day
  · rintro s ⟨e, out⟩ t ⟨hst, hacc⟩ ha
    exact ha.step (does_of_step hst) hacc

/-- The pool, a login, the session, the logout and the pool again. -/
theorem pool_exact_around :
    ∃ t, ((system (C := Bool) small).restrict Accountable).Reachable t ∧ PoolExact t ∧
      Quiescent t ∧ t.agentPool = [0] ∧ t.internalId = 1 := by
  have haccount : ∀ (s : State Bool) (e : Event Bool) (out : List (Out Bool)),
      (∀ c, e ≠ .created c true) → (∀ c ok, e ≠ .entered c ok) → Accountable s (e, out) :=
    fun s e out h1 h2 => ⟨fun c he => absurd he (h1 c), fun c ok u secret sent he => absurd he (h2 c ok)⟩
  obtain ⟨t, hreach, hq, hpool, hid⟩ :
      ∃ t, ((system (C := Bool) small).restrict Accountable).Reachable t ∧
        (∀ c, (t.phase c).idle = true) ∧ t.agentPool = [0] ∧ t.internalId = 1 := by
    refine ⟨_, ⟨initial small 0, [(.login false 7 "k".toList, _), (.entered false true, _),
      (.logout true 7 1, _), (.reported true, _)], ⟨0, rfl⟩,
      .cons ⟨rfl, haccount _ _ _ (by simp) (by simp)⟩ (.cons ⟨rfl, ?enters⟩
        (.cons ⟨rfl, haccount _ _ _ (by simp) (by simp)⟩
          (.cons ⟨rfl, haccount _ _ _ (by simp) (by simp)⟩ (.nil _))))⟩, ?idle, rfl, rfl⟩
    case enters =>
      constructor
      · intro c he
        cases he
      · intro c ok u secret sent he hph
        cases he
        cases hph
        exact ⟨rfl, rfl⟩
    case idle => decide
  exact ⟨t, hreach, pool_exact hreach, hq, hpool, hid⟩

/-- **An agent is lost and one too many is made.** The agent of the first
login raises: it is neither in the pool nor with a user afterwards. And
three logins of a gate for two find `curr_agent` at 0. -/
theorem pool_inexact :
    (∃ labels t, (system (C := Bool) small).Path (initial small 0) labels t ∧ Quiescent t ∧
      ¬ PoolExact t) ∧
    ∃ labels t, (system (C := Fin 3) { small with maxclient := 1 }).Path
      (initial { small with maxclient := 1 } 0) labels t ∧ t.maxAgent < t.currAgent := by
  constructor
  · have hexec : ∃ r : State Bool × List (Event Bool × List (Out Bool)),
        exec small (initial small 0) [.login false 7 "k".toList, .entered false false] = some r ∧
        Quiescent r.1 ∧ r.1.created = 1 ∧ r.1.agentPool = [] ∧ ∀ uid, r.1.users uid = none := by
      refine ⟨_, rfl, ?_, rfl, rfl, fun uid => rfl⟩
      unfold Quiescent
      decide
    obtain ⟨⟨t, labels⟩, hr, hq, hcreated, hpool, husers⟩ := hexec
    refine ⟨labels, t, path_of_exec hr, hq, fun hex => ?_⟩
    rcases hex.placed hq 0 (by simp only at hcreated; omega) with ⟨hcount, -⟩ | ⟨-, uid, ⟨u, hu, -⟩, -⟩
    · simp only at hpool
      simp [hpool] at hcount
    · simp only at husers
      rw [husers uid] at hu
      cases hu
  · have hexec : ∃ r : State (Fin 3) × List (Event (Fin 3) × List (Out (Fin 3))),
        exec { small with maxclient := 1 } (initial { small with maxclient := 1 } 0)
          [.login 0 7 "k".toList, .login 1 8 "k".toList, .login 2 9 "k".toList, .created 0 true,
            .created 1 true, .created 2 true] = some r ∧ r.1.maxAgent = 2 ∧ r.1.currAgent = 3 :=
      ⟨_, rfl, rfl, rfl⟩
    obtain ⟨⟨t, labels⟩, hr, hmax, hcurr⟩ := hexec
    refine ⟨labels, t, path_of_exec hr, ?_⟩
    simp only at hmax hcurr
    omega

end Gated

end Athena
