import Athena.Common.Trace
import Athena.Gated.Model
/-!
# The game gate — what one event does

`Does` names what an event can do to the gate, with the guards the
source tests and the state it leaves; every event does one of these
things (`does_of_step`), and the invariants of the gate are read off the
cases.

`Named` is the first of them: the usernames in use carry ids that were
given out, each to one login, so the name a login registers is never
registered already and the assertion of `msgserver.login` holds
(`Named.fresh`).
-/

namespace Athena

namespace Gated

open Lua Gate

variable {C : Type} [DecidableEq C] {conf : Conf} {s t : State C} {e : Event C} {out : List (Out C)}

/-! ## One event -/

/-- No handler runs at this coroutine. -/
def Phase.idle : Phase → Bool
  | .absent => true
  | .finished _ => true
  | _ => false

/-- **What an event can do**, and the state it leaves. -/
inductive Does (conf : Conf) (s : State C) : Event C → State C → List (Out C) → Prop
  | alreadyLogin {c : C} {uid : Int64} {secret : Str} {u : User} (absent : s.phase c = .absent)
      (online : s.users uid = some u) :
      Does conf s (.login c uid secret) (s.goto c (.finished .raised)) [.answer c .raised]
  | reuses {c : C} {uid : Int64} {secret : Str} {pool : List ℕ} {agent : ℕ} {u : User}
      (absent : s.phase c = .absent) (offline : s.users uid = none)
      (pooled : s.agentPool = pool ++ [agent])
      (session : u = ⟨username uid (s.internalId + 1) conf.node, agent, uid, s.internalId + 1⟩) :
      Does conf s (.login c uid secret)
        ({ s with internalId := s.internalId + 1, agentPool := pool }.goto c
          (.entering u secret (s.internalId + 1)))
        [.took c uid (s.internalId + 1), .agentLogin c agent uid (s.internalId + 1)]
  | creates {c : C} {uid : Int64} {secret : Str} (absent : s.phase c = .absent)
      (offline : s.users uid = none) (empty : s.agentPool = []) (room : s.currAgent < s.maxAgent) :
      Does conf s (.login c uid secret)
        ({ s with internalId := s.internalId + 1 }.goto c
          (.creating uid secret (username uid (s.internalId + 1) conf.node)))
        [.took c uid (s.internalId + 1)]
  | tooMany {c : C} {uid : Int64} {secret : Str} (absent : s.phase c = .absent)
      (offline : s.users uid = none) (empty : s.agentPool = []) (full : s.maxAgent ≤ s.currAgent) :
      Does conf s (.login c uid secret)
        ({ s with internalId := s.internalId + 1 }.goto c (.finished .raised))
        [.took c uid (s.internalId + 1), .answer c .raised]
  | created {c : C} {uid : Int64} {secret name : Str} {u : User}
      (creating : s.phase c = .creating uid secret name)
      (session : u = ⟨name, s.created, uid, s.internalId⟩) :
      Does conf s (.created c true)
        ({ s with created := s.created + 1, currAgent := s.currAgent + 1 }.goto c
          (.entering u secret s.internalId))
        [.agentLogin c s.created uid s.internalId]
  | createFails {c : C} {uid : Int64} {secret name : Str}
      (creating : s.phase c = .creating uid secret name) :
      Does conf s (.created c false) (s.goto c (.finished .raised)) [.answer c .raised]
  | entered {c : C} {u : User} {secret : Str} {sent : ℕ}
      (entering : s.phase c = .entering u secret sent)
      (unregistered : s.msg.userOnline u.username = none) :
      Does conf s (.entered c true)
        ({ s with
            users := Function.update s.users u.uid (some u)
            usernameMap := Function.update s.usernameMap u.username (some u)
            msg := (Gate.login s.msg u.username secret).1 }.goto c
          (.finished (.loggedIn u sent s.internalId)))
        [.answer c (.loggedIn u sent s.internalId)]
  | registered {c : C} {u : User} {secret : Str} {sent o : ℕ}
      (entering : s.phase c = .entering u secret sent)
      (registered : s.msg.userOnline u.username = some o) :
      Does conf s (.entered c true)
        ({ s with
            users := Function.update s.users u.uid (some u)
            usernameMap := Function.update s.usernameMap u.username (some u) }.goto c
          (.finished .raised))
        [.answer c .raised]
  | loginFails {c : C} {u : User} {secret : Str} {sent : ℕ}
      (entering : s.phase c = .entering u secret sent) :
      Does conf s (.entered c false) (s.goto c (.finished .raised)) [.answer c .raised]
  | notOnline {c : C} {uid : Int64} {subid : ℕ} (absent : s.phase c = .absent)
      (offline : s.users uid = none) :
      Does conf s (.logout c uid subid) (s.goto c (.finished .returned)) [.answer c .returned]
  | wrongLogout {c : C} {uid : Int64} {subid : ℕ} {u : User} (absent : s.phase c = .absent)
      (online : s.users uid = some u) (wrong : u.username ≠ username uid subid conf.node) :
      Does conf s (.logout c uid subid) (s.goto c (.finished .raised)) [.answer c .raised]
  | leaves {c : C} {uid : Int64} {subid : ℕ} {u : User} (absent : s.phase c = .absent)
      (online : s.users uid = some u) (right : u.username = username uid subid conf.node) :
      Does conf s (.logout c uid subid)
        ({ s with
            msg := (Gate.logout s.msg u.username).1
            users := Function.update s.users uid none
            usernameMap := Function.update s.usernameMap u.username none }.goto c (.leaving u))
        [.masterLogout c uid subid]
  | pooled {c : C} {u : User} (leaving : s.phase c = .leaving u) :
      Does conf s (.reported c)
        ({ s with agentPool := s.agentPool ++ [u.agent] }.goto c (.finished .returned))
        [.answer c .returned]
  | reported {c : C} (reporting : s.phase c = .reporting) :
      Does conf s (.reported c) (s.goto c (.finished .returned)) [.answer c .returned]
  | kicks {c : C} {uid : Int64} {subid : ℕ} {u : User} (absent : s.phase c = .absent)
      (online : s.users uid = some u) (right : u.username = username uid subid conf.node) :
      Does conf s (.kick c uid subid) (s.goto c (.kicking u.agent)) [.agentLogout c u.agent]
  | wrongKick {c : C} {uid : Int64} {subid : ℕ} {u : User} (absent : s.phase c = .absent)
      (online : s.users uid = some u) (wrong : u.username ≠ username uid subid conf.node) :
      Does conf s (.kick c uid subid) (s.goto c (.finished .raised)) [.answer c .raised]
  | kicksNobody {c : C} {uid : Int64} {subid : ℕ} (absent : s.phase c = .absent)
      (offline : s.users uid = none) :
      Does conf s (.kick c uid subid) (s.goto c .reporting) [.masterLogout c uid subid]
  | kicked {c : C} {agent : ℕ} (kicking : s.phase c = .kicking agent) :
      Does conf s (.kicked c) (s.goto c (.finished .returned)) [.answer c .returned]
  | socket {e : Gate.Event} (fromSocket : isSocket e = true) :
      Does conf s (.socket e)
        { s with msg := (Gate.step conf.crypt conf.maxclient s.msg e).1 } []

/-- **Every event does one of these things.** -/
theorem does_of_step (h : step conf s e = some (t, out)) : Does conf s e t out := by
  cases e with
  | login c uid secret =>
    simp only [step] at h
    split at h
    · rename_i habs
      obtain h := Option.some.inj h
      simp only [loginHandler] at h
      split at h
      · rename_i u hu
        cases h
        exact .alreadyLogin habs hu
      · -- an agent comes from the pool, or is created while there is room
        rename_i hu
        split at h
        · rename_i agent hlast
          cases h
          exact .reuses habs hu (List.dropLast_append_getLast? agent hlast).symm rfl
        · rename_i hlast
          have hnil : s.agentPool = [] := List.getLast?_eq_none_iff.mp hlast
          split at h
          · rename_i hroom
            cases h
            exact .creates habs hu hnil hroom
          · rename_i hfull
            cases h
            exact .tooMany habs hu hnil (not_lt.mp hfull)
    · cases h
  | created c ok =>
    simp only [step] at h
    split at h
    · rename_i uid secret name hph
      obtain h := Option.some.inj h
      unfold afterCreated at h
      cases ok with
      | true => cases h; exact .created hph rfl
      | false => cases h; exact .createFails hph
    · cases h
  | entered c ok =>
    simp only [step] at h
    split at h
    · rename_i u secret sent hph
      obtain h := Option.some.inj h
      unfold afterEntered at h
      cases ok with
      | true =>
        simp only [if_true] at h
        -- `msgserver.login` asserts that the name is not yet registered
        split at h
        · rename_i o ho
          cases h
          exact .registered hph ho
        · rename_i ho
          cases h
          exact .entered hph ho
      | false => cases h; exact .loginFails hph
    · cases h
  | logout c uid subid =>
    simp only [step] at h
    split at h
    · rename_i habs
      obtain h := Option.some.inj h
      unfold logoutHandler at h
      split at h
      · rename_i hu
        cases h
        exact .notOnline habs hu
      · rename_i u hu
        split at h
        · rename_i hname
          cases h
          exact .leaves habs hu hname
        · rename_i hname
          cases h
          exact .wrongLogout habs hu hname
    · cases h
  | reported c =>
    simp only [step, afterReported] at h
    split at h
    · rename_i u hph
      cases h
      exact .pooled hph
    · rename_i hph
      cases h
      exact .reported hph
    · cases h
  | kick c uid subid =>
    simp only [step] at h
    split at h
    · rename_i habs
      obtain h := Option.some.inj h
      unfold kickHandler at h
      split at h
      · rename_i u hu
        split at h
        · rename_i hname
          cases h
          exact .kicks habs hu hname
        · rename_i hname
          cases h
          exact .wrongKick habs hu hname
      · rename_i hu
        cases h
        exact .kicksNobody habs hu
    · cases h
  | kicked c =>
    simp only [step] at h
    split at h
    · rename_i agent hph
      cases h
      exact .kicked hph
    · cases h
  | socket e =>
    simp only [step] at h
    split at h
    · rename_i hs
      cases h
      exact .socket hs
    · cases h

/-- The state a list of events leads to, and what each of them did, when
none of them is out of place. -/
def exec (conf : Conf) (s : State C) : List (Event C) →
    Option (State C × List (Event C × List (Out C)))
  | [] => some (s, [])
  | e :: es =>
    match step conf s e with
    | none => none
    | some (s', out) => (exec conf s' es).map fun r => (r.1, (e, out) :: r.2)

theorem path_of_exec {es : List (Event C)} {labels : List (Event C × List (Out C))}
    (h : exec conf s es = some (t, labels)) : (system conf).Path s labels t := by
  induction es generalizing s labels with
  | nil =>
    cases h
    exact System.Path.nil _
  | cons e es ih =>
    simp only [exec] at h
    split at h
    · cases h
    · rename_i s' out hstep
      obtain ⟨⟨t', ls⟩, hr, heq⟩ := Option.map_eq_some_iff.mp h
      cases heq
      exact System.Path.cons hstep (ih hr)

/-- A gate for ten clients, with one agent made beforehand. -/
def small : Conf := ⟨"game1".toList, ⟨fun secret _ => secret, some⟩, 10⟩

/-! ## The usernames in use -/

/-- The session a coroutine is about to register: its uid and username. -/
def Phase.session : Phase → Option (Int64 × Str)
  | .creating uid _ name => some (uid, name)
  | .entering u _ _ => some (u.uid, u.username)
  | _ => none

/-- `name` is a username of `uid` under an id given out so far. -/
def Given (conf : Conf) (s : State C) (uid : Int64) (name : Str) : Prop :=
  ∃ id, id ≤ s.internalId ∧ name = username uid id conf.node

/-- **Usernames carry ids that were given out**, each to one login. -/
structure Named (conf : Conf) (s : State C) : Prop where
  pending : ∀ c uid name, (s.phase c).session = some (uid, name) →
    Given conf s uid name ∧ s.msg.userOnline name = none
  apart : ∀ c c' uid uid' name, (s.phase c).session = some (uid, name) →
    (s.phase c').session = some (uid', name) → c = c'
  online : ∀ name o, s.msg.userOnline name = some o → ∃ uid, Given conf s uid name
  users : ∀ uid u, s.users uid = some u →
    u.uid = uid ∧ Given conf s uid u.username ∧ ∃ o, s.msg.userOnline u.username = some o

theorem login_userOnline {g : Gate.State} {name secret : Str} (h : g.userOnline name = none) :
    (Gate.login g name secret).1.userOnline = Function.update g.userOnline name (some g.fresh) := by
  simp [Gate.login, h]

theorem logout_userOnline (g : Gate.State) (name : Str) :
    (Gate.logout g name).1.userOnline = Function.update g.userOnline name none := by
  unfold Gate.logout
  split
  · rename_i h
    exact (Function.update_eq_self_iff.mpr h.symm).symm
  · dsimp only
    split
    · rfl
    · exact (closeclient_tables _ _).1.userOnline

/-- The sockets do not register anyone. -/
theorem socket_userOnline (crypt : Crypt) (maxclient : ℕ) (g : Gate.State) {e : Gate.Event}
    (h : isSocket e = true) : (Gate.step crypt maxclient g e).1.userOnline = g.userOnline := by
  obtain ⟨⟨g', out⟩, hr⟩ : ∃ r, Gate.step crypt maxclient g e = r := ⟨_, rfl⟩
  rw [hr]
  cases effect_of_step hr with
  | quiet same _ => exact same.userOnline
  | login _ _ _ _ _ => cases h
  | logout _ _ _ _ _ _ => cases h
  | accepted _ _ hon _ _ _ => exact hon
  | failed _ _ hon _ _ _ _ => exact hon
  | disconnect _ hon _ _ _ _ => exact hon

omit [DecidableEq C] in
theorem Given.mono {uid : Int64} {name : Str} (h : Given conf s uid name)
    (hid : s.internalId ≤ t.internalId) : Given conf t uid name := by
  obtain ⟨id, hle, hname⟩ := h
  exact ⟨id, by omega, hname⟩

theorem goto_session {c c' : C} {p : Phase} {x : Int64 × Str}
    (h : ((s.goto c p).phase c').session = some x) :
    c' = c ∧ p.session = some x ∨ c' ≠ c ∧ (s.phase c').session = some x := by
  by_cases hc : c' = c
  · subst hc
    exact Or.inl ⟨rfl, by simpa [State.goto] using h⟩
  · exact Or.inr ⟨hc, by simpa [State.goto, hc] using h⟩

omit [DecidableEq C] in
/-- A step that begins no session and registers none. -/
theorem Named.keep (hn : Named conf s)
    (hphase : ∀ c x, (t.phase c).session = some x → (s.phase c).session = some x)
    (hid : s.internalId ≤ t.internalId) (honline : t.msg.userOnline = s.msg.userOnline)
    (husers : t.users = s.users) : Named conf t := by
  refine ⟨?_, ?_, ?_, ?_⟩
  · intro c uid name hc
    obtain ⟨hg, hnone⟩ := hn.pending c uid name (hphase c _ hc)
    exact ⟨hg.mono hid, by rw [honline, hnone]⟩
  · intro c c' uid uid' name hc hc'
    exact hn.apart c c' uid uid' name (hphase c _ hc) (hphase c' _ hc')
  · intro name o ho
    rw [honline] at ho
    obtain ⟨uid, hg⟩ := hn.online name o ho
    exact ⟨uid, hg.mono hid⟩
  · intro uid u hu
    rw [husers] at hu
    obtain ⟨h1, h2, o, ho⟩ := hn.users uid u hu
    exact ⟨h1, h2.mono hid, o, by rw [honline, ho]⟩

/-- A coroutine goes on with the session it has, or without one. -/
theorem Named.goto (hn : Named conf s) {c : C} {p : Phase} (hid : s.internalId ≤ t.internalId)
    (honline : t.msg.userOnline = s.msg.userOnline) (husers : t.users = s.users)
    (hphase : t.phase = s.phase)
    (hp : ∀ x, p.session = some x → (s.phase c).session = some x) :
    Named conf (t.goto c p) := by
  refine hn.keep ?_ hid honline husers
  intro c' x hx
  rcases goto_session hx with ⟨rfl, hs⟩ | ⟨-, hs⟩
  · exact hp x hs
  · rw [hphase] at hs
    exact hs

/-- A login takes an id nobody has had. -/
theorem Named.take (hn : Named conf s) {c : C} {uid : Int64} {p : Phase}
    (hid : t.internalId = s.internalId + 1) (honline : t.msg.userOnline = s.msg.userOnline)
    (husers : t.users = s.users) (hphase : t.phase = s.phase)
    (hp : p.session = some (uid, username uid (s.internalId + 1) conf.node)) :
    Named conf (t.goto c p) := by
  -- no name in use carries the new id
  have hnew : ∀ uid', ¬ Given conf s uid' (username uid (s.internalId + 1) conf.node) := by
    rintro uid' ⟨id, hle, hname⟩
    have := (username_inj hname).2
    omega
  have hgiven : Given conf (t.goto c p) uid (username uid (s.internalId + 1) conf.node) :=
    ⟨s.internalId + 1, le_of_eq hid.symm, rfl⟩
  have hle : s.internalId ≤ (t.goto c p).internalId := by
    have : (t.goto c p).internalId = t.internalId := rfl
    omega
  refine ⟨?_, ?_, ?_, ?_⟩
  · intro c' uid' name hc
    rcases goto_session hc with ⟨rfl, hs⟩ | ⟨-, hs⟩
    · rw [hp] at hs
      obtain ⟨rfl, rfl⟩ := Prod.mk.inj (Option.some.inj hs)
      refine ⟨hgiven, ?_⟩
      show t.msg.userOnline _ = none
      rw [honline]
      rcases ho : s.msg.userOnline (username uid (s.internalId + 1) conf.node) with _ | o
      · rfl
      · obtain ⟨uid', hg⟩ := hn.online _ o ho
        exact absurd hg (hnew uid')
    · rw [hphase] at hs
      obtain ⟨hg, hnone⟩ := hn.pending c' uid' name hs
      refine ⟨hg.mono hle, ?_⟩
      show t.msg.userOnline _ = none
      rw [honline, hnone]
  · intro c₁ c₂ uid₁ uid₂ name h₁ h₂
    rcases goto_session h₁ with ⟨rfl, hs₁⟩ | ⟨-, hs₁⟩ <;>
      rcases goto_session h₂ with ⟨heq, hs₂⟩ | ⟨-, hs₂⟩
    · exact heq.symm
    · rw [hp] at hs₁
      obtain ⟨rfl, rfl⟩ := Prod.mk.inj (Option.some.inj hs₁)
      rw [hphase] at hs₂
      exact absurd (hn.pending c₂ _ _ hs₂).1 (hnew uid₂)
    · rw [hp] at hs₂
      obtain ⟨rfl, rfl⟩ := Prod.mk.inj (Option.some.inj hs₂)
      rw [hphase] at hs₁
      exact absurd (hn.pending c₁ _ _ hs₁).1 (hnew uid₁)
    · rw [hphase] at hs₁ hs₂
      exact hn.apart c₁ c₂ uid₁ uid₂ name hs₁ hs₂
  · intro name o ho
    have ho : t.msg.userOnline name = some o := ho
    rw [honline] at ho
    obtain ⟨uid', hg⟩ := hn.online name o ho
    exact ⟨uid', hg.mono hle⟩
  · intro uid' u hu
    have hu : t.users uid' = some u := hu
    rw [husers] at hu
    obtain ⟨h1, h2, o, ho⟩ := hn.users uid' u hu
    refine ⟨h1, h2.mono hle, o, ?_⟩
    show t.msg.userOnline _ = some o
    rw [honline, ho]

omit [DecidableEq C] in
/-- **The name a login registers is not registered yet.** -/
theorem Named.fresh (hn : Named conf s) {c : C} {u : User} {secret : Str} {sent : ℕ}
    (h : s.phase c = .entering u secret sent) : s.msg.userOnline u.username = none :=
  (hn.pending c u.uid u.username (by rw [h]; rfl)).2

/-- Where a coroutine ends its session, no two have one name. -/
theorem Named.apart_goto (hn : Named conf s) {c c₁ c₂ : C} {p : Phase} {uid₁ uid₂ : Int64} {name : Str}
    (hp : p.session = none) (h₁ : ((s.goto c p).phase c₁).session = some (uid₁, name))
    (h₂ : ((s.goto c p).phase c₂).session = some (uid₂, name)) : c₁ = c₂ := by
  rcases goto_session h₁ with ⟨-, hs₁⟩ | ⟨-, hs₁⟩
  · rw [hp] at hs₁
    cases hs₁
  · rcases goto_session h₂ with ⟨-, hs₂⟩ | ⟨-, hs₂⟩
    · rw [hp] at hs₂
      cases hs₂
    · exact hn.apart c₁ c₂ uid₁ uid₂ name hs₁ hs₂

/-- The session of a login is entered. -/
theorem Named.entered (hn : Named conf s) {c : C} {u : User} {secret : Str} {sent : ℕ} {r : Result}
    (h : s.phase c = .entering u secret sent) :
    Named conf ({ s with
      users := Function.update s.users u.uid (some u)
      usernameMap := Function.update s.usernameMap u.username (some u)
      msg := (Gate.login s.msg u.username secret).1 }.goto c (.finished r)) := by
  have hpend := hn.pending c u.uid u.username (by rw [h]; rfl)
  have honline : (Gate.login s.msg u.username secret).1.userOnline = _ := login_userOnline hpend.2
  refine ⟨?_, ?_, ?_, ?_⟩
  · intro c' uid name hc
    rcases goto_session hc with ⟨-, hs⟩ | ⟨hne, hs⟩
    · cases hs
    · obtain ⟨hg, hnone⟩ := hn.pending c' uid name hs
      refine ⟨hg, ?_⟩
      -- two coroutines do not have one name
      have hname : name ≠ u.username := by
        rintro rfl
        exact hne (hn.apart c' c uid u.uid _ hs (by rw [h]; rfl))
      show (Gate.login s.msg u.username secret).1.userOnline name = none
      rw [honline, Function.update_of_ne hname, hnone]
  · intro c₁ c₂ uid₁ uid₂ name h₁ h₂
    exact hn.apart_goto rfl h₁ h₂
  · intro name o ho
    have ho : (Gate.login s.msg u.username secret).1.userOnline name = some o := ho
    by_cases hname : name = u.username
    · subst hname
      exact ⟨u.uid, hpend.1⟩
    · rw [honline, Function.update_of_ne hname] at ho
      exact hn.online name o ho
  · intro uid v hv
    have hv : Function.update s.users u.uid (some u) uid = some v := hv
    show v.uid = uid ∧ Given conf s uid v.username ∧
      ∃ o, (Gate.login s.msg u.username secret).1.userOnline v.username = some o
    rw [honline]
    by_cases huid : uid = u.uid
    · subst huid
      rw [Function.update_self] at hv
      obtain rfl := Option.some.inj hv
      exact ⟨rfl, hpend.1, _, Function.update_self _ _ _⟩
    · rw [Function.update_of_ne huid] at hv
      obtain ⟨h1, h2, o, ho⟩ := hn.users uid v hv
      refine ⟨h1, h2, o, ?_⟩
      have hname : v.username ≠ u.username := by
        intro heq
        rw [heq, hpend.2] at ho
        cases ho
      rw [Function.update_of_ne hname, ho]

/-- A session goes offline; the others have other names. -/
theorem Named.leaves (hn : Named conf s) {c : C} {uid : Int64} {u : User}
    (hu : s.users uid = some u) :
    Named conf ({ s with
      msg := (Gate.logout s.msg u.username).1
      users := Function.update s.users uid none
      usernameMap := Function.update s.usernameMap u.username none }.goto c (.leaving u)) := by
  have honline := logout_userOnline s.msg u.username
  obtain ⟨-, ⟨id, -, hname⟩, -⟩ := hn.users uid u hu
  refine ⟨?_, ?_, ?_, ?_⟩
  · intro c' uid' name hc
    rcases goto_session hc with ⟨-, hs⟩ | ⟨-, hs⟩
    · cases hs
    · obtain ⟨hg, hnone⟩ := hn.pending c' uid' name hs
      refine ⟨hg, ?_⟩
      show (Gate.logout s.msg u.username).1.userOnline name = none
      rw [honline]
      by_cases heq : name = u.username
      · rw [heq, Function.update_self]
      · rw [Function.update_of_ne heq, hnone]
  · intro c₁ c₂ uid₁ uid₂ name h₁ h₂
    exact hn.apart_goto rfl h₁ h₂
  · intro name o ho
    have ho : (Gate.logout s.msg u.username).1.userOnline name = some o := ho
    rw [honline] at ho
    by_cases heq : name = u.username
    · rw [heq, Function.update_self] at ho
      cases ho
    · rw [Function.update_of_ne heq] at ho
      exact hn.online name o ho
  · intro uid' v hv
    have hv : Function.update s.users uid none uid' = some v := hv
    by_cases huid : uid' = uid
    · rw [huid, Function.update_self] at hv
      cases hv
    · rw [Function.update_of_ne huid] at hv
      obtain ⟨h1, ⟨id', hle, hv'⟩, o, ho⟩ := hn.users uid' v hv
      refine ⟨h1, ⟨id', hle, hv'⟩, o, ?_⟩
      show (Gate.logout s.msg u.username).1.userOnline v.username = some o
      have hne : v.username ≠ u.username := by
        rw [hv', hname]
        exact fun heq => huid (username_inj heq).1
      rw [honline, Function.update_of_ne hne, ho]

/-- **One step keeps the names in order.** -/
theorem Named.step (hn : Named conf s) (h : Does conf s e t out) : Named conf t := by
  have hnone : ∀ {c : C} {p : Phase}, p.session = none →
      Named conf (s.goto c p) := by
    intro c p hp
    exact hn.goto le_rfl rfl rfl rfl (by simp [hp])
  cases h with
  | alreadyLogin _ _ => exact hnone rfl
  | reuses _ _ _ session =>
    subst session
    exact hn.take rfl rfl rfl rfl rfl
  | creates _ _ _ _ => exact hn.take rfl rfl rfl rfl rfl
  | tooMany _ _ _ _ => exact hn.goto (Nat.le_succ _) rfl rfl rfl (by simp [Phase.session])
  | created creating session =>
    subst session
    exact hn.goto le_rfl rfl rfl rfl (by simp [Phase.session, creating])
  | createFails _ => exact hnone rfl
  | entered entering _ => exact hn.entered entering
  | registered entering registered =>
    rw [hn.fresh entering] at registered
    cases registered
  | loginFails _ => exact hnone rfl
  | notOnline _ _ => exact hnone rfl
  | wrongLogout _ _ _ => exact hnone rfl
  | leaves _ online _ => exact hn.leaves online
  | pooled _ => exact hn.goto le_rfl rfl rfl rfl (by simp [Phase.session])
  | reported _ => exact hnone rfl
  | kicks _ _ _ => exact hnone rfl
  | wrongKick _ _ _ => exact hnone rfl
  | kicksNobody _ _ => exact hnone rfl
  | kicked _ => exact hnone rfl
  | socket fromSocket =>
    exact hn.keep (fun _ _ hx => hx) le_rfl (socket_userOnline _ _ _ fromSocket) rfl

omit [DecidableEq C] in
theorem named_initial (conf : Conf) (day : ℕ) : Named conf (initial (C := C) conf day) := by
  refine ⟨?_, ?_, ?_, ?_⟩
  · intro c uid name h
    cases h
  · intro c c' uid uid' name h
    cases h
  · intro name o h
    cases h
  · intro uid u h
    cases h

end Gated

end Athena
