import Athena.Gated.Step
/-!
# The subids of concurrent logins

`login_handler` takes a subid by counting `internal_id` up and makes the
username of it. It reads `internal_id` again when it fills in `u.subid`
and calls the agent, after `newservice`, and once more when it returns,
after the agent's `login`. A login that takes the next subid in between
is read by the first one too.

So a call has one subid in all four places if and only if it still has
the last one given out when it returns (`subid_iff`): nobody has passed
the check for an earlier login meanwhile. The history of a run is the
list of what its events did; `Taken` reads it against the state.
-/

namespace Athena

namespace Gated

open Lua Gate

variable {C : Type} {conf : Conf} {tr out : List (Out C)}

/-- What a run did. -/
def trace (labels : List (Event C × List (Out C))) : List (Out C) := labels.flatMap Prod.snd

def Out.IsTook : Out C → Prop
  | .took _ _ _ => True
  | _ => False

/-- A login that succeeds has the last subid given out. -/
def Undisturbed (pre : List (Out C)) (o : Out C) : Prop :=
  ∀ c u sent ret, o = .answer c (.loggedIn u sent ret) →
    ∃ id, Since Out.IsTook pre (.took c u.uid id)

variable [DecidableEq C] {s t : State C} {e : Event C}

/-- **One subid for each login.** -/
structure SubidsAgree (conf : Conf) (s : State C) : Prop where
  /-- The username, the session, the message to the agent and the answer
  have the same one. -/
  agree : ∀ c u sent ret, s.phase c = .finished (.loggedIn u sent ret) →
    u.username = username u.uid ret conf.node ∧ u.subid = ret ∧ sent = ret
  /-- Different calls have different ones. -/
  apart : ∀ c c' u u' sent sent' ret, s.phase c = .finished (.loggedIn u sent ret) →
    s.phase c' = .finished (.loggedIn u' sent' ret) → c = c'
  /-- While the session lasts it is registered under that subid, and a
  kick and a logout with it pass the assertion. -/
  serves : ∀ c u sent ret, s.phase c = .finished (.loggedIn u sent ret) → s.users u.uid = some u →
    (∃ o, s.msg.userOnline (username u.uid ret conf.node) = some o) ∧
    ∀ c', s.phase c' = .absent →
      step conf s (.kick c' u.uid ret) =
        some (s.goto c' (.kicking u.agent), [.agentLogout c' u.agent]) ∧
      ∃ t, t.phase c' = .leaving u ∧
        step conf s (.logout c' u.uid ret) = some (t, [.masterLogout c' u.uid ret])

/-! ## The history against the state -/

/-- What a coroutine has to do with the subid it took, of `n` given out. -/
def Owns (conf : Conf) (tr : List (Out C)) (n : ℕ) (c : C) : Phase → Prop
  | .absent => ∀ uid id, .took c uid id ∉ tr
  | .creating uid _ name => ∃ id, .took c uid id ∈ tr ∧ name = username uid id conf.node
  | .entering u _ sent => ∃ id, .took c u.uid id ∈ tr ∧
      u.username = username u.uid id conf.node ∧ id ≤ u.subid ∧ u.subid = sent ∧ sent ≤ n
  | .finished (.loggedIn u sent ret) => ∃ id, .took c u.uid id ∈ tr ∧
      u.username = username u.uid id conf.node ∧ id ≤ u.subid ∧ u.subid = sent ∧ sent ≤ ret
  | _ => True

/-- **The subids given out**, by the history. -/
structure Taken (conf : Conf) (tr : List (Out C)) (s : State C) : Prop where
  bound : ∀ c uid id, .took c uid id ∈ tr → id ≤ s.internalId
  once : ∀ c c' uid uid' id, .took c uid id ∈ tr → .took c' uid' id ∈ tr → c = c' ∧ uid = uid'
  one : ∀ c uid uid' id id', .took c uid id ∈ tr → .took c uid' id' ∈ tr → id = id'
  last : ∀ c uid id, Since Out.IsTook tr (.took c uid id) ↔
    .took c uid id ∈ tr ∧ id = s.internalId
  owns : ∀ c, Owns conf tr s.internalId c (s.phase c)
  answered : ∀ c u sent ret, s.phase c = .finished (.loggedIn u sent ret) ↔
    .answer c (.loggedIn u sent ret) ∈ tr
  /-- A login that succeeded was undisturbed, just when its username is
  made of the subid it returned. -/
  undisturbed : AtEach (fun pre o => ∀ c u sent ret, o = .answer c (.loggedIn u sent ret) →
    ((∃ id, Since Out.IsTook pre (.took c u.uid id)) ↔
      u.username = username u.uid ret conf.node)) tr

omit [DecidableEq C] in
/-- A longer history, and a later counter. -/
theorem Owns.append {n m : ℕ} {c : C} {p : Phase} (h : Owns conf tr n c p) (hn : n ≤ m)
    (hout : ∀ uid id, .took c uid id ∉ out) : Owns conf (tr ++ out) m c p := by
  unfold Owns at h ⊢
  split at h
  · intro uid id hmem
    rcases List.mem_append.mp hmem with hmem | hmem
    · exact h uid id hmem
    · exact hout uid id hmem
  · obtain ⟨id, hmem, hname⟩ := h
    exact ⟨id, List.mem_append_left _ hmem, hname⟩
  · obtain ⟨id, hmem, hname, h1, h2, h3⟩ := h
    exact ⟨id, List.mem_append_left _ hmem, hname, h1, h2, by omega⟩
  · obtain ⟨id, hmem, hname, h1, h2, h3⟩ := h
    exact ⟨id, List.mem_append_left _ hmem, hname, h1, h2, h3⟩
  · trivial

/-- The part of a trace an event adds, when no id is given out and no
login succeeds. -/
def Idle (out : List (Out C)) : Prop :=
  ∀ o ∈ out, ¬ o.IsTook ∧ ∀ c u sent ret, o ≠ .answer c (.loggedIn u sent ret)

omit [DecidableEq C] in
theorem Idle.took_not_mem (h : Idle out) (c : C) (uid : Int64) (id : ℕ) : .took c uid id ∉ out :=
  fun hmem => (h _ hmem).1 trivial

omit [DecidableEq C] in
theorem Idle.atEach {Q : List (Out C) → C → User → ℕ → ℕ → Prop} (h : Idle out)
    (ht : AtEach (fun pre o => ∀ c u sent ret, o = .answer c (.loggedIn u sent ret) →
      Q pre c u sent ret) tr) :
    AtEach (fun pre o => ∀ c u sent ret, o = .answer c (.loggedIn u sent ret) →
      Q pre c u sent ret) (tr ++ out) := by
  refine atEach_append ht ?_
  intro pre x post hout c u sent ret hx
  exact absurd hx ((h x (by rw [hout]; simp)).2 c u sent ret)

/-- A coroutine goes on with the subid it has. -/
theorem Taken.goto (ht : Taken conf tr s) {c : C} {p : Phase}
    (hid : t.internalId = s.internalId) (hphase : t.phase = s.phase) (hout : Idle out)
    (hbefore : ∀ r, s.phase c ≠ .finished r) (hafter : ∀ u sent ret, p ≠ .finished (.loggedIn u sent ret))
    (hp : Owns conf (tr ++ out) s.internalId c p) : Taken conf (tr ++ out) (t.goto c p) := by
  have hmem : ∀ {c uid id}, Out.took c uid id ∈ tr ++ out → Out.took c uid id ∈ tr := by
    intro c uid id h
    exact (List.mem_append.mp h).resolve_right (hout.took_not_mem c uid id)
  have hgid : (t.goto c p).internalId = s.internalId := hid
  refine ⟨?_, ?_, ?_, ?_, ?_, ?_, hout.atEach ht.undisturbed⟩
  · intro c' uid id h
    rw [hgid]
    exact ht.bound c' uid id (hmem h)
  · intro c₁ c₂ uid₁ uid₂ id h₁ h₂
    exact ht.once c₁ c₂ uid₁ uid₂ id (hmem h₁) (hmem h₂)
  · intro c' uid₁ uid₂ id₁ id₂ h₁ h₂
    exact ht.one c' uid₁ uid₂ id₁ id₂ (hmem h₁) (hmem h₂)
  · intro c' uid id
    rw [hgid, since_append]
    constructor
    · rintro (h | ⟨-, h⟩)
      · exact absurd h.mem (hout.took_not_mem c' uid id)
      · obtain ⟨h1, h2⟩ := (ht.last c' uid id).mp h
        exact ⟨List.mem_append_left _ h1, h2⟩
    · rintro ⟨h1, h2⟩
      exact Or.inr ⟨fun y hy => (hout y hy).1, (ht.last c' uid id).mpr ⟨hmem h1, h2⟩⟩
  · intro c'
    rw [hgid]
    by_cases hc : c' = c
    · subst hc
      simpa [State.goto] using hp
    · have h := (ht.owns c').append (m := s.internalId) le_rfl (hout.took_not_mem c')
      simpa [State.goto, hphase, hc] using h
  · intro c' u sent ret
    have hmem' : Out.answer c' (.loggedIn u sent ret) ∈ tr ++ out ↔
        Out.answer c' (.loggedIn u sent ret) ∈ tr := by
      constructor
      · intro h
        exact (List.mem_append.mp h).resolve_right (fun ho => (hout _ ho).2 _ _ _ _ rfl)
      · exact List.mem_append_left _
    rw [hmem', ← ht.answered]
    by_cases hc : c' = c
    · subst hc
      simp only [State.goto, Function.update_self]
      exact ⟨fun h => absurd h (hafter _ _ _), fun h => absurd h (hbefore _)⟩
    · simp [State.goto, hphase, hc]

/-- A login takes the next subid. -/
theorem Taken.take (ht : Taken conf tr s) {c : C} {uid : Int64} {p : Phase}
    (hid : t.internalId = s.internalId + 1) (hphase : t.phase = s.phase) (hout : Idle out)
    (habs : s.phase c = .absent) (hafter : ∀ u sent ret, p ≠ .finished (.loggedIn u sent ret))
    (hp : Owns conf (tr ++ .took c uid (s.internalId + 1) :: out) (s.internalId + 1) c p) :
    Taken conf (tr ++ .took c uid (s.internalId + 1) :: out) (t.goto c p) := by
  have habsent : ∀ uid id, .took c uid id ∉ tr := by
    have := ht.owns c
    rw [habs] at this
    exact this
  -- an entry is an old one, with a smaller id, or the new one
  have hmem : ∀ {c' uid' id}, Out.took c' uid' id ∈ tr ++ .took c uid (s.internalId + 1) :: out →
      (Out.took c' uid' id ∈ tr ∧ id ≤ s.internalId ∧ c' ≠ c) ∨
        (c' = c ∧ uid' = uid ∧ id = s.internalId + 1) := by
    intro c' uid' id h
    rcases List.mem_append.mp h with hold | h
    · refine Or.inl ⟨hold, ht.bound c' uid' id hold, ?_⟩
      rintro rfl
      exact habsent uid' id hold
    · rcases List.mem_cons.mp h with h | h
      · cases h
        exact Or.inr ⟨rfl, rfl, rfl⟩
      · exact absurd h (hout.took_not_mem c' uid' id)
  have hgid : (t.goto c p).internalId = s.internalId + 1 := hid
  refine ⟨?_, ?_, ?_, ?_, ?_, ?_, ?_⟩
  · intro c' uid' id h
    rw [hgid]
    rcases hmem h with ⟨-, hle, -⟩ | ⟨-, -, rfl⟩ <;> omega
  · intro c₁ c₂ uid₁ uid₂ id h₁ h₂
    rcases hmem h₁ with ⟨h₁, hle₁, -⟩ | ⟨rfl, rfl, rfl⟩ <;>
      rcases hmem h₂ with ⟨h₂, hle₂, -⟩ | ⟨rfl, rfl, heq⟩
    · exact ht.once c₁ c₂ uid₁ uid₂ id h₁ h₂
    · omega
    · omega
    · exact ⟨rfl, rfl⟩
  · intro c' uid₁ uid₂ id₁ id₂ h₁ h₂
    rcases hmem h₁ with ⟨h₁, -, hne⟩ | ⟨rfl, rfl, rfl⟩ <;>
      rcases hmem h₂ with ⟨h₂, -, hne'⟩ | ⟨heq, rfl, rfl⟩
    · exact ht.one c' uid₁ uid₂ id₁ id₂ h₁ h₂
    · exact absurd heq hne
    · exact absurd rfl hne'
    · rfl
  · intro c' uid' id
    rw [hgid, since_append]
    constructor
    · rintro (h | ⟨h, -⟩)
      · have hm := h.mem
        refine ⟨List.mem_append_right _ hm, ?_⟩
        rcases List.mem_cons.mp hm with hm | hm
        · cases hm
          rfl
        · exact absurd hm (hout.took_not_mem c' uid' id)
      · exact absurd trivial (h (.took c uid (s.internalId + 1)) List.mem_cons_self)
    · rintro ⟨h, rfl⟩
      rcases hmem h with ⟨-, hle, -⟩ | ⟨rfl, rfl, -⟩
      · omega
      · exact Or.inl ⟨[], out, rfl, fun y hy => (hout y hy).1⟩
  · intro c'
    rw [hgid]
    by_cases hc : c' = c
    · subst hc
      simpa [State.goto] using hp
    · have hno : ∀ uid' id, Out.took c' uid' id ∉ .took c uid (s.internalId + 1) :: out := by
        intro uid' id h
        rcases List.mem_cons.mp h with h | h
        · cases h
          exact hc rfl
        · exact hout.took_not_mem c' uid' id h
      have h := (ht.owns c').append (Nat.le_succ s.internalId) hno
      simpa [State.goto, hphase, hc] using h
  · intro c' u sent ret
    have hmem' : Out.answer c' (.loggedIn u sent ret) ∈
          tr ++ .took c uid (s.internalId + 1) :: out ↔
        Out.answer c' (.loggedIn u sent ret) ∈ tr := by
      constructor
      · intro h
        rcases List.mem_append.mp h with h | h
        · exact h
        · rcases List.mem_cons.mp h with h | h
          · cases h
          · exact absurd rfl ((hout _ h).2 _ _ _ _)
      · exact List.mem_append_left _
    rw [hmem', ← ht.answered]
    by_cases hc : c' = c
    · subst hc
      simp only [State.goto, Function.update_self, habs]
      exact ⟨fun h => absurd h (hafter _ _ _), fun h => by cases h⟩
    · simp [State.goto, hphase, hc]
  · refine atEach_append ht.undisturbed ?_
    intro pre x post hx c' u sent ret heq
    have hm : x ∈ Out.took c uid (s.internalId + 1) :: out := by rw [hx]; simp
    rcases List.mem_cons.mp hm with rfl | hm
    · cases heq
    · exact absurd heq ((hout x hm).2 c' u sent ret)

/-- A login succeeds, and returns the last id given out. -/
theorem Taken.succeed (ht : Taken conf tr s) {c : C} {u : User} {secret : Str} {sent : ℕ}
    (hid : t.internalId = s.internalId) (hphase : t.phase = s.phase)
    (hent : s.phase c = .entering u secret sent) :
    Taken conf (tr ++ [.answer c (.loggedIn u sent s.internalId)])
      (t.goto c (.finished (.loggedIn u sent s.internalId))) := by
  obtain ⟨id, hown, hname, h1, h2, h3⟩ : Owns conf tr s.internalId c (.entering u secret sent) := by
    have := ht.owns c
    rw [hent] at this
    exact this
  have htook : ∀ c' uid' id', Out.took c' uid' id' ∉
      [Out.answer c (.loggedIn u sent s.internalId)] := by simp
  have hmem : ∀ {c' uid' id'}, Out.took c' uid' id' ∈
      tr ++ [Out.answer c (.loggedIn u sent s.internalId)] → Out.took c' uid' id' ∈ tr := by
    intro c' uid' id' h
    exact (List.mem_append.mp h).resolve_right (htook c' uid' id')
  have hgid : (t.goto c (.finished (.loggedIn u sent s.internalId))).internalId = s.internalId := hid
  refine ⟨?_, ?_, ?_, ?_, ?_, ?_, ?_⟩
  · intro c' uid' id' h
    rw [hgid]
    exact ht.bound c' uid' id' (hmem h)
  · intro c₁ c₂ uid₁ uid₂ id' h₁ h₂
    exact ht.once c₁ c₂ uid₁ uid₂ id' (hmem h₁) (hmem h₂)
  · intro c' uid₁ uid₂ id₁ id₂ h₁ h₂
    exact ht.one c' uid₁ uid₂ id₁ id₂ (hmem h₁) (hmem h₂)
  · intro c' uid' id'
    rw [hgid, since_append, since_singleton]
    constructor
    · rintro (h | ⟨-, h⟩)
      · cases h
      · obtain ⟨h1, h2⟩ := (ht.last c' uid' id').mp h
        exact ⟨List.mem_append_left _ h1, h2⟩
    · rintro ⟨h1, h2⟩
      refine Or.inr ⟨?_, (ht.last c' uid' id').mpr ⟨hmem h1, h2⟩⟩
      simp [Out.IsTook]
  · intro c'
    rw [hgid]
    by_cases hc : c' = c
    · subst hc
      simp only [State.goto, Function.update_self]
      exact ⟨id, List.mem_append_left _ hown, hname, h1, h2, h3⟩
    · have h := (ht.owns c').append (m := s.internalId) le_rfl (htook c')
      simpa [State.goto, hphase, hc] using h
  · intro c' v sent' ret
    by_cases hc : c' = c
    · subst hc
      simp only [State.goto, Function.update_self, Phase.finished.injEq, Result.loggedIn.injEq,
        List.mem_append, List.mem_singleton, Out.answer.injEq, true_and]
      have hno : Out.answer c' (.loggedIn v sent' ret) ∉ tr := by
        rw [← ht.answered, hent]
        exact fun h => by cases h
      constructor
      · rintro ⟨rfl, rfl, rfl⟩
        exact Or.inr ⟨rfl, rfl, rfl⟩
      · rintro (h | ⟨rfl, rfl, rfl⟩)
        · exact absurd h hno
        · exact ⟨rfl, rfl, rfl⟩
    · have hphase' : (t.goto c (.finished (.loggedIn u sent s.internalId))).phase c' =
          s.phase c' := by
        simp [State.goto, hphase, hc]
      rw [hphase', ht.answered]
      simp [hc]
  · refine atEach_append ht.undisturbed ?_
    intro pre x post hx c' v sent' ret heq
    subst heq
    -- the appended piece is this answer alone
    obtain ⟨rfl, hans⟩ : pre = [] ∧
        Out.answer c' (.loggedIn v sent' ret) = .answer c (.loggedIn u sent s.internalId) := by
      cases pre with
      | nil => exact ⟨rfl, (List.cons.inj hx).1.symm⟩
      | cons y pre => simp at hx
    cases hans
    rw [List.append_nil, hname]
    constructor
    · rintro ⟨id', hs⟩
      obtain ⟨hm, rfl⟩ := (ht.last c u.uid id').mp hs
      rw [ht.one c u.uid u.uid _ _ hown hm]
    · intro heq
      have hlast := (username_inj heq).2
      exact ⟨id, (ht.last c u.uid id).mpr ⟨hown, hlast⟩⟩

/-- **One step keeps the history and the state in step.** -/
theorem Taken.step (ht : Taken conf tr s) (h : Does conf s e t out) :
    Taken conf (tr ++ out) t := by
  -- most events end their call, and none of these answers is that of a login
  have hends : ∀ {c : C} {r : Result}, (∀ r', s.phase c ≠ .finished r') →
      (∀ u sent ret, r ≠ .loggedIn u sent ret) → ∀ {s' : State C},
      s'.internalId = s.internalId → s'.phase = s.phase →
      Taken conf (tr ++ [.answer c r]) (s'.goto c (.finished r)) := by
    intro c r hb hr s' hid hphase
    refine ht.goto hid hphase ?_ hb (fun u sent ret heq => hr u sent ret (Phase.finished.inj heq)) ?_
    · intro o ho
      obtain rfl := List.mem_singleton.mp ho
      refine ⟨id, fun c' u sent ret heq => ?_⟩
      exact hr u sent ret (Out.answer.inj heq).2
    · cases r with
      | loggedIn u sent ret => exact absurd rfl (hr u sent ret)
      | _ => trivial
  -- a call that is not a login owns no number while it runs
  have hgoes : ∀ {c : C} {p : Phase} {o : Out C}, s.phase c = .absent →
      (∀ uid secret name, p ≠ .creating uid secret name) → (∀ u secret sent, p ≠ .entering u secret sent) →
      p ≠ .absent → (∀ r, p ≠ .finished r) → Idle [o] → ∀ {s' : State C},
      s'.internalId = s.internalId → s'.phase = s.phase → Taken conf (tr ++ [o]) (s'.goto c p) := by
    intro c p o habs hcr hen hab hf ho s' hid hphase
    refine ht.goto hid hphase ho (by simp [habs]) (fun u sent ret => hf _) ?_
    cases p with
    | absent => exact absurd rfl hab
    | creating uid secret name => exact absurd rfl (hcr _ _ _)
    | entering u secret sent => exact absurd rfl (hen _ _ _)
    | finished r => exact absurd rfl (hf r)
    | _ => trivial
  cases h with
  | alreadyLogin absent _ => exact hends (by simp [absent]) (by simp) rfl rfl
  | @reuses c uid _ _ agent _ absent _ _ session =>
    subst session
    refine ht.take rfl rfl (by simp [Idle, Out.IsTook]) absent (by simp) ?_
    exact ⟨_, by simp, rfl, le_rfl, rfl, le_rfl⟩
  | creates absent _ _ _ =>
    refine ht.take rfl rfl (by simp [Idle]) absent (by simp) ?_
    exact ⟨_, by simp, rfl⟩
  | tooMany absent _ _ _ =>
    exact ht.take rfl rfl (by simp [Idle, Out.IsTook]) absent (by simp) trivial
  | @created c uid secret name _ creating session =>
    subst session
    have hown := ht.owns c
    rw [creating] at hown
    obtain ⟨id, hm, hname⟩ := hown
    refine ht.goto rfl rfl (by simp [Idle, Out.IsTook]) (by simp [creating]) (by simp) ?_
    exact ⟨id, by simp [hm], hname, ht.bound c uid id hm, rfl, le_rfl⟩
  | createFails creating => exact hends (by simp [creating]) (by simp) rfl rfl
  | entered entering _ => exact ht.succeed rfl rfl entering
  | registered entering _ => exact hends (by simp [entering]) (by simp) rfl rfl
  | loginFails entering => exact hends (by simp [entering]) (by simp) rfl rfl
  | notOnline absent _ => exact hends (by simp [absent]) (by simp) rfl rfl
  | wrongLogout absent _ _ => exact hends (by simp [absent]) (by simp) rfl rfl
  | leaves absent _ _ =>
    exact hgoes absent (by simp) (by simp) (by simp) (by simp) (by simp [Idle, Out.IsTook]) rfl rfl
  | pooled leaving => exact hends (by simp [leaving]) (by simp) rfl rfl
  | reported reporting => exact hends (by simp [reporting]) (by simp) rfl rfl
  | kicks absent _ _ =>
    exact hgoes absent (by simp) (by simp) (by simp) (by simp) (by simp [Idle, Out.IsTook]) rfl rfl
  | wrongKick absent _ _ => exact hends (by simp [absent]) (by simp) rfl rfl
  | kicksNobody absent _ =>
    exact hgoes absent (by simp) (by simp) (by simp) (by simp) (by simp [Idle, Out.IsTook]) rfl rfl
  | kicked kicking => exact hends (by simp [kicking]) (by simp) rfl rfl
  | socket _ =>
    rw [List.append_nil]
    exact ⟨ht.bound, ht.once, ht.one, ht.last, ht.owns, ht.answered, ht.undisturbed⟩

omit [DecidableEq C] in
theorem taken_initial (conf : Conf) (day : ℕ) : Taken conf [] (initial (C := C) conf day) := by
  refine ⟨by simp, by simp, by simp, ?_, by simp [Owns, initial], ?_, atEach_nil⟩
  · intro c uid id
    simp [not_since_nil]
  · intro c u sent ret
    simp [initial]

/-! ## Every run -/

variable {labels : List (Event C × List (Out C))}

/-- The names are in order and the history agrees after every run. -/
theorem taken_of_path {day : ℕ} (h : (system conf).Path (initial conf day) labels t) :
    Named conf t ∧ Taken conf (trace labels) t := by
  refine h.invariant_history (P := fun labels s => Named conf s ∧ Taken conf (trace labels) s) ?_
    (l := []) ⟨named_initial conf day, taken_initial conf day⟩
  rintro fs s ⟨e, out⟩ t hst ⟨hn, ht⟩
  have hdoes := does_of_step hst
  refine ⟨hn.step hdoes, ?_⟩
  have htrace : trace (fs ++ [(e, out)]) = trace fs ++ out := by simp [trace]
  rw [htrace]
  exact ht.step hdoes

/-- **Subids agree, exactly when nobody comes between.** After a run of
the gate each login that succeeded has one subid in its username, in its
session, in the message to its agent and in its answer, no two of them
have the same, and kicks and logouts with it pass, if and only if each of
them has, when it returns, the last subid given out. -/
theorem subid_iff {day : ℕ} (h : (system conf).Path (initial conf day) labels t) :
    SubidsAgree conf t ↔ AtEach Undisturbed (trace labels) := by
  obtain ⟨hn, ht⟩ := taken_of_path h
  constructor
  · intro hs pre o post htr c u sent ret ho
    refine (ht.undisturbed pre o post htr c u sent ret ho).mpr ?_
    refine (hs.agree c u sent ret ((ht.answered c u sent ret).mpr ?_)).1
    rw [htr, ho]
    simp
  · intro hall
    have hname : ∀ c u sent ret, t.phase c = .finished (.loggedIn u sent ret) →
        u.username = username u.uid ret conf.node := by
      intro c u sent ret hph
      obtain ⟨pre, post, htr⟩ := List.append_of_mem ((ht.answered c u sent ret).mp hph)
      exact (ht.undisturbed pre _ post htr c u sent ret rfl).mp (hall pre _ post htr c u sent ret rfl)
    -- so the id a login took is the one it returned
    have htook : ∀ c u sent ret, t.phase c = .finished (.loggedIn u sent ret) →
        Out.took c u.uid ret ∈ trace labels ∧ u.subid = ret ∧ sent = ret := by
      intro c u sent ret hph
      have hown := ht.owns c
      rw [hph] at hown
      obtain ⟨id, hm, hid, h1, h2, h3⟩ := hown
      rw [hname c u sent ret hph] at hid
      obtain rfl := (username_inj hid).2
      exact ⟨hm, by omega, by omega⟩
    refine ⟨?_, ?_, ?_⟩
    · intro c u sent ret hph
      exact ⟨hname c u sent ret hph, (htook c u sent ret hph).2⟩
    · intro c c' u u' sent sent' ret hph hph'
      exact (ht.once c c' _ _ ret (htook _ _ _ _ hph).1 (htook _ _ _ _ hph').1).1
    · intro c u sent ret hph hu
      have heq := hname c u sent ret hph
      obtain ⟨-, -, o, ho⟩ := hn.users u.uid u hu
      refine ⟨⟨o, by rw [← heq, ho]⟩, fun c' habs => ⟨?_, ?_⟩⟩
      · simp [step, kickHandler, habs, hu, heq]
      · refine ⟨_, ?_, by simp only [step, habs, if_true, logoutHandler, hu, if_pos heq]; rfl⟩
        simp [State.goto]

/-- A player whose agent is ready before the next one asks gets the subid of the username. -/
theorem subid_iff_alone :
    ∃ labels t, (system (C := ℕ) small).Path (initial small 0) labels t ∧ SubidsAgree small t ∧
      t.phase 0 = .finished (.loggedIn ⟨username 7 1 small.node, 0, 7, 1⟩ 1 1) := by
  have hexec : ∃ r, exec small (initial (C := ℕ) small 0)
      [.login 0 7 "k".toList, .entered 0 true, .login 1 8 "l".toList] = some r ∧
      trace r.2 = [.took 0 7 1, .agentLogin 0 0 7 1,
        .answer 0 (.loggedIn ⟨username 7 1 small.node, 0, 7, 1⟩ 1 1), .took 1 8 2] ∧
      r.1.phase 0 = .finished (.loggedIn ⟨username 7 1 small.node, 0, 7, 1⟩ 1 1) :=
    ⟨_, rfl, rfl, rfl⟩
  obtain ⟨⟨t, labels⟩, hr, htr, hph⟩ := hexec
  have hpath := path_of_exec hr
  refine ⟨labels, t, hpath, (subid_iff hpath).mpr ?_, hph⟩
  rw [htr]
  simp only [atEach_cons]
  refine ⟨?_, ?_, ?_, ?_, atEach_nil⟩
  · intro c u sent ret h
    cases h
  · intro c u sent ret h
    cases h
  · intro c u sent ret h
    cases h
    exact ⟨1, [], [.agentLogin 0 0 7 1], rfl, by simp [Out.IsTook]⟩
  · intro c u sent ret h
    cases h

/-- **The second login counts for the first.** Player 8 asks to log in
while the agent of player 7 is at its `login`: player 7 is registered
under subid 1 and told 2. -/
theorem subid_of_another :
    ∃ labels t, (system (C := ℕ) small).Path (initial small 0) labels t ∧ ¬ SubidsAgree small t := by
  have hexec : ∃ r, exec small (initial (C := ℕ) small 0)
      [.login 0 7 "k".toList, .login 1 8 "l".toList, .entered 0 true] = some r ∧
      r.1.phase 0 = .finished (.loggedIn ⟨username 7 1 small.node, 0, 7, 1⟩ 1 2) :=
    ⟨_, rfl, rfl⟩
  obtain ⟨⟨t, labels⟩, hr, hph⟩ := hexec
  refine ⟨labels, t, path_of_exec hr, fun h => ?_⟩
  have hsub := (h.agree 0 _ _ _ hph).2.1
  simp at hsub

end Gated

end Athena
