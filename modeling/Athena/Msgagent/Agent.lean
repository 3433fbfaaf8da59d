import Athena.Msgagent.Model
import Mathlib.Data.List.Infix
import Mathlib.Tactic.Common
/-!
# One agent, command after command

Without `user_logout` every job of an agent takes its turn in `cs`, so at
most the first of them is past its beginning. `Fits` says where an agent
is for each place the gate can have it at (`Standing`): waiting for a
player, about to take one over, serving, or on its way out. The agent may
be at the end of its last logout still when it waits for the next player,
and the next `login` waits in the queue behind that.

`Recorded` compares what an agent has done with the lives of the sessions
it had: each is a `login`, the `offline` of every service, the gate's
`logout`, the `unload` and the end of the session, once and in this order.
-/

namespace Athena

namespace Msgagent

open Lua Gated

/-- What an agent does for a session, from its `login` on. -/
def life (l : Login) : List (Login × Do) :=
  (Do.login :: (serviceName.map .offline ++ [.gate, .unload, .cleared])).map fun d => (l, d)

/-- The first job of the queue. -/
def Agent.head (ag : Agent) : Option Doing := ag.cs.head?.map ag.doing

/-- What has been done for the session, by where the first job stands. -/
def did : Option Doing → List Do
  | some (.offline rest) =>
    .login :: (serviceName.take (serviceName.length - rest.length)).map .offline
  | some (.leaving _) => .login :: (serviceName.map .offline ++ [.gate])
  | some .unloading => .login :: (serviceName.map .offline ++ [.gate, .unload])
  | _ => [.login]

/-- The part of the present session's life. -/
def Agent.part (ag : Agent) : List (Login × Do) :=
  match ag.session with
  | none => []
  | some l => (did ag.head).map fun d => (l, d)

/-- What was done for sessions. -/
def forSession (acts : List (Option Login × Do)) : List (Login × Do) :=
  acts.filterMap fun x => x.1.map fun l => (l, x.2)

/-- **The record `h` of an agent**: whole lives and the present part. -/
structure Recorded (ag : Agent) (h : List (Login × Do)) : Prop where
  lives : ∃ done : List Login, h = done.flatMap life ++ ag.part
  suffix : ∀ rest, ag.head = some (.offline rest) → rest <:+ serviceName

/-- The jobs take turns; `g` is where the gate is with the `logout` each
has called. -/
structure Queued (g : Job → Phase) (ag : Agent) : Prop where
  nodup : ag.cs.Nodup
  out : ∀ j, j ∉ ag.cs → ag.doing j = .absent ∨ ∃ ok, ag.doing j = .finished ok
  inside : ∀ j ∈ ag.cs, ag.doing j ≠ .absent ∧ ∀ ok, ag.doing j ≠ .finished ok
  tail : ∀ j rest, ag.cs = j :: rest → ∀ j' ∈ rest, ∃ r, ag.doing j' = .waiting r
  uncalled : ∀ j, (∀ l, ag.doing j ≠ .leaving l) → ag.doing j ≠ .unloading →
    (∀ ok, ag.doing j ≠ .finished ok) → g j = .absent

/-- None of the jobs is a `login`. -/
def Logouts (ag : Agent) (q : List Job) : Prop := ∀ j ∈ q, ∀ l, ag.doing j ≠ .waiting (.login l)

/-- The session is over, or its logout is past the gate. -/
inductive Over (g : Job → Phase) (ag : Agent) (q : List Job) : Prop
  | cleared (session : ag.session = none) (staying : ∀ j ∈ q, ∀ l, ag.doing j ≠ .leaving l) :
      Over g ag q
  | left {l : Login} {j : Job} {rest : List Job} (session : ag.session = some l)
      (first : q = j :: rest) (leaving : ag.doing j = .leaving l)
      (answered : g j = .finished .returned) : Over g ag q
  | unloading {l : Login} {j : Job} {rest : List Job} (session : ag.session = some l)
      (first : q = j :: rest) (unloading : ag.doing j = .unloading) : Over g ag q

/-- **Where the gate has an agent.** -/
inductive Standing
  | free
  /-- The `login` of a session has been sent. -/
  | called (n : ℕ) (l : Login)
  /-- It has been done. -/
  | ready (n : ℕ) (l : Login)
  | online (l : Login)
  /-- Inside the `logout_handler` that job `j` called. -/
  | leaving (j : Job) (l : Login)

/-- **Where the agent is then.** -/
inductive Fits (g : Job → Phase) (ag : Agent) : Standing → Prop
  | free (logouts : Logouts ag ag.cs) (past : Over g ag ag.cs) : Fits g ag .free
  | called {n : ℕ} {l : Login} {q : List Job} (queue : ag.cs = q ++ [.gate n])
      (waiting : ag.doing (.gate n) = .waiting (.login l)) (logouts : Logouts ag q)
      (past : Over g ag q) : Fits g ag (.called n l)
  | ready {n : ℕ} {l : Login} (queue : ag.cs = []) (session : ag.session = some l)
      (done : ag.doing (.gate n) = .finished true) : Fits g ag (.ready n l)
  | online {l : Login} (session : ag.session = some l) (logouts : Logouts ag ag.cs)
      (serving : ∀ j ∈ ag.cs, ag.doing j ≠ .unloading ∧
        ∀ l', ag.doing j = .leaving l' → l' = l ∧ g j = .absent) : Fits g ag (.online l)
  | leaving {j : Job} {l : Login} {rest : List Job} {u : User} (session : ag.session = some l)
      (first : ag.cs = j :: rest) (leaving : ag.doing j = .leaving l) (called : g j = .leaving u)
      (logouts : Logouts ag rest) : Fits g ag (.leaving j l)

variable {g g' : Job → Phase} {ag ag' : Agent} {j : Job} {st : Standing} {l : Login}
  {h : List (Login × Do)} {acts : List (Option Login × Do)} {r : Req} {d : Doing}
  {rest : List Job}

/-! ## The queue -/

@[simp] theorem goto_doing_self (ag : Agent) (j : Job) (d : Doing) : (ag.goto j d).doing j = d :=
  Function.update_self _ _ _

theorem goto_doing_of_ne {j' : Job} (hj : j' ≠ j) : (ag.goto j d).doing j' = ag.doing j' :=
  Function.update_of_ne hj _ _

/-- What holds of the new doing of `j`, and of the old one of `j'`. -/
theorem goto_doing_cases {p : Doing → Prop} {j' : Job} (hself : j' = j → p d) (hother : p (ag.doing j')) :
    p ((ag.goto j d).doing j') := by
  by_cases hne : j' = j
  · rw [hne, goto_doing_self]
    exact hself hne
  · rw [goto_doing_of_ne hne]
    exact hother

/-- A job that goes on does not come to wait for a `login`. -/
theorem Logouts.goto {q : List Job} (hq : Logouts ag q) (hd : ∀ l, d ≠ .waiting (.login l)) :
    Logouts (ag.goto j d) q :=
  fun j' hj' l => goto_doing_cases (p := fun x => x ≠ .waiting (.login l)) (fun _ => hd l) (hq j' hj' l)

/-- A job that has begun, or has its turn, is the first. -/
theorem Queued.first (hq : Queued g ag) (habs : ag.doing j ≠ .absent)
    (hfin : ∀ ok, ag.doing j ≠ .finished ok) (hwait : ∀ r, ag.doing j ≠ .waiting r) :
    ∃ rest, ag.cs = j :: rest := by
  have hmem : j ∈ ag.cs := by
    by_contra hj
    rcases hq.out j hj with hd | ⟨ok, hd⟩
    · exact habs hd
    · exact hfin ok hd
  rcases hcs : ag.cs with _ | ⟨j₀, rest⟩
  · rw [hcs] at hmem
    cases hmem
  · rw [hcs] at hmem
    rcases List.mem_cons.mp hmem with rfl | hin
    · exact ⟨rest, rfl⟩
    · obtain ⟨r, hr⟩ := hq.tail j₀ rest hcs j hin
      exact absurd hr (hwait r)

/-- The first job goes on, and has not called the gate before. -/
theorem Queued.goto (hq : Queued g ag) (hcs : ag.cs = j :: rest) (hd : d ≠ .absent)
    (hf : ∀ ok, d ≠ .finished ok)
    (hcalled : (∀ l, d ≠ .leaving l) → d ≠ .unloading → g j = .absent) :
    Queued g (ag.goto j d) := by
  have hnodup := hq.nodup
  rw [hcs] at hnodup
  refine ⟨hq.nodup, fun j' hj' => ?_, fun j' hj' => ?_, fun j₀ rest' hcs' j' hj' => ?_,
    fun j' h1 h2 h3 => ?_⟩
  · have hne : j' ≠ j := by
      rintro rfl
      exact hj' (by show j' ∈ ag.cs; rw [hcs]; exact List.mem_cons_self)
    rw [goto_doing_of_ne hne]
    exact hq.out j' hj'
  · exact goto_doing_cases (p := fun x => x ≠ .absent ∧ ∀ ok, x ≠ .finished ok) (fun _ => ⟨hd, hf⟩)
      (hq.inside j' hj')
  · have hcs' : ag.cs = j₀ :: rest' := hcs'
    rw [hcs] at hcs'
    obtain ⟨rfl, rfl⟩ := List.cons.inj hcs'
    have hne : j' ≠ j := by
      rintro rfl
      exact (List.nodup_cons.mp hnodup).1 hj'
    rw [goto_doing_of_ne hne]
    exact hq.tail j rest hcs j' hj'
  · by_cases hne : j' = j
    · subst hne
      rw [goto_doing_self] at h1 h2
      exact hcalled h1 h2
    · rw [goto_doing_of_ne hne] at h1 h2 h3
      exact hq.uncalled j' h1 h2 h3

/-- The first job ends, and the next has its turn. -/
theorem Queued.finish (hq : Queued g ag) (hcs : ag.cs = j :: rest) (ok : Bool)
    (session : Option Login) : Queued g ({ ag with session := session }.finish j ok) := by
  have hnodup := hq.nodup
  rw [hcs] at hnodup
  obtain ⟨hnot, hrest⟩ := List.nodup_cons.mp hnodup
  have hcs' : ({ ag with session := session }.finish j ok).cs = rest := by
    show ag.cs.erase j = rest
    rw [hcs]
    exact List.erase_cons_head j rest
  have hdoing : ∀ j', j' ≠ j →
      ({ ag with session := session }.finish j ok).doing j' = ag.doing j' :=
    fun j' hne => Function.update_of_ne hne _ _
  have hself : ({ ag with session := session }.finish j ok).doing j = .finished ok :=
    Function.update_self _ _ _
  refine ⟨by rw [hcs']; exact hrest, fun j' hj' => ?_, fun j' hj' => ?_,
    fun j₀ rest' heq j' hj' => ?_, fun j' h1 h2 h3 => ?_⟩
  · by_cases hne : j' = j
    · subst hne
      exact Or.inr ⟨ok, hself⟩
    · rw [hdoing j' hne]
      refine hq.out j' ?_
      rw [hcs]
      rw [hcs'] at hj'
      exact fun hin => (List.mem_cons.mp hin).elim hne hj'
  · rw [hcs'] at hj'
    have hne : j' ≠ j := by
      rintro rfl
      exact hnot hj'
    rw [hdoing j' hne]
    exact hq.inside j' (by rw [hcs]; exact List.mem_cons_of_mem _ hj')
  · rw [hcs'] at heq
    have hin : j' ∈ rest := by
      rw [heq]
      exact List.mem_cons_of_mem _ hj'
    have hne : j' ≠ j := by
      rintro rfl
      exact hnot hin
    rw [hdoing j' hne]
    exact hq.tail j rest hcs j' hin
  · by_cases hne : j' = j
    · subst hne
      exact absurd hself (h3 ok)
    · rw [hdoing j' hne] at h1 h2 h3
      exact hq.uncalled j' h1 h2 h3

/-- A new command comes to the end of the queue. -/
theorem Queued.push (hq : Queued g ag) (hj : ag.doing j = .absent) (r : Req) :
    Queued g (ag.push j r) := by
  have hnot : j ∉ ag.cs := fun hin => (hq.inside j hin).1 hj
  have hdoing : ∀ j', j' ≠ j → (ag.push j r).doing j' = ag.doing j' :=
    fun j' hne => Function.update_of_ne hne _ _
  have hself : (ag.push j r).doing j = .waiting r := Function.update_self _ _ _
  have hcs : (ag.push j r).cs = ag.cs ++ [j] := rfl
  refine ⟨?_, fun j' hj' => ?_, fun j' hj' => ?_, fun j₀ rest' heq j' hj' => ?_,
    fun j' h1 h2 h3 => ?_⟩
  · rw [hcs]
    refine List.nodup_append.mpr ⟨hq.nodup, List.nodup_cons.mpr ⟨List.not_mem_nil, List.nodup_nil⟩, ?_⟩
    rintro j' hj' _ hin rfl
    rw [List.mem_singleton.mp hin] at hj'
    exact hnot hj'
  · rw [hcs] at hj'
    have hne : j' ≠ j := by
      rintro rfl
      exact hj' (by simp)
    rw [hdoing j' hne]
    exact hq.out j' (fun hin => hj' (List.mem_append_left _ hin))
  · by_cases hne : j' = j
    · subst hne
      rw [hself]
      exact ⟨by simp, by simp⟩
    · rw [hdoing j' hne]
      rw [hcs] at hj'
      refine hq.inside j' ((List.mem_append.mp hj').resolve_right fun hin => hne ?_)
      exact List.mem_singleton.mp hin
  · by_cases hne : j' = j
    · subst hne
      exact ⟨r, hself⟩
    · rw [hdoing j' hne]
      rw [hcs] at heq
      cases hcs' : ag.cs with
      | nil =>
        rw [hcs'] at heq
        obtain ⟨-, rfl⟩ := List.cons.inj heq
        cases hj'
      | cons j₁ rest₁ =>
        rw [hcs'] at heq
        obtain ⟨rfl, rfl⟩ := List.cons.inj heq
        refine hq.tail j₁ rest₁ hcs' j' ?_
        refine (List.mem_append.mp hj').resolve_right fun hin => hne ?_
        exact List.mem_singleton.mp hin
  · by_cases hne : j' = j
    · subst hne
      exact hq.uncalled j' (by simp [hj]) (by simp [hj]) (by simp [hj])
    · rw [hdoing j' hne] at h1 h2 h3
      exact hq.uncalled j' h1 h2 h3

/-- The gate goes on with the call of the first job. -/
theorem Queued.recall (hq : Queued g ag) (hl : ag.doing j = .leaving l)
    (hg : ∀ j', j' ≠ j → g' j' = g j') : Queued g' ag := by
  refine ⟨hq.nodup, hq.out, hq.inside, hq.tail, fun j' h1 h2 h3 => ?_⟩
  have hne : j' ≠ j := by
    rintro rfl
    exact h1 l hl
  rw [hg j' hne]
  exact hq.uncalled j' h1 h2 h3

/-- A job at the head that is not the `login` stands before it. -/
theorem cons_of_queue {n : ℕ} {l' : Login} {q : List Job} (hcs : ag.cs = j :: rest)
    (queue : ag.cs = q ++ [.gate n]) (waiting : ag.doing (.gate n) = .waiting (.login l'))
    (hj : ag.doing j ≠ .waiting (.login l')) : ∃ q', q = j :: q' ∧ rest = q' ++ [.gate n] := by
  cases q with
  | nil =>
    obtain ⟨rfl, -⟩ := List.cons.inj (hcs.symm.trans queue)
    exact absurd waiting hj
  | cons j₀ q =>
    obtain ⟨rfl, hrest⟩ := List.cons.inj (hcs.symm.trans queue)
    exact ⟨q, rfl, hrest⟩

/-- A call of the gate that the gate has not taken up is that of the
session the agent serves. -/
theorem Fits.serving (hf : Fits g ag st) (hcs : ag.cs = j :: rest) (hl : ag.doing j = .leaving l)
    (hg : g j = .absent) : st = .online l ∧ ag.session = some l := by
  have hover : ∀ {q rest'}, q = j :: rest' → ¬ Over g ag q := by
    rintro q rest' hq (⟨-, staying⟩ | ⟨-, first, -, answered⟩ | ⟨-, first, unloading⟩)
    · exact staying j (by rw [hq]; exact List.mem_cons_self) l hl
    · obtain ⟨rfl, -⟩ := List.cons.inj (first.symm.trans hq)
      rw [hg] at answered
      cases answered
    · obtain ⟨rfl, -⟩ := List.cons.inj (first.symm.trans hq)
      rw [hl] at unloading
      cases unloading
  cases hf with
  | free logouts past => exact absurd past (hover hcs)
  | @called n l' q queue waiting logouts past =>
    obtain ⟨q', rfl, -⟩ := cons_of_queue hcs queue waiting (by simp [hl])
    exact absurd past (hover rfl)
  | ready queue _ _ => rw [hcs] at queue; cases queue
  | online session logouts serving =>
    obtain ⟨rfl, -⟩ := (serving j (by rw [hcs]; exact List.mem_cons_self)).2 l hl
    exact ⟨rfl, session⟩
  | leaving session first leaving called logouts =>
    obtain ⟨rfl, -⟩ := List.cons.inj (hcs.symm.trans first)
    rw [hg] at called
    cases called

/-! ## What has been done -/

theorem head_of_cs (hcs : ag.cs = j :: rest) : ag.head = some (ag.doing j) := by
  rw [Agent.head, hcs]
  rfl

theorem head_goto (hcs : ag.cs = j :: rest) : (ag.goto j d).head = some d := by
  rw [head_of_cs (show (ag.goto j d).cs = j :: rest from hcs), goto_doing_self]

/-- The session goes on, and one more thing is done for it. -/
theorem Recorded.goes (hr : Recorded ag h) (hsession : ag'.session = ag.session) {m : List Do}
    (hdid : ∀ l, ag.session = some l → did ag'.head = did ag.head ++ m)
    (hacts : forSession acts = match ag.session with
      | none => []
      | some l => m.map fun x => (l, x))
    (hsuffix : ∀ rest, ag'.head = some (.offline rest) → rest <:+ serviceName) :
    Recorded ag' (h ++ forSession acts) := by
  obtain ⟨⟨done, hh⟩, -⟩ := hr
  refine ⟨⟨done, ?_⟩, hsuffix⟩
  rw [hh, List.append_assoc, hacts, Agent.part, Agent.part, hsession]
  congr 1
  cases hs : ag.session with
  | none => rfl
  | some l => simp only [hdid l hs, List.map_append]

/-- Nothing is done, and the first job is as far as before. -/
theorem Recorded.same (hr : Recorded ag h) (hsession : ag'.session = ag.session)
    (hdid : did ag'.head = did ag.head)
    (hsuffix : ∀ rest, ag'.head = some (.offline rest) → rest <:+ serviceName) : Recorded ag' h := by
  have : Recorded ag' (h ++ forSession []) := hr.goes (m := []) hsession (fun l _ => by rw [hdid, List.append_nil])
    (by cases ag.session <;> rfl) hsuffix
  simpa [forSession] using this

theorem Recorded.push (hr : Recorded ag h) (hq : Queued g ag) (hj : ag.doing j = .absent) (r : Req) :
    Recorded (ag.push j r) h := by
  have hhead : (ag.push j r).head = ag.head ∨
      ag.head = none ∧ (ag.push j r).head = some (.waiting r) := by
    cases hcs : ag.cs with
    | nil =>
      right
      simp [Agent.head, Agent.push, Agent.goto, hcs]
    | cons j₀ rest =>
      left
      have hne : j₀ ≠ j := by
        rintro rfl
        exact (hq.inside j₀ (by rw [hcs]; exact List.mem_cons_self)).1 hj
      simp [Agent.head, Agent.push, Agent.goto, hcs, hne]
  rcases hhead with heq | ⟨hnone, hwait⟩
  · exact hr.same rfl (by rw [heq]) (fun rest hh => hr.suffix rest (by rw [← heq, hh]))
  · refine hr.same rfl (by rw [hwait, hnone]; rfl) (fun rest hh => ?_)
    rw [hwait] at hh
    cases hh

/-- The loop over the services: the next is told, or the gate. -/
theorem Recorded.tells (hr : Recorded ag h) (hcs : ag.cs = j :: rest) {names : List String}
    (hdid : did ag.head = .login ::
      (serviceName.take (serviceName.length - names.length)).map .offline)
    (hsuffix : names <:+ serviceName) :
    Recorded (offlines ag j names).1 (h ++ forSession (offlines ag j names).2) := by
  cases names with
  | cons name names =>
    obtain ⟨pre, hpre⟩ := hsuffix
    have htake : serviceName.take (serviceName.length - names.length) =
        serviceName.take (serviceName.length - (name :: names).length) ++ [name] := by
      rw [← hpre]
      have h1 : (pre ++ name :: names).length - names.length = pre.length + 1 := by
        simp only [List.length_append, List.length_cons]
        omega
      have h2 : (pre ++ name :: names).length - (name :: names).length = pre.length := by
        simp only [List.length_append, List.length_cons]
        omega
      rw [h1, h2]
      simp [List.take_append]
    refine hr.goes (m := [.offline name]) rfl (fun l _ => ?_) ?_ (fun rest' hh => ?_)
    · show did (ag.goto j (.offline names)).head = _
      rw [head_goto hcs, hdid]
      show Do.login :: _ = _
      rw [htake]
      simp
    · show forSession [(ag.session, _)] = _
      cases ag.session <;> rfl
    · have hh : (ag.goto j (.offline names)).head = some (.offline rest') := hh
      rw [head_goto hcs] at hh
      cases hh
      exact ⟨pre ++ [name], by rw [← hpre]; simp⟩
  | nil =>
    have hall : did ag.head = .login :: serviceName.map .offline := by
      rw [hdid]
      simp
    cases hs : ag.session with
    | some l =>
      have heq : offlines ag j [] = (ag.goto j (.leaving l), [(some l, .gate)]) := by
        simp [offlines, hs]
      rw [heq]
      refine hr.goes (m := [.gate]) rfl (fun l' _ => ?_) (by rw [hs]; rfl) (fun rest' hh => ?_)
      · rw [head_goto hcs, hall]
        rfl
      · rw [head_goto hcs] at hh
        cases hh
    | none =>
      have heq : offlines ag j [] = (ag.goto j .unloading, [(none, .unload)]) := by
        simp [offlines, hs]
      rw [heq]
      refine hr.goes (m := []) rfl (fun l' hl => ?_) (by rw [hs]; rfl) (fun rest' hh => ?_)
      · rw [hs] at hl
        cases hl
      · rw [head_goto hcs] at hh
        cases hh

/-- The part of the present session is a proper beginning of its life. -/
theorem part_life (hs : ag.session = some l) :
    ag.part ≠ [] ∧ ag.part <+: life l ∧ ag.part ≠ life l := by
  have hdid : ∃ more : List Do, more ≠ [] ∧
      did ag.head ++ more = .login :: (serviceName.map .offline ++ [.gate, .unload, .cleared]) := by
    cases hd : ag.head with
    | none => exact ⟨serviceName.map .offline ++ [.gate, .unload, .cleared], by simp, rfl⟩
    | some d =>
      cases d with
      | offline names =>
        refine ⟨(serviceName.drop (serviceName.length - names.length)).map .offline ++
          [.gate, .unload, .cleared], by simp, ?_⟩
        rw [did, List.cons_append, ← List.append_assoc, ← List.map_append, List.take_append_drop]
      | leaving l' => exact ⟨[.unload, .cleared], by simp, by simp [did]⟩
      | unloading => exact ⟨[.cleared], by simp, by simp [did]⟩
      | _ => exact ⟨serviceName.map .offline ++ [.gate, .unload, .cleared], by simp, rfl⟩
  obtain ⟨more, hmore, heq⟩ := hdid
  have hlife : ag.part ++ more.map (fun d => (l, d)) = life l := by
    simp only [Agent.part, hs, life]
    rw [← List.map_append, heq]
  have hpart : ag.part ≠ [] := by
    simp only [Agent.part, hs, ne_eq, List.map_eq_nil_iff]
    rcases ag.head with _ | d
    · exact List.cons_ne_nil _ _
    · cases d <;> exact List.cons_ne_nil _ _
  refine ⟨hpart, ⟨_, hlife⟩, fun hall => hmore ?_⟩
  rw [hall] at hlife
  exact List.map_eq_nil_iff.mp (List.append_right_eq_self.mp hlife)

/-! ## The other jobs -/

theorem offlines_doing (ag : Agent) {j j' : Job} (hne : j' ≠ j) (names : List String) :
    (offlines ag j names).1.doing j' = ag.doing j' := by
  unfold offlines
  split
  · exact goto_doing_of_ne hne
  · split <;> exact goto_doing_of_ne hne

/-- A job that has not come does not by another's beginning. -/
theorem start_absent {j' : Job} {x : Agent × List (Option Login × Do)}
    (hs : start ag j = some x) (hj' : ag.doing j' = .absent) : x.1.doing j' = .absent := by
  have hne : j' ≠ j := by
    rintro rfl
    simp [start, hj'] at hs
  rw [← hj']
  unfold start at hs
  split at hs
  · split at hs
    · cases hs
      exact Function.update_of_ne hne _ _
    · cases hs
      unfold logout
      split <;> exact goto_doing_of_ne hne
    · cases hs
  · cases hs

theorem resume_absent {j' : Job} {answer : Option Bool} {x : Agent × List (Option Login × Do)}
    (hs : resume ag j answer = some x) (hj' : ag.doing j' = .absent) : x.1.doing j' = .absent := by
  have hne : j' ≠ j := by
    rintro rfl
    simp [resume, hj'] at hs
  rw [← hj']
  unfold resume at hs
  split at hs
  · cases hs
    exact goto_doing_of_ne hne
  · cases hs
    exact goto_doing_of_ne hne
  · obtain rfl := Option.some.inj hs
    exact offlines_doing ag hne _
  · obtain rfl := Option.some.inj hs
    exact offlines_doing ag hne _
  · split at hs
    · cases hs
      exact goto_doing_of_ne hne
    · cases hs
      exact Function.update_of_ne hne _ _
    · cases hs
  · cases hs
    exact Function.update_of_ne hne _ _
  · cases hs

/-! ## What the gate sends -/

/-- A `logout` comes to an agent that serves. -/
theorem Fits.ask (hf : Fits g ag (.online l)) (j : Job) (kick : Bool) : Fits g (ag.push j (.logout kick)) (.online l) := by
  have hdoing : ∀ j', j' ≠ j → (ag.push j (.logout kick)).doing j' = ag.doing j' :=
    fun j' hne => Function.update_of_ne hne _ _
  have hself : (ag.push j (.logout kick)).doing j = .waiting (.logout kick) :=
    Function.update_self _ _ _
  cases hf with
  | online session logouts serving =>
    have hin : ∀ j', j' ∈ (ag.push j (.logout kick)).cs → j' ≠ j → j' ∈ ag.cs := by
      intro j' hj' hne
      refine (List.mem_append.mp hj').resolve_right fun h => hne (List.mem_singleton.mp h)
    refine .online session (fun j' hj' l' => ?_) (fun j' hj' => ?_)
    · by_cases hne : j' = j
      · subst hne
        rw [hself]
        simp
      · rw [hdoing j' hne]
        exact logouts j' (hin j' hj' hne) l'
    · by_cases hne : j' = j
      · subst hne
        rw [hself]
        simp
      · rw [hdoing j' hne]
        exact serving j' (hin j' hj' hne)

/-- A `login` comes to an agent that is free. -/
theorem Fits.call (hf : Fits g ag .free) (hq : Queued g ag) {n : ℕ}
    (hj : ag.doing (.gate n) = .absent) (l : Login) :
    Fits g (ag.push (.gate n) (.login l)) (.called n l) := by
  have hnot : .gate n ∉ ag.cs := fun hin => (hq.inside _ hin).1 hj
  have hdoing : ∀ j', j' ∈ ag.cs → (ag.push (.gate n) (.login l)).doing j' = ag.doing j' := by
    intro j' hin
    refine Function.update_of_ne ?_ _ _
    rintro rfl
    exact hnot hin
  cases hf with
  | free logouts past =>
    refine .called rfl (Function.update_self _ _ _) (fun j' hj' l' => ?_) ?_
    · rw [hdoing j' hj']
      exact logouts j' hj' l'
    · cases past with
      | cleared session staying =>
        refine .cleared session fun j' hj' l' => ?_
        rw [hdoing j' hj']
        exact staying j' hj' l'
      | @left l' j' rest session first leaving answered =>
        exact .left session first (by rw [hdoing j' (by rw [first]; exact List.mem_cons_self), leaving])
          answered
      | @unloading l' j' rest session first unloading =>
        exact .unloading session first
          (by rw [hdoing j' (by rw [first]; exact List.mem_cons_self), unloading])

/-! ## What the agent does -/

/-- The first job goes on before its call of the gate. -/
theorem Fits.stays (hf : Fits g ag st) (hcs : ag.cs = j :: rest)
    (hbefore : (∀ l, ag.doing j ≠ .leaving l) ∧ ag.doing j ≠ .unloading ∧
      ∀ l, ag.doing j ≠ .waiting (.login l))
    (hafter : (∀ l, d ≠ .leaving l) ∧ (ag.session ≠ none → d ≠ .unloading) ∧
      ∀ l, d ≠ .waiting (.login l)) : Fits g (ag.goto j d) st := by
  obtain ⟨hb1, hb2, hb3⟩ := hbefore
  obtain ⟨ha1, ha2, ha3⟩ := hafter
  have hover : ∀ {q rest'}, q = j :: rest' → Over g ag q → Over g (ag.goto j d) q := by
    intro q rest' hq ho
    cases ho with
    | cleared session staying =>
      refine .cleared session fun j' hj' l' => ?_
      exact goto_doing_cases (p := fun x => x ≠ .leaving l') (fun _ => ha1 l') (staying j' hj' l')
    | left session first leaving answered =>
      obtain ⟨rfl, -⟩ := List.cons.inj (first.symm.trans hq)
      exact absurd leaving (hb1 _)
    | unloading session first unloading =>
      obtain ⟨rfl, -⟩ := List.cons.inj (first.symm.trans hq)
      exact absurd unloading hb2
  cases hf with
  | free logouts past => exact .free (logouts.goto ha3) (hover hcs past)
  | @called n l q queue waiting logouts past =>
    obtain ⟨q', rfl, -⟩ := cons_of_queue hcs queue waiting (hb3 _)
    have hne : Job.gate n ≠ j := by
      rintro rfl
      exact hb3 _ waiting
    exact .called queue (by rw [goto_doing_of_ne hne, waiting]) (logouts.goto ha3) (hover rfl past)
  | ready queue _ _ =>
    rw [hcs] at queue
    cases queue
  | online session logouts serving =>
    refine .online session (logouts.goto ha3) fun j' hj' => ?_
    refine goto_doing_cases (p := fun x => x ≠ .unloading ∧ ∀ l', x = .leaving l' → l' = _ ∧ g j' = .absent)
      (fun _ => ?_) (serving j' hj')
    exact ⟨ha2 (by rw [session]; simp), fun l' h => absurd h (ha1 l')⟩
  | leaving session first leaving called logouts =>
    obtain ⟨rfl, -⟩ := List.cons.inj (hcs.symm.trans first)
    exact absurd leaving (hb1 _)

/-- **The first command begins.** A `login` is the one the gate has the
agent at, and finds no session. -/
theorem Fits.start (hf : Fits g ag st) (hq : Queued g ag) (hr : Recorded ag h)
    (hs : start ag j = some (ag', acts)) :
    (∃ st', Fits g ag' st' ∧ (st' = st ∨ ∃ n l, st = .called n l ∧ st' = .ready n l)) ∧
      Queued g ag' ∧ Recorded ag' (h ++ forSession acts) := by
  unfold Msgagent.start at hs
  split at hs
  · rename_i hhead
    obtain ⟨rest, hcs⟩ : ∃ rest, ag.cs = j :: rest := by
      cases hc : ag.cs with
      | nil => simp [hc] at hhead
      | cons j₀ rest =>
        rw [hc] at hhead
        obtain rfl : j₀ = j := Option.some.inj hhead
        exact ⟨rest, rfl⟩
    split at hs
    · rename_i l hwait
      obtain hs := Option.some.inj hs
      cases hs
      have hin : j ∈ ag.cs := by rw [hcs]; exact List.mem_cons_self
      cases hf with
      | free logouts past => exact absurd hwait (logouts j hin l)
      | @called n l' q queue waiting logouts past =>
        cases q with
        | cons j₀ q =>
          obtain ⟨rfl, -⟩ := List.cons.inj (hcs.symm.trans queue)
          exact absurd hwait (logouts j List.mem_cons_self l)
        | nil =>
          -- the last logout has ended, and the player's turn has come
          obtain ⟨rfl, rfl⟩ := List.cons.inj (hcs.symm.trans queue)
          rw [waiting] at hwait
          cases hwait
          have hnone : ag.session = none := by
            cases past with
            | cleared session _ => exact session
            | left _ first _ _ => cases first
            | unloading _ first _ => cases first
          have hcs' : ({ ag with session := some l }.finish (.gate n) true).cs = [] := by
            show ag.cs.erase _ = []
            rw [hcs]
            exact List.erase_cons_head _ _
          refine ⟨⟨.ready n l, .ready hcs' rfl (Function.update_self _ _ _), Or.inr ⟨n, l, rfl, rfl⟩⟩,
            hq.finish hcs true _, ?_⟩
          obtain ⟨⟨done, hh⟩, -⟩ := hr
          have hhead' : ({ ag with session := some l }.finish (.gate n) true).head = none := by
            rw [Agent.head, hcs']
            rfl
          refine ⟨⟨done, ?_⟩, fun rest hh => ?_⟩
          · have hpart : ag.part = [] := by simp [Agent.part, hnone]
            have hpart' : ({ ag with session := some l }.finish (.gate n) true).part =
                [(l, .login)] := by
              show (did _).map _ = _
              rw [hhead']
              rfl
            rw [hh, hpart, hpart', List.append_nil]
            rfl
          · rw [hhead'] at hh
            cases hh
      | ready queue _ _ => rw [hcs] at queue; cases queue
      | online session logouts serving => exact absurd hwait (logouts j hin l)
      | leaving session first leaving called logouts =>
        obtain ⟨rfl, -⟩ := List.cons.inj (hcs.symm.trans first)
        rw [leaving] at hwait
        cases hwait
    · rename_i kick hwait
      obtain hs := Option.some.inj hs
      cases hs
      have hgo : ∀ {d}, d = .notifying ∨ d = .naming →
          (∃ st', Fits g (ag.goto j d) st' ∧
            (st' = st ∨ ∃ n l, st = .called n l ∧ st' = .ready n l)) ∧
          Queued g (ag.goto j d) ∧ Recorded (ag.goto j d) (h ++ forSession []) := by
        intro d hd
        have huncalled := hq.uncalled j (by simp [hwait]) (by simp [hwait]) (by simp [hwait])
        refine ⟨⟨st, hf.stays hcs (by simp [hwait]) ?_, Or.inl rfl⟩, hq.goto hcs ?_ ?_ fun _ _ => huncalled, ?_⟩
        · rcases hd with rfl | rfl <;> simp
        · rcases hd with rfl | rfl <;> simp
        · rcases hd with rfl | rfl <;> simp
        · show Recorded _ (h ++ [])
          rw [List.append_nil]
          refine hr.same rfl ?_ fun rest hh => ?_
          · rw [head_goto hcs, head_of_cs hcs, hwait]
            rcases hd with rfl | rfl <;> rfl
          · rw [head_goto hcs] at hh
            rcases hd with rfl | rfl <;> cases hh
      unfold logout
      split
      · exact hgo (Or.inl rfl)
      · exact hgo (Or.inr rfl)
    · cases hs
  · cases hs

/-- The loop of `logout` in the first job: it tells the next service, and
then the gate if there is a session. -/
theorem Fits.tells (hf : Fits g ag st) (hq : Queued g ag) (hcs : ag.cs = j :: rest)
    (hbefore : (∀ l, ag.doing j ≠ .leaving l) ∧ ag.doing j ≠ .unloading ∧
      ∀ r, ag.doing j ≠ .waiting r) (names : List String) :
    Fits g (offlines ag j names).1 st ∧ Queued g (offlines ag j names).1 := by
  have hin : j ∈ ag.cs := by rw [hcs]; exact List.mem_cons_self
  have hcalled : g j = .absent :=
    hq.uncalled j hbefore.1 hbefore.2.1 fun ok => (hq.inside j hin).2 ok
  have hb : (∀ l, ag.doing j ≠ .leaving l) ∧ ag.doing j ≠ .unloading ∧
      ∀ l, ag.doing j ≠ .waiting (.login l) := ⟨hbefore.1, hbefore.2.1, fun l => hbefore.2.2 _⟩
  cases names with
  | cons name names =>
    exact ⟨hf.stays hcs hb ⟨by simp, by simp, by simp⟩,
      hq.goto hcs (by simp) (by simp) fun _ _ => hcalled⟩
  | nil =>
    cases hs : ag.session with
    | none =>
      have heq : offlines ag j [] = (ag.goto j .unloading, [(none, .unload)]) := by
        simp [offlines, hs]
      rw [heq]
      exact ⟨hf.stays hcs hb ⟨by simp, fun h => absurd hs h, by simp⟩,
        hq.goto hcs (by simp) (by simp) fun _ h => absurd rfl h⟩
    | some l =>
      have heq : offlines ag j [] = (ag.goto j (.leaving l), [(some l, .gate)]) := by
        simp [offlines, hs]
      rw [heq]
      refine ⟨?_, hq.goto hcs (by simp) (by simp) fun h _ => absurd rfl (h l)⟩
      -- the first job has not been to the gate, so its session is not over yet
      have hover : ∀ {q rest'}, q = j :: rest' → ¬ Over g ag q := by
        rintro q rest' hq (⟨session, -⟩ | ⟨-, first, leaving, -⟩ | ⟨-, first, unloading⟩)
        · rw [hs] at session
          cases session
        · obtain ⟨rfl, -⟩ := List.cons.inj (first.symm.trans hq)
          exact hbefore.1 _ leaving
        · obtain ⟨rfl, -⟩ := List.cons.inj (first.symm.trans hq)
          exact hbefore.2.1 unloading
      cases hf with
      | free logouts past => exact absurd past (hover hcs)
      | @called n l' q queue waiting logouts past =>
        obtain ⟨q', rfl, -⟩ := cons_of_queue hcs queue waiting (hbefore.2.2 _)
        exact absurd past (hover rfl)
      | ready queue _ _ => rw [hcs] at queue; cases queue
      | online session logouts serving =>
        rw [hs] at session
        cases session
        refine .online hs (logouts.goto (by simp)) fun j' hj' => ?_
        refine goto_doing_cases (p := fun x => x ≠ .unloading ∧ ∀ l', x = .leaving l' → l' = l ∧ g j' = .absent)
          (fun hself => ?_) (serving j' hj')
        rw [hself]
        exact ⟨by simp, fun l' h => ⟨(Doing.leaving.inj h).symm, hcalled⟩⟩
      | leaving session first leaving called logouts =>
        obtain ⟨rfl, -⟩ := List.cons.inj (hcs.symm.trans first)
        exact absurd leaving (hbefore.1 _)

/-- The gate has answered: the agent unloads. -/
theorem Fits.unloads (hf : Fits g ag st) (hcs : ag.cs = j :: rest)
    (hl : ag.doing j = .leaving l) {r : Result} (hans : g j = .finished r) :
    r = .returned ∧ Fits g (ag.goto j .unloading) st := by
  have hover : ∀ {q rest'}, q = j :: rest' → Over g ag q →
      r = .returned ∧ Over g (ag.goto j .unloading) q := by
    rintro q rest' hq (⟨-, staying⟩ | ⟨session, first, leaving, answered⟩ | ⟨-, first, unloading⟩)
    · exact absurd hl (staying j (by rw [hq]; exact List.mem_cons_self) l)
    · obtain ⟨rfl, -⟩ := List.cons.inj (first.symm.trans hq)
      rw [hans] at answered
      cases answered
      exact ⟨rfl, .unloading session hq (goto_doing_self _ _ _)⟩
    · obtain ⟨rfl, -⟩ := List.cons.inj (first.symm.trans hq)
      rw [hl] at unloading
      cases unloading
  cases hf with
  | free logouts past =>
    obtain ⟨hr, ho⟩ := hover hcs past
    exact ⟨hr, .free (logouts.goto (by simp)) ho⟩
  | @called n l' q queue waiting logouts past =>
    have hnot : ag.doing j ≠ .waiting (.login l') := by simp [hl]
    obtain ⟨q', rfl, -⟩ := cons_of_queue hcs queue waiting hnot
    obtain ⟨hr, ho⟩ := hover rfl past
    have hne : Job.gate n ≠ j := by
      rintro rfl
      exact hnot waiting
    exact ⟨hr, .called queue (by rw [goto_doing_of_ne hne, waiting]) (logouts.goto (by simp)) ho⟩
  | ready queue _ _ => rw [hcs] at queue; cases queue
  | online session logouts serving =>
    have := ((serving j (by rw [hcs]; exact List.mem_cons_self)).2 l hl).2
    rw [hans] at this
    cases this
  | leaving session first leaving called logouts =>
    obtain ⟨rfl, -⟩ := List.cons.inj (hcs.symm.trans first)
    rw [hans] at called
    cases called

/-- The logout is over, and with it the session. -/
theorem Fits.clears (hf : Fits g ag st) (hq : Queued g ag) (hcs : ag.cs = j :: rest)
    (hun : ag.doing j = .unloading) : Fits g ({ ag with session := none }.finish j true) st := by
  have hnodup := hq.nodup
  rw [hcs] at hnodup
  have hcs' : ({ ag with session := none }.finish j true).cs = rest := by
    show ag.cs.erase j = rest
    rw [hcs]
    exact List.erase_cons_head j rest
  have hdoing : ∀ j' ∈ rest, ({ ag with session := none }.finish j true).doing j' = ag.doing j' := by
    intro j' hj'
    refine Function.update_of_ne ?_ _ _
    rintro rfl
    exact (List.nodup_cons.mp hnodup).1 hj'
  -- what is left in the queue has not begun
  have hstaying : ∀ j' ∈ rest, ∀ l', ({ ag with session := none }.finish j true).doing j' ≠
      .leaving l' := by
    intro j' hj' l'
    obtain ⟨r, hr⟩ := hq.tail j rest hcs j' hj'
    rw [hdoing j' hj', hr]
    simp
  cases hf with
  | free logouts past =>
    refine .free (fun j' hj' l' => ?_) (.cleared rfl fun j' hj' => ?_)
    · rw [hcs'] at hj'
      rw [hdoing j' hj']
      exact logouts j' (by rw [hcs]; exact List.mem_cons_of_mem _ hj') l'
    · rw [hcs'] at hj'
      exact hstaying j' hj'
  | @called n l' q queue waiting logouts past =>
    obtain ⟨q', rfl, hrest⟩ := cons_of_queue hcs queue waiting (by simp [hun])
    refine .called (hcs'.trans hrest) ?_ (fun j' hj' l'' => ?_) (.cleared rfl fun j' hj' => ?_)
    · rw [hdoing _ (by rw [hrest]; simp), waiting]
    · rw [hdoing j' (by rw [hrest]; exact List.mem_append_left _ hj')]
      exact logouts j' (List.mem_cons_of_mem _ hj') l''
    · exact hstaying j' (by rw [hrest]; exact List.mem_append_left _ hj')
  | ready queue _ _ => rw [hcs] at queue; cases queue
  | online session logouts serving =>
    exact absurd hun (serving j (by rw [hcs]; exact List.mem_cons_self)).1
  | leaving session first leaving called logouts =>
    obtain ⟨rfl, -⟩ := List.cons.inj (hcs.symm.trans first)
    rw [hun] at leaving
    cases leaving

/-- **A job goes on.** -/
theorem Fits.resume {answer : Option Bool} (hf : Fits g ag st) (hq : Queued g ag)
    (hr : Recorded ag h)
    (hans : answer = match g j with
      | .finished r => some (r ≠ .raised)
      | _ => none)
    (hs : resume ag j answer = some (ag', acts)) :
    Fits g ag' st ∧ Queued g ag' ∧ Recorded ag' (h ++ forSession acts) := by
  have hfirst : ag.doing j ≠ .absent → (∀ ok, ag.doing j ≠ .finished ok) →
      (∀ r, ag.doing j ≠ .waiting r) → ∃ rest, ag.cs = j :: rest := hq.first
  -- a call of `agentmgr` returns: `GetServiceName` is called
  have hnaming : ∀ {d}, ag.doing j = d → d = .setting ∨ d = .notifying →
      Fits g (ag.goto j .naming) st ∧ Queued g (ag.goto j .naming) ∧
        Recorded (ag.goto j .naming) (h ++ forSession []) := by
    intro d hd hor
    obtain ⟨rest, hcs⟩ := hfirst (by rcases hor with rfl | rfl <;> simp [hd])
      (by rcases hor with rfl | rfl <;> simp [hd]) (by rcases hor with rfl | rfl <;> simp [hd])
    have huncalled := hq.uncalled j (by rcases hor with rfl | rfl <;> simp [hd])
      (by rcases hor with rfl | rfl <;> simp [hd]) (by rcases hor with rfl | rfl <;> simp [hd])
    refine ⟨hf.stays hcs ?_ ⟨by simp, by simp, by simp⟩,
      hq.goto hcs (by simp) (by simp) fun _ _ => huncalled, ?_⟩
    · rcases hor with rfl | rfl <;> simp [hd]
    · show Recorded _ (h ++ [])
      rw [List.append_nil]
      refine hr.same rfl ?_ fun rest hh => ?_
      · rw [head_goto hcs, head_of_cs hcs, hd]
        rcases hor with rfl | rfl <;> rfl
      · rw [head_goto hcs] at hh
        cases hh
  unfold Msgagent.resume at hs
  split at hs
  · rename_i hd
    cases hs
    exact hnaming hd (Or.inl rfl)
  · rename_i hd
    cases hs
    exact hnaming hd (Or.inr rfl)
  · rename_i hd
    cases hs
    obtain ⟨rest, hcs⟩ := hfirst (by simp [hd]) (by simp [hd]) (by simp [hd])
    obtain ⟨h1, h2⟩ := hf.tells hq hcs (by simp [hd]) serviceName
    refine ⟨h1, h2, hr.tells hcs ?_ List.suffix_rfl⟩
    rw [head_of_cs hcs, hd]
    simp [did]
  · rename_i names hd
    obtain ⟨rfl, rfl⟩ : (offlines ag j names).1 = ag' ∧ (offlines ag j names).2 = acts :=
      Prod.ext_iff.mp (Option.some.inj hs)
    obtain ⟨rest, hcs⟩ := hfirst (by simp [hd]) (by simp [hd]) (by simp [hd])
    obtain ⟨h1, h2⟩ := hf.tells hq hcs (by simp [hd]) names
    refine ⟨h1, h2, hr.tells hcs ?_ (hr.suffix names ?_)⟩
    · rw [head_of_cs hcs, hd]
      rfl
    · rw [head_of_cs hcs, hd]
  · rename_i l hd
    obtain ⟨rest, hcs⟩ := hfirst (by simp [hd]) (by simp [hd]) (by simp [hd])
    obtain ⟨r, hg⟩ : ∃ r, g j = .finished r := by
      rw [hans] at hs
      cases hg : g j with
      | finished r => exact ⟨r, rfl⟩
      | _ => simp [hg] at hs
    obtain ⟨rfl, hfit⟩ := hf.unloads hcs hd hg
    have htrue : answer = some true := by
      rw [hans, hg]
      rfl
    rw [htrue] at hs
    cases hs
    refine ⟨hfit, hq.goto hcs (by simp) (by simp) fun _ h => absurd rfl h, ?_⟩
    refine hr.goes (m := [.unload]) rfl (fun l' _ => ?_) ?_ fun rest' hh => ?_
    · rw [head_goto hcs, head_of_cs hcs, hd]
      simp [did]
    · cases ag.session <;> rfl
    · rw [head_goto hcs] at hh
      cases hh
  · rename_i hd
    cases hs
    obtain ⟨rest, hcs⟩ := hfirst (by simp [hd]) (by simp [hd]) (by simp [hd])
    refine ⟨hf.clears hq hcs hd, hq.finish hcs true none, ?_⟩
    obtain ⟨⟨done, hh⟩, -⟩ := hr
    have hhead : ∀ d, ({ ag with session := none }.finish j true).head = some d → ∃ r, d = .waiting r := by
      intro d hd'
      have hcs' : ({ ag with session := none }.finish j true).cs = rest := by
        show ag.cs.erase j = rest
        rw [hcs]
        exact List.erase_cons_head j rest
      rw [Agent.head, hcs'] at hd'
      cases rest with
      | nil => cases hd'
      | cons j' rest =>
        obtain ⟨r, hr⟩ := hq.tail j _ hcs j' List.mem_cons_self
        have hne : j' ≠ j := by
          rintro rfl
          rw [hd] at hr
          cases hr
        refine ⟨r, ?_⟩
        have hd' : ({ ag with session := none }.finish j true).doing j' = d := Option.some.inj hd'
        rw [← hd', ← hr]
        exact Function.update_of_ne hne _ _
    refine ⟨?_, fun rest' hh' => ?_⟩
    · -- the life of the session is complete
      have hpart : ({ ag with session := none }.finish j true).part = [] := rfl
      simp only [hpart, List.append_nil]
      rw [hh]
      cases hs : ag.session with
      | none => exact ⟨done, by simp [Agent.part, hs, forSession]⟩
      | some l =>
        refine ⟨done ++ [l], ?_⟩
        simp only [Agent.part, hs, head_of_cs hcs, hd, did, forSession, life, List.flatMap_append,
          List.flatMap_singleton, List.filterMap_cons, List.filterMap_nil, Option.map_some,
          List.map_cons, List.map_append, List.map_nil, List.cons_append, List.append_assoc,
          List.nil_append]
    · obtain ⟨r, hr⟩ := hhead _ hh'
      cases hr
  · cases hs

end Msgagent

end Athena
