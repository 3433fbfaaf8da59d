import Athena.Cluster.View
import Athena.Gated.Subid
/-!
# The cluster moves

The situations of the uids (`Agreed`) hold together over every run of
the cluster in which a gate's login returns the subid it took
(`OwnId`), which concurrent logins at one gate break, see
`Gated.subid_iff`. `Sound` is the invariant, and this module
is what it takes to keep it while a gate moves: each gate of the cluster
is in a run of its own, so what is known of the runs of one gate is
known of all of them.
-/

namespace Athena

namespace Cluster

open Lua Gated

variable {N : Type} [DecidableEq N] {conf : N → Conf} {strict : Prop} {s t : State N} {n : N}
  {g : Gated.State Task} {ns : List Notice} {uid : Int64} {out : List (Out Task)}
  {e : Gated.Event Task}

/-- A gate's login that ends well returns the subid it took. -/
def OwnId (conf : N → Conf) (s : State N) : Event N → Prop
  | .gate n (.entered c true) => ∀ u secret sent, (s.gates n).phase c = .entering u secret sent →
      u.username = Gate.username u.uid (s.gates n).internalId (conf n).node
  | _ => True

/-- No notice of a uid is handled while a login of it waits for its gate. -/
def Timely (s : State N) : Event N → Prop
  | .notice n => ∀ x rest, s.notices n = x :: rest →
      ∀ k server secret, s.stage x.uid ≠ .logging k server secret
  | _ => True

/-- Call `k` of a uid goes to gate `n`. -/
def Stage.Target (n : N) (k : ℕ) : Stage N → Prop
  | .idle => False
  | .kicking k' _ _ last => k' = k ∧ last.server = n
  | .logging k' server _ => k' = k ∧ server = n

/-- **The invariant of the cluster.** -/
structure Sound (conf : N → Conf) (strict : Prop) (s : State N) : Prop where
  /-- Each gate is in a run of its own. -/
  gates : ∀ n, (Gated.system (conf n)).Reachable (s.gates n)
  /-- The calls of the agents are no logins. -/
  own : ∀ n j, ((s.gates n).phase (.own j)).session = none
  fresh : ∀ n k uid, s.calls ≤ k → (s.gates n).phase (.call k uid) = .absent
  issued : ∀ uid n k, (s.stage uid).Target n k → k < s.calls
  /-- A call that runs at a gate is the one the master waits in. -/
  busy : ∀ n k uid, ((s.gates n).phase (.call k uid)).idle = false → (s.stage uid).Target n k
  agreed : ∀ uid, Agreed conf strict uid (view s uid) (s.stage uid)

/-! ## A gate moves -/

@[simp] theorem put_users (s : State N) (n : N) (g : Gated.State Task) (ns : List Notice)
    (uid : Int64) : (view (s.put n g ns) uid).users n = g.users uid := by
  simp [view, State.put]

@[simp] theorem put_notices (s : State N) (n : N) (g : Gated.State Task) (ns : List Notice)
    (uid : Int64) :
    (view (s.put n g ns) uid).notices n = (view s uid).notices n ++ mine uid ns := by
  simp [view, State.put, mine]

@[simp] theorem put_call (s : State N) (n : N) (g : Gated.State Task) (ns : List Notice)
    (uid : Int64) (k : ℕ) : (view (s.put n g ns) uid).call n k = g.phase (.call k uid) := by
  simp [view, State.put]

theorem elsewhere_put (s : State N) (n : N) (g : Gated.State Task) (ns : List Notice)
    (uid : Int64) : Elsewhere (view s uid) (view (s.put n g ns) uid) n := by
  refine ⟨fun n' h => ?_, fun n' h => ?_, fun n' h => ?_⟩ <;> simp [view, State.put, h]

/-- A uid the gate has not touched. -/
theorem view_put (huser : g.users uid = (s.gates n).users uid) (hns : mine uid ns = [])
    (hcall : ∀ k, g.phase (.call k uid) = (s.gates n).phase (.call k uid)) :
    view (s.put n g ns) uid = view s uid := by
  have he := elsewhere_put s n g ns uid
  have hu : (view (s.put n g ns) uid).users = (view s uid).users := by
    funext n'
    by_cases hn : n' = n
    · subst hn
      rw [put_users, huser]
      rfl
    · exact he.users n' hn
  have hm : (view (s.put n g ns) uid).notices = (view s uid).notices := by
    funext n'
    by_cases hn : n' = n
    · subst hn
      rw [put_notices, hns, List.append_nil]
    · exact he.notices n' hn
  have hc : (view (s.put n g ns) uid).call = (view s uid).call := by
    funext n' k
    by_cases hn : n' = n
    · subst hn
      rw [put_call, hcall]
      rfl
    · exact congrFun (he.call n' hn) k
  rw [show view (s.put n g ns) uid = ⟨_, _, _, _⟩ from rfl]
  exact congr (congr (congrArg _ hu) hm) hc

/-- **A gate moves**: what is said of the phases need only be said of its
own. -/
theorem Sound.put (hs : Sound conf strict s)
    (hstep : Gated.step (conf n) (s.gates n) e = some (g, out))
    (hown : ∀ j, (g.phase (.own j)).session = none)
    (hfresh : ∀ k uid, s.calls ≤ k → g.phase (.call k uid) = .absent)
    (hbusy : ∀ k uid, (g.phase (.call k uid)).idle = false → (s.stage uid).Target n k)
    (hviews : ∀ uid, Agreed conf strict uid (view (s.put n g (notes out)) uid) (s.stage uid)) :
    Sound conf strict (s.put n g (notes out)) := by
  have hgates : ∀ n', (s.put n g (notes out)).gates n' = if n' = n then g else s.gates n' :=
    fun n' => Function.update_apply s.gates n g n'
  refine ⟨fun n' => ?_, fun n' j => ?_, fun n' k' uid' hk => ?_, hs.issued, fun n' k' uid' hb => ?_,
    hviews⟩
  · rw [hgates]
    split
    · rename_i hn
      subst hn
      exact (hs.gates n').step (e := (e, out)) hstep
    · exact hs.gates n'
  · rw [hgates]
    split
    · exact hown j
    · exact hs.own n' j
  · rw [hgates]
    split
    · exact hfresh k' uid' hk
    · exact hs.fresh n' k' uid' hk
  · rw [hgates] at hb
    split at hb
    · rename_i hn
      subst hn
      exact hbusy k' uid' hb
    · exact hs.busy n' k' uid' hb

/-- A gate moves, in the coroutine of one call. -/
theorem Sound.call (hs : Sound conf strict s) {k : ℕ}
    (hstep : Gated.step (conf n) (s.gates n) e = some (g, out))
    (htarget : (s.stage uid).Target n k)
    (hphase : ∀ c, c ≠ .call k uid → g.phase c = (s.gates n).phase c)
    (husers : ∀ uid', uid' ≠ uid → g.users uid' = (s.gates n).users uid')
    (hns : ∀ uid', uid' ≠ uid → mine uid' (notes out) = [])
    (hview : Agreed conf strict uid (view (s.put n g (notes out)) uid) (s.stage uid)) :
    Sound conf strict (s.put n g (notes out)) := by
  refine hs.put hstep (fun j => ?_) (fun k' uid' hk => ?_) (fun k' uid' hb => ?_) fun uid' => ?_
  · rw [hphase _ (by simp)]
    exact hs.own n j
  · have hlt := hs.issued uid n k htarget
    rw [hphase _ (by simp only [ne_eq, Task.call.injEq]; omega)]
    exact hs.fresh n k' uid' hk
  · by_cases hc : Task.call k' uid' = .call k uid
    · cases hc
      exact htarget
    · rw [hphase _ hc] at hb
      exact hs.busy n k' uid' hb
  · by_cases huid : uid' = uid
    · subst huid
      exact hview
    · rw [view_put (husers uid' huid) (hns uid' huid) fun k' => hphase _ (by simp [huid])]
      exact hs.agreed uid'

/-- A gate moves, in the coroutine of an agent's call or in none. -/
theorem Sound.uncalled (hs : Sound conf strict s)
    (hstep : Gated.step (conf n) (s.gates n) e = some (g, out))
    (hcalls : ∀ k uid, g.phase (.call k uid) = (s.gates n).phase (.call k uid))
    (hown : ∀ j, (g.phase (.own j)).session = none)
    (hviews : ∀ uid, Agreed conf strict uid (view (s.put n g (notes out)) uid) (s.stage uid)) :
    Sound conf strict (s.put n g (notes out)) := by
  refine hs.put hstep hown (fun k' uid' hk => ?_) (fun k' uid' hb => ?_) hviews
  · rw [hcalls]
    exact hs.fresh n k' uid' hk
  · rw [hcalls] at hb
    exact hs.busy n k' uid' hb

theorem goto_phase_of_ne {g : Gated.State Task} {c c' : Task} {p : Phase} (h : c' ≠ c) :
    (g.goto c p).phase c' = g.phase c' :=
  Function.update_of_ne h _ _

@[simp] theorem goto_phase_self (g : Gated.State Task) (c : Task) (p : Phase) :
    (g.goto c p).phase c = p :=
  Function.update_self _ _ _

theorem mine_of_ne {c : Task} {uid uid' : Int64} {subid : ℕ} (h : uid' ≠ uid) :
    mine uid' [⟨c, uid, subid⟩] = [] := by
  simp [mine, h.symm]

@[simp] theorem mine_self (c : Task) (uid : Int64) (subid : ℕ) :
    mine uid [⟨c, uid, subid⟩] = [⟨c, uid, subid⟩] := by
  simp [mine]

@[simp] theorem mine_nil (uid : Int64) : mine uid [] = [] := rfl

/-- A uid the gate has not touched is where it was. -/
theorem Sound.untouched (hs : Sound conf strict s) (huser : g.users uid = (s.gates n).users uid)
    (hns : mine uid ns = []) (hcall : ∀ k, g.phase (.call k uid) = (s.gates n).phase (.call k uid)) :
    Agreed conf strict uid (view (s.put n g ns) uid) (s.stage uid) := by
  rw [view_put huser hns hcall]
  exact hs.agreed uid

omit [DecidableEq N] in
/-- The coroutine of an agent's call is no login. -/
theorem Sound.own_goto (hs : Sound conf strict s) {g' : Gated.State Task} {j : ℕ} {p : Phase}
    (hphase : g'.phase = (s.gates n).phase) (hp : p.session = none) (j' : ℕ) :
    ((g'.goto (.own j) p).phase (.own j')).session = none := by
  by_cases hj : Task.own j' = .own j
  · rw [hj, goto_phase_self, hp]
  · rw [goto_phase_of_ne hj, hphase]
    exact hs.own n j'

/-- What the call of a uid does at its gate, while it sends nothing and
enters no session. -/
theorem Sound.goes (hs : Sound conf strict s) {k : ℕ} {g' : Gated.State Task} {p : Phase}
    (hstep : Gated.step (conf n) (s.gates n) e = some (g'.goto (.call k uid) p, out))
    (htarget : (s.stage uid).Target n k) (hphase : g'.phase = (s.gates n).phase)
    (husers : g'.users = (s.gates n).users) (hns : notes out = [])
    (hview : ∀ w, Elsewhere (view s uid) w n → w.record = (view s uid).record →
      w.users n = (view s uid).users n → w.notices n = (view s uid).notices n →
      w.call n k = p → Agreed conf strict uid w (s.stage uid)) :
    Sound conf strict (s.put n (g'.goto (.call k uid) p) (notes out)) := by
  refine hs.call hstep htarget (fun c hc => ?_) (fun uid' _ => ?_) (fun uid' _ => ?_) ?_
  · rw [goto_phase_of_ne hc, hphase]
  · exact congrFun husers uid'
  · rw [hns, mine_nil]
  · refine hview _ (elsewhere_put _ _ _ _ _) rfl ?_ ?_ ?_
    · rw [put_users]
      exact congrFun husers uid
    · rw [put_notices, hns, mine_nil, List.append_nil]
    · rw [put_call, goto_phase_self]

/-- The kick of a uid reaches its gate. -/
theorem Sound.deliverKick (hs : Sound conf strict s) {k : ℕ} {server : N} {secret : Str}
    {last : Record N} (hstage : s.stage uid = .kicking k server secret last)
    (h : s.act conf last.server (.kick (.call k uid) uid last.subid) = some t) :
    Sound conf strict t := by
  obtain ⟨⟨g, out⟩, hstep, rfl⟩ := Option.map_eq_some_iff.mp h
  have hag := hs.agreed uid
  have htarget : (s.stage uid).Target last.server k := by rw [hstage]; exact ⟨rfl, rfl⟩
  rw [hstage] at hag
  cases does_of_step hstep with
  | kicks absent online right =>
    refine hs.goes hstep htarget rfl rfl rfl fun w he hr hu hn hc => ?_
    rw [hstage]
    refine hag.rekick he hr hu hn fun asked _ hasks => ?_
    cases hasks with
    | asking call => cases absent.symm.trans call
    | _ => exact .kicking hc
  | wrongKick absent online wrong => exact absurd (hag.kick_right online) wrong
  | kicksNobody absent offline =>
    refine hs.call hstep htarget (fun c hc => goto_phase_of_ne hc) (fun _ _ => rfl)
      (fun uid' huid => mine_of_ne huid) ?_
    rw [hstage]
    refine hag.kicksNobody (elsewhere_put _ _ _ _ _) rfl absent offline ?_ ?_ ?_
    · rw [put_users]
      exact offline
    · rw [put_notices]
      exact congrArg _ (mine_self _ _ _)
    · rw [put_call, goto_phase_self]

/-- The login of a uid reaches its gate. -/
theorem Sound.deliverLogin (hs : Sound conf strict s) {k : ℕ} {server : N} {secret : Str}
    (hstage : s.stage uid = .logging k server secret)
    (h : s.act conf server (.login (.call k uid) uid secret) = some t) : Sound conf strict t := by
  obtain ⟨⟨g, out⟩, hstep, rfl⟩ := Option.map_eq_some_iff.mp h
  have hag := hs.agreed uid
  have htarget : (s.stage uid).Target server k := by rw [hstage]; exact ⟨rfl, rfl⟩
  rw [hstage] at hag
  -- wherever it gets to, it was not there before and has no session yet
  have hgoes : ∀ {p}, Logging uid p → (s.gates server).phase (.call k uid) = .absent →
      ∀ w, Elsewhere (view s uid) w server → w.record = (view s uid).record →
        w.users server = (view s uid).users server →
        w.notices server = (view s uid).notices server → w.call server k = p →
        Agreed conf strict uid w (s.stage uid) := by
    intro p hp habs w he hr hu hn hc
    rw [hstage]
    refine hag.relog he hr hu hn (fun r hr => ?_) (by rw [hc]; exact hp)
    cases habs.symm.trans hr
  cases does_of_step hstep with
  | alreadyLogin absent _ => exact hs.goes hstep htarget rfl rfl rfl (hgoes .raised absent)
  | reuses absent _ _ session =>
    exact hs.goes hstep htarget rfl rfl rfl (hgoes (.entering (by rw [session]) _ _) absent)
  | creates absent _ _ _ => exact hs.goes hstep htarget rfl rfl rfl (hgoes (.creating _ _) absent)
  | tooMany absent _ _ _ => exact hs.goes hstep htarget rfl rfl rfl (hgoes .raised absent)

omit [DecidableEq N] in
/-- A call that runs at a gate and has a session of its own in the making
is the login of its uid. -/
theorem Sound.logging_of_session (hs : Sound conf strict s) {c : Task} {x : Int64 × Str}
    (h : ((s.gates n).phase c).session = some x) :
    ∃ k secret, c = .call k x.1 ∧ s.stage x.1 = .logging k n secret := by
  cases c with
  | own j => rw [hs.own n j] at h; cases h
  | call k uid =>
    have hbusy := hs.busy n k uid (by
      cases hph : (s.gates n).phase (.call k uid) <;> rw [hph] at h <;> first | rfl | cases h)
    have hag := hs.agreed uid
    cases hst : s.stage uid with
    | idle => rw [hst] at hbusy; cases hbusy
    | kicking k' server secret last =>
      rw [hst] at hbusy hag
      obtain ⟨rfl, rfl⟩ := hbusy
      -- a kick has no session in the making
      have hno : ∀ {asked}, Asks uid (view s uid) last.server last.subid k' asked → False := by
        intro asked hasks
        have hcall : ∀ {p}, (view s uid).call last.server k' = p → p.session = some x := by
          rintro p rfl
          exact h
        cases hasks with
        | sent call => cases hcall call
        | kicking call => cases hcall call
        | asking call => cases hcall call
        | asked call => cases hcall call
        | returned call => cases hcall call
      cases hag with
      | kicking _ _ _ asks => exact (hno asks).elim
      | kicked _ _ _ _ asks => exact (hno asks).elim
    | logging k' server secret =>
      rw [hst] at hbusy hag
      obtain ⟨rfl, rfl⟩ := hbusy
      have hx : x.1 = uid := by
        cases hag with
        | logging _ _ call =>
          have hcall : (view s uid).call server k' = (s.gates server).phase (.call k' uid) := rfl
          rw [hcall] at call
          cases hph : (s.gates server).phase (.call k' uid) with
          | creating uid' sec name =>
            rw [hph] at call h
            cases call
            cases h
            rfl
          | entering u sec sent =>
            rw [hph] at call h
            cases h
            cases call with
            | entering owner _ _ => exact owner
          | _ => rw [hph] at h; cases h
        | logged _ _ call _ =>
          have hcall : (s.gates server).phase (.call k' uid) = _ := call
          rw [hcall] at h
          cases h
      rw [hx, hst]
      exact ⟨k', secret, rfl, rfl⟩

omit [DecidableEq N] in
/-- A call that waits for an agent's `logout` or for the master is the
kick of its uid. -/
theorem Sound.kicking_of_busy (hs : Sound conf strict s) {k : ℕ}
    (hbusy : ((s.gates n).phase (.call k uid)).idle = false)
    (h : ¬ Logging uid ((s.gates n).phase (.call k uid))) :
    ∃ server secret last, s.stage uid = .kicking k server secret last ∧ last.server = n := by
  have htarget := hs.busy n k uid hbusy
  have hag := hs.agreed uid
  cases hst : s.stage uid with
  | idle => rw [hst] at htarget; cases htarget
  | kicking k' server secret last =>
    rw [hst] at htarget
    obtain ⟨rfl, rfl⟩ := htarget
    exact ⟨server, secret, last, rfl, rfl⟩
  | logging k' server secret =>
    rw [hst] at htarget hag
    obtain ⟨rfl, rfl⟩ := htarget
    cases hag with
    | logging _ _ call => exact absurd call h
    | logged _ _ call _ =>
      have hcall : (s.gates server).phase (.call k' uid) = _ := call
      rw [hcall] at hbusy
      cases hbusy

/-- The kick of a uid returns at its gate: its agent has logged out, or
its notice has been handled. -/
theorem Sound.kickReturns (hs : Sound conf strict s) {c : Task} {g' : Gated.State Task}
    (hstep : Gated.step (conf n) (s.gates n) e = some (g'.goto c (.finished .returned), out))
    (hphase : g'.phase = (s.gates n).phase) (husers : g'.users = (s.gates n).users)
    (hns : notes out = []) (hbusy : ((s.gates n).phase c).idle = false)
    (hlog : ∀ uid, ¬ Logging uid ((s.gates n).phase c))
    (hhandled : (s.gates n).phase c = .reporting → c ∉ (s.notices n).map Notice.task) :
    Sound conf strict (s.put n (g'.goto c (.finished .returned)) (notes out)) := by
  cases c with
  | own j =>
    have hcalls : ∀ k uid, (g'.goto (.own j) (.finished .returned)).phase (.call k uid) =
        (s.gates n).phase (.call k uid) := by
      intro k uid
      rw [goto_phase_of_ne (by simp), hphase]
    exact hs.uncalled hstep hcalls (hs.own_goto hphase rfl) fun uid =>
      hs.untouched (congrFun husers uid) (by rw [hns]; rfl) fun k => hcalls k uid
  | call k uid =>
    obtain ⟨server, secret, last, hstage, rfl⟩ := hs.kicking_of_busy hbusy (hlog uid)
    have htarget : (s.stage uid).Target last.server k := by rw [hstage]; exact ⟨rfl, rfl⟩
    have hag := hs.agreed uid
    rw [hstage] at hag
    refine hs.goes hstep htarget hphase husers hns fun w he hr hu hn hc => ?_
    rw [hstage]
    refine hag.rekick he hr hu hn fun asked hin hasks => ?_
    cases hasks with
    | asking call =>
      -- its notice would still be on its way
      have hmem : (⟨.call k uid, uid, last.subid⟩ : Notice) ∈ s.notices last.server :=
        List.mem_of_mem_filter (hin _ (List.mem_singleton_self _))
      exact absurd (List.mem_map_of_mem (f := Notice.task) hmem) (hhandled call)
    | _ => exact .returned hc

/-- A gate does something by itself. -/
theorem Sound.gate (hs : Sound conf strict s) (hby : byItself e = true)
    (hown : OwnId conf s (.gate n e)) (h : s.act conf n e = some t) : Sound conf strict t := by
  obtain ⟨⟨g, out⟩, hstep, rfl⟩ := Option.map_eq_some_iff.mp h
  obtain ⟨s₀, labels, ⟨day, rfl⟩, hpath⟩ := hs.gates n
  obtain ⟨hnamed, htaken⟩ := taken_of_path hpath
  -- an agent's call that ends where it began
  have hends : ∀ {j : ℕ} {r : Result},
      Gated.step (conf n) (s.gates n) e = some ((s.gates n).goto (.own j) (.finished r), out) →
      notes out = [] →
      Sound conf strict (s.put n ((s.gates n).goto (.own j) (.finished r)) (notes out)) := by
    intro j r hst hns
    exact hs.uncalled hst (fun k uid => goto_phase_of_ne (by simp)) (hs.own_goto rfl rfl)
      fun uid => hs.untouched rfl (by rw [hns]; rfl) fun k => goto_phase_of_ne (by simp)
  -- a login that goes on without a session
  have hrelog : ∀ {k : ℕ} {uid : Int64} {secret : Str} {p : Phase} {g' : Gated.State Task},
      s.stage uid = .logging k n secret → (∀ r, (s.gates n).phase (.call k uid) ≠ .finished r) →
      Logging uid p → Gated.step (conf n) (s.gates n) e = some (g'.goto (.call k uid) p, out) →
      g'.phase = (s.gates n).phase → g'.users = (s.gates n).users → notes out = [] →
      Sound conf strict (s.put n (g'.goto (.call k uid) p) (notes out)) := by
    intro k uid secret p g' hstage hbefore hp hst hph hu hns
    have hag := hs.agreed uid
    rw [hstage] at hag
    refine hs.goes hst (by rw [hstage]; exact ⟨rfl, rfl⟩) hph hu hns fun w he hr hu hn hc => ?_
    rw [hstage]
    exact hag.relog he hr hu hn hbefore (by rw [hc]; exact hp)
  cases does_of_step hstep with
  | alreadyLogin _ _ => cases hby
  | reuses _ _ _ _ => cases hby
  | creates _ _ _ _ => cases hby
  | tooMany _ _ _ _ => cases hby
  | @created c uid secret name u creating session =>
    obtain ⟨k, sec, rfl, hstage⟩ := hs.logging_of_session (n := n) (c := c) (x := (uid, name))
      (by rw [creating]; rfl)
    exact hrelog hstage (by simp [creating]) (.entering (by rw [session]) _ _) hstep rfl rfl rfl
  | @createFails c uid secret name creating =>
    obtain ⟨k, sec, rfl, hstage⟩ := hs.logging_of_session (n := n) (c := c) (x := (uid, name))
      (by rw [creating]; rfl)
    exact hrelog hstage (by simp [creating]) .raised hstep rfl rfl rfl
  | @entered c u secret sent entering unregistered =>
    obtain ⟨k, sec, rfl, hstage⟩ := hs.logging_of_session (n := n) (c := c)
      (x := (u.uid, u.username)) (by rw [entering]; rfl)
    have hag := hs.agreed u.uid
    rw [hstage] at hag
    -- the id it took is the last one, so it is the one of the session and the answer
    have hname := hown u secret sent entering
    obtain ⟨id, -, hid, h1, h2, h3⟩ : Owns (conf n) (trace labels) (s.gates n).internalId
        (.call k u.uid) (.entering u secret sent) := by
      have := htaken.owns (.call k u.uid)
      rw [entering] at this
      exact this
    have hlast := (Gate.username_inj (hid.symm.trans hname)).2
    refine hs.call hstep (by rw [hstage]; exact ⟨rfl, rfl⟩) (fun c hc => goto_phase_of_ne hc)
      (fun uid' huid => Function.update_of_ne huid _ _) (fun _ _ => rfl) ?_
    rw [hstage]
    refine hag.entered (elsewhere_put _ _ _ _ _) rfl entering ?_ ?_ ?_ hname (by omega)
    · rw [put_users]
      exact Function.update_self _ _ _
    · rw [put_notices]
      exact List.append_nil _
    · rw [put_call, goto_phase_self]
  | registered entering registered =>
    rw [hnamed.fresh entering] at registered
    cases registered
  | @loginFails c u secret sent entering =>
    obtain ⟨k, sec, rfl, hstage⟩ := hs.logging_of_session (n := n) (c := c)
      (x := (u.uid, u.username)) (by rw [entering]; rfl)
    exact hrelog hstage (by simp [entering]) .raised hstep rfl rfl rfl
  | @notOnline c _ _ _ _ =>
    cases c with
    | call k uid => cases hby
    | own j => exact hends hstep rfl
  | @wrongLogout c _ _ _ _ _ _ =>
    cases c with
    | call k uid => cases hby
    | own j => exact hends hstep rfl
  | @leaves c uid subid u absent online right =>
    cases c with
    | call k uid => cases hby
    | own j =>
      refine hs.uncalled hstep (fun k uid => goto_phase_of_ne (by simp)) (hs.own_goto rfl rfl)
        (fun uid' => ?_)
      by_cases huid : uid' = uid
      · subst huid
        refine (hs.agreed uid').leaves (j := j) (elsewhere_put _ _ _ _ _) rfl online right ?_ ?_ ?_
        · rw [put_users]
          exact Function.update_self _ _ _
        · rw [put_notices]
          exact congrArg _ (mine_self _ _ _)
        · funext k
          rw [put_call, goto_phase_of_ne (by simp)]
          rfl
      · exact hs.untouched (Function.update_of_ne huid _ _) (mine_of_ne huid)
          fun k => goto_phase_of_ne (by simp)
  | pooled _ => cases hby
  | reported _ => cases hby
  | kicks _ _ _ => cases hby
  | wrongKick _ _ _ => cases hby
  | kicksNobody _ _ => cases hby
  | kicked kicking =>
    refine hs.kickReturns hstep rfl rfl rfl (by rw [kicking]; rfl) (fun uid hl => ?_)
      (fun h => by rw [kicking] at h; cases h)
    rw [kicking] at hl
    cases hl
  | socket _ =>
    exact hs.uncalled hstep (fun _ _ => rfl) (fun j => hs.own n j) fun uid =>
      hs.untouched rfl rfl fun _ => rfl

/-- The answer of a notice reaches its gate. -/
theorem Sound.reported (hs : Sound conf strict s) {c : Task}
    (hc : c ∉ (s.notices n).map Notice.task) (h : s.act conf n (.reported c) = some t) :
    Sound conf strict t := by
  obtain ⟨⟨g, out⟩, hstep, rfl⟩ := Option.map_eq_some_iff.mp h
  cases does_of_step hstep with
  | pooled leaving =>
    refine hs.kickReturns hstep rfl rfl rfl (by rw [leaving]; rfl) (fun uid hl => ?_) (fun _ => hc)
    rw [leaving] at hl
    cases hl
  | reported reporting =>
    refine hs.kickReturns hstep rfl rfl rfl (by rw [reporting]; rfl) (fun uid hl => ?_)
      (fun _ => hc)
    rw [reporting] at hl
    cases hl

end Cluster

end Athena
