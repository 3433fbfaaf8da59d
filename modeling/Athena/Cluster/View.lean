import Athena.Cluster.Model
import Mathlib.Data.List.Basic
/-!
# One uid in the cluster

What a uid has in the cluster is a `View`: its entry at the master, its
sessions at the gates, the notices of it on their way, and where the
master's calls for it stand. Events of other uids leave it as it is, and
`Agreed` is the invariant it has at each stage of its login, one
constructor for each situation a uid can be in. The lemmas below are the
moves between the situations, one for each event.

`strict` tells runs in which no notice of a session overtakes the answer
of its own login: only in the other ones a session can be gone with its
notice handled and an entry (`Stands.gone`).
-/

namespace Athena

namespace Cluster

open Lua Gated

variable {N : Type}

/-- **What a uid has in the cluster.** -/
structure View (N : Type) where
  record : Option (Record N)
  users : N → Option User
  notices : N → List Notice
  call : N → ℕ → Phase

/-- The notices of a uid. -/
def mine (uid : Int64) (l : List Notice) : List Notice := l.filter fun m => m.uid = uid

def view (s : State N) (uid : Int64) : View N where
  record := s.userOnline uid
  users n := (s.gates n).users uid
  notices n := mine uid (s.notices n)
  call n k := (s.gates n).phase (.call k uid)

/-- Gate `n` has no session and has sent no notice. -/
structure Clear (v : View N) (n : N) : Prop where
  users : v.users n = none
  notices : v.notices n = []

/-- **The session `(m, subid)`**: online, on its way out, or gone. A kick
that found nobody may have asked for a notice of its own, `asked`. -/
inductive Stands (conf : N → Conf) (strict : Prop) (uid : Int64) (v : View N) (m : N) (subid : ℕ)
    (asked : List Notice) : Prop
  | online {u : User} (user : v.users m = some u)
      (name : u.username = Gate.username uid subid (conf m).node) (subid : u.subid = subid)
      (quiet : v.notices m = []) (unasked : asked = [])
  | leaving {j : ℕ} (offline : v.users m = none)
      (notices : v.notices m = ⟨.own j, uid, subid⟩ :: asked)
  | gone (loose : ¬ strict) (offline : v.users m = none) (notices : v.notices m = asked)

/-- The kick of `(m, subid)` as call `k`, and the notice it asked for. -/
inductive Asks (uid : Int64) (v : View N) (m : N) (subid k : ℕ) : List Notice → Prop
  | sent (absent : v.call m k = .absent) : Asks uid v m subid k []
  | kicking {agent : ℕ} (call : v.call m k = .kicking agent) : Asks uid v m subid k []
  | asking (call : v.call m k = .reporting) : Asks uid v m subid k [⟨.call k uid, uid, subid⟩]
  | asked (call : v.call m k = .reporting) : Asks uid v m subid k []
  | returned (call : v.call m k = .finished .returned) : Asks uid v m subid k []

/-- A login at a gate that has entered no session. -/
inductive Logging (uid : Int64) : Phase → Prop
  | absent : Logging uid .absent
  | creating (secret name : Str) : Logging uid (.creating uid secret name)
  | entering {u : User} (owner : u.uid = uid) (secret : Str) (sent : ℕ) :
      Logging uid (.entering u secret sent)
  | raised : Logging uid (.finished .raised)

/-- **The situations of a uid**, at each stage of its login. -/
inductive Agreed (conf : N → Conf) (strict : Prop) (uid : Int64) (v : View N) : Stage N → Prop
  | offline (record : v.record = none) (clear : ∀ n, Clear v n) : Agreed conf strict uid v .idle
  | recorded {m : N} {subid : ℕ} (record : v.record = some ⟨subid, m⟩)
      (clear : ∀ n, n ≠ m → Clear v n) (stands : Stands conf strict uid v m subid []) :
      Agreed conf strict uid v .idle
  | kicking {k : ℕ} {server : N} {secret : Str} {m : N} {subid : ℕ} {asked : List Notice}
      (record : v.record = some ⟨subid, m⟩) (clear : ∀ n, n ≠ m → Clear v n)
      (stands : Stands conf strict uid v m subid asked) (asks : Asks uid v m subid k asked) :
      Agreed conf strict uid v (.kicking k server secret ⟨subid, m⟩)
  | kicked {k : ℕ} {server : N} {secret : Str} {m : N} {subid : ℕ} {asked : List Notice}
      (record : v.record = none) (clear : ∀ n, n ≠ m → Clear v n) (offline : v.users m = none)
      (notices : v.notices m = asked) (asks : Asks uid v m subid k asked) :
      Agreed conf strict uid v (.kicking k server secret ⟨subid, m⟩)
  | logging {k : ℕ} {server : N} {secret : Str} (record : v.record = none)
      (clear : ∀ n, Clear v n) (call : Logging uid (v.call server k)) :
      Agreed conf strict uid v (.logging k server secret)
  | logged {k : ℕ} {server : N} {secret : Str} {u : User} {sent ret : ℕ}
      (record : v.record = none) (clear : ∀ n, n ≠ server → Clear v n)
      (call : v.call server k = .finished (.loggedIn u sent ret))
      (stands : Stands conf strict uid v server ret []) :
      Agreed conf strict uid v (.logging k server secret)

variable {conf : N → Conf} {strict : Prop} {uid : Int64} {v w : View N} {m : N} {subid k k' : ℕ}
  {server : N} {secret : Str} {asked : List Notice}

/-! ## What the master does -/

/-- A kick that has ended asks for nothing any more, and has not failed. -/
theorem Asks.settled {r : Result} (h : Asks uid v m subid k asked)
    (hf : v.call m k = .finished r) : asked = [] ∧ r = .returned := by
  cases h with
  | sent absent => rw [absent] at hf; cases hf
  | kicking call => rw [call] at hf; cases hf
  | asking call => rw [call] at hf; cases hf
  | asked call => rw [call] at hf; cases hf
  | returned call => rw [call] at hf; cases hf; exact ⟨rfl, rfl⟩

theorem Stands.congr (h : Stands conf strict uid v m subid asked) (husers : w.users m = v.users m)
    (hnotices : w.notices m = v.notices m) : Stands conf strict uid w m subid asked := by
  cases h with
  | online user name hsub quiet unasked =>
    exact .online (husers.trans user) name hsub (hnotices.trans quiet) unasked
  | leaving offline notices => exact .leaving (husers.trans offline) (hnotices.trans notices)
  | gone loose offline notices =>
    exact .gone loose (husers.trans offline) (hnotices.trans notices)

/-- The stage `login_handler` goes on to, by the entry it finds. -/
def nextStage (record : Option (Record N)) (k : ℕ) (server : N) (secret : Str) : Stage N :=
  match record with
  | some last => .kicking k server secret last
  | none => .logging k server secret

/-- A login begins: it kicks the session in the entry, or calls the gate. -/
theorem Agreed.login (h : Agreed conf strict uid v .idle) (hfresh : ∀ n, v.call n k = .absent) :
    Agreed conf strict uid v (nextStage v.record k server secret) := by
  cases h with
  | offline record clear =>
    rw [record]
    refine .logging record clear ?_
    rw [hfresh server]
    exact .absent
  | recorded record clear stands =>
    rw [record]
    exact .kicking record clear stands (.sent (hfresh _))

/-- The kick has ended: never with an error, and either the entry is
still there or nothing of the session is. -/
theorem Agreed.afterKick {last : Record N} {r : Result}
    (h : Agreed conf strict uid v (.kicking k server secret last))
    (hf : v.call last.server k = .finished r) (hfresh : ∀ n, v.call n k' = .absent) :
    r = .returned ∧
      ((∃ x, v.record = some x) → Agreed conf strict uid v .idle) ∧
      (v.record = none → Agreed conf strict uid v (.logging k' server secret)) := by
  cases h with
  | kicking record clear stands asks =>
    obtain ⟨rfl, rfl⟩ := asks.settled hf
    refine ⟨rfl, fun _ => .recorded record clear stands, fun hnone => ?_⟩
    rw [record] at hnone
    cases hnone
  | @kicked _ _ _ m _ _ record clear offline notices asks =>
    obtain ⟨rfl, rfl⟩ := asks.settled hf
    refine ⟨rfl, fun hsome => ?_, fun _ => .logging record (fun n => ?_) ?_⟩
    · obtain ⟨x, hx⟩ := hsome
      rw [record] at hx
      cases hx
    · by_cases hn : n = m
      · subst hn
        exact ⟨offline, notices⟩
      · exact clear n hn
    · rw [hfresh server]
      exact .absent

/-- A login that succeeded is entered. -/
theorem Agreed.loggedIn {u : User} {sent ret : ℕ}
    (h : Agreed conf strict uid v (.logging k server secret))
    (hf : v.call server k = .finished (.loggedIn u sent ret)) :
    Agreed conf strict uid { v with record := some ⟨ret, server⟩ } .idle := by
  cases h with
  | logging _ _ call =>
    rw [hf] at call
    cases call
  | logged record clear call stands =>
    rw [hf] at call
    cases call
    exact .recorded rfl (fun n hn => ⟨(clear n hn).users, (clear n hn).notices⟩)
      (stands.congr rfl rfl)

/-- A login that failed leaves nothing. -/
theorem Agreed.loginFailed (h : Agreed conf strict uid v (.logging k server secret))
    (hf : v.call server k = .finished .raised) : Agreed conf strict uid v .idle := by
  cases h with
  | logging record clear _ => exact .offline record clear
  | logged _ _ call _ =>
    rw [hf] at call
    cases call

/-! ## What a notice does -/

/-- `w` differs from `v` at gate `n` only. -/
structure Elsewhere (v w : View N) (n : N) : Prop where
  users : ∀ n', n' ≠ n → w.users n' = v.users n'
  notices : ∀ n', n' ≠ n → w.notices n' = v.notices n'
  call : ∀ n', n' ≠ n → w.call n' = v.call n'

theorem Clear.congr {n : N} (h : Clear v n) (husers : w.users n = v.users n)
    (hnotices : w.notices n = v.notices n) : Clear w n :=
  ⟨husers.trans h.users, hnotices.trans h.notices⟩

theorem Elsewhere.clear {n : N} (he : Elsewhere v w n) (hclear : ∀ n', n' ≠ n → Clear v n') :
    ∀ n', n' ≠ n → Clear w n' :=
  fun n' hn => (hclear n' hn).congr (he.users n' hn) (he.notices n' hn)

theorem Asks.congr (h : Asks uid v m subid k asked) (hcall : w.call m k = v.call m k) :
    Asks uid w m subid k asked := by
  cases h with
  | sent absent => exact .sent (hcall.trans absent)
  | kicking call => exact .kicking (hcall.trans call)
  | asking call => exact .asking (hcall.trans call)
  | asked call => exact .asked (hcall.trans call)
  | returned call => exact .returned (hcall.trans call)

/-- The notice a kick asked for is its only one, and once it is handled
there is none. -/
theorem Asks.cons {x : Notice} {rest : List Notice} (h : Asks uid v m subid k (x :: rest)) :
    x.subid = subid ∧ rest = [] ∧ Asks uid v m subid k [] := by
  cases h with
  | asking call => exact ⟨rfl, rfl, .asked call⟩

/-- A gate that has a notice is the one that is not clear. -/
theorem eq_of_notices {n : N} {x : Notice} {rest : List Notice} (hx : v.notices n = x :: rest)
    (clear : ∀ n', n' ≠ m → Clear v n') : n = m := by
  by_contra hnm
  rw [(clear n hnm).notices] at hx
  cases hx

/-- So is one that has a session. -/
theorem eq_of_users {n : N} {u : User} (hu : v.users n = some u)
    (clear : ∀ n', n' ≠ m → Clear v n') : n = m := by
  by_contra hnm
  rw [(clear n hnm).users] at hu
  cases hu

/-- **A notice reaches the master.** The entry it clears is that of its
own session. -/
theorem Agreed.notice {stage : Stage N} {n : N} {x : Notice} {rest : List Notice}
    (h : Agreed conf strict uid v stage) (hx : v.notices n = x :: rest)
    (htimely : strict → ∀ k server secret, stage ≠ .logging k server secret)
    (he : Elsewhere v w n) (hrecord : w.record = none) (husers : w.users n = v.users n)
    (hnotices : w.notices n = rest) (hcall : w.call n = v.call n) :
    (∀ r, v.record = some r → r = ⟨x.subid, n⟩) ∧ Agreed conf strict uid w stage := by
  have hne : ∀ {n'}, Clear v n' → n' ≠ n := by
    rintro n' hc rfl
    rw [hc.notices] at hx
    cases hx
  -- a gate with a notice under way is the one the stage is about
  cases h with
  | offline record clear => exact absurd rfl (hne (clear n))
  | @recorded m subid record clear stands =>
    obtain rfl := eq_of_notices hx clear
    cases stands with
    | online user name hsub quiet unasked => rw [quiet] at hx; cases hx
    | leaving offline notices =>
      rw [hx] at notices
      cases notices
      refine ⟨fun r hr => ?_, .offline hrecord fun n' => ?_⟩
      · rw [record] at hr
        exact (Option.some.inj hr).symm
      · by_cases hn' : n' = n
        · subst hn'
          exact ⟨husers.trans offline, hnotices⟩
        · exact he.clear clear n' hn'
    | gone loose offline notices => rw [hx] at notices; cases notices
  | @kicking k server secret m subid asked record clear stands asks =>
    obtain rfl := eq_of_notices hx clear
    have hr : ∀ r, v.record = some r → x.subid = subid → r = ⟨x.subid, n⟩ := by
      intro r hr hsub
      rw [record] at hr
      rw [hsub]
      exact (Option.some.inj hr).symm
    have hcall' : w.call n k = v.call n k := by rw [hcall]
    cases stands with
    | online user name hsub quiet unasked => rw [quiet] at hx; cases hx
    | leaving offline notices =>
      rw [hx] at notices
      obtain ⟨rfl, rfl⟩ := List.cons.inj notices
      exact ⟨fun r h => hr r h rfl, .kicked hrecord (he.clear clear) (husers.trans offline) hnotices
        (asks.congr hcall')⟩
    | gone loose offline notices =>
      rw [hx] at notices
      subst notices
      obtain ⟨hsub, rfl, hasks⟩ := asks.cons
      exact ⟨fun r h => hr r h hsub, .kicked hrecord (he.clear clear) (husers.trans offline) hnotices
        (hasks.congr hcall')⟩
  | @kicked k server secret m subid asked record clear offline notices asks =>
    obtain rfl := eq_of_notices hx clear
    rw [hx] at notices
    subst notices
    obtain ⟨-, rfl, hasks⟩ := asks.cons
    refine ⟨fun r hr => ?_, .kicked hrecord (he.clear clear) (husers.trans offline) hnotices
      (hasks.congr (by rw [hcall]))⟩
    rw [record] at hr
    cases hr
  | logging record clear call => exact absurd rfl (hne (clear n))
  | @logged k server secret u sent ret record clear call stands =>
    obtain rfl := eq_of_notices hx clear
    refine ⟨fun r hr => ?_, .logged hrecord (he.clear clear) (by rw [hcall, call]) ?_⟩
    · rw [record] at hr
      cases hr
    · cases stands with
      | online user name hsub quiet unasked => rw [quiet] at hx; cases hx
      | leaving offline notices =>
        rw [hx] at notices
        obtain ⟨-, rfl⟩ := List.cons.inj notices
        -- the notice comes while its login is still to be answered: no timely run has this
        exact .gone (fun hs => htimely hs k n secret rfl) (husers.trans offline) hnotices
      | gone loose offline notices => rw [hx] at notices; cases notices

/-! ## What a gate does -/

/-- The kick goes on at its gate. -/
theorem Agreed.rekick (h : Agreed conf strict uid v (.kicking k server secret ⟨subid, m⟩))
    (he : Elsewhere v w m) (hrecord : w.record = v.record) (husers : w.users m = v.users m)
    (hnotices : w.notices m = v.notices m)
    (hasks : ∀ asked, (∀ x ∈ asked, x ∈ v.notices m) → Asks uid v m subid k asked →
      Asks uid w m subid k asked) :
    Agreed conf strict uid w (.kicking k server secret ⟨subid, m⟩) := by
  cases h with
  | kicking record clear stands asks =>
    refine .kicking (hrecord.trans record) (he.clear clear) (stands.congr husers hnotices)
      (hasks _ ?_ asks)
    intro x hx
    cases stands with
    | online user name hsub quiet unasked => rw [unasked] at hx; cases hx
    | leaving offline notices => rw [notices]; exact List.mem_cons_of_mem _ hx
    | gone loose offline notices => rw [notices]; exact hx
  | kicked record clear offline notices asks =>
    refine .kicked (hrecord.trans record) (he.clear clear) (husers.trans offline)
      (hnotices.trans notices) (hasks _ ?_ asks)
    intro x hx
    rw [notices]
    exact hx

/-- A kick that finds nobody asks for a notice. -/
theorem Agreed.kicksNobody (h : Agreed conf strict uid v (.kicking k server secret ⟨subid, m⟩))
    (he : Elsewhere v w m) (hrecord : w.record = v.record) (habs : v.call m k = .absent)
    (hoff : v.users m = none) (husers : w.users m = none)
    (hnotices : w.notices m = v.notices m ++ [⟨.call k uid, uid, subid⟩])
    (hcall : w.call m k = .reporting) :
    Agreed conf strict uid w (.kicking k server secret ⟨subid, m⟩) := by
  have hnone : ∀ {asked}, Asks uid v m subid k asked → asked = [] := by
    intro asked hasks
    cases hasks with
    | asking call => rw [habs] at call; cases call
    | _ => rfl
  cases h with
  | kicking record clear stands asks =>
    obtain rfl := hnone asks
    refine .kicking (hrecord.trans record) (he.clear clear) ?_ (.asking hcall)
    cases stands with
    | online user name hsub quiet unasked => rw [hoff] at user; cases user
    | leaving offline notices => exact .leaving husers (by rw [hnotices, notices]; rfl)
    | gone loose offline notices => exact .gone loose husers (by rw [hnotices, notices]; rfl)
  | kicked record clear offline notices asks =>
    obtain rfl := hnone asks
    exact .kicked (hrecord.trans record) (he.clear clear) husers (by rw [hnotices, notices]; rfl)
      (.asking hcall)

/-- **The kick of an online session passes the assertion.** -/
theorem Agreed.kick_right {u : User} (h : Agreed conf strict uid v (.kicking k server secret ⟨subid, m⟩))
    (hu : v.users m = some u) : u.username = Gate.username uid subid (conf m).node := by
  cases h with
  | kicking record clear stands asks =>
    cases stands with
    | online user name hsub quiet unasked =>
      rw [hu] at user
      cases user
      exact name
    | leaving offline notices => rw [hu] at offline; cases offline
    | gone loose offline notices => rw [hu] at offline; cases offline
  | kicked record clear offline notices asks => rw [hu] at offline; cases offline

/-- The login goes on at its gate, or fails there. -/
theorem Agreed.relog (h : Agreed conf strict uid v (.logging k server secret))
    (he : Elsewhere v w server) (hrecord : w.record = v.record)
    (husers : w.users server = v.users server) (hnotices : w.notices server = v.notices server)
    (hbefore : ∀ r, v.call server k ≠ .finished r) (hafter : Logging uid (w.call server k)) :
    Agreed conf strict uid w (.logging k server secret) := by
  cases h with
  | logging record clear call =>
    refine .logging (hrecord.trans record) (fun n => ?_) hafter
    by_cases hn : n = server
    · subst hn
      exact (clear n).congr husers hnotices
    · exact he.clear (fun n _ => clear n) n hn
  | logged record clear call stands => exact absurd call (hbefore _)

/-- The login enters the session. -/
theorem Agreed.entered {u : User} {secret' : Str} {sent ret : ℕ}
    (h : Agreed conf strict uid v (.logging k server secret))
    (he : Elsewhere v w server) (hrecord : w.record = v.record)
    (hbefore : v.call server k = .entering u secret' sent)
    (husers : w.users server = some u) (hnotices : w.notices server = v.notices server)
    (hafter : w.call server k = .finished (.loggedIn u sent ret))
    (hname : u.username = Gate.username uid ret (conf server).node) (hsub : u.subid = ret) :
    Agreed conf strict uid w (.logging k server secret) := by
  cases h with
  | logging record clear call =>
    exact .logged (hrecord.trans record) (he.clear fun n _ => clear n) hafter
      (.online husers hname hsub (hnotices.trans (clear server).notices) rfl)
  | logged record clear call stands =>
    rw [hbefore] at call
    cases call

/-- **A session ends.** Its notice carries its own subid. -/
theorem Agreed.leaves {stage : Stage N} {n : N} {u : User} {j sub : ℕ}
    (h : Agreed conf strict uid v stage) (he : Elsewhere v w n) (hrecord : w.record = v.record)
    (hu : v.users n = some u) (hright : u.username = Gate.username uid sub (conf n).node)
    (husers : w.users n = none) (hnotices : w.notices n = v.notices n ++ [⟨.own j, uid, sub⟩])
    (hcall : w.call n = v.call n) : Agreed conf strict uid w stage := by
  have hne : ∀ {n'}, v.users n' = none → n' ≠ n := by
    rintro n' hc rfl
    rw [hc] at hu
    cases hu
  -- the session that stands is the one that ends
  have hstands : ∀ {subid asked}, Stands conf strict uid v n subid asked →
      Stands conf strict uid w n subid asked ∧ asked = [] := by
    intro subid asked hs
    cases hs with
    | online user name hsub quiet unasked =>
      rw [hu] at user
      cases user
      obtain rfl := (Gate.username_inj (hright.symm.trans name)).2
      subst unasked
      exact ⟨.leaving husers (by rw [hnotices, quiet]; rfl), rfl⟩
    | leaving offline notices => exact absurd rfl (hne offline)
    | gone loose offline notices => exact absurd rfl (hne offline)
  cases h with
  | offline record clear => exact absurd rfl (hne (clear n).users)
  | @recorded m subid record clear stands =>
    obtain rfl := eq_of_users hu clear
    exact .recorded (hrecord.trans record) (he.clear clear) (hstands stands).1
  | @kicking k server secret m subid asked record clear stands asks =>
    obtain rfl := eq_of_users hu clear
    exact .kicking (hrecord.trans record) (he.clear clear) (hstands stands).1
      (asks.congr (by rw [hcall]))
  | @kicked k server secret m subid asked record clear offline notices asks =>
    obtain rfl := eq_of_users hu clear
    exact absurd rfl (hne offline)
  | logging record clear call => exact absurd rfl (hne (clear n).users)
  | @logged k server secret v' sent ret record clear call stands =>
    obtain rfl := eq_of_users hu clear
    exact .logged (hrecord.trans record) (he.clear clear) (by rw [hcall, call]) (hstands stands).1

end Cluster

end Athena
