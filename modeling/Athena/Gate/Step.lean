import Athena.Gate.Model
/-!
# The gate — what one event does to the session tables

`user_online`, the user objects and `connection` are written by five
places of the source. `Effect` names them, with the guards the source
tests and what each leaves in the tables; every event has one of these
effects (`effect_of_step`), and the invariants of the gate are read off
the six cases. What an event does to the sockets — `client`,
`handshake`, `closing` — is not part of it.
-/

namespace Athena

namespace Gate

open Lua

variable {crypt : Crypt} {maxclient : ℕ} {g g' : State}

/-- The entries of a trace that bear on freshness: logins and accepted
handshakes. -/
def Out.Marks : Out → Prop
  | .loggedIn _ _ => True
  | .accepted _ => True
  | _ => False

/-- A piece of a trace without such entries. -/
def Silent (out : List Out) : Prop := ∀ o ∈ out, ¬ o.Marks

/-- The session tables are left as they are. -/
structure SameTables (g g' : State) : Prop where
  userOnline : g'.userOnline = g.userOnline
  obj : g'.obj = g.obj
  fresh : g'.fresh = g.fresh
  connection : g'.connection = g.connection

/-- The guards a handshake passes: its text names an online user `u`, its
index is above the version of `u`, and its MAC is the hash of
`username:index` under the secret of `u`. -/
structure Checked (crypt : Crypt) (g : State) (u : ℕ) (a : Accept) : Prop where
  online : g.userOnline a.username = some u
  fields : ∃ mac, matchFields a.message = some (a.username, a.index, mac) ∧
    crypt.b64decode mac = some a.hmac
  idx : tonumber a.index = some a.idx
  newer : ¬ a.idx.le (g.obj u).version = true
  hmac : crypt.hmacHash (g.obj u).secret (a.username ++ ':' :: a.index) = a.hmac

/-- The next packet of `fd` is its handshake. -/
structure Owes (g : State) (fd : Fd) (addr : Str) : Prop where
  client : g.client fd = some true
  handshake : g.handshake fd = some addr
  authed : g.authed fd = false

/-- User `u` as an accepted handshake leaves it. -/
def bump (g : State) (u : ℕ) (a : Accept) (addr : Str) : ℕ → User :=
  Function.update g.obj u { g.obj u with version := a.idx, fd := some a.fd, ip := some addr }

/-- **The effects of an event on the session tables.** -/
inductive Effect (crypt : Crypt) (g g' : State) : Event → List Out → Prop
  | quiet {e : Event} {out : List Out} (same : SameTables g g') (silent : Silent out) :
      Effect crypt g g' e out
  | login {username secret : Str} (offline : g.userOnline username = none)
      (userOnline : g'.userOnline = Function.update g.userOnline username (some g.fresh))
      (obj : g'.obj = Function.update g.obj g.fresh ⟨secret, .int 0, username, none, none⟩)
      (fresh : g'.fresh = g.fresh + 1) (connection : g'.connection = g.connection) :
      Effect crypt g g' (.login username secret) [.loggedIn username secret]
  | logout {username : Str} {u : ℕ} {out : List Out} (online : g.userOnline username = some u)
      (userOnline : g'.userOnline = Function.update g.userOnline username none)
      (obj : g'.obj = g.obj) (fresh : g'.fresh = g.fresh)
      (connection : g'.connection =
        match (g.obj u).fd with
        | none => g.connection
        | some fd => Function.update g.connection fd none)
      (silent : Silent out) : Effect crypt g g' (.logout username) out
  | accepted {u : ℕ} {a : Accept} {addr : Str} {day : ℕ} (owes : Owes g a.fd addr)
      (checked : Checked crypt g u a)
      (userOnline : g'.userOnline = g.userOnline) (obj : g'.obj = bump g u a addr)
      (fresh : g'.fresh = g.fresh)
      (connection : g'.connection = Function.update g.connection a.fd (some u)) :
      Effect crypt g g' (.message a.fd a.message day) [.accepted a]
  | failed {u : ℕ} {a : Accept} {addr : Str} {day : ℕ} {out : List Out}
      (owes : Owes g a.fd addr) (checked : Checked crypt g u a)
      (userOnline : g'.userOnline = g.userOnline) (obj : g'.obj = bump g u a addr)
      (fresh : g'.fresh = g.fresh) (connection : g'.connection = g.connection)
      (silent : Silent out) : Effect crypt g g' (.message a.fd a.message day) out
  | disconnect {fd : Fd} {c : ℕ} {out : List Out} (live : g.connection fd = some c)
      (userOnline : g'.userOnline = g.userOnline)
      (obj : g'.obj = Function.update g.obj c { g.obj c with fd := none })
      (fresh : g'.fresh = g.fresh)
      (connection : g'.connection = Function.update g.connection fd none) (silent : Silent out) :
      Effect crypt g g' (.disconnect fd) out

theorem SameTables.refl (g : State) : SameTables g g := ⟨rfl, rfl, rfl, rfl⟩

theorem silent_nil : Silent [] := by simp [Silent]

/-- `closeclient` leaves the tables alone. -/
theorem closeclient_tables (g : State) (fd : Fd) :
    SameTables g (closeclient g fd).1 ∧ Silent (closeclient g fd).2 := by
  unfold closeclient
  split
  · exact ⟨⟨rfl, rfl, rfl, rfl⟩, by simp [Silent, Out.Marks]⟩
  · exact ⟨SameTables.refl g, silent_nil⟩

theorem closeFd_tables (g : State) (fd : Fd) : SameTables g (closeFd g fd) := by
  unfold closeFd
  split
  · exact ⟨rfl, rfl, rfl, rfl⟩
  · exact SameTables.refl g

theorem refuse_tables (g : State) (fd : Fd) (text : String) :
    SameTables g (refuse g fd text).1 ∧ Silent (refuse g fd text).2 := by
  obtain ⟨⟨h1, h2, h3, h4⟩, hs⟩ := closeclient_tables g fd
  refine ⟨⟨h1, h2, h3, h4⟩, ?_⟩
  intro o ho
  rcases List.mem_cons.mp ho with rfl | ho
  · simp [Out.Marks]
  · exact hs o ho

theorem setipsum_tables {addr : Str} {day : ℕ} (h : setipsum g addr day = some g') :
    SameTables g g' := by
  obtain ⟨address, -, rfl⟩ := Option.map_eq_some_iff.mp h
  split <;> exact ⟨rfl, rfl, rfl, rfl⟩

theorem request_tables (g : State) (fd : Fd) (msg : Str) :
    SameTables g (request g fd msg).1 ∧ Silent (request g fd msg).2 := by
  unfold request
  split
  · exact ⟨SameTables.refl g, by simp [Silent, Out.Marks]⟩
  · split
    · obtain ⟨hs, hq⟩ := closeclient_tables g fd
      refine ⟨hs, fun o ho => ?_⟩
      rcases List.mem_cons.mp ho with rfl | ho
      · simp [Out.Marks]
      · exact hq o ho
    · exact ⟨SameTables.refl g, by simp [Silent, Out.Marks]⟩

/-- **What `do_auth` does**: nothing with an answer or an error, or the
handshake passes its checks and the user is bumped — with the connection
entered when `auth_handler` is reached, without it when `setipsum`
raises first. -/
theorem doAuth_cases (crypt : Crypt) (g : State) (fd : Fd) (msg addr : Str) (day : ℕ) :
    (SameTables g (doAuth crypt g fd msg addr day).1 ∧
      ∀ a, (doAuth crypt g fd msg addr day).2 ≠ .waiting a) ∨
    ∃ u a, a.fd = fd ∧ a.message = msg ∧ Checked crypt g u a ∧
      (doAuth crypt g fd msg addr day).1.userOnline = g.userOnline ∧
      (doAuth crypt g fd msg addr day).1.obj = bump g u a addr ∧
      (doAuth crypt g fd msg addr day).1.fresh = g.fresh ∧
      ((doAuth crypt g fd msg addr day).2 = .waiting a ∧
          (doAuth crypt g fd msg addr day).1.connection =
            Function.update g.connection fd (some u) ∨
        (doAuth crypt g fd msg addr day).2 = .raised ∧
          (doAuth crypt g fd msg addr day).1.connection = g.connection) := by
  unfold doAuth
  split
  · exact Or.inl ⟨SameTables.refl g, by simp⟩
  · rename_i username index mac hmatch
    split
    · exact Or.inl ⟨SameTables.refl g, by simp⟩
    · rename_i u hu
      split
      · exact Or.inl ⟨SameTables.refl g, by simp⟩
      · exact Or.inl ⟨SameTables.refl g, by simp⟩
      · rename_i idx hmac hidx hdec
        split_ifs with hle hmac'
        · exact Or.inl ⟨SameTables.refl g, by simp⟩
        · exact Or.inl ⟨SameTables.refl g, by simp⟩
        · have hck : Checked crypt g u ⟨fd, msg, username, index, idx, hmac⟩ :=
            ⟨hu, ⟨mac, hmatch, hdec⟩, hidx, hle, not_ne_iff.mp hmac'⟩
          refine Or.inr ⟨u, ⟨fd, msg, username, index, idx, hmac⟩, rfl, rfl, hck, ?_⟩
          dsimp only
          split
          · exact ⟨rfl, rfl, rfl, Or.inr ⟨rfl, rfl⟩⟩
          · rename_i g₁ hset
            obtain ⟨h1, h2, h3, h4⟩ := setipsum_tables hset
            exact ⟨h1, h2, h3, Or.inl ⟨rfl, by rw [h4]⟩⟩

/-- **A handshake that passes the checks** bumps its user and enters no
fd but its own, whatever `setipsum` does. -/
theorem doAuth_of_checked {u : ℕ} {a : Accept} (hck : Checked crypt g u a) (addr : Str) (day : ℕ) :
    (doAuth crypt g a.fd a.message addr day).1.obj = bump g u a addr ∧
    ∀ fd', fd' ≠ a.fd →
      (doAuth crypt g a.fd a.message addr day).1.connection fd' = g.connection fd' := by
  obtain ⟨mac, hm, hdec⟩ := hck.fields
  simp only [doAuth, hm, hck.online, hck.idx, hdec, hck.newer, hck.hmac, ne_eq, not_true_eq_false,
    if_false, Bool.false_eq_true]
  split
  · exact ⟨rfl, fun _ _ => rfl⟩
  · rename_i g₁ hset
    obtain ⟨-, hobj, -, hconn⟩ := setipsum_tables hset
    refine ⟨hobj, fun fd' hne => ?_⟩
    exact (Function.update_of_ne hne _ _).trans (congrFun hconn fd')

/-- `auth` adds nothing to what `do_auth` did. -/
theorem auth_tables (crypt : Crypt) (g : State) (fd : Fd) (msg addr : Str) (day : ℕ) :
    SameTables (doAuth crypt g fd msg addr day).1 (auth crypt g fd msg addr day).1 := by
  unfold auth
  generalize doAuth crypt g fd msg addr day = r
  obtain ⟨g₁, res⟩ := r
  cases res with
  | raised => exact (refuse_tables g₁ fd _).1
  | refused text => exact (refuse_tables g₁ fd text).1
  | waiting a => exact ⟨rfl, rfl, rfl, rfl⟩

/-- **What the logout of an online user does.** -/
theorem logout_tables {username : Str} {u : ℕ} (hu : g.userOnline username = some u) :
    (logout g username).1.userOnline = Function.update g.userOnline username none ∧
    (logout g username).1.obj = g.obj ∧
    (logout g username).1.fresh = g.fresh ∧
    (logout g username).1.connection =
      (match (g.obj u).fd with
      | none => g.connection
      | some fd => Function.update g.connection fd none) ∧
    Silent (logout g username).2 := by
  simp only [logout, hu]
  cases hfd : (g.obj u).fd with
  | none => exact ⟨rfl, rfl, rfl, rfl, by simp [Silent, Out.Marks]⟩
  | some fd =>
    obtain ⟨⟨h1, h2, h3, h4⟩, hq⟩ := closeclient_tables
      { g with userOnline := Function.update g.userOnline username none } fd
    refine ⟨h1, h2, h3, congrArg (fun c => Function.update c fd none) h4, fun o ho => ?_⟩
    rcases List.mem_cons.mp ho with rfl | ho
    · simp [Out.Marks]
    · exact hq o ho

/-- **Every event has one of the effects.** -/
theorem effect_of_step {e : Event} {out : List Out} (h : step crypt maxclient g e = (g', out)) :
    Effect crypt g g' e out := by
  cases e with
  | connect fd addr =>
    simp only [step, connect] at h
    split at h <;> cases h
    · exact .quiet (SameTables.refl _) silent_nil
    · exact .quiet ⟨rfl, rfl, rfl, rfl⟩ (by simp [Silent, Out.Marks])
  | message fd msg day =>
    simp only [step, message] at h
    split at h
    · rename_i hclient
      split at h
      · rename_i addr haddr hauthed
        have hc := doAuth_cases crypt { g with authed := Function.update g.authed fd true } fd
          msg addr day
        unfold auth at h
        generalize hd : doAuth crypt { g with authed := Function.update g.authed fd true } fd
          msg addr day = r at h hc
        obtain ⟨g₁, res⟩ := r
        rcases hc with ⟨hsame, hnw⟩ | ⟨u, a, rfl, rfl, hck, h1, h2, h3, hres⟩
        · -- a check failed, before anything was written
          cases res with
          | waiting a => exact absurd rfl (hnw a)
          | raised =>
            obtain ⟨hr, hq⟩ := refuse_tables g₁ fd "400 Bad Request"
            cases h
            exact .quiet ⟨hr.1.trans hsame.1, hr.2.trans hsame.2, hr.3.trans hsame.3,
              hr.4.trans hsame.4⟩ hq
          | refused text =>
            obtain ⟨hr, hq⟩ := refuse_tables g₁ fd text
            cases h
            exact .quiet ⟨hr.1.trans hsame.1, hr.2.trans hsame.2, hr.3.trans hsame.3,
              hr.4.trans hsame.4⟩ hq
        · have hck' : Checked crypt g u a := ⟨hck.1, hck.2, hck.3, hck.4, hck.5⟩
          -- the checks passed; only an address without a colon can still raise
          rcases hres with ⟨hw, hconn⟩ | ⟨hr, hconn⟩
          · simp only at hw
            subst hw
            cases h
            exact .accepted ⟨hclient, haddr, hauthed⟩ hck' h1 h2 h3 hconn
          · simp only at hr
            subst hr
            obtain ⟨hr, hq⟩ := refuse_tables g₁ a.fd "400 Bad Request"
            cases h
            exact .failed ⟨hclient, haddr, hauthed⟩ hck' (hr.1.trans h1) (hr.2.trans h2) (hr.3.trans h3)
              (hr.4.trans hconn) hq
      · obtain ⟨hr, hq⟩ := request_tables g fd msg
        rw [h] at hr hq
        exact .quiet hr hq
    · cases h
      exact .quiet (SameTables.refl _) silent_nil
  | authReturn fd ok =>
    simp only [step, authReturn] at h
    split at h
    · split at h
      · cases h
        exact .quiet ⟨rfl, rfl, rfl, rfl⟩ (by simp [Silent, Out.Marks])
      · obtain ⟨hr, hq⟩ := refuse_tables
          { g with pending := Function.update g.pending fd .none } fd "400 Bad Request"
        cases h
        exact .quiet ⟨hr.1, hr.2, hr.3, hr.4⟩ hq
    · cases h
      exact .quiet (SameTables.refl _) silent_nil
  | onlineReturn fd ok =>
    simp only [step, onlineReturn] at h
    split at h
    · split at h <;> cases h
      · exact .quiet ⟨rfl, rfl, rfl, rfl⟩ silent_nil
      · exact .quiet ⟨rfl, rfl, rfl, rfl⟩ (by simp [Silent, Out.Marks])
    · cases h
      exact .quiet (SameTables.refl _) silent_nil
  | disconnect fd =>
    simp only [step, disconnect] at h
    split at h
    · -- no user behind the fd: there is no handler to call
      obtain ⟨h1, h2, h3, h4⟩ :=
        closeFd_tables { g with handshake := Function.update g.handshake fd none } fd
      cases h
      exact .quiet ⟨h1, h2, h3, h4⟩ silent_nil
    · rename_i c hc
      cases h
      exact .disconnect hc rfl rfl rfl rfl (by simp [Silent, Out.Marks])
  | disconnectReturn fd ok =>
    simp only [step, disconnectReturn] at h
    split at h
    · split at h
      · obtain ⟨h1, h2, h3, h4⟩ :=
          closeFd_tables { g with closing := Function.update g.closing fd false } fd
        cases h
        exact .quiet ⟨h1, h2, h3, h4⟩ silent_nil
      · cases h
        exact .quiet ⟨rfl, rfl, rfl, rfl⟩ (by simp [Silent, Out.Marks])
    · cases h
      exact .quiet (SameTables.refl _) silent_nil
  | login username secret =>
    simp only [step, login] at h
    split at h
    · cases h
      exact .quiet (SameTables.refl _) (by simp [Silent, Out.Marks])
    · rename_i hoff
      cases h
      exact .login hoff rfl rfl rfl rfl
  | logout username =>
    simp only [step, logout] at h
    split at h
    · cases h
      exact .quiet (SameTables.refl _) (by simp [Silent, Out.Marks])
    · rename_i u hu
      obtain ⟨h1, h2, h3, h4, hq⟩ := logout_tables hu
      have hl : logout g username = (g', out) := by
        rw [← h]
        simp only [logout, hu]
      rw [hl] at h1 h2 h3 h4 hq
      exact .logout hu h1 h2 h3 h4 hq

/-! ## The objects behind the tables -/

/-- **Every object a table holds has been made**, and `user_online` holds
a user under its own name. -/
structure Owned (g : State) : Prop where
  online : ∀ name u, g.userOnline name = some u → u < g.fresh ∧ (g.obj u).username = name
  connected : ∀ fd u, g.connection fd = some u → u < g.fresh

theorem owned_initial (day : ℕ) : Owned (initial day) :=
  ⟨fun _ _ h => by simp [initial] at h, fun _ _ h => by simp [initial] at h⟩

@[simp]
theorem bump_username (g : State) (u : ℕ) (a : Accept) (addr : Str) (v : ℕ) :
    (bump g u a addr v).username = (g.obj v).username := by
  by_cases hv : v = u
  · subst hv
    simp [bump]
  · simp [bump, hv]

@[simp]
theorem bump_secret (g : State) (u : ℕ) (a : Accept) (addr : Str) (v : ℕ) :
    (bump g u a addr v).secret = (g.obj v).secret := by
  by_cases hv : v = u
  · subst hv
    simp [bump]
  · simp [bump, hv]

/-- Clearing the fd of a user keeps the rest of it. -/
theorem clearFd_apply (g : State) (c v : ℕ) :
    ∃ fd, Function.update g.obj c { g.obj c with fd := none } v = { g.obj v with fd := fd } := by
  by_cases hv : v = c
  · subst hv
    exact ⟨none, by simp⟩
  · exact ⟨(g.obj v).fd, by simp [hv]⟩

theorem Owned.step {e : Event} {out : List Out} (ho : Owned g) (h : Effect crypt g g' e out) :
    Owned g' := by
  cases h with
  | quiet same _ =>
    refine ⟨?_, ?_⟩
    · rw [same.userOnline, same.obj, same.fresh]
      exact ho.online
    · rw [same.connection, same.fresh]
      exact ho.connected
  | @login username secret offline hon hobj hfresh hconn =>
    refine ⟨fun name u hu => ?_, fun fd u hu => ?_⟩
    · rw [hon] at hu
      rw [hobj, hfresh]
      by_cases hname : name = username
      · subst hname
        obtain rfl : g.fresh = u := by simpa using hu
        simp
      · rw [Function.update_of_ne hname] at hu
        obtain ⟨hlt, hn⟩ := ho.online name u hu
        rw [Function.update_of_ne hlt.ne]
        exact ⟨by omega, hn⟩
    · rw [hconn] at hu
      rw [hfresh]
      exact Nat.lt_succ_of_lt (ho.connected fd u hu)
  | @logout username v _ online hon hobj hfresh hconn _ =>
    refine ⟨fun name u hu => ?_, fun fd u hu => ?_⟩
    · rw [hon] at hu
      rw [hobj, hfresh]
      by_cases hname : name = username
      · simp [hname] at hu
      · exact ho.online name u (by rwa [Function.update_of_ne hname] at hu)
    · rw [hconn] at hu
      rw [hfresh]
      split at hu
      · exact ho.connected fd u hu
      · rename_i fd' _
        by_cases hfd : fd = fd'
        · simp [hfd] at hu
        · exact ho.connected fd u (by rwa [Function.update_of_ne hfd] at hu)
  | @accepted v a addr _ _ checked hon hobj hfresh hconn =>
    refine ⟨fun name u hu => ?_, fun fd u hu => ?_⟩
    · rw [hobj, hfresh, bump_username]
      exact ho.online name u (hon ▸ hu)
    · rw [hconn] at hu
      rw [hfresh]
      by_cases hfd : fd = a.fd
      · obtain rfl : v = u := by simpa [hfd] using hu
        exact (ho.online _ _ checked.online).1
      · exact ho.connected fd u (by rwa [Function.update_of_ne hfd] at hu)
  | @failed v a addr _ _ _ checked hon hobj hfresh hconn _ =>
    refine ⟨fun name u hu => ?_, fun fd u hu => ?_⟩
    · rw [hobj, hfresh, bump_username]
      exact ho.online name u (hon ▸ hu)
    · rw [hfresh]
      exact ho.connected fd u (hconn ▸ hu)
  | @disconnect fd' c _ live hon hobj hfresh hconn _ =>
    refine ⟨fun name u hu => ?_, fun fd u hu => ?_⟩
    · obtain ⟨f, hf⟩ := clearFd_apply g c u
      rw [hobj, hfresh, hf]
      exact ho.online name u (hon ▸ hu)
    · rw [hconn] at hu
      rw [hfresh]
      by_cases hfd : fd = fd'
      · simp [hfd] at hu
      · exact ho.connected fd u (by rwa [Function.update_of_ne hfd] at hu)

end Gate

end Athena
