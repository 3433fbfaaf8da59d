import Athena.Gate.Step
/-!
# The gate — what one event does to a socket

`handler.message` decides between handshake and request by `handshake`
and `authed`, and `request` by `connection`; whether a packet gets there
at all is up to the gate server's `client`. `Socket fd` names what an
event can do to these tables at one `fd`, and every event does one of
its eight things there (`socket_of_step`). At most fds it does the first.
-/

namespace Athena

namespace Gate

open Lua

variable {crypt : Crypt} {maxclient : ℕ} {g g' : State} {fd : Fd} {e : Event} {out : List Out}

/-- The entries of a trace that bear on the requests of `fd`. -/
def Out.Admits (fd : Fd) : Out → Prop
  | .connected fd' => fd' = fd
  | .accepted a => a.fd = fd
  | .authed fd' => fd' = fd
  | .forward fd' _ _ => fd' = fd
  | _ => False

/-- A piece of a trace without such entries. -/
def Mute (fd : Fd) (out : List Out) : Prop := ∀ o ∈ out, ¬ o.Admits fd

/-- The answer of `auth` to a packet it takes as a handshake: it enters
`auth_handler`, or says what is wrong. -/
def Handshaken (fd : Fd) (out : List Out) : Prop :=
  (∃ a, a.fd = fd ∧ .accepted a ∈ out) ∨ ∃ text, .reply fd text ∈ out

/-- The packet goes to `auth`. -/
def Unmet (g : State) (fd : Fd) : Prop := (g.handshake fd).isSome ∧ g.authed fd = false

/-- Nothing is opened, and no connection is entered. -/
structure Shrinks (g g' : State) (fd : Fd) : Prop where
  client : g'.client fd = some true → g.client fd = some true
  connection : g'.connection fd = g.connection fd ∨ g'.connection fd = none
  authed : g'.authed fd = g.authed fd

/-- **What an event can do at one fd.** -/
inductive Socket (g g' : State) (fd : Fd) : Event → List Out → Prop
  | quiet {e : Event} {out : List Out} (shrinks : Shrinks g g' fd)
      (pending : g'.pending fd = g.pending fd) (mute : Mute fd out)
      (dropped : ∀ msg day, e = .message fd msg day → g.client fd ≠ some true) :
      Socket g g' fd e out
  | opened {addr : Str} (connection : g'.connection fd = g.connection fd)
      (pending : g'.pending fd = g.pending fd) (authed : g'.authed fd = g.authed fd) :
      Socket g g' fd (.connect fd addr) [.connected fd]
  | accepted {a : Accept} {day : ℕ} (client : g.client fd = some true) (unmet : Unmet g fd)
      (afd : a.fd = fd) (pending : g'.pending fd = .auth a.username)
      (authed : g'.authed fd = true) :
      Socket g g' fd (.message fd a.message day) [.accepted a]
  | refused {msg : Str} {day : ℕ} {out : List Out} {text : String}
      (client : g.client fd = some true) (unmet : Unmet g fd)
      (closed : g'.client fd ≠ some true) (connection : g'.connection fd = g.connection fd)
      (pending : g'.pending fd = g.pending fd) (authed : g'.authed fd = true)
      (reply : .reply fd text ∈ out) (mute : Mute fd out) :
      Socket g g' fd (.message fd msg day) out
  | requested {msg : Str} {day : ℕ} {out : List Out} (client : g.client fd = some true)
      (met : ¬ Unmet g fd) (shrinks : Shrinks g g' fd)
      (pending : g'.pending fd = g.pending fd)
      (forwards : ∀ o ∈ out, o.Admits fd → ∃ name m, o = .forward fd name m)
      (silent : ¬ Handshaken fd out)
      (forward : (∃ name m, .forward fd name m ∈ out) ↔
        (g.connection fd).isSome ∧ 4 ≤ msg.length) :
      Socket g g' fd (.message fd msg day) out
  | authed {username : Str} (before : g.pending fd = .auth username) (shrinks : Shrinks g g' fd)
      (pending : g'.pending fd = .online) :
      Socket g g' fd (.authReturn fd true) [.authed fd, .reply fd "200 OK"]
  | failed {username : Str} {out : List Out} (before : g.pending fd = .auth username)
      (shrinks : Shrinks g g' fd) (closed : g'.client fd ≠ some true)
      (pending : g'.pending fd = .none) (mute : Mute fd out) :
      Socket g g' fd (.authReturn fd false) out
  | online {ok : Bool} {out : List Out} (before : g.pending fd = .online)
      (shrinks : Shrinks g g' fd) (pending : g'.pending fd = .none) (mute : Mute fd out) :
      Socket g g' fd (.onlineReturn fd ok) out

/-! ## The pieces -/

theorem Shrinks.refl (g : State) (fd : Fd) : Shrinks g g fd := ⟨id, Or.inl rfl, rfl⟩

theorem mute_nil (fd : Fd) : Mute fd [] := by simp [Mute]

theorem closeclient_closed (g : State) (fd : Fd) :
    (closeclient g fd).1.client fd ≠ some true := by
  unfold closeclient
  split
  · simp
  · assumption

theorem closeclient_shrinks (g : State) (fd fd' : Fd) :
    Shrinks g (closeclient g fd).1 fd' ∧
    (closeclient g fd).1.pending = g.pending ∧ (closeclient g fd).1.connection = g.connection ∧
    (closeclient g fd).1.handshake = g.handshake ∧
    Mute fd' (closeclient g fd).2 ∧ ∀ o ∈ (closeclient g fd).2, o = .closed fd := by
  unfold closeclient
  split
  · refine ⟨⟨fun h => ?_, Or.inl rfl, rfl⟩, rfl, rfl, rfl, by simp [Mute, Out.Admits], by simp⟩
    by_cases hfd : fd' = fd
    · simp [hfd] at h
    · simpa [hfd] using h
  · exact ⟨Shrinks.refl g fd', rfl, rfl, rfl, mute_nil fd', by simp⟩

theorem closeFd_shrinks (g : State) (fd fd' : Fd) :
    Shrinks g (closeFd g fd) fd' ∧ (closeFd g fd).pending = g.pending := by
  unfold closeFd
  split
  · refine ⟨⟨fun h => ?_, Or.inl rfl, rfl⟩, rfl⟩
    by_cases hfd : fd' = fd
    · simp [hfd] at h
    · simpa [hfd] using h
  · exact ⟨Shrinks.refl g fd', rfl⟩

/-- `refuse` closes its fd and leaves the others. -/
theorem refuse_shrinks (g : State) (fd fd' : Fd) (text : String) :
    Shrinks g (refuse g fd text).1 fd' ∧ (refuse g fd text).1.pending = g.pending ∧
    (refuse g fd text).1.connection = g.connection ∧
    (refuse g fd text).1.client fd ≠ some true ∧ Mute fd' (refuse g fd text).2 ∧
    .reply fd text ∈ (refuse g fd text).2 := by
  obtain ⟨⟨h1, h2, h3⟩, hp, hc, -, hm, -⟩ := closeclient_shrinks g fd fd'
  refine ⟨⟨h1, h2, h3⟩, hp, hc, closeclient_closed g fd, ?_, List.mem_cons_self⟩
  intro o ho
  rcases List.mem_cons.mp ho with rfl | ho
  · simp [Out.Admits]
  · exact hm o ho

theorem request_shrinks (g : State) (fd fd' : Fd) (msg : Str) :
    Shrinks g (request g fd msg).1 fd' ∧ (request g fd msg).1.pending = g.pending ∧
    (∀ o ∈ (request g fd msg).2, o.Admits fd' → fd' = fd ∧ ∃ name m, o = .forward fd name m) ∧
    ¬ Handshaken fd (request g fd msg).2 ∧
    ((∃ name m, .forward fd name m ∈ (request g fd msg).2) ↔
      (g.connection fd).isSome ∧ 4 ≤ msg.length) := by
  unfold request
  split
  · rename_i hnone
    exact ⟨Shrinks.refl g fd', rfl, by simp [Out.Admits], by simp [Handshaken], by simp [hnone]⟩
  · rename_i u hu
    split
    · rename_i hlen
      obtain ⟨hs, hp, -, -, hm, ho⟩ := closeclient_shrinks g fd fd'
      refine ⟨hs, hp, fun o h had => ?_, ?_, ?_⟩
      · rcases List.mem_cons.mp h with rfl | h
        · cases had
        · exact absurd had (hm o h)
      · rintro (⟨a, -, h⟩ | ⟨text, h⟩)
        · rcases List.mem_cons.mp h with h | h
          · cases h
          · cases ho _ h
        · rcases List.mem_cons.mp h with h | h
          · cases h
          · cases ho _ h
      · constructor
        · rintro ⟨name, m, h⟩
          rcases List.mem_cons.mp h with h | h
          · cases h
          · cases ho _ h
        · rintro ⟨-, h⟩
          omega
    · rename_i hlen
      refine ⟨Shrinks.refl g fd', rfl, fun o h had => ?_, by simp [Handshaken], ?_⟩
      · obtain rfl := List.mem_singleton.mp h
        exact ⟨had.symm, _, _, rfl⟩
      · simp only [hu, Option.isSome_some, true_and]
        exact ⟨fun _ => by omega, fun _ => ⟨_, _, List.mem_singleton_self _⟩⟩

theorem setipsum_socket {addr : Str} {day : ℕ} (h : setipsum g addr day = some g') :
    g'.client = g.client ∧ g'.pending = g.pending ∧ g'.authed = g.authed := by
  obtain ⟨address, -, rfl⟩ := Option.map_eq_some_iff.mp h
  split <;> exact ⟨rfl, rfl, rfl⟩

/-- `do_auth` enters its own fd into `connection` and leaves the sockets. -/
theorem doAuth_socket (crypt : Crypt) (g : State) (fd : Fd) (msg addr : Str) (day : ℕ) :
    (doAuth crypt g fd msg addr day).1.client = g.client ∧
    (doAuth crypt g fd msg addr day).1.pending = g.pending ∧
    (doAuth crypt g fd msg addr day).1.authed = g.authed ∧
    (∀ fd', fd' ≠ fd → (doAuth crypt g fd msg addr day).1.connection fd' = g.connection fd') ∧
    (((doAuth crypt g fd msg addr day).2 = .raised ∨
        ∃ text, (doAuth crypt g fd msg addr day).2 = .refused text) ∧
        (doAuth crypt g fd msg addr day).1.connection = g.connection ∨
      ∃ a, (doAuth crypt g fd msg addr day).2 = .waiting a ∧ a.fd = fd ∧ a.message = msg) := by
  unfold doAuth
  split
  · exact ⟨rfl, rfl, rfl, fun _ _ => rfl, Or.inl ⟨Or.inr ⟨_, rfl⟩, rfl⟩⟩
  · split
    · exact ⟨rfl, rfl, rfl, fun _ _ => rfl, Or.inl ⟨Or.inr ⟨_, rfl⟩, rfl⟩⟩
    · split
      · exact ⟨rfl, rfl, rfl, fun _ _ => rfl, Or.inl ⟨Or.inl rfl, rfl⟩⟩
      · exact ⟨rfl, rfl, rfl, fun _ _ => rfl, Or.inl ⟨Or.inl rfl, rfl⟩⟩
      · split_ifs
        · exact ⟨rfl, rfl, rfl, fun _ _ => rfl, Or.inl ⟨Or.inr ⟨_, rfl⟩, rfl⟩⟩
        · exact ⟨rfl, rfl, rfl, fun _ _ => rfl, Or.inl ⟨Or.inr ⟨_, rfl⟩, rfl⟩⟩
        · dsimp only
          split
          · exact ⟨rfl, rfl, rfl, fun _ _ => rfl, Or.inl ⟨Or.inl rfl, rfl⟩⟩
          · rename_i g₁ hset
            obtain ⟨h1, h2, h3⟩ := setipsum_socket hset
            obtain ⟨-, -, -, h4⟩ := setipsum_tables hset
            refine ⟨h1, h2, h3, fun fd' hne => ?_, Or.inr ⟨_, rfl, rfl, rfl⟩⟩
            exact (Function.update_of_ne hne _ _).trans (congrFun h4 fd')

/-! ## One event -/

/-- The handshake of `fd`, at `fd` and at the others. -/
theorem auth_socket {msg addr : Str} {day : ℕ} {fd' : Fd} (hclient : g.client fd = some true)
    (hunmet : Unmet g fd)
    (h : auth crypt { g with authed := Function.update g.authed fd true } fd msg addr day =
      (g', out)) : Socket g g' fd' (.message fd msg day) out := by
  obtain ⟨hc, hp, ha, hconn, hres⟩ := doAuth_socket crypt
    { g with authed := Function.update g.authed fd true } fd msg addr day
  unfold auth at h
  generalize doAuth crypt { g with authed := Function.update g.authed fd true } fd msg addr day = r
    at h hc hp ha hconn hres
  obtain ⟨g₁, res⟩ := r
  simp only at hc hp ha hconn hres
  by_cases hfd : fd' = fd
  · subst hfd
    rcases hres with ⟨href, hsame⟩ | ⟨a, rfl, rfl, rfl⟩
    · obtain ⟨text, htext⟩ : ∃ text, refuse g₁ fd' text = (g', out) := by
        rcases href with rfl | ⟨text, rfl⟩
        · exact ⟨_, h⟩
        · exact ⟨_, h⟩
      obtain ⟨hs, hrp, hrc, hclosed, hm, hmem⟩ := refuse_shrinks g₁ fd' fd' text
      rw [htext] at hs hrp hrc hclosed hm hmem
      refine .refused hclient hunmet hclosed ?_ ?_ ?_ hmem hm
      · rw [hrc, hsame]
      · rw [hrp, hp]
      · rw [hs.authed, ha, Function.update_self]
    · cases h
      exact .accepted hclient hunmet rfl (by simp) (by simp [ha])
  · have hd : ∀ m d, Event.message fd msg day = .message fd' m d → g.client fd' ≠ some true := by
      intro m d heq
      cases heq
      exact absurd rfl hfd
    have hau : g₁.authed fd' = g.authed fd' := by rw [ha, Function.update_of_ne hfd]
    have hco : g₁.connection fd' = g.connection fd' := hconn fd' hfd
    rcases hres with ⟨href, -⟩ | ⟨a, rfl, rfl, rfl⟩
    · obtain ⟨text, htext⟩ : ∃ text, refuse g₁ fd text = (g', out) := by
        rcases href with rfl | ⟨text, rfl⟩
        · exact ⟨_, h⟩
        · exact ⟨_, h⟩
      obtain ⟨hs, hrp, hrc, -, hm, -⟩ := refuse_shrinks g₁ fd fd' text
      rw [htext] at hs hrp hrc hm
      refine .quiet ⟨fun hcl => ?_, Or.inl ?_, hs.authed.trans hau⟩ (by rw [hrp, hp]) hm hd
      · simpa [hc] using hs.client hcl
      · rw [hrc, hco]
    · cases h
      refine .quiet ⟨fun hcl => by simpa [hc] using hcl, Or.inl hco, hau⟩ ?_ ?_ hd
      · simp [hp, hfd]
      · simp only [Mute, List.mem_singleton, forall_eq, Out.Admits]
        exact fun heq => hfd heq.symm

/-- **Every event does one of these things at every fd.** -/
theorem socket_of_step (fd : Fd) (h : step crypt maxclient g e = (g', out)) :
    Socket g g' fd e out := by
  cases e with
  | connect fd' addr =>
    simp only [step, connect] at h
    split at h <;> cases h
    · -- the gate is full, and `gateserver` drops the connection before the handler sees it
      exact .quiet (Shrinks.refl g fd) rfl (mute_nil fd) (by simp)
    · by_cases hfd : fd = fd'
      · subst hfd
        exact .opened rfl rfl rfl
      · refine .quiet ⟨fun hc => by simpa [hfd] using hc, Or.inl rfl, rfl⟩ rfl ?_ (by simp)
        simp only [Mute, List.mem_singleton, forall_eq, Out.Admits]
        exact fun heq => hfd heq.symm
  | message fd' msg day =>
    simp only [step, message] at h
    split at h
    · rename_i hclient
      split at h
      · -- the first message of the handshake
        rename_i addr haddr hauthed
        exact auth_socket hclient ⟨by simp [haddr], hauthed⟩ h
      · -- any later one is a request
        rename_i hmet
        obtain ⟨hs, hp, hm, hh, hf⟩ := request_shrinks g fd' fd msg
        rw [h] at hs hp hm hh hf
        by_cases hfd : fd = fd'
        · subst hfd
          refine .requested hclient ?_ hs (congrFun hp fd) (fun o ho had => (hm o ho had).2) hh hf
          rintro ⟨hsome, hau⟩
          obtain ⟨addr, haddr⟩ := Option.isSome_iff_exists.mp hsome
          exact hmet addr haddr hau
        · refine .quiet hs (congrFun hp fd) (fun o ho had => hfd (hm o ho had).1) ?_
          intro m d heq
          cases heq
          exact absurd rfl hfd
    · rename_i hclient
      cases h
      refine .quiet (Shrinks.refl g fd) rfl (mute_nil fd) ?_
      intro m d heq
      cases heq
      exact hclient
  | authReturn fd' ok =>
    simp only [step, authReturn] at h
    split at h
    · rename_i username hpend
      split at h
      · rename_i hok
        subst hok
        cases h
        by_cases hfd : fd = fd'
        · subst hfd
          exact .authed hpend ⟨id, Or.inl rfl, rfl⟩ (by simp)
        · refine .quiet ⟨id, Or.inl rfl, rfl⟩ (by simp [hfd]) ?_ (by simp)
          intro o ho
          rcases List.mem_cons.mp ho with rfl | ho
          · exact fun heq => hfd heq.symm
          · obtain rfl : o = _ := by simpa using ho
            simp [Out.Admits]
      · -- `auth_handler` failed: the answer goes out and the client is closed
        rename_i hok
        obtain rfl : ok = false := by simpa using hok
        obtain ⟨hs, hp, -, hclosed, hm, -⟩ := refuse_shrinks
          { g with pending := Function.update g.pending fd' .none } fd' fd "400 Bad Request"
        rw [h] at hs hp hclosed hm
        by_cases hfd : fd = fd'
        · subst hfd
          exact .failed hpend ⟨hs.1, hs.2, hs.3⟩ hclosed
            ((congrFun hp fd).trans (Function.update_self _ _ _)) hm
        · refine .quiet ⟨hs.1, hs.2, hs.3⟩ ?_ hm (by simp)
          exact (congrFun hp fd).trans (Function.update_of_ne hfd _ _)
    · cases h
      exact .quiet (Shrinks.refl g fd) rfl (mute_nil fd) (by simp)
  | onlineReturn fd' ok =>
    simp only [step, onlineReturn] at h
    split at h
    · rename_i hpend
      by_cases hfd : fd = fd'
      · subst hfd
        split at h <;> cases h
        · exact .online hpend ⟨id, Or.inl rfl, rfl⟩ (Function.update_self _ _ _) (mute_nil fd)
        · exact .online hpend ⟨id, Or.inl rfl, rfl⟩ (Function.update_self _ _ _)
            (by simp [Mute, Out.Admits])
      · split at h <;> cases h
        · exact .quiet ⟨id, Or.inl rfl, rfl⟩ (by simp [hfd]) (mute_nil fd) (by simp)
        · exact .quiet ⟨id, Or.inl rfl, rfl⟩ (by simp [hfd]) (by simp [Mute, Out.Admits]) (by simp)
    · cases h
      exact .quiet (Shrinks.refl g fd) rfl (mute_nil fd) (by simp)
  | disconnect fd' =>
    simp only [step, disconnect] at h
    split at h
    · obtain ⟨hs, hp⟩ :=
        closeFd_shrinks { g with handshake := Function.update g.handshake fd' none } fd' fd
      cases h
      exact .quiet ⟨hs.1, hs.2, hs.3⟩ (congrFun hp fd) (mute_nil fd) (by simp)
    · cases h
      refine .quiet ⟨id, ?_, rfl⟩ rfl (by simp [Mute, Out.Admits]) (by simp)
      by_cases hfd : fd = fd'
      · exact Or.inr (by simp [hfd])
      · exact Or.inl (by simp [hfd])
  | disconnectReturn fd' ok =>
    simp only [step, disconnectReturn] at h
    split at h
    · split at h
      · obtain ⟨hs, hp⟩ :=
          closeFd_shrinks { g with closing := Function.update g.closing fd' false } fd' fd
        cases h
        exact .quiet ⟨hs.1, hs.2, hs.3⟩ (congrFun hp fd) (mute_nil fd) (by simp)
      · cases h
        exact .quiet ⟨id, Or.inl rfl, rfl⟩ rfl (by simp [Mute, Out.Admits]) (by simp)
    · cases h
      exact .quiet (Shrinks.refl g fd) rfl (mute_nil fd) (by simp)
  | login username secret =>
    simp only [step, login] at h
    split at h <;> cases h
    · exact .quiet (Shrinks.refl g fd) rfl (by simp [Mute, Out.Admits]) (by simp)
    · exact .quiet ⟨id, Or.inl rfl, rfl⟩ rfl (by simp [Mute, Out.Admits]) (by simp)
  | logout username =>
    simp only [step, logout] at h
    split at h
    · cases h
      exact .quiet (Shrinks.refl g fd) rfl (by simp [Mute, Out.Admits]) (by simp)
    · rename_i u hu
      split at h
      · cases h
        exact .quiet ⟨id, Or.inl rfl, rfl⟩ rfl (by simp [Mute, Out.Admits]) (by simp)
      · rename_i fd' hfd'
        obtain ⟨hs, hp, hc, -, hm, -⟩ := closeclient_shrinks
          { g with userOnline := Function.update g.userOnline username none } fd' fd
        cases h
        -- `connection` is cleared at the fd logged out and nowhere else
        refine .quiet ⟨hs.1, ?_, hs.3⟩ (congrFun hp fd) ?_ (by simp)
        · by_cases hfd : fd = fd'
          · exact Or.inr (by simp [hfd])
          · exact Or.inl (by simp [hfd, hc])
        · intro o ho
          rcases List.mem_cons.mp ho with rfl | ho
          · simp [Out.Admits]
          · exact hm o ho

end Gate

end Athena
