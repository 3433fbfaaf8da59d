import Athena.Gate.Socket
import Athena.Gate.Handshake
/-!
# The gate — who may send requests

A new connection owes a handshake, and its packets are requests once the
handshake was accepted and `auth_handler` is through. Two things in the
source stand against this. `do_auth` enters `connection[fd]` before it
calls `auth_handler`, so a packet that comes while the handler runs is
forwarded; and `authed[fd]` is never cleared, so the first packet of a
later connection with the same number is taken for a request.

`Guarded` keeps exactly these packets out, and `admission_iff` shows that
a run is in order if and only if it has none of them.
-/

namespace Athena

namespace Gate

open Lua

variable {crypt : Crypt} {maxclient : ℕ} {g g' : State} {fd : Fd} {e : Event} {out : List Out}
  {pre labels : List (Event × List Out)} {tr : List Out}

/-- A new connection with the number `fd`. -/
def Out.isConnected (fd : Fd) : Out → Bool
  | .connected fd' => fd' = fd
  | _ => false

/-- A packet has come on `fd` since the last connection of this number. -/
def greeted (fd : Fd) (pre : List (Event × List Out)) : Bool :=
  pre.foldl (fun b l =>
    if l.2.any (Out.isConnected fd) then false
    else match l.1 with
      | .message fd' _ _ => b || fd' = fd
      | _ => b) false

/-- A handshake was accepted on this connection. -/
def AcceptedOn (fd : Fd) (tr : List Out) : Prop :=
  ∃ a, a.fd = fd ∧ Since (fun o => o.isConnected fd = true) tr (.accepted a)

/-- A handshake was accepted on this connection, and after it
`auth_handler` has returned. -/
def Ready (fd : Fd) (tr : List Out) : Prop :=
  ∃ p q, tr = p ++ .authed fd :: q ∧ AcceptedOn fd p ∧ ∀ o ∈ q, ¬ o.isConnected fd = true

/-- The state after a history. -/
def stateAt (crypt : Crypt) (maxclient day : ℕ) (pre : List (Event × List Out)) : State :=
  exec crypt maxclient (initial day) (pre.map Prod.fst)

/-- **What a step owes**: a request is forwarded for a ready connection
only, and the first packet of a connection is taken for a handshake. -/
structure Served (g : State) (pre : List (Event × List Out)) (l : Event × List Out) : Prop where
  forwarded : ∀ fd name msg, .forward fd name msg ∈ l.2 → Ready fd (trace pre)
  first : ∀ fd msg day, l.1 = .message fd msg day → g.client fd = some true →
    greeted fd pre = false → Handshaken fd l.2

/-- **What it takes**: no packet of four bytes or more comes on an entered
connection whose `auth_handler` is running, and a first packet finds
`handshake[fd]` set and `authed[fd]` not. -/
structure Guarded (g : State) (pre : List (Event × List Out)) (l : Event × List Out) : Prop where
  waits : ∀ fd msg day name, l.1 = .message fd msg day → g.client fd = some true →
    g.pending fd = .auth name → (g.connection fd).isSome → msg.length < 4
  unmet : ∀ fd msg day, l.1 = .message fd msg day → g.client fd = some true →
    greeted fd pre = false → Unmet g fd

/-! ## Reading the history -/

theorem trace_concat (pre : List (Event × List Out)) (l : Event × List Out) :
    trace (pre ++ [l]) = trace pre ++ l.2 := by
  simp [trace]

theorem admits_of_isConnected {o : Out} (h : o.isConnected fd = true) : o.Admits fd := by
  cases o with
  | connected fd' => simpa [Out.isConnected, Out.Admits] using h
  | _ => simp [Out.isConnected] at h

theorem Mute.not_connected (h : Mute fd out) : ∀ o ∈ out, ¬ o.isConnected fd = true :=
  fun o ho hc => h o ho (admits_of_isConnected hc)

theorem AcceptedOn.append (h : AcceptedOn fd tr)
    (hout : ∀ o ∈ out, ¬ o.isConnected fd = true) : AcceptedOn fd (tr ++ out) := by
  obtain ⟨a, ha, hs⟩ := h
  exact ⟨a, ha, since_append.mpr (Or.inr ⟨hout, hs⟩)⟩

theorem Ready.append (h : Ready fd tr) (hout : ∀ o ∈ out, ¬ o.isConnected fd = true) :
    Ready fd (tr ++ out) := by
  obtain ⟨p, q, rfl, ha, hq⟩ := h
  refine ⟨p, q ++ out, by simp, ha, fun o ho => ?_⟩
  rcases List.mem_append.mp ho with ho | ho
  · exact hq o ho
  · exact hout o ho

theorem Ready.authed_mem (h : Ready fd tr) : .authed fd ∈ tr := by
  obtain ⟨p, q, rfl, -, -⟩ := h
  simp

theorem greeted_concat (l : Event × List Out) : greeted fd (pre ++ [l]) =
    if l.2.any (Out.isConnected fd) then false
    else match l.1 with
      | .message fd' _ _ => greeted fd pre || fd' = fd
      | _ => greeted fd pre := by
  simp [greeted]

/-- What is greeted was greeted before, or a packet has come just now. -/
theorem greeted_of_concat {l : Event × List Out} (h : greeted fd (pre ++ [l]) = true) :
    greeted fd pre = true ∨ ∃ msg day, l.1 = .message fd msg day := by
  rw [greeted_concat] at h
  split at h
  · cases h
  · obtain ⟨e, out⟩ := l
    cases e with
    | message fd' msg day =>
      rcases Bool.or_eq_true _ _ ▸ h with h | h
      · exact Or.inl h
      · obtain rfl : fd' = fd := by simpa using h
        exact Or.inr ⟨msg, day, rfl⟩
    | _ => exact Or.inl h

/-! ## Every run -/

/-- **The mark `authed[fd]` against the history**: a number without it has
not been through `auth_handler`, and one that is inside it has not come
out of it before. -/
structure Marked (g : State) (fd : Fd) (tr : List Out) : Prop where
  unmarked : g.authed fd = false → g.pending fd = .none ∧ .authed fd ∉ tr
  waiting : ∀ name, g.pending fd = .auth name → g.authed fd = true ∧ .authed fd ∉ tr

theorem marked_initial (day : ℕ) (fd : Fd) : Marked (initial day) fd [] :=
  ⟨fun _ => ⟨rfl, by simp⟩, fun _ h => by simp [initial] at h⟩

/-- A step that keeps `authed` and `pending` and does not report `fd`
through keeps the mark. -/
theorem Marked.keep (hm : Marked g fd tr) (ha : g'.authed fd = g.authed fd)
    (hp : g'.pending fd = g.pending fd) (hout : .authed fd ∉ out) : Marked g' fd (tr ++ out) := by
  refine ⟨fun h => ?_, fun name h => ?_⟩
  · obtain ⟨h1, h2⟩ := hm.unmarked (ha ▸ h)
    exact ⟨hp.trans h1, by simp [h2, hout]⟩
  · obtain ⟨h1, h2⟩ := hm.waiting name (hp ▸ h)
    exact ⟨ha.trans h1, by simp [h2, hout]⟩

theorem Marked.step (hm : Marked g fd tr) (h : Socket g g' fd e out) : Marked g' fd (tr ++ out) := by
  cases h with
  | quiet shrinks pending mute _ =>
    exact hm.keep shrinks.authed pending fun h => mute _ h rfl
  | opened connection pending authed => exact hm.keep authed pending (by simp)
  | @accepted a _ client unmet afd pending authed =>
    refine ⟨fun h => by simp [authed] at h, fun name _ => ⟨authed, ?_⟩⟩
    simpa using (hm.unmarked unmet.2).2
  | refused client unmet closed connection pending authed reply mute =>
    refine ⟨fun h => by simp [authed] at h, fun name h => ?_⟩
    rw [pending, (hm.unmarked unmet.2).1] at h
    cases h
  | requested client met shrinks pending forwards _ _ =>
    refine hm.keep shrinks.authed pending fun h => ?_
    obtain ⟨name, m, heq⟩ := forwards _ h rfl
    cases heq
  | authed before shrinks pending =>
    refine ⟨fun h => ?_, fun name h => ?_⟩
    · rw [shrinks.authed, (hm.waiting _ before).1] at h
      cases h
    · rw [pending] at h
      cases h
  | failed before shrinks closed pending mute =>
    refine ⟨fun h => ?_, fun name h => ?_⟩
    · rw [shrinks.authed, (hm.waiting _ before).1] at h
      cases h
    · rw [pending] at h
      cases h
  | online before shrinks pending mute =>
    refine ⟨fun h => ⟨pending, ?_⟩, fun name h => ?_⟩
    · rw [shrinks.authed] at h
      rw [(hm.unmarked h).1] at before
      cases before
    · rw [pending] at h
      cases h

/-! ## Runs without the packets in question -/

/-- **What a guarded run keeps**: on an open, entered connection that has
been greeted, a handshake was accepted, and `auth_handler` is running or
through. -/
def Admitted (g : State) (fd : Fd) (pre : List (Event × List Out)) : Prop :=
  g.client fd = some true → (g.connection fd).isSome → greeted fd pre = true →
    AcceptedOn fd (trace pre) ∧ ((∃ name, g.pending fd = .auth name) ∨ Ready fd (trace pre))

theorem Admitted.step (ha : Admitted g fd pre) (hg : Guarded g pre (e, out))
    (h : Socket g g' fd e out) : Admitted g' fd (pre ++ [(e, out)]) := by
  intro hclient hconn hgr
  rw [trace_concat]
  -- what the step does not touch was there before
  have hold : (∀ msg day, e = .message fd msg day → g.client fd = some true →
      greeted fd pre = true) → Shrinks g g' fd →
      AcceptedOn fd (trace pre) ∧ ((∃ name, g.pending fd = .auth name) ∨ Ready fd (trace pre)) := by
    intro hmsg hs
    have hc : (g.connection fd).isSome := by
      rcases hs.connection with h | h
      · rwa [h] at hconn
      · rw [h] at hconn
        cases hconn
    refine ha (hs.client hclient) hc ?_
    rcases greeted_of_concat hgr with h | ⟨msg, day, h⟩
    · exact h
    · exact hmsg msg day h (hs.client hclient)
  cases h with
  | quiet shrinks pending mute dropped =>
    obtain ⟨hacc, hw⟩ := hold (fun msg day he hcl => absurd hcl (dropped msg day he)) shrinks
    refine ⟨hacc.append mute.not_connected, ?_⟩
    rw [pending]
    exact hw.imp_right fun h => h.append mute.not_connected
  | opened connection pending authed =>
    rw [greeted_concat] at hgr
    simp [Out.isConnected] at hgr
  | @accepted a day client unmet afd pending authed =>
    refine ⟨⟨a, afd, since_append.mpr (Or.inl (since_singleton.mpr rfl))⟩, Or.inl ⟨_, pending⟩⟩
  | refused client unmet closed connection pending authed reply mute =>
    exact absurd hclient closed
  | @requested msg day _ client met shrinks pending forwards _ _ =>
    have hnc : ∀ o ∈ out, ¬ o.isConnected fd = true := by
      intro o ho hc
      obtain ⟨name, m, rfl⟩ := forwards o ho (admits_of_isConnected hc)
      cases hc
    obtain ⟨hacc, hw⟩ := hold (fun m d he hcl => by
      by_contra hng
      exact met (hg.unmet fd m d he hcl (by simpa using hng))) shrinks
    refine ⟨hacc.append hnc, ?_⟩
    rw [pending]
    exact hw.imp_right fun h => h.append hnc
  | authed before shrinks pending =>
    obtain ⟨hacc, -⟩ := hold (fun msg day he => by cases he) shrinks
    have hnc : ∀ o ∈ [Out.authed fd, .reply fd "200 OK"], ¬ o.isConnected fd = true := by
      simp [Out.isConnected]
    refine ⟨hacc.append hnc, Or.inr ⟨trace pre, [.reply fd "200 OK"], rfl, hacc, ?_⟩⟩
    simp [Out.isConnected]
  | failed before shrinks closed pending mute => exact absurd hclient closed
  | online before shrinks pending mute =>
    obtain ⟨hacc, hw⟩ := hold (fun msg day he => by cases he) shrinks
    refine ⟨hacc.append mute.not_connected, Or.inr ?_⟩
    rcases hw with ⟨name, hn⟩ | hr
    · rw [before] at hn
      cases hn
    · exact hr.append mute.not_connected

/-! ## One step in order -/

/-- **A guarded step is served**, after a run that was. -/
theorem served_of_guarded (ha : ∀ fd, Admitted g fd pre) (hg : Guarded g pre (e, out))
    (h : ∀ fd, Socket g g' fd e out) : Served g pre (e, out) := by
  refine ⟨fun fd name m hf => ?_, fun fd msg day he hcl hgr => ?_⟩
  · cases h fd with
    | quiet shrinks pending mute _ => exact absurd rfl (mute _ hf)
    | opened => simp at hf
    | accepted => simp at hf
    | refused client unmet closed connection pending authed reply mute =>
      exact absurd rfl (mute _ hf)
    | @requested msg day _ client met shrinks pending forwards silent forward =>
      obtain ⟨hsome, hlen⟩ := forward.mp ⟨name, m, hf⟩
      have hgr : greeted fd pre = true := by
        by_contra hng
        exact met (hg.unmet fd msg day rfl client (by simpa using hng))
      rcases (ha fd client hsome hgr).2 with ⟨n, hn⟩ | hr
      · exact absurd (hg.waits fd msg day n rfl client hn hsome) (by omega)
      · exact hr
    | authed => simp at hf
    | failed before shrinks closed pending mute => exact absurd rfl (mute _ hf)
    | online before shrinks pending mute => exact absurd rfl (mute _ hf)
  · have hun := hg.unmet fd msg day he hcl hgr
    subst he
    cases h fd with
    | quiet shrinks pending mute dropped => exact absurd hcl (dropped msg day rfl)
    | @accepted a _ client unmet afd pending authed => exact Or.inl ⟨a, afd, by simp⟩
    | @refused _ _ _ text client unmet closed connection pending authed reply mute =>
      exact Or.inr ⟨text, reply⟩
    | requested client met => exact absurd hun met

/-- **A served step is guarded.** -/
theorem guarded_of_served (hm : ∀ fd, Marked g fd (trace pre)) (hs : Served g pre (e, out))
    (h : ∀ fd, Socket g g' fd e out) : Guarded g pre (e, out) := by
  refine ⟨fun fd msg day name he hcl hp hsome => ?_, fun fd msg day he hcl hgr => ?_⟩
  · obtain ⟨hau, hno⟩ := (hm fd).waiting name hp
    subst he
    by_contra hlen
    cases h fd with
    | quiet shrinks pending mute dropped => exact dropped msg day rfl hcl
    | accepted client unmet =>
      rw [unmet.2] at hau
      cases hau
    | refused client unmet =>
      rw [unmet.2] at hau
      cases hau
    | requested client met shrinks pending forwards silent forward =>
      obtain ⟨n, m, hf⟩ := forward.mpr ⟨hsome, by omega⟩
      exact hno (hs.forwarded fd n m hf).authed_mem
  · have hh := hs.first fd msg day he hcl hgr
    subst he
    cases h fd with
    | quiet shrinks pending mute dropped => exact absurd hcl (dropped msg day rfl)
    | accepted client unmet => exact unmet
    | refused client unmet => exact unmet
    | requested client met shrinks pending forwards silent => exact absurd hh silent

theorem guarded_of_no_packet {l : Event × List Out}
    (h : ∀ fd msg day, l.1 ≠ .message fd msg day) : Guarded g pre l :=
  ⟨fun fd msg day _ he => absurd he (h fd msg day), fun fd msg day he => absurd he (h fd msg day)⟩

/-! ## Whole runs -/

theorem stateAt_concat {day : ℕ} (l : Event × List Out) :
    stateAt crypt maxclient day (pre ++ [l]) =
      (step crypt maxclient (stateAt crypt maxclient day pre) l.1).1 := by
  simp [stateAt, exec]

/-- The entries of a run are steps from the state of their history. -/
theorem step_stateAt {day : ℕ} {l : Event × List Out}
    (h : (system crypt maxclient).Path (stateAt crypt maxclient day pre) (l :: labels) g) :
    step crypt maxclient (stateAt crypt maxclient day pre) l.1 =
        (stateAt crypt maxclient day (pre ++ [l]), l.2) ∧
      (system crypt maxclient).Path (stateAt crypt maxclient day (pre ++ [l])) labels g := by
  cases h with
  | cons hst hp =>
    have heq := congrArg Prod.fst hst
    rw [← stateAt_concat] at heq
    exact ⟨hst.trans (by rw [heq]), heq ▸ hp⟩

/-- From a history in order on, the rest of the run is served if and only
if it is guarded. -/
theorem admission_from {day : ℕ} (hm : ∀ fd, Marked (stateAt crypt maxclient day pre) fd (trace pre))
    (ha : ∀ fd, Admitted (stateAt crypt maxclient day pre) fd pre)
    (h : (system crypt maxclient).Path (stateAt crypt maxclient day pre) labels g) :
    (∀ p l q, labels = p ++ l :: q →
      Served (stateAt crypt maxclient day (pre ++ p)) (pre ++ p) l) ↔
    ∀ p l q, labels = p ++ l :: q →
      Guarded (stateAt crypt maxclient day (pre ++ p)) (pre ++ p) l := by
  induction labels generalizing pre with
  | nil => simp
  | cons l ls ih =>
    obtain ⟨hst, hp⟩ := step_stateAt h
    have hsock := fun fd => socket_of_step fd hst
    have hmarked : ∀ fd, Marked (stateAt crypt maxclient day (pre ++ [l])) fd (trace (pre ++ [l])) := by
      intro fd
      rw [trace_concat]
      exact (hm fd).step (hsock fd)
    -- the first entry, then the rest from the longer history
    constructor
    · intro hserved p x q hx
      have hl := guarded_of_served hm (by simpa using hserved [] l ls rfl) hsock
      cases p with
      | nil =>
        obtain ⟨rfl, rfl⟩ : l = x ∧ ls = q := by simpa using hx
        simpa using hl
      | cons y p =>
        obtain ⟨rfl, htail⟩ : l = y ∧ ls = p ++ x :: q := by simpa using hx
        have := (ih hmarked (fun fd => (ha fd).step hl (hsock fd)) hp).mp (fun p' x' q' h' => by
          simpa using hserved (l :: p') x' q' (by simp [h'])) p x q htail
        simpa using this
    · intro hguarded p x q hx
      have hl : Guarded (stateAt crypt maxclient day pre) pre l := by
        simpa using hguarded [] l ls rfl
      cases p with
      | nil =>
        obtain ⟨rfl, rfl⟩ : l = x ∧ ls = q := by simpa using hx
        simpa using served_of_guarded ha hl hsock
      | cons y p =>
        obtain ⟨rfl, htail⟩ : l = y ∧ ls = p ++ x :: q := by simpa using hx
        have := (ih hmarked (fun fd => (ha fd).step hl (hsock fd)) hp).mpr (fun p' x' q' h' => by
          simpa using hguarded (l :: p') x' q' (by simp [h'])) p x q htail
        simpa using this

/-- **No request before authentication.** In a run of the gate every
request is forwarded for a connection whose own handshake was accepted
and whose `auth_handler` has returned, and every first packet is taken
for a handshake, if and only if no packet comes on a connection whose
`auth_handler` is running and no first packet comes on a number that
carries an older mark. -/
theorem admission_iff {day : ℕ} (h : (system crypt maxclient).Path (initial day) labels g) :
    AtEach (fun pre l => Served (stateAt crypt maxclient day pre) pre l) labels ↔
      AtEach (fun pre l => Guarded (stateAt crypt maxclient day pre) pre l) labels := by
  have := admission_from (show ∀ fd, Marked (stateAt crypt maxclient day []) fd (trace []) from marked_initial day)
     (fun fd hc => by simp [stateAt, exec, initial] at hc) h
  simpa [AtEach] using this

/-- A user handshakes, the handler returns, and a request comes. -/
def orderly : List Event :=
  [.login "u".toList "k".toList, .connect 1 "a:1".toList, .message 1 "u:1:k".toList 0,
    .authReturn 1 true, .message 1 "hello".toList 0]

/-- Every step of that run is served; its request is forwarded. -/
theorem admission_iff_orderly :
    let crypt : Crypt := ⟨fun secret _ => secret, some⟩
    let labels := labelsOf crypt 8 (initial 0) orderly
    AtEach (fun pre l => Served (stateAt crypt 8 0 pre) pre l) labels ∧
      ∃ pre, labels = pre ++ [(.message 1 "hello".toList 0, [.forward 1 "u".toList "h".toList])] := by
  intro crypt labels
  refine ⟨(admission_iff (path_labelsOf crypt 8 (initial 0) orderly)).mpr ?_,
    labels.take 4, rfl⟩
  simp only [orderly, labelsOf, atEach_cons]
  refine ⟨guarded_of_no_packet (by simp), guarded_of_no_packet (by simp),
    ⟨fun fd _ _ name h _ hp => ?_, fun fd _ _ h _ _ => ?_⟩, guarded_of_no_packet (by simp),
    ⟨fun fd _ _ name h _ hp => ?_, fun fd _ _ h _ hgr => ?_⟩, atEach_nil⟩
  -- the first packet finds no mark, and no handler runs at the second
  · cases h
    cases hp
  · cases h
    exact ⟨rfl, rfl⟩
  · cases h
    cases hp
  · cases h
    cases hgr

/-- A request comes while `auth_handler` runs. -/
def hasty : List Event :=
  [.login "u".toList "k".toList, .connect 1 "a:1".toList, .message 1 "u:1:k".toList 0,
    .message 1 "hello".toList 0]

/-- The first connection with the number `1` is over, and the next one
sends its handshake. -/
def recycled : List Event :=
  orderly.take 4 ++ [.onlineReturn 1 true, .disconnect 1, .disconnectReturn 1 true,
    .connect 1 "a:2".toList, .message 1 "u:2:k".toList 0]

/-- **Both defects.** The hasty request is forwarded although nothing has
come out of `auth_handler`, and the handshake of the recycled number is
answered with an error instead of a reply. -/
theorem request_before_authentication :
    let crypt : Crypt := ⟨fun secret _ => secret, some⟩
    let served := fun pre l => Served (stateAt crypt 8 0 pre) pre l
    ¬ AtEach served (labelsOf crypt 8 (initial 0) hasty) ∧
      ¬ AtEach served (labelsOf crypt 8 (initial 0) recycled) := by
  intro crypt served
  constructor
  · intro h
    have hs := h ((labelsOf crypt 8 (initial 0) hasty).take 3)
      (.message 1 "hello".toList 0, [.forward 1 "u".toList "h".toList]) [] rfl
    have hmem := (hs.forwarded 1 _ _ (List.mem_singleton_self _)).authed_mem
    have htr : trace ((labelsOf crypt 8 (initial 0) hasty).take 3) =
        [.loggedIn "u".toList "k".toList, .connected 1,
          .accepted ⟨1, "u:1:k".toList, "u".toList, "1".toList, .int 1, "k".toList⟩] := rfl
    rw [htr] at hmem
    simp at hmem
  · intro h
    have hs := h ((labelsOf crypt 8 (initial 0) recycled).take 8)
      (.message 1 "u:2:k".toList 0, [.raised]) [] rfl
    rcases hs.first 1 _ 0 rfl rfl rfl with ⟨a, -, ha⟩ | ⟨text, ht⟩
    · simp at ha
    · simp at ht

end Gate

end Athena
