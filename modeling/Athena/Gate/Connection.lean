import Athena.Gate.Step
/-!
# The gate — the connection table

`connection[fd] = u` is meant to say that `fd` is the live connection of
an online user. `do_auth` enters the new fd and leaves the entry of the
fd it replaces, so a user that handshakes on a second connection before
the first is closed has two entries; the close of the first then clears
the fd of the second, and a logout leaves the first behind.

`Displaces` is the event this needs: a handshake that passes its checks
for a user that has an entry under another fd. A run without one keeps
the table exact, and one such event always breaks it.
-/

namespace Athena

namespace Gate

open Lua

variable {crypt : Crypt} {maxclient : ℕ} {g g' : State}

/-- **The connection table is exact**: an entry is the fd of its user,
and the user is online. -/
def Exact (g : State) : Prop :=
  ∀ fd u, g.connection fd = some u →
    (g.obj u).fd = some fd ∧ g.userOnline (g.obj u).username = some u

/-- **A handshake on a second connection**: the first packet of an fd
passes the checks of `do_auth` for a user with an entry under another
fd. -/
def Displaces (crypt : Crypt) (g : State) : Event → Prop
  | .message fd msg _ =>
    ∃ u a addr, a.fd = fd ∧ a.message = msg ∧ Owes g fd addr ∧ Checked crypt g u a ∧
      ∃ fd', fd' ≠ fd ∧ g.connection fd' = some u
  | _ => False

/-- The gate without handshakes on a second connection. -/
def single (crypt : Crypt) (maxclient : ℕ) : System State (Event × List Out) :=
  (system crypt maxclient).restrict fun g l => ¬ Displaces crypt g l.1

/-! ## One event -/

/-- In an exact table a user has one fd. -/
theorem Exact.fd_unique (he : Exact g) {fd fd' : Fd} {u : ℕ} (h : g.connection fd = some u)
    (h' : g.connection fd' = some u) : fd = fd' :=
  Option.some.inj ((he fd u h).1.symm.trans (he fd' u h').1)

/-- The bump of a user that has no entry but the one of the handshake's
own fd keeps every entry exact. -/
theorem Exact.bump (he : Exact g) {u : ℕ} {a : Accept} (addr : Str) {fd : Fd} {v : ℕ}
    (hone : ∀ fd', g.connection fd' = some u → fd' = a.fd) (h : g.connection fd = some v) :
    (bump g u a addr v).fd = some fd ∧ g.userOnline (bump g u a addr v).username = some v := by
  obtain ⟨hfd, hon⟩ := he fd v h
  refine ⟨?_, by rwa [bump_username]⟩
  by_cases hv : v = u
  · subst hv
    simp [Gate.bump, hone fd h]
  · simpa [Gate.bump, hv] using hfd

/-- What the absence of a displacement gives to a handshake. -/
theorem one_of_not_displaces {day : ℕ} {u : ℕ} {a : Accept} {addr : Str}
    (h : ¬ Displaces crypt g (.message a.fd a.message day)) (ho : Owes g a.fd addr)
    (hck : Checked crypt g u a) : ∀ fd', g.connection fd' = some u → fd' = a.fd := by
  intro fd' hfd'
  by_contra hne
  exact h ⟨u, a, addr, rfl, rfl, ho, hck, fd', hne, hfd'⟩

/-- **An event that displaces nothing keeps the table exact.** -/
theorem Exact.step {e : Event} {out : List Out} (ho : Owned g) (he : Exact g)
    (hd : ¬ Displaces crypt g e) (h : Effect crypt g g' e out) : Exact g' := by
  cases h with
  | quiet same _ =>
    intro fd u hu
    rw [same.connection] at hu
    rw [same.obj, same.userOnline]
    exact he fd u hu
  | @login username secret offline hon hobj hfresh hconn =>
    intro fd u hu
    rw [hconn] at hu
    obtain ⟨hfd, hu'⟩ := he fd u hu
    rw [hobj, hon, Function.update_of_ne (ho.connected fd u hu).ne]
    refine ⟨hfd, ?_⟩
    -- the user of an entry is online, so it is not the one that logs in
    have hne : (g.obj u).username ≠ username := by
      intro heq
      rw [heq, offline] at hu'
      cases hu'
    rwa [Function.update_of_ne hne]
  | @logout username v _ online hon hobj hfresh hconn _ =>
    intro fd u hu
    have hold : g.connection fd = some u ∧ (g.obj v).fd ≠ some fd := by
      rw [hconn] at hu
      cases hv : (g.obj v).fd with
      | none => exact ⟨by simpa [hv] using hu, by simp⟩
      | some fd' =>
        rw [hv] at hu
        by_cases hfd : fd = fd'
        · simp [hfd] at hu
        · exact ⟨by simpa [hfd] using hu, by simpa using fun h => hfd h.symm⟩
    obtain ⟨hfd, hu'⟩ := he fd u hold.1
    rw [hobj, hon]
    refine ⟨hfd, ?_⟩
    have hne : (g.obj u).username ≠ username := by
      intro heq
      rw [heq, online] at hu'
      exact hold.2 (Option.some.inj hu' ▸ hfd)
    rwa [Function.update_of_ne hne]
  | @accepted v a addr _ owes checked hon hobj hfresh hconn =>
    have hone := one_of_not_displaces hd owes checked
    intro fd u hu
    rw [hconn] at hu
    rw [hobj, hon]
    by_cases hfd : fd = a.fd
    · obtain rfl : v = u := by simpa [hfd] using hu
      rw [bump_username, (ho.online _ _ checked.online).2]
      exact ⟨by simp [Gate.bump, hfd], checked.online⟩
    · rw [Function.update_of_ne hfd] at hu
      exact he.bump addr hone hu
  | @failed v a addr _ _ owes checked hon hobj hfresh hconn _ =>
    have hone := one_of_not_displaces hd owes checked
    intro fd u hu
    rw [hconn] at hu
    rw [hobj, hon]
    exact he.bump addr hone hu
  | @disconnect fd' c _ live hon hobj hfresh hconn _ =>
    intro fd u hu
    rw [hconn] at hu
    by_cases hfd : fd = fd'
    · simp [hfd] at hu
    · rw [Function.update_of_ne hfd] at hu
      -- another entry is another user's
      have hne : u ≠ c := fun heq => hfd (he.fd_unique (heq ▸ hu) live)
      rw [hobj, hon, Function.update_of_ne hne]
      exact he fd u hu

theorem exact_initial (day : ℕ) : Exact (initial day) := by
  intro fd u h
  simp [initial] at h

/-- **A displacement leaves two entries of one user**, so the table is no
longer exact. -/
theorem not_exact_of_displaces {e : Event} {out : List Out} (hd : Displaces crypt g e)
    (h : step crypt maxclient g e = (g', out)) : ¬ Exact g' := by
  cases e with
  | message fd msg day =>
    obtain ⟨u, a, addr, rfl, rfl, owes, hck, fd', hne, hfd'⟩ := hd
    have hck' : Checked crypt { g with authed := Function.update g.authed a.fd true } u a :=
      ⟨hck.1, hck.2, hck.3, hck.4, hck.5⟩
    obtain ⟨hobj, hconn⟩ := doAuth_of_checked hck' addr day
    obtain ⟨-, htobj, -, htconn⟩ := auth_tables crypt
      { g with authed := Function.update g.authed a.fd true } a.fd a.message addr day
    simp only [step, message, owes.client, owes.handshake, owes.authed, if_true] at h
    rw [h] at htobj htconn
    intro hex
    -- the entry under the replaced fd is left, and its user has moved on
    have hstale : g'.connection fd' = some u := by
      rw [htconn, hconn fd' hne]
      exact hfd'
    have hfd := (hex fd' u hstale).1
    rw [htobj, hobj] at hfd
    simp only [Gate.bump, Function.update_self, Option.some.injEq] at hfd
    exact hne hfd.symm
  | _ => exact absurd hd id

/-! ## Closing an old connection, and logging out -/

/-- **The close of another fd** leaves an online user's connection and
session as they are. -/
theorem Exact.disconnect_other (he : Exact g) {fd fd' : Fd} {name : Str} {u : ℕ}
    (hu : g.userOnline name = some u) (hfd : (g.obj u).fd = some fd') (hne : fd ≠ fd') :
    (disconnect g fd).1.connection fd' = g.connection fd' ∧
    (disconnect g fd).1.obj u = g.obj u ∧
    (disconnect g fd).1.userOnline = g.userOnline ∧
    .disconnected fd name ∉ (disconnect g fd).2 := by
  unfold disconnect
  dsimp only
  split
  · obtain ⟨h1, h2, -, h4⟩ :=
      closeFd_tables { g with handshake := Function.update g.handshake fd none } fd
    exact ⟨by rw [h4], by rw [h2], h1, by simp⟩
  · rename_i c hc
    obtain ⟨hcfd, hcon⟩ := he fd c hc
    have hcu : c ≠ u := by
      rintro rfl
      rw [hcfd] at hfd
      exact hne (Option.some.inj hfd)
    refine ⟨by simp [hne.symm], by simp [hcu.symm], rfl, ?_⟩
    simp only [List.mem_singleton, Out.disconnected.injEq, not_and]
    rintro - rfl
    exact hcu (Option.some.inj (hcon.symm.trans hu))

/-- **Logout removes every entry of the user.** -/
theorem Exact.logout_removes (he : Exact g) {name : Str} {u : ℕ}
    (hu : g.userOnline name = some u) (fd : Fd) : (logout g name).1.connection fd ≠ some u := by
  intro hc
  rw [(logout_tables hu).2.2.2.1] at hc
  cases hfd : (g.obj u).fd with
  | none =>
    rw [hfd] at hc
    rw [(he fd u hc).1] at hfd
    cases hfd
  | some fd' =>
    rw [hfd] at hc
    by_cases heq : fd = fd'
    · simp [heq] at hc
    · simp only [Function.update_of_ne heq] at hc
      rw [(he fd u hc).1] at hfd
      exact heq (Option.some.inj hfd)

/-! ## Whole runs -/

theorem exact_of_single (h : (single crypt maxclient).Reachable g) : Owned g ∧ Exact g := by
  refine h.invariant (P := fun g => Owned g ∧ Exact g) ?_ ?_
  · rintro s ⟨day, rfl⟩
    exact ⟨owned_initial day, exact_initial day⟩
  · rintro s l t ⟨hst, hd⟩ ⟨ho, he⟩
    exact ⟨ho.step (effect_of_step hst), he.step ho hd (effect_of_step hst)⟩

/-- **The connection table, in runs without a handshake on a second
connection.** In every state such a run reaches the table is exact, an
online user has at most one live fd, the close of any other fd leaves
the user's connection and session untouched, and a logout removes every
entry of the user. The next handshake on a second connection, if one
comes, breaks it. -/
theorem connection_exact (h : (single crypt maxclient).Reachable g) :
    Exact g ∧
    (∀ fd fd' u, g.connection fd = some u → g.connection fd' = some u → fd = fd') ∧
    (∀ name u fd fd', g.userOnline name = some u → (g.obj u).fd = some fd' → fd ≠ fd' →
      (disconnect g fd).1.connection fd' = g.connection fd' ∧
      (disconnect g fd).1.obj u = g.obj u ∧
      (disconnect g fd).1.userOnline = g.userOnline ∧
      .disconnected fd name ∉ (disconnect g fd).2) ∧
    (∀ name u fd, g.userOnline name = some u → (logout g name).1.connection fd ≠ some u) ∧
    ∀ e, Displaces crypt g e → ¬ Exact (step crypt maxclient g e).1 := by
  obtain ⟨ho, he⟩ := exact_of_single h
  refine ⟨he, fun fd fd' u => he.fd_unique, ?_, ?_, ?_⟩
  · exact fun name u fd fd' hu hfd hne => he.disconnect_other hu hfd hne
  · exact fun name u fd hu => he.logout_removes hu fd
  · exact fun e hd => not_exact_of_displaces hd rfl

/-- One handshake, on one connection. -/
def handshakeOnce : List Event :=
  [.login "u".toList "k".toList, .connect 1 "a:1".toList, .connect 2 "a:2".toList,
    .message 1 "u:1:k".toList 0]

/-- Its entry is exact, and a logout removes it. -/
theorem connection_exact_once :
    let crypt : Crypt := ⟨fun secret _ => secret, some⟩
    let g := exec crypt 8 (initial 0) handshakeOnce
    (single crypt 8).Reachable g ∧ g.connection 1 = some 0 ∧ (g.obj 0).fd = some 1 ∧
      (logout g "u".toList).1.connection 1 ≠ some 0 := by
  intro crypt g
  have hr : (single crypt 8).Reachable g := by
    refine ⟨initial 0, labelsOf crypt 8 (initial 0) handshakeOnce, ⟨0, rfl⟩, .cons ⟨rfl, id⟩ (.cons ⟨rfl, id⟩ (.cons ⟨rfl, id⟩
      (.cons ⟨rfl, ?_⟩ (.nil _))))⟩
    -- nobody has an entry yet
    rintro ⟨u, a, addr, -, -, -, -, fd', -, h⟩
    cases h
  obtain ⟨he, -, -, hout, -⟩ := connection_exact hr
  exact ⟨hr, rfl, (he 1 0 rfl).1, hout _ 0 1 rfl⟩

/-- A user handshakes on a second connection before the first is closed. -/
def reconnect : List Event := handshakeOnce ++ [.message 2 "u:2:k".toList 0]

/-- The reconnect leaves `connection[1]` at a user whose fd is `2`; the
close of `1` then takes the live fd from the user and reports the user
gone, and a logout leaves the entry of `1`. -/
theorem reconnect_not_exact :
    let crypt : Crypt := ⟨fun secret _ => secret, some⟩
    let g := exec crypt 8 (initial 0) reconnect
    (system crypt 8).Reachable g ∧ ¬ Exact g ∧
      g.connection 1 = some 0 ∧ (g.obj 0).fd = some 2 ∧
      ((disconnect g 1).1.obj 0).fd = none ∧
      (disconnect g 1).2 = [.disconnected 1 "u".toList] ∧
      (logout g "u".toList).1.connection 1 = some 0 := by
  refine ⟨⟨initial 0, _, ⟨0, rfl⟩, path_labelsOf _ 8 (initial 0) reconnect⟩, ?_, rfl, rfl, rfl, rfl,
    rfl⟩
  intro he
  have h := (he 1 0 rfl).1
  exact absurd h (by decide)

end Gate

end Athena
