import Athena.Gate.Step
import Athena.Common.Trace
/-!
# The gate — handshake freshness

A handshake `username:index:mac` is accepted only with an index above the
version of the user, and the version becomes that index before anything
yields. The ledger of a run keeps what this gives over the trace of what
the run did: since the last login of an online user, every accepted
index is at most the version, and the secret of the user is the one of
that login. A handshake that is accepted next is then above every one
before it.
-/

namespace Athena

namespace Gate

open Lua

variable {crypt : Crypt} {maxclient : ℕ} {g g' : State}

/-- A successful `server.login` of `username`. -/
def IsLogin (username : Str) : Out → Prop
  | .loggedIn name _ => name = username
  | _ => False

/-- What a run did, in order. -/
def trace (labels : List (Event × List Out)) : List Out := labels.flatMap Prod.snd

/-- **A fresh handshake**: above every index accepted for the user since
its last login, with a text not accepted since, and with the MAC of that
login's secret over `username:index`. -/
structure Fresh (crypt : Crypt) (pre : List Out) (b : Accept) : Prop where
  newer : ∀ a, a.username = b.username → Since (IsLogin b.username) pre (.accepted a) →
    a.idx.lt b.idx = true ∧ a.message ≠ b.message
  mac : ∃ secret, Since (IsLogin b.username) pre (.loggedIn b.username secret) ∧
    crypt.hmacHash secret (b.username ++ ':' :: b.index) = b.hmac
  read : ∃ mac, matchFields b.message = some (b.username, b.index, mac) ∧
    crypt.b64decode mac = some b.hmac
  index : tonumber b.index = some b.idx

/-- An accepted entry of a trace is fresh. -/
def FreshAt (crypt : Crypt) (pre : List Out) (o : Out) : Prop :=
  ∀ b, o = .accepted b → Fresh crypt pre b

/-- **The ledger of a run**: its state against its trace. -/
structure Ledger (crypt : Crypt) (g : State) (tr : List Out) : Prop where
  owned : Owned g
  below : ∀ name u a, g.userOnline name = some u → a.username = name →
    Since (IsLogin name) tr (.accepted a) → a.idx.le (g.obj u).version = true
  secret : ∀ name u, g.userOnline name = some u →
    Since (IsLogin name) tr (.loggedIn name (g.obj u).secret)
  fresh : AtEach (FreshAt crypt) tr

/-! ## Reading the trace -/

/-- A silent piece hides no login and no handshake. -/
theorem since_silent {tr out : List Out} {name : Str} {o : Out} (hs : Silent out) (ho : o.Marks) :
    Since (IsLogin name) (tr ++ out) o ↔ Since (IsLogin name) tr o := by
  rw [since_append]
  constructor
  · rintro (h | ⟨-, h⟩)
    · exact absurd ho (hs o h.mem)
    · exact h
  · intro h
    refine Or.inr ⟨fun y hy hl => hs y hy ?_, h⟩
    cases y with
    | loggedIn name secret => trivial
    | _ => exact hl.elim

/-- So it owes nothing at its entries. -/
theorem atEach_silent {tr out : List Out} (hs : Silent out) (h : AtEach (FreshAt crypt) tr) :
    AtEach (FreshAt crypt) (tr ++ out) := by
  refine atEach_append h ?_
  rintro pre x post rfl b rfl
  exact absurd trivial (hs (.accepted b) (by simp))

/-- An entry is appended at the end. -/
theorem since_concat {tr : List Out} {name : Str} {o y : Out} (hy : ¬ IsLogin name y) :
    Since (IsLogin name) (tr ++ [y]) o ↔ o = y ∨ Since (IsLogin name) tr o := by
  rw [since_append, since_singleton]
  simp [hy]

/-! ## One event -/

/-- **A version only grows** while its user stays online. -/
theorem le_bump {u : ℕ} {a : Accept} (hck : Checked crypt g u a) (addr : Str) {x : Number} {v : ℕ}
    (h : x.le (g.obj v).version = true) : x.le (bump g u a addr v).version = true := by
  by_cases hv : v = u
  · subst hv
    have hlt := Number.lt_of_le_of_not_le h (tonumber_ext hck.idx) hck.newer
    simpa [bump] using Number.le_of_lt hlt
  · simpa [bump, hv] using h

/-- **The accepted handshake is fresh.** -/
theorem Ledger.accept {tr : List Out} {u : ℕ} {a : Accept} (hl : Ledger crypt g tr)
    (hck : Checked crypt g u a) : Fresh crypt tr a where
  newer b hb hs := by
    have hle := hl.below _ u b hck.online hb hs
    have hlt := Number.lt_of_le_of_not_le hle (tonumber_ext hck.idx) hck.newer
    refine ⟨hlt, fun heq => ?_⟩
    -- one text carries one index, and no index is below itself
    obtain ⟨pre, post, htr, -⟩ := hs
    obtain ⟨-, -, ⟨m, hm, -⟩, hb'⟩ := hl.fresh pre _ post htr b rfl
    obtain ⟨m', hm', -⟩ := hck.fields
    rw [heq, hm'] at hm
    simp only [Option.some.injEq, Prod.mk.injEq] at hm
    rw [← hm.2.1, hck.idx] at hb'
    rw [← Option.some.inj hb'] at hlt
    exact Number.not_lt_self _ hlt
  mac := ⟨_, hl.secret _ u hck.online, hck.hmac⟩
  read := hck.fields
  index := hck.idx

theorem Ledger.step {tr : List Out} {e : Event} {out : List Out} (hl : Ledger crypt g tr)
    (h : Effect crypt g g' e out) : Ledger crypt g' (tr ++ out) := by
  have howned := hl.owned.step h
  cases h with
  | quiet same silent =>
    refine ⟨howned, fun name u a hu ha hs => ?_, fun name u hu => ?_, atEach_silent silent hl.fresh⟩
    · rw [same.userOnline] at hu
      rw [same.obj]
      exact hl.below name u a hu ha ((since_silent silent (by trivial)).mp hs)
    · rw [same.userOnline] at hu
      rw [same.obj]
      exact (since_silent silent (by trivial)).mpr (hl.secret name u hu)
  | @login username secret offline hon hobj hfresh hconn =>
    refine ⟨howned, fun name u a hu ha hs => ?_, fun name u hu => ?_, ?_⟩
    · rw [hon] at hu
      rw [since_append, since_singleton] at hs
      obtain ⟨hnl, hs⟩ : (∀ y ∈ [Out.loggedIn username secret], ¬ IsLogin name y) ∧ _ := by
        simpa using hs
      -- an accept since the last login of `name` is one of another user
      have hne : name ≠ username := fun heq => hnl (.loggedIn username secret) (by simp) heq.symm
      rw [Function.update_of_ne hne] at hu
      rw [hobj, Function.update_of_ne (hl.owned.online name u hu).1.ne]
      exact hl.below name u a hu ha hs
    · rw [hon] at hu
      rw [hobj]
      by_cases hname : name = username
      · subst hname
        obtain rfl : g.fresh = u := by simpa using hu
        exact since_append.mpr (Or.inl (by simp [since_singleton]))
      · rw [Function.update_of_ne hname] at hu
        rw [Function.update_of_ne (hl.owned.online name u hu).1.ne]
        refine (since_concat ?_).mpr (Or.inr (hl.secret name u hu))
        exact fun heq => hname heq.symm
    · refine atEach_append hl.fresh ?_
      rintro pre x post hx b rfl
      rw [List.singleton_eq_append_iff] at hx
      simp at hx
  | @logout username v _ online hon hobj hfresh hconn silent =>
    have hold : ∀ name u, g'.userOnline name = some u → g.userOnline name = some u := by
      intro name u hu
      rw [hon] at hu
      by_cases hname : name = username
      · simp [hname] at hu
      · rwa [Function.update_of_ne hname] at hu
    refine ⟨howned, fun name u a hu ha hs => ?_, fun name u hu => ?_, atEach_silent silent hl.fresh⟩
    · rw [hobj]
      exact hl.below name u a (hold name u hu) ha ((since_silent silent (by trivial)).mp hs)
    · rw [hobj]
      exact (since_silent silent (by trivial)).mpr (hl.secret name u (hold name u hu))
  | @accepted v a addr _ _ checked hon hobj hfresh hconn =>
    refine ⟨howned, fun name u b hu hb hs => ?_, fun name u hu => ?_, ?_⟩
    · rw [hon] at hu
      rw [hobj]
      rcases (since_concat id).mp hs with heq | hs
      · -- the handshake itself: its user is the one the name stands for
        obtain rfl : b = a := by simpa using heq
        obtain rfl : u = v := Option.some.inj (hu.symm.trans (hb ▸ checked.online))
        simpa [bump] using Number.le_refl (tonumber_ext checked.idx)
      · exact le_bump checked addr (hl.below name u b hu hb hs)
    · rw [hon] at hu
      rw [hobj, bump_secret]
      exact (since_concat id).mpr (Or.inr (hl.secret name u hu))
    · refine atEach_append hl.fresh ?_
      rintro pre x post hx b rfl
      obtain ⟨rfl, rfl, rfl⟩ : pre = [] ∧ b = a ∧ post = [] := by
        simpa [List.singleton_eq_append_iff] using hx
      simpa using hl.accept checked
  | @failed v a addr _ _ _ checked hon hobj hfresh hconn silent =>
    -- nothing is answered, but the version is raised all the same
    refine ⟨howned, fun name u b hu hb hs => ?_, fun name u hu => ?_, atEach_silent silent hl.fresh⟩
    · rw [hon] at hu
      rw [hobj]
      exact le_bump checked addr (hl.below name u b hu hb ((since_silent silent (by trivial)).mp hs))
    · rw [hon] at hu
      rw [hobj, bump_secret]
      exact (since_silent silent (by trivial)).mpr (hl.secret name u hu)
  | @disconnect fd c _ live hon hobj hfresh hconn silent =>
    refine ⟨howned, fun name u b hu hb hs => ?_, fun name u hu => ?_, atEach_silent silent hl.fresh⟩
    · obtain ⟨f, hf⟩ := clearFd_apply g c u
      rw [hobj, hf]
      exact hl.below name u b (hon ▸ hu) hb ((since_silent silent (by trivial)).mp hs)
    · obtain ⟨f, hf⟩ := clearFd_apply g c u
      rw [hobj, hf]
      exact (since_silent silent (by trivial)).mpr (hl.secret name u (hon ▸ hu))

theorem ledger_initial (day : ℕ) : Ledger crypt (initial day) [] where
  owned := owned_initial day
  below _ _ _ h := by simp [initial] at h
  secret _ _ h := by simp [initial] at h
  fresh := atEach_nil

/-! ## Whole runs -/

/-- **Every run keeps its ledger.** -/
theorem Ledger.run {tr : List Out} {labels : List (Event × List Out)} (hl : Ledger crypt g tr)
    (h : (system crypt maxclient).Path g labels g') : Ledger crypt g' (tr ++ trace labels) := by
  induction h generalizing tr with
  | nil s => simpa [trace] using hl
  | @cons s s' t l ls hst _ ih =>
    have := ih (hl.step (effect_of_step hst))
    rwa [List.append_assoc] at this

/-- **Only a message event is an accepted handshake**, on the connection
and with the text it names. -/
theorem message_of_accepted {l : Event × List Out} (h : step crypt maxclient g l.1 = (g', l.2))
    {a : Accept} (ha : .accepted a ∈ l.2) : ∃ day, l.1 = .message a.fd a.message day := by
  obtain ⟨e, out⟩ := l
  cases effect_of_step h with
  | quiet _ silent => exact absurd trivial (silent _ ha)
  | login => simp at ha
  | logout _ _ _ _ _ silent => exact absurd trivial (silent _ ha)
  | accepted =>
    obtain rfl : a = _ := by simpa using ha
    exact ⟨_, rfl⟩
  | failed _ _ _ _ _ _ silent => exact absurd trivial (silent _ ha)
  | disconnect _ _ _ _ _ silent => exact absurd trivial (silent _ ha)

theorem messages_of_path {labels : List (Event × List Out)}
    (h : (system crypt maxclient).Path g labels g') :
    ∀ l ∈ labels, ∀ a, .accepted a ∈ l.2 → ∃ day, l.1 = .message a.fd a.message day := by
  induction h with
  | nil s => simp
  | cons hst _ ih =>
    intro l hl a ha
    rcases List.mem_cons.mp hl with rfl | hl
    · exact message_of_accepted hst ha
    · exact ih l hl a ha

/-- **Handshake freshness.** In every run of the gate, each handshake
`do_auth` accepts — at the moment it enters `auth_handler` — is fresh:
its index is above every index accepted for the user since the user's
last login, its text is none of those accepted since, and its MAC is the
hash of `username:index` under the secret of that login. -/
theorem handshake_freshness {day : ℕ} {labels : List (Event × List Out)}
    (h : (system crypt maxclient).Path (initial day) labels g) :
    AtEach (FreshAt crypt) (trace labels) ∧
    ∀ l ∈ labels, ∀ a, .accepted a ∈ l.2 → ∃ d, l.1 = .message a.fd a.message d := by
  have hl := (ledger_initial day).run h
  exact ⟨by simpa using hl.fresh, messages_of_path h⟩

/-- A user handshakes on one connection and, while that one is inside
`auth_handler`, again on a second one with a higher index; then the first
text is replayed on a third. -/
def replayed : List Event :=
  [.login "u".toList "k".toList, .connect 1 "a:1".toList, .connect 2 "a:2".toList,
    .connect 3 "a:3".toList, .message 1 "u:1:k".toList 0, .message 2 "u:2:k".toList 0,
    .message 3 "u:1:k".toList 0]

/-- Of the three handshakes two are accepted, the later one with the
higher index. -/
theorem handshake_freshness_replayed :
    ∃ (a b : Accept) (pre : List Out),
      trace (labelsOf ⟨fun secret _ => secret, some⟩ 8 (initial 0) replayed) =
        pre ++ [.accepted a, .accepted b, .reply 3 "403 Index Expired", .closed 3] ∧
      a.idx.lt b.idx = true ∧ a.message ≠ b.message := by
  refine ⟨⟨1, "u:1:k".toList, "u".toList, "1".toList, .int 1, "k".toList⟩,
    ⟨2, "u:2:k".toList, "u".toList, "2".toList, .int 2, "k".toList⟩,
    [.loggedIn "u".toList "k".toList, .connected 1, .connected 2, .connected 3], ?_, ?_⟩
  · rfl
  · have h := handshake_freshness (path_labelsOf ⟨fun secret _ => secret, some⟩ 8 (initial 0) replayed)
    refine (h.1 [.loggedIn "u".toList "k".toList, .connected 1, .connected 2, .connected 3,
      .accepted ⟨1, "u:1:k".toList, "u".toList, "1".toList, .int 1, "k".toList⟩] _
      [.reply 3 "403 Index Expired", .closed 3] rfl _ rfl).newer _ rfl ?_
    exact ⟨[.loggedIn "u".toList "k".toList, .connected 1, .connected 2, .connected 3], [], rfl,
      by simp⟩

end Gate

end Athena
