import Athena.Account.Reload
import Athena.Entity.Addressing
/-!
# Accounts — registrations and logins

A registration is let through where its name or its password has the
right form; both are meant. Between the `get` that finds no account and
the `add`, another coroutine may register the same name. And a name or a
password that does not come back from redis as it is, or whose row is not
in MySQL, is lost at the next start. In runs without these, a
registration succeeds only for a well formed name without an account, and
a login with its password then returns its uid (`accounts_kept`).
-/

namespace Athena

namespace Account

open Lua
open Entity (Data Op idField)
open Store (Env Keyed uidValue)

variable {L : LoginEnv} {s t : State} {d d' : Data} {recordset : Keyed} {r : Request} {uid : Int64}
  {a : Registered} {c : ℕ} {e : Event}

/-! ## What is wanted -/

/-- The request of a coroutine that has not ended. -/
def Phase.request : Phase → Option Request
  | .asking r | .numbering r | .adding r _ | .storing r _ _ _ => some r
  | .absent | .answered _ => none

/-- The registration of a coroutine that was told there is no such account. -/
def Phase.pending : Phase → Option Request
  | .numbering r | .adding r _ | .storing r _ _ _ => some r
  | .absent | .asking _ | .answered _ => none

/-- **There is an account** with this sdk id and this name. -/
def Exists (recordset : Keyed) (sdkid : Number) (token : Str) : Prop :=
  ∃ v r n, recordset.lookup v = some r ∧ r.lookup sdkidField = some (.num n) ∧
    (Value.num n).asKey = (Value.num sdkid).asKey ∧ (r.lookup pidField).map Value.wire = some token

/-- **A registration that may go on**: the name and the password are well
formed, the sdk id is not written as a float, the account is not in memory
and no other coroutine is about to register it. -/
structure Free (s : State) (c : ℕ) (r : Request) : Prop where
  form : match_name_password r.token = true ∧ match_name_password r.password = true
  whole : ∃ i, r.sdkid = .int i
  vacant : s.data.recordset.lookup (.str (keyText r.sdkid r.token)) = none
  alone : ∀ c' r', c' ≠ c → (s.phase c').pending = some r' →
    keyText r'.sdkid r'.token ≠ keyText r.sdkid r.token

/-- **When a step does no harm**: a registration of what is not in memory that
is let through may go on; at a restart, MySQL has what was registered. -/
def Sound (s : State) : Event → Prop
  | .get c => ∀ r, s.phase c = .asking r → r.param ≠ login →
      s.data.recordset.lookup (.str (keyText r.sdkid r.token)) = none →
      (match_name_password r.token || match_name_password r.password) = true → Free s c r
  | .restart => Durable (s.data.services.mysql account) s.registered
  | _ => True

/-- **The invariant.** -/
structure Inv (s : State) : Prop where
  idle : s.up = false → ∀ c, s.phase c = .absent
  keyed : WellKeyed s.data.recordset
  has : ∀ a ∈ s.registered, Has s.data.recordset a ∧ 1 ≤ a.uid
  free : ∀ c r, (s.phase c).pending = some r → Free s c r
  adding : ∀ c r uid, s.phase c = .adding r uid → 1 ≤ uid
  storing : ∀ c r uid ret row, s.phase c = .storing r uid ret row →
    1 ≤ uid ∧ ret = true ∧ row = register r uid

/-! ## The table in memory -/

/-- **`get`** finds what is under the key: the key is no number. -/
theorem get_eq (n : Number) (p : Str) : Entity.Common.get recordset [.num n, .str p] =
    .ok ((recordset.lookup (.str (keyText n p))).getD ∅) := by
  have hkey : Entity.Common.keyOf [.num n, .str p] = .ok (.str (keyText n p)) := by
    simp [Entity.Common.keyOf, List.intercalate, Value.wire, keyText]
  have hnum : (Value.str (keyText n p)).tonumber = none := tonumber_keyText n p
  simp only [Entity.Common.get, hkey, bind, Except.bind, Entity.Common.find]
  rw [Entity.Common.row_some (k := .str (keyText n p)) rfl, hnum]
  cases recordset.lookup (.str (keyText n p)) <;> rfl

/-- A row under a key has fields. -/
theorem WellKeyed.nonempty (h : WellKeyed recordset) {v : Value} {row : Row}
    (hv : recordset.lookup v = some row) : row.entries ≠ [] := by
  obtain ⟨sdkid, pid, -, hsdkid, -⟩ := h v row hv
  intro hnil
  simp [AList.lookup, hnil] at hsdkid

/-- What is not under its key is no account. -/
theorem WellKeyed.not_exists (h : WellKeyed recordset) {i : Int64} {token : Str}
    (hnone : recordset.lookup (.str (keyText (.int i) token)) = none) :
    ¬ Exists recordset (.int i) token := by
  rintro ⟨v, row, n, hv, hn, heq, htoken⟩
  obtain ⟨sdkid, pid, rfl, hsdkid, hpid⟩ := h v row hv
  obtain rfl : n = .int sdkid := by simpa [hn] using hsdkid
  obtain rfl : pid = token := by simpa [hpid] using htoken
  obtain rfl : sdkid = i := by simpa [Value.asKey] using heq
  rw [hnone] at hv
  cases hv

theorem Has.insert (h : Has recordset a) {k : Str} (hk : recordset.lookup (.str k) = none)
    (row : Row) : Has (recordset.insert (.str k) row) a := by
  obtain ⟨r, hr, hid, hpassword⟩ := h
  refine ⟨r, ?_, hid, hpassword⟩
  rw [AList.lookup_insert_ne]
  · exact hr
  · intro heq
    rw [heq, hk] at hr
    cases hr

/-! ## The row of a registration -/

theorem lookup_register_id : (register r uid).lookup idField = some (uidValue uid) :=
  AList.lookup_insert _

theorem lookup_register_pid : (register r uid).lookup pidField = some (.str r.token) := by
  rw [register, AList.lookup_insert_ne (by decide)]
  exact AList.lookup_insert _

theorem lookup_register_password :
    (register r uid).lookup passwordField = some (.str r.password) := by
  rw [register, AList.lookup_insert_ne (by decide), AList.lookup_insert_ne (by decide)]
  exact AList.lookup_insert _

theorem lookup_register_sdkid : (register r uid).lookup sdkidField = some (.num r.sdkid) := by
  rw [register, AList.lookup_insert_ne (by decide), AList.lookup_insert_ne (by decide),
    AList.lookup_insert_ne (by decide)]
  exact AList.lookup_insert _

theorem getKey_register : Entity.Common.getKey L.env account (register r uid) =
    .ok (some (.str (keyText r.sdkid r.token))) := by
  have hfields : Entity.Common.keyFields L.env account = [sdkidField, pidField] := by
    rw [Entity.Common.keyFields, L.config_eq]
    exact keyFields_eq
  have hnum : (Value.str (keyText r.sdkid r.token)).tonumber = none := tonumber_keyText r.sdkid r.token
  have htext : [pidField].foldlM (Store.appendKey (register r uid))
      ((register r uid).lookup sdkidField) = .ok (some (.str (keyText r.sdkid r.token))) := by
    simp only [List.foldlM_cons, List.foldlM_nil, Store.appendKey, lookup_register_sdkid,
      lookup_register_pid]
    rfl
  simp only [Entity.Common.getKey, hfields, htext, bind, Except.bind, pure, Except.pure, Option.map_some,
    Entity.Common.numberOr, hnum]

/-- **The second half of `add`** puts the row under its key. -/
theorem keepRow_register : Entity.Common.keepRow L.env account true (register r uid) d =
    (.ok (), { d with recordset :=
      d.recordset.insert (.str (keyText r.sdkid r.token)) (register r uid) }) := by
  have hput := Store.asKey_ne_nan (v := .str (keyText r.sdkid r.token)) (by simp) d.recordset
    (register r uid)
  rw [Entity.Common.keepRow, if_pos rfl, Act.lift_bind_ok getKey_register, Act.get_bind_apply,
    Act.lift_bind_ok hput]
  rfl

theorem takeId_register (h : 1 ≤ uid) :
    Entity.takeId L.env account (register r uid) d = (.ok (register r uid), d) := by
  have hlacks : Entity.lacksId ((register r uid).lookup (L.env.schema account).pk) = false := by
    rw [L.pk_eq, lookup_register_id]
    simp only [uidValue, Entity.lacksId, decide_eq_false_iff_not]
    rintro rfl
    exact absurd h (by decide)
  rw [Entity.takeId, hlacks]
  rfl

/-- **The first half of `add`** leaves the table in memory alone. -/
theorem addRow_recordset (row : Row) (nosync : Bool) :
    (Entity.Common.addRow L.env account row nosync d).2.recordset = d.recordset := by
  have hcall : ∀ {α : Type} (x : Store.Call α),
      Act.Keeps (fun d' : Data => d'.recordset = d.recordset) (Entity.call x) := fun x d' h => h
  have hkeeps : Act.Keeps (fun d' : Data => d'.recordset = d.recordset)
      (Entity.Common.addRow L.env account row nosync) := by
    refine Act.keeps_get.bind fun d' => ?_
    split
    · exact Act.keeps_pure none
    · refine Act.Keeps.bind ?_ fun row => (hcall _).bind fun ret => Act.keeps_pure _
      unfold Entity.takeId
      dsimp only
      split
      · exact (hcall _).bind fun id => Act.keeps_pure _
      · exact Act.keeps_pure _
  exact hkeeps d rfl

/-- It answers the row that it was given. -/
theorem addRow_ok {ret : Bool} {row : Row} (h : 1 ≤ uid)
    (hadd : Entity.Common.addRow L.env account (register r uid) false d = (.ok (some (ret, row)), d')) :
    ret = true ∧ row = register r uid := by
  rw [Entity.Common.addRow, Act.get_bind_apply] at hadd
  split at hadd
  · cases hadd
  · rw [Act.bind_ok (takeId_register h)] at hadd
    obtain ⟨ret', d1, hcall, hpure⟩ := Act.bind_eq_ok.mp hadd
    obtain ⟨s', hstore, -⟩ := Entity.Common.call_eq_ok.mp hcall
    cases hpure
    exact ⟨Entity.Common.store_add_true hstore, rfl⟩

/-! ## `auth` -/

theorem uidValue_ne_zero (h : 1 ≤ uid) : (uidValue uid).asKey ≠ uidValue 0 := by
  intro heq
  obtain rfl : uid = 0 := by simpa [uidValue, Value.asKey] using heq
  exact absurd h (by decide)

/-- **A login with the password of an account in memory** returns its uid. -/
theorem afterGet_login (h : Has recordset a) (huid : 1 ≤ a.uid) (server : Str) :
    afterGet recordset ⟨server, a.token, a.password, a.sdkid, login⟩ =
      .answered (.returned 1 server (uidValue a.uid)) := by
  obtain ⟨row, hrow, hid, hpassword⟩ := h
  have hne : row.entries ≠ [] := by
    intro hnil
    simp [AList.lookup, hnil] at hid
  have hauth : auth ⟨server, a.token, a.password, a.sdkid, login⟩ row = .uid (some (uidValue a.uid)) := by
    simp only [auth, if_true, if_neg hne, hpassword, ne_eq, not_true_eq_false, if_false, hid]
  simp only [afterGet, get_eq, hrow, Option.getD_some, hauth, answer, if_neg (uidValue_ne_zero huid)]

/-- **What becomes of a registration**: it goes on where there is no account
and one of the two has the right form, and otherwise it fails. -/
theorem afterGet_registration (hr : r.param ≠ login) (hkeyed : WellKeyed recordset) :
    (afterGet recordset r = .numbering r ∧
      recordset.lookup (.str (keyText r.sdkid r.token)) = none ∧
      (match_name_password r.token || match_name_password r.password) = true) ∨
    afterGet recordset r = .answered .raised ∨
    afterGet recordset r = .answered (.returned 0 r.server (uidValue 0)) := by
  cases hrow : recordset.lookup (.str (keyText r.sdkid r.token)) with
  | none =>
    cases hform : match_name_password r.token || match_name_password r.password with
    | true =>
      left
      refine ⟨?_, rfl, rfl⟩
      simp [afterGet, get_eq, hrow, auth, if_neg hr, hform]
    | false =>
      right
      right
      simp [afterGet, get_eq, hrow, auth, if_neg hr, hform, answer, uidValue, Value.asKey]
  | some row =>
    right
    left
    simp [afterGet, get_eq, hrow, auth, if_neg hr, hkeyed.nonempty hrow, answer]

/-- A login is answered at once. -/
theorem afterGet_login_answered (hr : r.param = login) : ∃ x, afterGet recordset r = .answered x := by
  simp only [afterGet, get_eq, auth, if_pos hr]
  split_ifs <;> exact ⟨_, rfl⟩

/-! ## The invariant -/

@[simp] theorem goto_phase_self (s : State) (c : ℕ) (p : Phase) : (s.goto c p).phase c = p :=
  Function.update_self _ _ _

theorem goto_phase_of_ne {c' : ℕ} (h : c' ≠ c) (s : State) (p : Phase) :
    (s.goto c p).phase c' = s.phase c' :=
  Function.update_of_ne h _ _

/-- A coroutine that stands somewhere runs while the server is up. -/
theorem Inv.up (h : Inv s) (hc : s.phase c ≠ .absent) : s.up = true := by
  by_contra hup
  exact hc (h.idle (by simpa using hup) c)

/-- **What one coroutine does** while the table in memory stays as it is. -/
theorem Inv.goto (h : Inv s) (hup : s.up = true) {p : Phase} (hd : d.recordset = s.data.recordset)
    (hfree : ∀ r, p.pending = some r → Free s c r) (hadding : ∀ r uid, p = .adding r uid → 1 ≤ uid)
    (hstoring : ∀ r uid ret row, p = .storing r uid ret row →
      1 ≤ uid ∧ ret = true ∧ row = register r uid) :
    Inv ({ s with data := d }.goto c p) where
  idle hdown := by
    rw [State.goto, hup] at hdown
    cases hdown
  keyed := by
    have hkeyed := h.keyed
    rwa [← hd] at hkeyed
  has a ha := by
    have hhas := h.has a ha
    rwa [← hd] at hhas
  free c1 r hr := by
    -- who is pending was so before, or is the one that moves
    have hfree1 : Free s c1 r := by
      by_cases hc : c1 = c
      · subst hc
        exact hfree r (by simpa using hr)
      · exact h.free c1 r (by rwa [goto_phase_of_ne hc] at hr)
    refine ⟨hfree1.form, hfree1.whole, by rw [State.goto, hd]; exact hfree1.vacant, ?_⟩
    intro c2 r' hne hr'
    by_cases hc : c2 = c
    · subst hc
      rw [goto_phase_of_ne hne.symm] at hr
      exact ((hfree r' (by simpa using hr')).alone c1 r hne.symm hr).symm
    · exact hfree1.alone c2 r' hne (by rwa [goto_phase_of_ne hc] at hr')
  adding c1 r uid hr := by
    by_cases hc : c1 = c
    · subst hc
      exact hadding r uid (by simpa using hr)
    · exact h.adding c1 r uid (by rwa [goto_phase_of_ne hc] at hr)
  storing c1 r uid ret row hr := by
    by_cases hc : c1 = c
    · subst hc
      exact hstoring r uid ret row (by simpa using hr)
    · exact h.storing c1 r uid ret row (by rwa [goto_phase_of_ne hc] at hr)

/-- **A registration that succeeds** is one more account in memory. -/
theorem Inv.store {ret : Bool} {row : Row} (h : Inv s) (hc : s.phase c = .storing r uid ret row)
    (hd : d.recordset = s.data.recordset.insert (.str (keyText r.sdkid r.token)) (register r uid))
    (x : Answer) :
    Inv ({ s with data := d, registered := ⟨r.token, r.password, r.sdkid, uid⟩ :: s.registered }.goto c
      (.answered x)) := by
  obtain ⟨huid, -, -⟩ := h.storing c r uid ret row hc
  have hfree : Free s c r := h.free c r (by rw [hc]; rfl)
  have hother : ∀ c', ∀ p : Phase, (∀ x, p ≠ .answered x) →
      Function.update s.phase c (.answered x) c' = p → c' ≠ c ∧ s.phase c' = p := by
    intro c' p hp heq
    have hne : c' ≠ c := by
      rintro rfl
      exact hp x (by simpa using heq.symm)
    exact ⟨hne, by rwa [Function.update_of_ne hne] at heq⟩
  have hpending : ∀ c' r', (Function.update s.phase c (.answered x) c').pending = some r' →
      c' ≠ c ∧ (s.phase c').pending = some r' := by
    intro c' r' hr'
    have hne : c' ≠ c := by
      rintro rfl
      simp [Phase.pending] at hr'
    exact ⟨hne, by rwa [Function.update_of_ne hne] at hr'⟩
  constructor
  · intro hdown
    have hup := h.up (c := c) (by simp [hc])
    rw [State.goto, hup] at hdown
    cases hdown
  · intro v row' hv
    rw [State.goto, hd] at hv
    by_cases hkey : v = .str (keyText r.sdkid r.token)
    · subst hkey
      rw [AList.lookup_insert] at hv
      obtain rfl := Option.some.inj hv
      obtain ⟨i, hi⟩ := hfree.whole
      refine ⟨i, r.token, by rw [hi], by rw [lookup_register_sdkid, hi], ?_⟩
      rw [lookup_register_pid]
      rfl
    · rw [AList.lookup_insert_ne hkey] at hv
      exact h.keyed v row' hv
  · intro a ha
    rw [State.goto, hd]
    rcases List.mem_cons.mp ha with rfl | ha
    · refine ⟨⟨register r uid, AList.lookup_insert _, lookup_register_id, ?_⟩, huid⟩
      rw [lookup_register_password]
      rfl
    · exact ⟨(h.has a ha).1.insert hfree.vacant _, (h.has a ha).2⟩
  · intro c1 r1 hr1
    obtain ⟨hne, hr1⟩ := hpending c1 r1 hr1
    have hfree1 := h.free c1 r1 hr1
    refine ⟨hfree1.form, hfree1.whole, ?_, fun c2 r2 hne2 hr2 =>
      hfree1.alone c2 r2 hne2 (hpending c2 r2 hr2).2⟩
    rw [State.goto, hd, AList.lookup_insert_ne]
    · exact hfree1.vacant
    · intro heq
      exact hfree.alone c1 r1 hne hr1 (Value.str.inj heq)
  · intro c1 r1 uid1 hr1
    exact h.adding c1 r1 uid1 (hother c1 _ (by simp) hr1).2
  · intro c1 r1 uid1 ret1 row1 hr1
    exact h.storing c1 r1 uid1 ret1 row1 (hother c1 _ (by simp) hr1).2

/-- **Every sound step preserves the invariant.** -/
theorem inv_step (h : Inv s) (hsound : Sound s e) (hstep : step L s e = some t) : Inv t := by
  have hanswered : ∀ {c : ℕ} {d : Data} (x : Answer), s.up = true → d.recordset = s.data.recordset →
      Inv ({ s with data := d }.goto c (.answered x)) := fun x hup hd =>
    h.goto hup hd (by simp [Phase.pending]) (by simp) (by simp)
  cases e with
  | call c args =>
    obtain ⟨hup, hc, rfl⟩ := step_call.mp hstep
    -- a well formed request is not yet one of a fresh name: it has to be looked up first
    cases parse args with
    | some r => exact h.goto hup rfl (by simp [Phase.pending]) (by simp) (by simp)
    | none => exact hanswered _ hup rfl
  | get c =>
    obtain ⟨r, hc, rfl⟩ := step_get.mp hstep
    have hup := h.up (c := c) (by simp [hc])
    by_cases hr : r.param = login
    · obtain ⟨x, hx⟩ : ∃ x, afterGet s.data.recordset r = .answered x := afterGet_login_answered hr
      rw [hx]
      exact hanswered x hup rfl
    · rcases afterGet_registration hr h.keyed with ⟨heq, hvacant, hform⟩ | heq | heq
      · -- the registration goes on, and here the step is sound
        have hfree : Free s c r := hsound r hc hr hvacant hform
        rw [heq]
        refine h.goto hup rfl (fun r' hr' => ?_) (by simp) (by simp)
        obtain rfl : r = r' := by simpa [Phase.pending] using hr'
        exact hfree
      · rw [heq]
        exact hanswered _ hup rfl
      · rw [heq]
        exact hanswered _ hup rfl
  | get_nextid c =>
    obtain ⟨r, hc, rfl⟩ := step_get_nextid.mp hstep
    have hup := h.up (c := c) (by simp [hc])
    have hfree : Free s c r := h.free c r (by rw [hc]; rfl)
    rcases afterNextid_cases r (Entity.call (Entity.getNextId account idField L.env) s.data).1 with
      ⟨uid, huid, heq⟩ | heq
    · rw [heq]
      refine h.goto hup rfl (fun r' hr' => ?_) (fun r' uid' hp => ?_) (by simp)
      · obtain rfl : r = r' := by simpa [Phase.pending] using hr'
        exact hfree
      · obtain ⟨-, rfl⟩ := Phase.adding.inj hp
        exact huid
    · rw [heq]
      exact hanswered _ hup rfl
  | add c =>
    obtain ⟨r, uid, hc, rfl⟩ := step_add.mp hstep
    have hup := h.up (c := c) (by simp [hc])
    have huid := h.adding c r uid hc
    have hfree : Free s c r := h.free c r (by rw [hc]; rfl)
    rcases afterAdd_cases r uid (Entity.Common.addRow L.env account (register r uid) false s.data).1 with
      ⟨ret, row, hret, heq⟩ | heq
    · rw [heq]
      refine h.goto hup (addRow_recordset _ _) (fun r' hr' => ?_) (by simp) (fun r' uid' ret' row' hp => ?_)
      · obtain rfl : r = r' := by simpa [Phase.pending] using hr'
        exact hfree
      · obtain ⟨rfl, rfl, rfl, rfl⟩ := Phase.storing.inj hp
        exact ⟨huid, addRow_ok huid (Prod.ext hret rfl)⟩
    · rw [heq]
      exact hanswered _ hup (addRow_recordset _ _)
  | store c =>
    obtain ⟨r, uid, ret, row, d, hc, hkeep⟩ := step_store.mp hstep
    obtain ⟨huid, rfl, rfl⟩ := h.storing c r uid ret row hc
    -- the row registered is one the store can keep, so the fault cannot arise
    rcases hkeep with ⟨hkeep, rfl⟩ | ⟨fault, hkeep, -⟩
    · have hd := (Prod.mk.inj (keepRow_register.symm.trans hkeep)).2
      exact h.store hc (by rw [← hd]) _
    · rw [keepRow_register] at hkeep
      cases hkeep
  | restart =>
    -- the table is read back whole, and the calls that were under way are gone
    obtain ⟨d, hstart, hkeyed, hhas⟩ := start_spec (L := L) hsound
    obtain ⟨d', ⟨hstart', rfl⟩ | ⟨fault, hstart', -⟩⟩ := step_restart.mp hstep
    · obtain rfl := (Prod.mk.inj (hstart.symm.trans hstart')).2
      exact ⟨by simp, hkeyed, fun a ha => ⟨hhas a ha, (h.has a ha).2⟩, by simp [Phase.pending], by simp,
        by simp⟩
    · rw [hstart] at hstart'
      cases hstart'

theorem inv_reachable (h : ((system L).restrict Sound).Reachable s) : Inv s := by
  refine h.invariant ?_ ?_
  · rintro s ⟨hup, hempty, habsent, hregistered⟩
    refine ⟨fun _ => habsent, ?_, by simp [hregistered], ?_, ?_, ?_⟩
    · intro v r hr
      rw [hempty] at hr
      simp at hr
    · simp [habsent, Phase.pending]
    · simp [habsent]
    · simp [habsent]
  · rintro s e t ⟨hstep, hsound⟩ hinv
    exact inv_step hinv hsound hstep

/-! ## The accounts are kept -/

/-- The other coroutines stay where they are, or are gone after a restart. -/
theorem step_frame (hstep : step L s e = some t) (hc : e.coroutine ≠ some c) :
    t.phase c = s.phase c ∨ t.phase c = .absent := by
  have hne : ∀ {c'}, some c' ≠ some c → c ≠ c' := fun h heq => h (congrArg some heq.symm)
  cases e with
  | call c' args =>
    obtain ⟨-, -, rfl⟩ := step_call.mp hstep
    exact Or.inl (goto_phase_of_ne (hne hc) _ _)
  | get c' =>
    obtain ⟨r, -, rfl⟩ := step_get.mp hstep
    exact Or.inl (goto_phase_of_ne (hne hc) _ _)
  | get_nextid c' =>
    obtain ⟨r, -, rfl⟩ := step_get_nextid.mp hstep
    exact Or.inl (goto_phase_of_ne (hne hc) _ _)
  | add c' =>
    obtain ⟨r, uid, -, rfl⟩ := step_add.mp hstep
    exact Or.inl (goto_phase_of_ne (hne hc) _ _)
  | store c' =>
    obtain ⟨r, uid, ret, row, d, -, ⟨-, rfl⟩ | ⟨fault, -, rfl⟩⟩ := step_store.mp hstep
    · exact Or.inl (goto_phase_of_ne (hne hc) _ _)
    · exact Or.inl (goto_phase_of_ne (hne hc) _ _)
  | restart =>
    obtain ⟨d, ⟨-, rfl⟩ | ⟨fault, -, rfl⟩⟩ := step_restart.mp hstep
    · exact Or.inr rfl
    · exact Or.inr rfl

/-- **Only the end of `add` makes a registration succeed.** -/
theorem storing_of_returned (h : Inv s) (hstep : step L s e = some t) {server : Str} {v : Value}
    (hr : (s.phase c).request = some r) (hparam : r.param ≠ login)
    (ht : t.phase c = .answered (.returned 1 server v)) :
    e = .store c ∧ ∃ uid ret row, s.phase c = .storing r uid ret row := by
  -- a coroutine that has a request is not the one that was answered before
  have hself : e.coroutine = some c := by
    by_contra hne
    rcases step_frame hstep hne with heq | heq
    · rw [← heq, ht] at hr
      cases hr
    · rw [heq] at ht
      cases ht
  cases e with
  | call c' args =>
    obtain rfl := Option.some.inj hself
    obtain ⟨-, hc, -⟩ := step_call.mp hstep
    rw [hc] at hr
    cases hr
  | get c' =>
    obtain rfl := Option.some.inj hself
    obtain ⟨r', hc, rfl⟩ := step_get.mp hstep
    obtain rfl : r' = r := by simpa [hc, Phase.request] using hr
    rw [goto_phase_self] at ht
    rcases afterGet_registration hparam h.keyed with ⟨heq, -⟩ | heq | heq
    · simp [heq] at ht
    · simp [heq] at ht
    · simp [heq] at ht
  | get_nextid c' =>
    obtain rfl := Option.some.inj hself
    obtain ⟨r', -, rfl⟩ := step_get_nextid.mp hstep
    rw [goto_phase_self] at ht
    rcases afterNextid_cases r' (Entity.call (Entity.getNextId account idField L.env) s.data).1 with
      ⟨uid, -, heq⟩ | heq
    · simp [heq] at ht
    · simp [heq] at ht
  | add c' =>
    obtain rfl := Option.some.inj hself
    obtain ⟨r', uid, -, rfl⟩ := step_add.mp hstep
    rw [goto_phase_self] at ht
    rcases afterAdd_cases r' uid (Entity.Common.addRow L.env account (register r' uid) false s.data).1 with
      ⟨ret, row, -, heq⟩ | heq
    · simp [heq] at ht
    · simp [heq] at ht
  | store c' =>
    obtain rfl := Option.some.inj hself
    obtain ⟨r', uid, ret, row, d, hc, -⟩ := step_store.mp hstep
    obtain rfl : r' = r := by simpa [hc, Phase.request] using hr
    exact ⟨rfl, uid, ret, row, hc⟩
  | restart => cases hself

/-- **Tokens and accounts.** The five fields of a well formed token come back
exactly where the server name and the mode are texts between colons and
neither the name nor the password has a colon. In a run of sound steps, a
registration succeeds only for a well formed name and password without an
account, and then a login with them returns the uid that it returned. -/
theorem accounts_kept (L : LoginEnv) :
    (∀ (server token password : Str) (sdkid : Int64) (param : Str),
      match_name_password token = true → match_name_password password = true →
      (parse (joined server token password sdkid param) =
          some ⟨server, token, password, .int sdkid, param⟩ ↔
        Between ':' server ∧ ':' ∉ token ∧ ':' ∉ password ∧ Between ':' param)) ∧
    ∀ s, ((system L).restrict Sound).Reachable s →
      (∀ e t, step L s e = some t → ∀ c r server v, (s.phase c).request = some r → r.param ≠ login →
        t.phase c = .answered (.returned 1 server v) →
        (match_name_password r.token = true ∧ match_name_password r.password = true) ∧
          ¬ Exists s.data.recordset r.sdkid r.token ∧ server = r.server ∧
          ∃ uid, v = uidValue uid ∧ ⟨r.token, r.password, r.sdkid, uid⟩ ∈ t.registered) ∧
      ∀ a ∈ s.registered, ∀ c server,
        s.phase c = .asking ⟨server, a.token, a.password, a.sdkid, login⟩ →
        step L s (.get c) = some (s.goto c (.answered (.returned 1 server (uidValue a.uid)))) := by
  refine ⟨fun server token password sdkid param htoken hpassword =>
    parse_iff sdkid htoken hpassword, fun s hreach => ?_⟩
  have hinv := inv_reachable hreach
  refine ⟨fun e t hstep c r server v hr hparam ht => ?_, fun a ha c server hc => ?_⟩
  · obtain ⟨rfl, uid, ret, row, hc⟩ := storing_of_returned hinv hstep hr hparam ht
    obtain ⟨huid, rfl, rfl⟩ := hinv.storing c r uid ret row hc
    have hfree : Free s c r := hinv.free c r (by rw [hc]; rfl)
    simp only [step, hc, keepRow_register] at hstep
    cases hstep
    rw [goto_phase_self, answer, if_neg (uidValue_ne_zero huid)] at ht
    obtain ⟨rfl, rfl⟩ : r.server = server ∧ uidValue uid = v := by simpa using ht
    refine ⟨hfree.form, ?_, rfl, uid, rfl, List.mem_cons_self⟩
    obtain ⟨i, hi⟩ := hfree.whole
    have hvacant := hfree.vacant
    rw [hi] at hvacant ⊢
    exact hinv.keyed.not_exists hvacant
  · obtain ⟨hhas, huid⟩ := hinv.has a ha
    simp only [step, hc, afterGet_login hhas huid]

/-! ## Runs -/

theorem run_append {es fs : List Event} :
    run L s (es ++ fs) = some t ↔ ∃ u, run L s es = some u ∧ run L u fs = some t := by
  simp [run, List.foldlM_append, Option.bind_eq_some_iff]

theorem run_singleton : run L s [e] = some t ↔ step L s e = some t := by
  simp [run]

/-- **What each step of a run reaches, the run reaches.** -/
theorem reachable_of_run {C : State → Event → Prop} {es : List Event}
    (hC : ∀ s, ∀ e ∈ es, C s e) (hs : ((system L).restrict C).Reachable s) (h : run L s es = some t) :
    ((system L).restrict C).Reachable t := by
  induction es generalizing s with
  | nil =>
    obtain rfl : s = t := by simpa [run] using h
    exact hs
  | cons e es ih =>
    obtain ⟨u, hu, ht⟩ := run_append.mp (show run L s ([e] ++ es) = some t from h)
    exact ih (fun s e he => hC s e (List.mem_cons_of_mem _ he))
      (hs.step ⟨run_singleton.mp hu, hC s e List.mem_cons_self⟩) ht

/-- A login server whose table has the columns that `register` writes. -/
def accountEnv : LoginEnv where
  env :=
    { maxconn := 1
      schema := fun _ => ⟨idField, fun f =>
        if f = idField ∨ f = sdkidField then some .number
        else if f = pidField ∨ f = passwordField then some .string else none⟩
      configs := fun typ tb =>
        if typ = .common then some ⟨tb, "sdkid,pid".toList, some idField⟩ else none
      maxconn_pos := Nat.zero_lt_one
      name_eq := by
        intro typ tb c h
        split_ifs at h
        rw [← Option.some.inj h] }
  config_eq := rfl
  pk_eq := rfl
  id_number := by decide
  sdkid_number := by decide
  pid_text := by decide
  password_text := by decide

/-- No accounts, before the first start. -/
def noAccounts : State := ⟨⟨⟨fun _ => ∅, fun _ => []⟩, ∅⟩, false, fun _ => .absent, []⟩

theorem noAccounts_init : (system accountEnv).init noAccounts := ⟨rfl, rfl, fun _ => rfl, rfl⟩

/-- A registration, from its token to its answer. -/
def registration (c : ℕ) (args : Str) : List Event :=
  [.call c args, .get c, .get_nextid c, .add c, .store c]

/-- **Four ways to break it.** A password with a colon makes six fields. A name
of one letter is registered with a password that is well formed. Two
coroutines register one name. A password of digits that begins with a
zero is another after a restart. -/
theorem accounts_not_kept :
    (match_name_password "player01".toList = true ∧ match_name_password "abc:1234".toList = true ∧
      parse (joined "game".toList "player01".toList "abc:1234".toList 1 login) = none) ∧
    (∃ s a, (system accountEnv).Reachable s ∧ a ∈ s.registered ∧
      match_name_password a.token = false) ∧
    (∃ s a b, (system accountEnv).Reachable s ∧ s.registered = [a, b] ∧ a.sdkid = b.sdkid ∧
      a.token = b.token) ∧
    ∃ s a t, (system accountEnv).Reachable s ∧ s.registered = [a] ∧
      match_name_password a.token = true ∧ match_name_password a.password = true ∧
      s.phase 2 = .asking ⟨"game".toList, a.token, a.password, a.sdkid, login⟩ ∧
      step accountEnv s (.get 2) = some t ∧
      t.phase 2 = .answered (.returned 0 "game".toList (uidValue 0)) := by
  have hreach : ∀ {es : List Event} {s : State}, run accountEnv noAccounts es = some s →
      (system accountEnv).Reachable s := fun h =>
    (reachable_of_run (C := fun _ _ => True) (fun _ _ _ => trivial) (.of_init noAccounts_init)
      h).of_restrict
  refine ⟨by decide +kernel, ?_, ?_, ?_⟩
  · obtain ⟨s, hs, hregistered⟩ := Option.map_eq_some_iff.mp
      (show (run accountEnv noAccounts
          (.restart :: registration 1 "game:x:password1:1:Register".toList)).map State.registered =
        some [⟨"x".toList, "password1".toList, .int 1, 1⟩] by decide +kernel)
    exact ⟨s, _, hreach hs, by rw [hregistered]; exact List.mem_singleton_self _, by decide +kernel⟩
  · obtain ⟨s, hs, hregistered⟩ := Option.map_eq_some_iff.mp
      (show (run accountEnv noAccounts [.restart, .call 1 "game:player01:password1:1:Register".toList,
          .call 2 "game:player01:password2:1:Register".toList, .get 1, .get 2, .get_nextid 1, .add 1,
          .store 1, .get_nextid 2, .add 2, .store 2]).map State.registered =
        some [⟨"player01".toList, "password2".toList, .int 1, 2⟩,
          ⟨"player01".toList, "password1".toList, .int 1, 1⟩] by decide +kernel)
    exact ⟨s, _, _, hreach hs, hregistered, rfl, rfl⟩
  · obtain ⟨t, ht, hphase⟩ := Option.map_eq_some_iff.mp
      (show (run accountEnv noAccounts (.restart ::
          registration 1 "game:player01:00001234:1:Register".toList ++
            [.restart, .call 2 "game:player01:00001234:1:Login".toList] ++ [.get 2])).map
          (fun s => s.phase 2) = some (.answered (.returned 0 "game".toList (uidValue 0)))
        by decide +kernel)
    obtain ⟨s, hs, hget⟩ := run_append.mp ht
    have hview : (run accountEnv noAccounts (.restart ::
          registration 1 "game:player01:00001234:1:Register".toList ++
            [.restart, .call 2 "game:player01:00001234:1:Login".toList])).map
          (fun s => (s.registered, s.phase 2)) =
        some ([⟨"player01".toList, "00001234".toList, .int 1, 1⟩],
          .asking ⟨"game".toList, "player01".toList, "00001234".toList, .int 1, login⟩) := by
      decide +kernel
    rw [hs, Option.map_some, Option.some.injEq, Prod.mk.injEq] at hview
    exact ⟨s, _, t, hreach hs, hview.1, by decide +kernel, by decide +kernel, hview.2,
      run_singleton.mp hget, hphase⟩

/-- The four columns of a row. -/
def columns (row : Row) : List (Option Value) :=
  [row.lookup idField, row.lookup sdkidField, row.lookup pidField, row.lookup passwordField]

/-- The token of a registration, and of a login. -/
def playerToken (param : Str) : Str := joined "game".toList "player01".toList "password1".toList 1 param

/-- The one step of the registration that asks something of the state. -/
theorem sound_get_player (h : run accountEnv noAccounts [.restart, .call 1 (playerToken "Register".toList)] =
    some s) : Sound s (.get 1) := by
  obtain ⟨s1, h1, h2⟩ := run_append.mp
    (show run accountEnv noAccounts ([.restart] ++ [.call 1 (playerToken "Register".toList)]) = some s
      from h)
  have hview : (run accountEnv noAccounts [.restart, .call 1 (playerToken "Register".toList)]).map
      (fun s => s.phase 1) = some (.asking ⟨"game".toList, "player01".toList, "password1".toList, .int 1,
        "Register".toList⟩) := by
    decide +kernel
  rw [h, Option.map_some, Option.some.injEq] at hview
  intro r hr _ hvacant _
  obtain rfl := Phase.asking.inj (hview.symm.trans hr)
  refine ⟨by decide +kernel, ⟨1, rfl⟩, hvacant, fun c' r' hne hr' => ?_⟩
  -- nobody else has come
  have habsent : s.phase c' = .absent := by
    have hcall := step_frame (c := c') (run_singleton.mp h2) (by simpa [Event.coroutine] using hne.symm)
    have hstart := step_frame (c := c') (run_singleton.mp h1) (by simp [Event.coroutine])
    rcases hcall with hcall | hcall
    · rcases hstart with hstart | hstart
      · rw [hcall, hstart]
        rfl
      · rw [hcall, hstart]
    · exact hcall
  rw [habsent] at hr'
  cases hr'

/-- An account that is registered, and logs in after a restart. -/
theorem accounts_kept_player : ∃ s a, ((system accountEnv).restrict Sound).Reachable s ∧
    a ∈ s.registered ∧ step accountEnv s (.get 2) =
      some (s.goto 2 (.answered (.returned 1 "game".toList (uidValue a.uid)))) := by
  have hview : (run accountEnv noAccounts ([.restart, .call 1 (playerToken "Register".toList)] ++
      [.get 1] ++ [.get_nextid 1, .add 1, .store 1] ++ [.restart] ++ [.call 2 (playerToken login)])).map
        (fun s => (s.registered, s.phase 2)) =
      some ([⟨"player01".toList, "password1".toList, .int 1, 1⟩], .asking ⟨"game".toList,
        "player01".toList, "password1".toList, .int 1, login⟩) := by
    decide +kernel
  obtain ⟨s, hs, hview⟩ := Option.map_eq_some_iff.mp hview
  obtain ⟨hregistered, hphase⟩ := Prod.mk.inj hview
  obtain ⟨s4, h4, hlogin⟩ := run_append.mp hs
  obtain ⟨s3, h3, hrestart⟩ := run_append.mp h4
  obtain ⟨s2, h2, hstore⟩ := run_append.mp h3
  obtain ⟨s1, h1, hget⟩ := run_append.mp h2
  -- the row is in MySQL when the server restarts
  have hdurable : Durable (s3.data.services.mysql account) s3.registered := by
    have hrows : (run accountEnv noAccounts ([.restart, .call 1 (playerToken "Register".toList)] ++
        [.get 1] ++ [.get_nextid 1, .add 1, .store 1])).map (fun s => (s.registered,
          (s.data.services.mysql account).map columns)) =
        some ([⟨"player01".toList, "password1".toList, .int 1, 1⟩], [[some (uidValue 1),
          some (.num (.int 1)), some (.str "player01".toList), some (.str "password1".toList)]]) := by
      decide +kernel
    rw [h3, Option.map_some, Option.some.injEq, Prod.mk.injEq] at hrows
    obtain ⟨hregistered, hrows⟩ := hrows
    obtain ⟨row, hrows, hrow⟩ := List.map_eq_singleton_iff.mp hrows
    obtain ⟨hid, hsdkid, hpid, hpassword⟩ : row.lookup idField = some (uidValue 1) ∧
        row.lookup sdkidField = some (.num (.int 1)) ∧ row.lookup pidField = some (.str "player01".toList) ∧
        row.lookup passwordField = some (.str "password1".toList) := by
      simpa [columns] using hrow
    rw [hrows, hregistered]
    refine ⟨?_, by simp, by simp, ?_⟩
    · intro row' hrow'
      obtain rfl := List.mem_singleton.mp hrow'
      exact ⟨1, 1, "player01".toList, ⟨hid, hsdkid, hpid⟩, by decide +kernel⟩
    · intro a ha
      obtain rfl := List.mem_singleton.mp ha
      exact ⟨row, List.mem_singleton_self _, 1, rfl, ⟨hid, hsdkid, hpid⟩, hpassword, by decide +kernel⟩
  have hfirst : Sound noAccounts .restart := by
    refine ⟨?_, ?_, ?_, ?_⟩ <;> simp [noAccounts]
  obtain ⟨s0, h0, hcall⟩ := run_append.mp
    (show run accountEnv noAccounts ([.restart] ++ [.call 1 (playerToken "Register".toList)]) = some s1
      from h1)
  have hreach0 : ((system accountEnv).restrict Sound).Reachable noAccounts :=
    System.Reachable.of_init (T := (system accountEnv).restrict Sound) noAccounts_init
  have hreach1 := (hreach0.step ⟨run_singleton.mp h0, hfirst⟩).step ⟨run_singleton.mp hcall, trivial⟩
  have hreach2 := hreach1.step ⟨run_singleton.mp hget, sound_get_player h1⟩
  have hreach3 := reachable_of_run (by simp [Sound]) hreach2 hstore
  have hreach4 := hreach3.step ⟨run_singleton.mp hrestart, hdurable⟩
  have hreach := hreach4.step ⟨run_singleton.mp hlogin, trivial⟩
  refine ⟨s, _, hreach, by rw [hregistered]; exact List.mem_singleton_self _, ?_⟩
  exact ((accounts_kept accountEnv).2 s hreach).2 ⟨"player01".toList, "password1".toList, .int 1, 1⟩
    (by rw [hregistered]; exact List.mem_singleton_self _) 2 _ hphase

end Account

end Athena
