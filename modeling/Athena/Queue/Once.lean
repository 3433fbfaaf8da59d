import Athena.Queue.Ends
/-!
# Business queues — every run of an entry

The entry is gone, or nothing has begun, or one coroutine is ending it.
Every step of a run with one end at a time leads from one of these to one
of these.
-/

namespace Athena

namespace Queue

open Lua

variable {market : Str → Bool} {bqid : ℕ} {r row : Row} {d d' : Data} {s t : State}

/-- **How far the entry is.** -/
inductive Phase (market : Str → Bool) (bqid : ℕ) (r : Row) (s : State) : Prop
  | ended (gone : s.db.rows bqid = none) (before : Before s.completing) (removals : s.removals = [])
      (how : Delivered bqid r s.db ∨ Cancelled market bqid r s.db) (out : Unlisted bqid s.db)
  | idle (row : Present bqid r s.db) (before : Before s.completing) (removals : s.removals = [])
      (untouched : Untouched bqid s.db)
  | completing (c : Completion) (row : Present bqid r s.db) (at' : s.completing = some c)
      (removals : s.removals = []) (inv : c.Inv bqid r s.db)
  | removing (m : Removal) (row : Present bqid r s.db) (before : Before s.completing)
      (removals : s.removals = [m]) (transport : r.type = .airfreighter)
      (returnable : Returnable market r) (granted : s.db.granted bqid = [])
      (awarded : s.db.awarded bqid = []) (inv : m.Inv market bqid r s.db)

/-- **The invariant.** -/
structure Inv (market : Str → Bool) (bqid : ℕ) (r : Row) (s : State) : Prop where
  listed : Listed bqid r s.db
  phase : Phase market bqid r s
  due : (s.db.rows bqid).isSome → s.Due

/-! ## What the other steps leave alone -/

theorem Del.Transport.frame {x : Del} (h : x.Transport bqid r d)
    (hout : Unlisted bqid d → Unlisted bqid d') : x.Transport bqid r d' := by
  cases x with
  | delete => exact hout h
  | _ => exact h

theorem Del.Awards.frame {x : Del} (h : x.Awards bqid r d) (ha : d'.awarded bqid = d.awarded bqid)
    (hout : Unlisted bqid d → Unlisted bqid d') : x.Awards bqid r d' := by
  cases x with
  | get => exact ha.trans h
  | queueinfo row => exact ⟨h.1, ha.trans h.2⟩
  | award row info => exact ⟨h.1, ha.trans h.2.1, h.2.2⟩
  | ing row info =>
    obtain ⟨hsame, ⟨id, haward⟩, hcount⟩ := h
    exact ⟨hsame, ⟨id, ha.trans haward⟩, hcount⟩
  | fin row info =>
    obtain ⟨hsame, ⟨id, haward⟩, hun⟩ := h
    exact ⟨hsame, ⟨id, ha.trans haward⟩, hout hun⟩
  | delete =>
    obtain ⟨⟨id, haward⟩, hun⟩ := h
    exact ⟨⟨id, ha.trans haward⟩, hout hun⟩
  | lane row info => exact h.elim

theorem Completion.Inv.frame {c : Completion} (h : c.Inv bqid r d) (hl : Logs bqid d d')
    (hout : Unlisted bqid d → Unlisted bqid d') : c.Inv bqid r d' := by
  cases c with
  | check => exact h.elim
  | get_nextid row => exact ⟨h.1, h.2.1, h.2.2.logs hl⟩
  | removeto_end row id => exact ⟨h.1, h.2.1, h.2.2.logs hl⟩
  | blueprints row bps =>
    obtain ⟨hr, hsame, ha, hret, done, hbps, hg⟩ := h
    exact ⟨hr, hsame, hl.awarded.trans ha, hl.returned.trans hret, done, hbps, hl.granted.trans hg⟩
  | props row ps =>
    obtain ⟨hr, hsame, ha, hret, done, hps, hg⟩ := h
    exact ⟨hr, hsame, hl.awarded.trans ha, hl.returned.trans hret, done, hps, hl.granted.trans hg⟩
  | del n x =>
    obtain ⟨hg, hret, ⟨hr, ha, hx⟩ | ⟨hr, hn, hx⟩⟩ := h
    · exact ⟨hl.granted.trans hg, hl.returned.trans hret,
        Or.inl ⟨hr, hl.awarded.trans ha, hx.frame hout⟩⟩
    · exact ⟨hl.granted.trans hg, hl.returned.trans hret,
        Or.inr ⟨hr, hn, hx.frame hl.awarded hout⟩⟩

theorem Removal.Inv.frame {m : Removal} (h : m.Inv market bqid r d) (hl : Logs bqid d d')
    (hout : Unlisted bqid d → Unlisted bqid d') : m.Inv market bqid r d' := by
  cases m with
  | blueprints uid bps ps =>
    obtain ⟨hu, hps, done, hbps, hd⟩ := h
    exact ⟨hu, hps, done, hbps, hl.returned.trans hd⟩
  | props uid ps =>
    obtain ⟨hu, done, hps, hd⟩ := h
    exact ⟨hu, done, hps, hl.returned.trans hd⟩
  | del x => exact ⟨hl.returned.trans h.1, h.2.frame hout⟩

/-- **A step that is no end's**: the row changes in its end time at most, the
lists get the entry no oftener, and no end goes on. -/
structure Aside (bqid : ℕ) (r : Row) (s t : State) : Prop where
  gone : s.db.rows bqid = none → t.db.rows bqid = none
  row : Present bqid r s.db → Present bqid r t.db
  logs : Logs bqid s.db t.db
  listed : Listed bqid r s.db → Listed bqid r t.db
  out : Unlisted bqid s.db → Unlisted bqid t.db
  completing : t.completing = s.completing ∨ Before s.completing ∧ Before t.completing
  removals : t.removals = s.removals

theorem Aside.before (h : Aside bqid r s t) (hb : Before s.completing) : Before t.completing := by
  rcases h.completing with heq | ⟨-, hb'⟩
  · rw [heq]
    exact hb
  · exact hb'

theorem Phase.aside (hp : Phase market bqid r s) (h : Aside bqid r s t) : Phase market bqid r t := by
  cases hp with
  | ended gone before removals how out =>
    exact .ended (h.gone gone) (h.before before) (h.removals.trans removals)
      (how.imp (fun hd => hd.logs h.logs) fun hc => hc.logs h.logs) (h.out out)
  | idle row before removals untouched =>
    exact .idle (h.row row) (h.before before) (h.removals.trans removals) (untouched.logs h.logs)
  | completing c row at' removals inv =>
    rcases h.completing with heq | ⟨hb, -⟩
    · exact .completing c (h.row row) (heq.trans at') (h.removals.trans removals)
        (inv.frame h.logs h.out)
    · -- it is past its look at the row
      rw [at'] at hb
      cases c with
      | check => exact inv.elim
      | _ => exact hb.elim
  | removing m row before removals transport returnable granted awarded inv =>
    exact .removing m (h.row row) (h.before before) (h.removals.trans removals) transport returnable
      (h.logs.granted.trans granted) (h.logs.awarded.trans awarded) (inv.frame h.logs h.out)

/-- A step that leaves the data alone. -/
theorem Aside.of_db (hdb : t.db = s.db)
    (hc : t.completing = s.completing ∨ Before s.completing ∧ Before t.completing)
    (hm : t.removals = s.removals) : Aside bqid r s t where
  gone h := hdb ▸ h
  row h := hdb ▸ h
  logs := hdb ▸ Logs.refl
  listed h := hdb ▸ h
  out h := hdb ▸ h
  completing := hc
  removals := hm

theorem Inv.aside (hi : Inv market bqid r s) (h : Aside bqid r s t)
    (hdue : (t.db.rows bqid).isSome → t.Due) : Inv market bqid r t :=
  ⟨h.listed hi.listed, hi.phase.aside h, hdue⟩

@[simp] theorem await_db {b : Bool} {e : ℤ} : (s.await b e).db = s.db := by
  unfold State.await
  split <;> rfl

@[simp] theorem await_completing {b : Bool} {e : ℤ} :
    (s.await b e).completing = s.completing := by
  unfold State.await
  split <;> rfl

@[simp] theorem await_removals {b : Bool} {e : ℤ} : (s.await b e).removals = s.removals := by
  unfold State.await
  split <;> rfl

theorem await_due {b : Bool} {e : ℤ} : (s.await b e).Due := by
  unfold State.await
  split
  · exact Or.inr (Or.inl (Nat.succ_pos _))
  · exact Or.inl (List.cons_ne_nil _ _)

/-! ## The steps -/

/-- The coroutine in `cs` goes on. -/
theorem Inv.complete {c : Completion} (hi : Inv market bqid r s) (hc : s.completing = some c)
    (hapart : Apart market bqid s .complete) :
    Inv market bqid r
      { s with completing := (c.step bqid s.db).1, db := (c.step bqid s.db).2 } := by
  -- past its look at the row the phase is its own
  cases hi.phase with
  | ended gone before removals how out =>
    rw [hc] at before
    cases c with
    | check =>
      have hstep : Completion.check.step bqid s.db = (none, s.db) := by
        simp only [Completion.step, gone]
      rw [hstep]
      exact ⟨hi.listed, .ended gone trivial removals how out, fun h => by simp [gone] at h⟩
    | _ => exact before.elim
  | idle row before removals untouched =>
    rw [hc] at before
    cases c with
    | check =>
      obtain ⟨c', hstep, hinv⟩ := Completion.step_check row untouched
      rw [hstep]
      exact ⟨hi.listed, .completing c' row rfl removals hinv, fun _ => Or.inr (Or.inr (Or.inl rfl))⟩
    | _ => exact before.elim
  | completing c₀ row at' removals inv =>
    obtain rfl : c₀ = c := Option.some.inj (at'.symm.trans hc)
    obtain ⟨hl, ⟨c', hc', hinv, hp⟩ | ⟨hc', hgone, hdel, hout⟩⟩ := Completion.step_inv row hi.listed inv
    · exact ⟨hl, .completing c' hp hc' removals hinv,
        fun _ => Or.inr (Or.inr (Or.inl (by simp [hc'])))⟩
    · refine ⟨hl, .ended hgone ?_ removals (Or.inl hdel) hout, fun h => ?_⟩
      · simp [hc', Before]
      · simp [hgone] at h
  | removing m row before removals =>
    -- it may not look at the row now
    obtain ⟨row', hrow, -⟩ := row
    have hnil := hapart before (by simp [hrow])
    rw [hnil] at removals
    cases removals

/-- A `removebq` begins. -/
theorem Inv.removebq {uid : ℤ} (hi : Inv market bqid r s) (hrow : s.db.rows bqid = some row)
    (huid : row.playerid = uid) (hapart : Apart market bqid s (.removebq uid)) :
    Inv market bqid r { s with
      removals := .blueprints uid row.bprewardlist row.proprewardlist :: s.removals } := by
  obtain ⟨htype, hret, hbefore, hnil⟩ := hapart row hrow huid
  refine ⟨hi.listed, ?_, hi.due⟩
  cases hi.phase with
  | ended gone before removals how out =>
    rw [hrow] at gone
    cases gone
  | idle hp before removals untouched =>
    obtain ⟨row', hrow', e, rfl⟩ := hp
    obtain rfl : { r with endtime := e } = row := Option.some.inj (hrow'.symm.trans hrow)
    refine .removing (.blueprints uid r.bprewardlist r.proprewardlist) ⟨_, hrow, e, rfl⟩ before ?_
      htype hret untouched.granted untouched.awarded ⟨huid.symm, rfl, [], rfl, untouched.returned⟩
    change _ :: s.removals = _
    rw [removals]
  | completing c hp at' removals inv =>
    rw [at'] at hbefore
    cases c with
    | check => exact inv.elim
    | _ => exact hbefore.elim
  | removing m hp before removals =>
    rw [hnil] at removals
    cases removals

/-- A `removebq` goes on. -/
theorem Inv.remove {k : ℕ} {m : Removal} (hi : Inv market bqid r s)
    (hk : s.removals[k]? = some m) :
    Inv market bqid r { s with
      removals := (m.step market bqid s.db).1.toList ++ s.removals.eraseIdx k
      db := (m.step market bqid s.db).2 } := by
  have hsome : s.removals ≠ [] := by
    rintro hnil
    simp [hnil] at hk
  cases hi.phase with
  | ended gone before removals how out => exact absurd removals hsome
  | idle hp before removals untouched => exact absurd removals hsome
  | completing c hp at' removals inv => exact absurd removals hsome
  | removing m₀ hp before removals transport returnable granted awarded inv =>
    rw [removals] at hk
    obtain ⟨rfl, rfl⟩ : k = 0 ∧ m₀ = m := by
      cases k with
      | zero => exact ⟨rfl, Option.some.inj hk⟩
      | succ k => simp at hk
    obtain ⟨hl, ⟨m', hm', hinv, hg, ha, hp'⟩ | ⟨hm', hgone, hcan, hout⟩⟩ :=
      Removal.step_inv transport returnable hp hi.listed granted awarded inv
    · refine ⟨hl, .removing m' hp' before ?_ transport returnable hg ha hinv, fun _ => ?_⟩
      · simp [hm', removals]
      · obtain ⟨row, hrow, -⟩ := hp
        exact hi.due (by simp [hrow])
    · refine ⟨hl, .ended hgone before ?_ (Or.inr hcan) hout, fun h => ?_⟩
      · simp [hm', removals]
      · simp [hgone] at h

/-- A restart. -/
theorem Inv.restart (hi : Inv market bqid r s) (hapart : Apart market bqid s .restart) :
    Inv market bqid r { s with
      timers := [], waiting := 0, completing := none, speeding := [], removals := []
      flagging := (s.db.rows bqid).isSome } := by
  refine ⟨hi.listed, ?_, fun h => Or.inr (Or.inr (Or.inr h))⟩
  have hidle : Present bqid r s.db → Phase market bqid r { s with
      timers := [], waiting := 0, completing := none, speeding := [], removals := []
      flagging := (s.db.rows bqid).isSome } := by
    rintro ⟨row, hrow, hsame⟩
    rcases hapart with hnone | hu
    · rw [hnone] at hrow
      cases hrow
    · exact .idle ⟨row, hrow, hsame⟩ trivial rfl hu
  cases hi.phase with
  | ended gone before removals how out => exact .ended gone trivial rfl how out
  | idle hp => exact hidle hp
  | completing c hp => exact hidle hp
  | removing m hp => exact hidle hp

/-- An `addspeed` sets the end time. -/
theorem aside_setendtime {e : ℤ} {b : Bool} {l : List ℤ} :
    Aside bqid r s
      ({ s with speeding := l, db := s.db.setendtime bqid e }.await b e) where
  gone h := by simp [h]
  row h := by
    obtain ⟨row, hrow, hsame⟩ := h
    exact ⟨_, by simp [hrow], hsame.setendtime e⟩
  logs := by
    rw [await_db]
    exact ⟨rfl, rfl, rfl⟩
  listed h := by
    rw [await_db]
    exact h
  out h := by
    rw [await_db]
    exact h
  completing := Or.inl (by simp)
  removals := by simp

/-- **Every step of a run with one end at a time keeps the invariant.** -/
theorem inv_step {e : Event} (hi : Inv market bqid r s) (hstep : step market bqid s e = some t)
    (hapart : Apart market bqid s e) : Inv market bqid r t := by
  cases e with
  | tick =>
    cases hstep
    exact hi.aside (.of_db rfl (Or.inl rfl) rfl) hi.due
  | fire e =>
    simp only [step] at hstep
    split at hstep
    · cases hstep
      exact hi.aside (.of_db rfl (Or.inl rfl) rfl) fun _ => Or.inr (Or.inl (Nat.succ_pos _))
    · cases hstep
  | enter =>
    simp only [step] at hstep
    split at hstep
    · -- the end begun is at its first line, and has written nothing
      rename_i hfree
      cases hstep
      have hnone : s.completing = none := Option.isNone_iff_eq_none.mp hfree.1
      refine hi.aside (.of_db rfl (Or.inr ⟨?_, trivial⟩) rfl) fun _ => Or.inr (Or.inr (Or.inl rfl))
      rw [hnone]
      trivial
    · cases hstep
  | complete =>
    obtain ⟨c, hc, rfl⟩ := Option.map_eq_some_iff.mp hstep
    exact hi.complete hc hapart
  | addspeed difftime =>
    simp only [step] at hstep
    split at hstep
    · cases hstep
      exact hi
    · cases hstep
      exact hi.aside (.of_db rfl (Or.inl rfl) rfl) hi.due
  | speed k =>
    obtain ⟨e, he, rfl⟩ := Option.map_eq_some_iff.mp hstep
    exact hi.aside aside_setendtime fun _ => await_due
  | removebq uid =>
    simp only [step] at hstep
    split at hstep
    · cases hstep
      exact hi
    · rename_i row hrow
      split at hstep
      · rename_i huid
        cases hstep
        exact hi.removebq hrow huid hapart
      · cases hstep
        exact hi
  | remove k =>
    obtain ⟨m, hm, rfl⟩ := Option.map_eq_some_iff.mp hstep
    exact hi.remove hm
  | write uid c ids =>
    -- a list that is written from outside: `Apart` keeps it from listing the id anew
    cases hstep
    have haside : Aside bqid r s { s with db := s.db.setvalue uid c ids } :=
      { gone := fun h => h
        row := fun h => h
        logs := ⟨rfl, rfl, rfl⟩
        listed := fun h => h.setvalue hapart
        out := fun h => h.setvalue hapart
        completing := Or.inl rfl
        removals := rfl }
    exact hi.aside haside hi.due
  | restart =>
    cases hstep
    exact hi.restart hapart
  | reflag =>
    simp only [step] at hstep
    split at hstep
    · split at hstep
      · rename_i hrow
        cases hstep
        exact hi.aside (.of_db rfl (Or.inl rfl) rfl) fun h => by simp [hrow] at h
      · cases hstep
        exact hi.aside (.of_db (by simp) (Or.inl (by simp)) (by simp)) fun _ => await_due
    · cases hstep

/-! ## Runs -/

theorem Created.inv (h : Created bqid r s) : Inv market bqid r s where
  listed uid c hc := (h.listed uid c hc).le
  phase := .idle ⟨r, h.row, Row.Same.refl⟩ (by rw [h.completing]; trivial) h.removals h.untouched
  due _ := Or.inl (by simp [h.timers])

theorem grants_prefix {c : Completion} (hc : c.Inv bqid r d) : d.granted bqid <+: r.grants := by
  cases c with
  | check => exact hc.elim
  | get_nextid row =>
    rw [hc.2.2.granted]
    exact List.nil_prefix
  | removeto_end row id =>
    rw [hc.2.2.granted]
    exact List.nil_prefix
  | blueprints row bps =>
    obtain ⟨hr, -, -, -, done, hbps, hg⟩ := hc
    rw [hg, Row.grants_transport hr, hbps, List.map_append, List.append_assoc]
    exact List.prefix_append _ _
  | props row ps =>
    obtain ⟨hr, -, -, -, done, hps, hg⟩ := hc
    rw [hg, Row.grants_transport hr, hps, List.filterMap_append, ← List.append_assoc]
    exact List.prefix_append _ _
  | del n x => exact hc.1 ▸ List.prefix_rfl

theorem awarded_of_inv {c : Completion} (hc : c.Inv bqid r d) :
    (d.awarded bqid = [] ∨ r.type ≠ .airfreighter ∧ ∃ id, d.awarded bqid = [r.award id]) ∧
      d.returned bqid = [] := by
  cases c with
  | check => exact hc.elim
  | get_nextid row => exact ⟨Or.inl hc.2.2.awarded, hc.2.2.returned⟩
  | removeto_end row id => exact ⟨Or.inl hc.2.2.awarded, hc.2.2.returned⟩
  | blueprints row bps => exact ⟨Or.inl hc.2.2.1, hc.2.2.2.1⟩
  | props row ps => exact ⟨Or.inl hc.2.2.1, hc.2.2.2.1⟩
  | del n x =>
    obtain ⟨-, hret, ⟨-, ha, -⟩ | ⟨hr, -, hx⟩⟩ := hc
    · exact ⟨Or.inl ha, hret⟩
    · refine ⟨?_, hret⟩
      cases x with
      | get => exact Or.inl hx
      | queueinfo row => exact Or.inl hx.2
      | award row info => exact Or.inl hx.2.1
      | ing row info => exact Or.inr ⟨hr, hx.2.1⟩
      | fin row info => exact Or.inr ⟨hr, hx.2.1⟩
      | delete => exact Or.inr ⟨hr, hx.1⟩
      | lane row info => exact hx.elim

theorem returns_prefix {m : Removal} (hm : m.Inv market bqid r d) :
    d.returned bqid <+: r.returns market := by
  cases m with
  | blueprints uid bps ps =>
    obtain ⟨-, -, done, hbps, hd⟩ := hm
    rw [hd, Row.returns, hbps, List.filterMap_append, List.append_assoc]
    exact List.prefix_append _ _
  | props uid ps =>
    obtain ⟨-, done, hps, hd⟩ := hm
    rw [hd, Row.returns, hps, List.filterMap_append, ← List.append_assoc]
    exact List.prefix_append _ _
  | del x => exact hm.1 ▸ List.prefix_rfl

/-- What the invariant says of the entry. -/
theorem Inv.endsOnce (hi : Inv market bqid r s) : EndsOnce market bqid r s := by
  cases hi.phase with
  | ended gone before removals how out =>
    rcases how with hd | hc
    · refine ⟨hi.due, hd.granted ▸ List.prefix_rfl, ?_, ?_, Or.inr hd.returned,
        fun _ => ⟨Or.inl hd, out⟩⟩
      · exact hd.awarded.imp And.right fun h => h
      · rw [hd.returned]
        exact List.nil_prefix
    · refine ⟨hi.due, ?_, Or.inl hc.awarded, hc.returned ▸ List.prefix_rfl,
        Or.inl ⟨hc.granted, hc.awarded⟩, fun _ => ⟨Or.inr hc, out⟩⟩
      rw [hc.granted]
      exact List.nil_prefix
  | idle hp before removals hu =>
    refine ⟨hi.due, ?_, Or.inl hu.awarded, ?_, Or.inl ⟨hu.granted, hu.awarded⟩, fun h => ?_⟩
    · rw [hu.granted]
      exact List.nil_prefix
    · rw [hu.returned]
      exact List.nil_prefix
    · obtain ⟨row, hrow, -⟩ := hp
      rw [h] at hrow
      cases hrow
  | completing c hp at' removals inv =>
    obtain ⟨haward, hret⟩ := awarded_of_inv inv
    refine ⟨hi.due, grants_prefix inv, haward, ?_, Or.inr hret, fun h => ?_⟩
    · rw [hret]
      exact List.nil_prefix
    · obtain ⟨row, hrow, -⟩ := hp
      rw [h] at hrow
      cases hrow
  | removing m hp before removals transport returnable granted awarded inv =>
    refine ⟨hi.due, ?_, Or.inl awarded, returns_prefix inv, Or.inl ⟨granted, awarded⟩, fun h => ?_⟩
    · rw [granted]
      exact List.nil_prefix
    · obtain ⟨row, hrow, -⟩ := hp
      rw [h] at hrow
      cases hrow

/-- The runs with one end of the entry at a time. -/
def apart (market : Str → Bool) (bqid : ℕ) (r : Row) : System State Event :=
  (system market bqid r).restrict (Apart market bqid)

/-- **Business queue entries end exactly once** in every run with one end at a
time. -/
theorem ends_once (market : Str → Bool) (bqid : ℕ) (r : Row) {s : State}
    (h : (apart market bqid r).Reachable s) : EndsOnce market bqid r s := by
  refine Inv.endsOnce (h.invariant (P := Inv market bqid r) (fun s hs => Created.inv hs) ?_)
  intro s e t hstep hs
  exact inv_step hs hstep.1 hstep.2

/-- A transport of one blueprint to player 1, in lane 1. -/
def shipment (iskh : Option ℤ) : Row where
  playerid := 1
  type := .airfreighter
  subtype := 1
  bprewardlist := [⟨['1'], 1, none, iskh, some 5⟩]
  proprewardlist := []
  equiplist := []
  sponsorid := ['0']
  starttime := 0
  endtime := 1
  initendtime := 1

/-- The service when it has just been created, as entry 1. -/
def shipped (iskh : Option ℤ) : State where
  now := 0
  db :=
    { rows := Function.update (fun _ => none) 1 (some (shipment iskh))
      queueinfo := fun u c => if u = 1 ∧ c = .airfreighter 1 then [1] else []
      awardid := 0
      granted := fun _ => []
      awarded := fun _ => []
      returned := fun _ => [] }
  timers := [1]
  waiting := 0
  completing := none
  speeding := []
  removals := []
  flagging := false

theorem created_shipped (iskh : Option ℤ) : Created 1 (shipment iskh) (shipped iskh) where
  row := rfl
  untouched := ⟨rfl, rfl, rfl⟩
  listed uid c _ := by
    change (if uid = 1 ∧ c = .airfreighter 1 then [1] else []).count 1 =
      if uid = 1 ∧ c = .airfreighter 1 then 1 else 0
    split <;> rfl
  timers := rfl
  waiting := rfl
  completing := rfl
  speeding := rfl
  removals := rfl
  flagging := rfl

/-- It arrives, and is delivered once. -/
theorem ends_once_shipment : ∃ s : State, s.db.rows 1 = none ∧
    s.db.granted 1 = [.addblueprint 1 ['1'] 1] ∧
    EndsOnce (fun _ => false) 1 (shipment (some 1)) s := by
  have hrun : (apart (fun _ => false) 1 (shipment (some 1))).Path (shipped (some 1))
      [.tick, .fire 1, .enter, .complete, .complete, .complete, .complete, .complete, .complete,
        .complete, .complete] _ :=
    .cons ⟨rfl, trivial⟩ (.cons ⟨rfl, trivial⟩ (.cons ⟨rfl, trivial⟩
      (.cons ⟨rfl, fun _ _ => rfl⟩ (.cons ⟨rfl, fun _ _ => rfl⟩ (.cons ⟨rfl, fun _ _ => rfl⟩
      (.cons ⟨rfl, fun _ _ => rfl⟩ (.cons ⟨rfl, fun _ _ => rfl⟩ (.cons ⟨rfl, fun _ _ => rfl⟩
      (.cons ⟨rfl, fun _ _ => rfl⟩ (.cons ⟨rfl, fun _ _ => rfl⟩ (.nil _)))))))))))
  exact ⟨_, rfl, rfl, ends_once _ 1 (shipment (some 1)) ⟨_, _, created_shipped (some 1), hrun⟩⟩

/-- **Two ends at a time.** The player cancels a shipment while it is being
delivered, and has the blueprint and its goods back. The service restarts in
the middle of the delivery, and gives the blueprint twice. A battle reward is
cancelled, and nothing is returned. -/
theorem ends_twice :
    (∃ s, (system (fun _ => false) 1 (shipment (some 1))).Reachable s ∧ s.db.rows 1 = none ∧
      s.db.granted 1 = [.addblueprint 1 ['1'] 1] ∧
      s.db.returned 1 = [⟨1, blueprint, ['1'], 1, 1⟩] ∧
      ¬ EndsOnce (fun _ => false) 1 (shipment (some 1)) s) ∧
    (∃ s, (system (fun _ => false) 1 (shipment (some 1))).Reachable s ∧ s.db.rows 1 = none ∧
      s.db.granted 1 = [.addblueprint 1 ['1'] 1, .addblueprint 1 ['1'] 1] ∧
      ¬ EndsOnce (fun _ => false) 1 (shipment (some 1)) s) ∧
    (∃ s, (system (fun _ => false) 1 (shipment none)).Reachable s ∧ s.db.rows 1 = none ∧
      s.db.granted 1 = [] ∧ s.db.returned 1 = [] ∧
      ¬ EndsOnce (fun _ => false) 1 (shipment none) s) := by
  refine ⟨?_, ?_, ?_⟩
  · have hrun : (system (fun _ => false) 1 (shipment (some 1))).Path (shipped (some 1))
        [.tick, .fire 1, .enter, .complete, .removebq 1, .complete, .complete, .complete, .complete,
          .complete, .complete, .complete, .remove 0] _ :=
      .cons rfl (.cons rfl (.cons rfl (.cons rfl (.cons rfl (.cons rfl (.cons rfl (.cons rfl
        (.cons rfl (.cons rfl (.cons rfl (.cons rfl (.cons rfl (.nil _)))))))))))))
    refine ⟨_, ⟨_, _, created_shipped (some 1), hrun⟩, rfl, rfl, rfl, fun h => ?_⟩
    rcases h.one with ⟨hg, -⟩ | hret
    · exact List.cons_ne_nil _ _ hg
    · exact List.cons_ne_nil _ _ hret
  · have hrun : (system (fun _ => false) 1 (shipment (some 1))).Path (shipped (some 1))
        [.tick, .fire 1, .enter, .complete, .complete, .restart, .reflag, .fire 1, .enter, .complete,
          .complete, .complete, .complete, .complete, .complete, .complete, .complete] _ :=
      .cons rfl (.cons rfl (.cons rfl (.cons rfl (.cons rfl (.cons rfl (.cons rfl (.cons rfl
        (.cons rfl (.cons rfl (.cons rfl (.cons rfl (.cons rfl (.cons rfl (.cons rfl (.cons rfl
        (.cons rfl (.nil _)))))))))))))))))
    refine ⟨_, ⟨_, _, created_shipped (some 1), hrun⟩, rfl, rfl, fun h => ?_⟩
    exact absurd (show (2 : ℕ) ≤ 1 from h.granted.length_le) (by decide)
  · have hrun : (system (fun _ => false) 1 (shipment none)).Path (shipped none)
        [.removebq 1, .remove 0, .remove 0, .remove 0, .remove 0, .remove 0, .remove 0,
          .remove 0] _ :=
      .cons rfl (.cons rfl (.cons rfl (.cons rfl (.cons rfl (.cons rfl (.cons rfl (.cons rfl
        (.nil _))))))))
    refine ⟨_, ⟨_, _, created_shipped none, hrun⟩, rfl, rfl, rfl, fun h => ?_⟩
    rcases (h.ended rfl).1 with hd | hc
    · exact List.cons_ne_nil _ _ hd.granted.symm
    · exact absurd (show (0 : ℕ) = 1 from hc.all) (by decide)

end Queue

end Athena
