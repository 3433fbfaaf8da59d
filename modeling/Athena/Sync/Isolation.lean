import Athena.Common.System
import Athena.Common.Transaction
/-!
# Database writes — model

`common/dbsync.lua` over `common/mysqlpool.lua`. Every write of every
service, and every `transaction`, `commit` and `rollback` of
`global/util.lua`, is a call to `dbsync`, which hands its statement to
`mysqlpool` with `sync` set; `getconn` then picks `pool[1]`. Reads go
round the other connections.

A handler waits for the answer of each call, so what it sends next it
sends after the statement was executed; between two of its statements
any other handler may send one of its own. MySQL runs the statements of
one connection in the order they come (`Session.exec`).
-/

namespace Athena

namespace Sync

variable {H W : Type*}

/-- **The pool**: its connections, numbered from one, and the place of the
next read. -/
structure Pool (H W : Type*) where
  db : ℕ → Session H W
  index : ℕ
  maxconn : ℕ

/-- The pool as `CMD.start` leaves it. -/
def Pool.start (maxconn : ℕ) : Pool H W := ⟨fun _ => .fresh, 2, maxconn⟩

/-- `getconn`. -/
def Pool.getconn (p : Pool H W) (sync : Bool) : ℕ × Pool H W :=
  if sync then (1, p)
  else (p.index, { p with index := if p.maxconn < p.index + 1 then 2 else p.index + 1 })

/-- The text a handler has executed: a read, or one of the statements of
`dbsync`. -/
inductive Sql (W : Type*)
  | select
  | stmt (st : Stmt W)

/-- `db:query`. A read leaves the session as it is. -/
def query (db : Session H W) (h : H) : Sql W → Session H W
  | .select => db
  | .stmt st => db.exec (h, st)

/-- `CMD.execute`, for a handler `h`. -/
def Pool.execute (p : Pool H W) (h : H) (sql : Sql W) (sync : Bool) : Pool H W :=
  let (i, p) := p.getconn sync
  { p with db := Function.update p.db i (query (p.db i) h sql) }

/-! ## Handlers -/

/-- How a handler that has called `transaction` leaves: by `commit`, by
`rollback`, or by a plain `return`. -/
inductive Ending
  | commit
  | rollback
  | returned
  deriving DecidableEq

/-- **A request handler**, as far as the database goes: writes in a
bracket of `transaction` and an ending, or writes alone. -/
inductive Handler (W : Type*)
  | bracket (writes : List W) (ending : Ending)
  | plain (writes : List W)

def Ending.statements : Ending → List (Stmt W)
  | .commit => [.commit]
  | .rollback => [.rollback]
  | .returned => []

/-- What a handler sends to `dbsync`, in order. -/
def Handler.statements : Handler W → List (Stmt W)
  | .bracket writes ending => .start :: (writes.map .write ++ ending.statements)
  | .plain writes => writes.map .write

/-- How a handler ends; one without a bracket just returns. -/
def Handler.ending : Handler W → Ending
  | .bracket _ ending => ending
  | .plain _ => .returned

/-! ## The system -/

/-- The pool, and what each handler has still to send. -/
structure State (H W : Type*) where
  pool : Pool H W
  todo : H → List (Stmt W)

/-- A handler reads, or sends its next statement. -/
inductive Event (H W : Type*)
  | read (h : H)
  | send (h : H) (st : Stmt W)

variable [DecidableEq H]

/-- **One event**: the call of a handler is executed on the connection
`getconn` picks. -/
inductive Step (s : State H W) : Event H W → State H W → Prop
  | read (h : H) : Step s (.read h) { s with pool := s.pool.execute h .select false }
  | send {h : H} {st : Stmt W} {rest : List (Stmt W)} (next : s.todo h = st :: rest) :
      Step s (.send h st)
        ⟨s.pool.execute h (.stmt st) true, Function.update s.todo h rest⟩

/-- **The handlers, under every interleaving.** -/
def system (maxconn : ℕ) (prog : H → Handler W) : System (State H W) (Event H W) where
  init s := s = ⟨Pool.start maxconn, fun h => (prog h).statements⟩
  step := Step

/-- The statements of a run, in the order they reach `pool[1]`. -/
def sent (es : List (Event H W)) : List (H × Stmt W) :=
  es.filterMap fun e =>
    match e with
    | .read _ => none
    | .send h st => some (h, st)

/-- What of a trace is sent by `h`. -/
def by' (tr : List (H × Stmt W)) (h : H) : List (Stmt W) :=
  (tr.filter fun l => l.1 = h).map Prod.snd

end Sync

/-!
## Database writes — isolation of handlers

A handler that brackets its writes means them to be kept together by its
`commit` or dropped together by its `rollback`. All handlers share one
connection, so a bracket is whatever stands between two transaction
statements on it, whoever sent them. `isolated_iff` says in which orders
of statements each handler still gets what it means.
-/

namespace Sync

open Session

variable {H W : Type*} [DecidableEq H] {prog : H → Handler W} {maxconn : ℕ}
  {tr : List (H × Stmt W)} {es : List (Event H W)} {s s' : State H W} {h : H}

/-- `h` has sent all it has to send: it has returned. -/
def Done (prog : H → Handler W) (tr : List (H × Stmt W)) (h : H) : Prop :=
  by' tr h = (prog h).statements

/-- **Every handler gets what it means**: what it commits is stored, what
it rolls back is not, and once it has returned without either no other
handler's write is held by the transaction it began. -/
structure Isolated (prog : H → Handler W) (tr : List (H × Stmt W)) : Prop where
  commit : ∀ h n w, (prog h).ending = .commit → Done prog tr h → tr[n]? = some (h, .write w) →
    (n, w) ∈ (run tr).stored
  rollback : ∀ h n w, (prog h).ending = .rollback → Done prog tr h →
    tr[n]? = some (h, .write w) → (n, w) ∉ (run tr).stored
  returned : ∀ h g n w, (prog h).ending = .returned → g ≠ h → Done prog (tr.take n) h →
    tr[n]? = some (g, .write w) → ∀ ws, (run (tr.take (n + 1))).tx = some (h, ws) → (n, w) ∉ ws

/-- **The order this needs.** Of the transaction statements on the
connection, whoever sent them, the one before and the one after a write
of a committing handler are not a `START TRANSACTION` and a `ROLLBACK`;
those around a write of a handler that rolls back are; and none of
another handler's writes comes next after a handler that has begun a
transaction and returned. -/
structure Ordered (prog : H → Handler W) (tr : List (H × Stmt W)) : Prop where
  commit : ∀ h n w, (prog h).ending = .commit → Done prog tr h → tr[n]? = some (h, .write w) →
    begun (tr.take n) = none ∨ next (tr.drop (n + 1)) ≠ some .rollback
  rollback : ∀ h n w, (prog h).ending = .rollback → Done prog tr h →
    tr[n]? = some (h, .write w) →
      begun (tr.take n) ≠ none ∧ next (tr.drop (n + 1)) = some .rollback
  returned : ∀ h g n w, (prog h).ending = .returned → g ≠ h → Done prog (tr.take n) h →
    tr[n]? = some (g, .write w) → begun (tr.take n) ≠ some h

/-! ## Runs -/

omit [DecidableEq H] in
/-- **A read is never on the connection of the writes.** -/
theorem getconn_read_ne_one {p : Pool H W} (hp : 2 ≤ p.index) :
    (p.getconn false).1 ≠ 1 ∧ 2 ≤ (p.getconn false).2.index := by
  refine ⟨?_, ?_⟩
  · simp [Pool.getconn]
    omega
  · simp only [Pool.getconn, Bool.false_eq_true, if_false]
    split <;> omega

omit [DecidableEq H] in
theorem execute_read {p : Pool H W} (hp : 2 ≤ p.index) (h : H) :
    (p.execute h .select false).db 1 = p.db 1 ∧ 2 ≤ (p.execute h .select false).index := by
  obtain ⟨hne, hindex⟩ := getconn_read_ne_one hp
  exact ⟨Function.update_of_ne (Ne.symm hne) _ _, hindex⟩

omit [DecidableEq H] in
theorem execute_sync {p : Pool H W} (h : H) (st : Stmt W) :
    (p.execute h (.stmt st) true).db 1 = (p.db 1).exec (h, st) ∧
      (p.execute h (.stmt st) true).index = p.index :=
  ⟨by simp [Pool.execute, Pool.getconn, query], rfl⟩

/-- **What a run keeps**: the session of `pool[1]` is the run of the
statements sent so far, and every handler has sent a part of what it has
to send and holds the rest. -/
structure Sending (prog : H → Handler W) (tr : List (H × Stmt W)) (s : State H W) : Prop where
  db : s.pool.db 1 = run tr
  index : 2 ≤ s.pool.index
  rest : ∀ h, by' tr h ++ s.todo h = (prog h).statements

theorem Sending.step {e : Event H W} (hs : Sending prog tr s) (hst : Step s e s') :
    Sending prog (tr ++ sent [e]) s' := by
  cases hst with
  | read h =>
    obtain ⟨hdb, hindex⟩ := execute_read hs.index h
    exact ⟨by simpa [sent] using hdb.trans hs.db, hindex, by simpa [sent] using hs.rest⟩
  | @send h st rest hnext =>
    obtain ⟨hdb, hindex⟩ := execute_sync (p := s.pool) h st
    refine ⟨?_, by simpa [hindex] using hs.index, fun g => ?_⟩
    · rw [hdb, hs.db]
      simp [sent]
    · have hg := hs.rest g
      by_cases hgh : g = h
      · subst hgh
        rw [hnext] at hg
        simpa [sent, by'] using hg
      · simpa [sent, by', hgh, Ne.symm hgh] using hg

theorem Sending.run {t : State H W} (hs : Sending prog tr s)
    (hp : (system maxconn prog).Path s es t) : Sending prog (tr ++ sent es) t := by
  induction hp generalizing tr with
  | nil s => simpa [sent] using hs
  | @cons s s' t e es hst _ ih =>
    have := ih (hs.step hst)
    rwa [List.append_assoc, sent, sent, ← List.filterMap_append] at this

/-! ## The statement after a write -/

omit [DecidableEq H] in
theorem next_ne_write (tr : List (H × Stmt W)) (w : W) : next tr ≠ some (.write w) := by
  induction tr with
  | nil => simp [next]
  | cons a tr ih =>
    obtain ⟨o, st⟩ := a
    cases st with
    | write v => exact ih
    | _ => simp [next]

omit [DecidableEq H] in
/-- Without a transaction statement a trace has writes only. -/
theorem write_of_next_eq_none (hn : next tr = none) : ∀ l ∈ tr, ∃ w, l.2 = .write w := by
  induction tr with
  | nil => simp
  | cons a tr ih =>
    obtain ⟨o, st⟩ := a
    cases st with
    | write v =>
      intro l hl
      rcases List.mem_cons.mp hl with rfl | hl
      · exact ⟨v, rfl⟩
      · exact ih hn l hl
    | _ => simp [next] at hn

/-- A handler that ends its transaction does not end with a write. -/
theorem Handler.getLast_statements {c : Handler W} (hc : c.ending ≠ .returned) (w : W) :
    c.statements.getLast? ≠ some (.write w) := by
  cases c with
  | plain ws => exact absurd rfl hc
  | bracket ws e =>
    cases e with
    | returned => exact absurd rfl hc
    | commit => simp [Handler.statements, Ending.statements, List.getLast?_cons]
    | rollback => simp [Handler.statements, Ending.statements, List.getLast?_cons]

/-- **So a write of such a handler, once it has returned, has a
transaction statement after it.** -/
theorem next_ne_none {n : ℕ} {w : W} (hend : (prog h).ending ≠ .returned) (hd : Done prog tr h)
    (hn : tr[n]? = some (h, .write w)) : next (tr.drop (n + 1)) ≠ none := by
  intro hnone
  have hlt : n < tr.length := (List.getElem?_eq_some_iff.mp hn).1
  have hget : tr[n] = (h, .write w) := (List.getElem?_eq_some_iff.mp hn).2
  have hsplit : by' tr h =
      by' (tr.take n) h ++ .write w :: by' (tr.drop (n + 1)) h := by
    conv_lhs => rw [← List.take_append_drop n tr, List.drop_eq_getElem_cons hlt, hget]
    simp [by']
  have hwrites : ∀ st ∈ .write w :: by' (tr.drop (n + 1)) h, ∃ v, st = Stmt.write v := by
    intro st hst
    rcases List.mem_cons.mp hst with rfl | hst
    · exact ⟨w, rfl⟩
    · obtain ⟨l, hl, rfl⟩ := List.mem_map.mp hst
      exact write_of_next_eq_none hnone l (List.mem_filter.mp hl).1
  obtain ⟨v, hv⟩ := hwrites _ (List.getLast_mem (List.cons_ne_nil _ _))
  refine Handler.getLast_statements hend v ?_
  rw [← hd, hsplit, List.getLast?_append_of_ne_nil _ (List.cons_ne_nil _ _),
    List.getLast?_eq_some_getLast (List.cons_ne_nil _ _), hv]

/-! ## Isolation -/

omit [DecidableEq H] in
theorem keeps_iff (hne : next tr ≠ none) : Keeps tr ↔ next tr ≠ some .rollback := by
  unfold Keeps
  cases hn : next tr with
  | none => exact absurd hn hne
  | some c =>
    cases c with
    | write w => exact absurd hn (next_ne_write tr w)
    | _ => simp

omit [DecidableEq H] in
/-- A write is held by the transaction begun before it. -/
theorem held_by_iff {g : H} {n : ℕ} {w : W} (hn : tr[n]? = some (g, .write w)) :
    (∃ ws, (run (tr.take (n + 1))).tx = some (h, ws) ∧ (n, w) ∈ ws) ↔
      begun (tr.take n) = some h := by
  obtain ⟨hlt, hget⟩ := List.getElem?_eq_some_iff.mp hn
  have hclock : (run (tr.take n)).clock = n := by
    rw [run_clock, List.length_take, Nat.min_eq_left hlt.le]
  rw [List.take_add_one, hn, Option.toList_some, run_append, ← run_tx]
  cases htx : (run (tr.take n)).tx with
  | none => simp [exec, htx]
  | some t =>
    obtain ⟨o, ws⟩ := t
    simp only [exec, htx, hclock, Option.some.injEq, Prod.mk.injEq, Option.map_some]
    constructor
    · rintro ⟨ws', ⟨rfl, rfl⟩, -⟩
      rfl
    · rintro rfl
      exact ⟨_, ⟨rfl, rfl⟩, by simp⟩

/-- **Isolation of handlers.** In every run of any number of handlers, at
every moment, each handler that has returned got what it meant if and
only if the statements came in an order that allows it. -/
theorem isolated_iff {s₀ : State H W} (hinit : (system maxconn prog).init s₀)
    (hp : (system maxconn prog).Path s₀ es s) :
    s.pool.db 1 = run (sent es) ∧ (Isolated prog (sent es) ↔ Ordered prog (sent es)) := by
  subst hinit
  have hs : Sending prog (sent es) s := by
    have h0 : Sending prog [] ⟨Pool.start maxconn, fun h => (prog h).statements⟩ :=
      ⟨rfl, le_rfl, fun h => rfl⟩
    simpa using h0.run hp
  refine ⟨hs.db, ?_, ?_⟩
  · rintro ⟨hc, hr, hret⟩
    refine ⟨fun h n w he hd hn => ?_, fun h n w he hd hn => ?_, fun h g n w he hg hd hn hb => ?_⟩
    · have hne := next_ne_none (by simp [he]) hd hn
      exact ((mem_stored_iff.mp (hc h n w he hd hn)).2).imp_right (keeps_iff hne).mp
    · have hne := next_ne_none (by simp [he]) hd hn
      have hnot := fun hb => hr h n w he hd hn (mem_stored_iff.mpr ⟨⟨h, hn⟩, hb⟩)
      refine ⟨fun hb => hnot (Or.inl hb), ?_⟩
      by_contra hroll
      exact hnot (Or.inr ((keeps_iff hne).mpr hroll))
    · obtain ⟨ws, htx, hmem⟩ := (held_by_iff hn).mpr hb
      exact hret h g n w he hg hd hn ws htx hmem
  · rintro ⟨hc, hr, hret⟩
    refine ⟨fun h n w he hd hn => ?_, fun h n w he hd hn hmem => ?_,
      fun h g n w he hg hd hn ws htx hmem => ?_⟩
    · have hne := next_ne_none (by simp [he]) hd hn
      exact mem_stored_iff.mpr ⟨⟨h, hn⟩, (hc h n w he hd hn).imp_right (keeps_iff hne).mpr⟩
    · obtain ⟨hb, hroll⟩ := hr h n w he hd hn
      rcases (mem_stored_iff.mp hmem).2 with hnone | hkeep | hkeep
      · exact hb hnone
      · simp [hkeep] at hroll
      · simp [hkeep] at hroll
    · exact hret h g n w he hg hd hn ((held_by_iff hn).mp ⟨ws, htx, hmem⟩)

/-- A handler that commits, one that rolls back, one that gives up after
`transaction`, and one that just writes. -/
def requests : ℕ → Handler ℕ
  | 0 => .bracket [10] .commit
  | 1 => .bracket [20] .rollback
  | 2 => .bracket [] .returned
  | _ => .plain [30]

/-- One handler after the other is an order that isolates them. -/
theorem isolated_iff_alone :
    Isolated requests [(1, .start), (1, .write 20), (1, .rollback), (0, .start), (0, .write 10), (0, .commit)] := by
  have hp : (system 10 requests).Path ⟨Pool.start 10, fun h => (requests h).statements⟩
      [.send 1 .start, .send 1 (.write 20), .read 3, .send 1 .rollback, .send 0 .start, .send 0 (.write 10),
        .send 0 .commit] _ :=
    .cons (.send rfl) (.cons (.send rfl) (.cons (.read 3) (.cons (.send rfl) (.cons (.send rfl) (.cons (.send rfl)
      (.cons (.send rfl) (.nil _)))))))
  -- each writes between its own `START TRANSACTION` and its end
  have hwrites : ∀ n g w, ([(1, .start), (1, .write 20), (1, .rollback), (0, .start), (0, .write 10),
      (0, .commit)] : List (ℕ × Stmt ℕ))[n]? = some (g, .write w) → n = 1 ∧ g = 1 ∨ n = 4 ∧ g = 0 := by
    intro n g w hn
    rcases n with _ | _ | _ | _ | _ | _ | n <;> simp_all
  refine (isolated_iff rfl hp).2.mpr ⟨fun h n w he hd hn => ?_, fun h n w he hd hn => ?_,
    fun h g n w he hg hd hn hb => ?_⟩
  · obtain ⟨rfl, rfl⟩ | ⟨rfl, rfl⟩ := hwrites n h w hn
    · cases he
    · exact Or.inr (by simp [sent, next])
  · obtain ⟨rfl, rfl⟩ | ⟨rfl, rfl⟩ := hwrites n h w hn
    · exact ⟨by decide, by decide⟩
    · cases he
  · obtain ⟨rfl, rfl⟩ | ⟨rfl, rfl⟩ := hwrites n g w hn
    · exact hg (Option.some.inj hb)
    · exact hg (Option.some.inj hb)

/-- **Handlers are not isolated.** Handler `1` writes and handler `0`
begins, which stores a write that is rolled back; the `ROLLBACK` of `1`
then drops what `0` has written and commits afterwards; and the
transaction `2` leaves open holds the write of `3`. -/
theorem handlers_not_isolated :
    let tr : List (ℕ × Stmt ℕ) := [(1, .start), (1, .write 20), (0, .start), (0, .write 10),
      (1, .rollback), (0, .commit), (2, .start), (3, .write 30)]
    (∃ s, (system 10 requests).Path ⟨Pool.start 10, fun h => (requests h).statements⟩
      (tr.map fun l => .send l.1 l.2) s) ∧
    Done requests tr 0 ∧ (3, 10) ∉ (run tr).stored ∧
    Done requests tr 1 ∧ (1, 20) ∈ (run tr).stored ∧
    Done requests (tr.take 7) 2 ∧ (run tr).tx = some (2, [(7, 30)]) ∧
    ¬ Isolated requests tr := by
  intro tr
  refine ⟨⟨_, .cons (.send rfl) (.cons (.send rfl) (.cons (.send rfl) (.cons (.send rfl)
    (.cons (.send rfl) (.cons (.send rfl) (.cons (.send rfl) (.cons (.send rfl)
    (.nil _))))))))⟩, rfl, by decide, rfl, by decide, rfl, rfl, fun hi => ?_⟩
  exact absurd (hi.commit 0 3 10 rfl rfl rfl) (by decide)

end Sync

end Athena
