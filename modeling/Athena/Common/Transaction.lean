import Mathlib.Data.List.Induction
import Mathlib.Order.Nat
import Mathlib.Tactic.Common
/-!
# Transactions on one connection

A database session runs the statements of its connection in the order
they arrive. Outside a transaction a write takes effect at once; inside
one it is held until the transaction ends. `START TRANSACTION` commits a
transaction that is still open, so there is at most one, whoever sends
the statements.

What becomes of a write is decided by two of its neighbours alone: the
transaction statement before it and the one after it (`mem_stored_iff`).
-/

namespace Athena

/-- **A statement of a connection.** -/
inductive Stmt (W : Type*)
  | start
  | commit
  | rollback
  | write (w : W)
  deriving DecidableEq

/-- **A session.** A write is known by the place of its statement on the
connection. -/
structure Session (O W : Type*) where
  /-- The number of statements executed. -/
  clock : ℕ
  /-- The writes in effect. -/
  stored : List (ℕ × W)
  /-- Who began the open transaction, and the writes it holds. -/
  tx : Option (O × List (ℕ × W))

namespace Session

variable {O W : Type*} {o : O} {n : ℕ} {w : W} {l : O × Stmt W} {tr : List (O × Stmt W)}

def fresh : Session O W := ⟨0, [], none⟩

/-- The writes the open transaction holds. -/
def held (s : Session O W) : List (ℕ × W) := (s.tx.map Prod.snd).getD []

/-- **One statement**, sent by `l.1`. -/
def exec (s : Session O W) (l : O × Stmt W) : Session O W :=
  match l.2 with
  | .start => ⟨s.clock + 1, s.stored ++ s.held, some (l.1, [])⟩
  | .commit => ⟨s.clock + 1, s.stored ++ s.held, none⟩
  | .rollback => ⟨s.clock + 1, s.stored, none⟩
  | .write w =>
    match s.tx with
    | none => ⟨s.clock + 1, s.stored ++ [(s.clock, w)], none⟩
    | some (o, ws) => ⟨s.clock + 1, s.stored, some (o, ws ++ [(s.clock, w)])⟩

/-- The statements of a connection, in order. -/
def run (tr : List (O × Stmt W)) : Session O W := tr.foldl exec fresh

/-- Who sent the transaction statement before this place, if it is a
`START TRANSACTION`. -/
def begun (tr : List (O × Stmt W)) : Option O :=
  tr.foldl (fun b l =>
    match l.2 with
    | .start => some l.1
    | .commit | .rollback => none
    | .write _ => b) none

/-- The next transaction statement, if there is one. -/
def next : List (O × Stmt W) → Option (Stmt W)
  | [] => none
  | (_, .write _) :: tr => next tr
  | (_, c) :: _ => some c

/-- The next transaction statement keeps what is held. -/
def Keeps (tr : List (O × Stmt W)) : Prop := next tr = some .start ∨ next tr = some .commit

@[simp] theorem run_nil : run ([] : List (O × Stmt W)) = fresh := rfl

@[simp] theorem run_append : run (tr ++ [l]) = (run tr).exec l := by
  simp [run]

@[simp] theorem exec_clock (s : Session O W) : (s.exec l).clock = s.clock + 1 := by
  obtain ⟨o, st⟩ := l
  obtain ⟨c, ws, tx⟩ := s
  cases st <;> cases tx <;> rfl

theorem run_clock : (run tr).clock = tr.length := by
  induction tr using List.reverseRecOn with
  | nil => rfl
  | append_singleton tr l ih => simp [ih]

theorem begun_append : begun (tr ++ [l]) =
    (match l.2 with
    | .start => some l.1
    | .commit | .rollback => none
    | .write _ => begun tr) := by
  simp [begun]

/-- **The open transaction is the one begun last.** -/
theorem run_tx : (run tr).tx.map Prod.fst = begun tr := by
  induction tr using List.reverseRecOn with
  | nil => rfl
  | append_singleton tr l ih =>
    obtain ⟨o, st⟩ := l
    rw [run_append, begun_append]
    cases st with
    | write w =>
      simp only [exec]
      rw [← ih]
      cases (run tr).tx <;> rfl
    | _ => rfl

theorem next_append : next (tr ++ [l]) = (next tr).or (next [l]) := by
  induction tr with
  | nil => rfl
  | cons a tr ih =>
    obtain ⟨o, st⟩ := a
    cases st with
    | write w => exact ih
    | _ => rfl

/-- What the session does with its held writes at a statement. -/
theorem mem_exec_stored {s : Session O W} : (n, w) ∈ (s.exec l).stored ↔
    (n, w) ∈ s.stored ∨ ((n, w) ∈ s.held ∧ Keeps [l]) ∨
      (s.tx = none ∧ l.2 = .write w ∧ n = s.clock) := by
  obtain ⟨o, st⟩ := l
  obtain ⟨c, ws, tx⟩ := s
  cases st with
  | start => simp [exec, Keeps, next]
  | commit => simp [exec, Keeps, next]
  | rollback => simp [exec, Keeps, next]
  | write v =>
    cases tx with
    | none => simp [exec, Keeps, next, held, Prod.ext_iff, eq_comm, and_comm]
    | some t => simp [exec, Keeps, next, held]

theorem mem_exec_held {s : Session O W} : (n, w) ∈ (s.exec l).held ↔
    next [l] = none ∧ ((n, w) ∈ s.held ∨ (s.tx ≠ none ∧ l.2 = .write w ∧ n = s.clock)) := by
  obtain ⟨o, st⟩ := l
  obtain ⟨c, ws, tx⟩ := s
  cases st with
  | start => simp [exec, next, held]
  | commit => simp [exec, next, held]
  | rollback => simp [exec, next, held]
  | write v =>
    cases tx with
    | none => simp [exec, next, held]
    | some t => simp [exec, next, held, Prod.ext_iff, eq_comm, and_comm]

/-! ## The fate of a write -/

/-- A statement at a place of `tr ++ [l]`. -/
theorem getElem?_concat {x : O × Stmt W} : (tr ++ [l])[n]? = some x ↔
    tr[n]? = some x ∨ (n = tr.length ∧ l = x) := by
  rcases lt_trichotomy n tr.length with h | rfl | h
  · simp [List.getElem?_append_left h, h.ne]
  · simp
  · rw [List.getElem?_eq_none (by simp; omega), List.getElem?_eq_none (by omega)]
    simp [h.ne']

/-- **A write is held** while its transaction is open. -/
theorem mem_held_iff : (n, w) ∈ (run tr).held ↔
    (∃ o, tr[n]? = some (o, .write w)) ∧ begun (tr.take n) ≠ none ∧
      next (tr.drop (n + 1)) = none := by
  induction tr using List.reverseRecOn with
  | nil => simp [fresh, held]
  | append_singleton tr l ih =>
    rw [run_append, mem_exec_held, ih]
    have hopen : ((run tr).tx ≠ none) ↔ begun tr ≠ none := by
      rw [← run_tx]
      cases (run tr).tx <;> simp
    rw [hopen, run_clock]
    simp only [getElem?_concat]
    rcases lt_trichotomy n tr.length with h | rfl | h
    · rw [List.take_append_of_le_length h.le, List.drop_append_of_le_length h, next_append]
      simp only [h.ne, Option.or_eq_none_iff, false_and, and_false, or_false]
      constructor
      · rintro ⟨hl, hw, hb, hd⟩
        exact ⟨hw, hb, hd, hl⟩
      · rintro ⟨hw, hb, hd, hl⟩
        exact ⟨hl, hw, hb, hd⟩
    · rw [List.getElem?_eq_none (le_refl _), List.take_append_of_le_length (le_refl _)]
      rw [List.take_length, List.drop_eq_nil_of_le (by simp)]
      obtain ⟨o, st⟩ := l
      cases st <;> simp [next, and_comm]
    · rw [List.getElem?_eq_none (by omega)]
      simp [h.ne']

/-- **The fate of a write**: it takes effect where no transaction is open,
or where the next transaction statement keeps what is held. -/
theorem mem_stored_iff : (n, w) ∈ (run tr).stored ↔
    (∃ o, tr[n]? = some (o, .write w)) ∧
      (begun (tr.take n) = none ∨ Keeps (tr.drop (n + 1))) := by
  induction tr using List.reverseRecOn with
  | nil => simp [fresh]
  | append_singleton tr l ih =>
    rw [run_append, mem_exec_stored, ih, mem_held_iff]
    have hopen : (run tr).tx = none ↔ begun tr = none := by
      rw [← run_tx]
      cases (run tr).tx <;> simp
    rw [hopen, run_clock]
    simp only [getElem?_concat]
    rcases lt_trichotomy n tr.length with h | rfl | h
    · rw [List.take_append_of_le_length h.le, List.drop_append_of_le_length h]
      simp only [h.ne, Keeps, next_append]
      cases hn : next (tr.drop (n + 1)) with
      | none =>
        simp only [false_and, or_false, and_false, reduceCtorEq, and_true, Option.none_or, ne_eq]
        constructor
        · rintro (⟨hw, hb⟩ | ⟨⟨hw, -⟩, hk⟩)
          · exact ⟨hw, Or.inl hb⟩
          · exact ⟨hw, Or.inr hk⟩
        · rintro ⟨hw, hb | hk⟩
          · exact Or.inl ⟨hw, hb⟩
          · by_cases hb : begun (List.take n tr) = none
            · exact Or.inl ⟨hw, hb⟩
            · exact Or.inr ⟨⟨hw, hb⟩, hk⟩
      | some c => simp
    · rw [List.getElem?_eq_none (le_refl _), List.take_append_of_le_length (le_refl _)]
      rw [List.take_length, List.drop_eq_nil_of_le (by simp)]
      obtain ⟨o, st⟩ := l
      cases st <;> simp [next, Keeps, and_comm]
    · rw [List.getElem?_eq_none (by omega)]
      simp [h.ne']

end Session

end Athena
