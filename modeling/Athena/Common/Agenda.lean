import Athena.Common.System
import Mathlib.Data.List.Infix
/-!
# Agendas

What is due at what time. A label of a run sets something for a time ahead, hands
out what is due now, or lets the time go on, which it does when nothing is due. In
every run what was handed out at a time is what was set for it, in the order in
which it was set (`fired_eq`).
-/

namespace Athena

/-- **An agenda.** -/
structure Agenda (α : Type*) where
  now : ℕ
  due : ℕ → List α

namespace Agenda

variable {α : Type*}

/-- What happens to an agenda. -/
inductive Label (α : Type*)
  | set (n : ℕ) (a : α)
  | fire (as : List α)
  | tick

/-- An empty agenda. -/
def empty : Agenda α := ⟨0, fun _ => []⟩

/-- What is set is due after what is due at its time already. -/
def set (s : Agenda α) (n : ℕ) (a : α) : Agenda α :=
  { s with due := Function.update s.due (s.now + n) (s.due (s.now + n) ++ [a]) }

/-- **The system of an agenda** in which everything is set for a time between now
and `span`. -/
def system (span : ℕ) : System (Agenda α) (Label α) where
  init s := s = empty
  step s e t :=
    match e with
    | .set n a => 0 < n ∧ n < span ∧ t = s.set n a
    | .fire as => as ≠ [] ∧ s.due s.now = as ∧ t = { s with due := Function.update s.due s.now [] }
    | .tick => s.due s.now = [] ∧ t = { s with now := s.now + 1 }

/-- The times that have passed in a run, -/
def ticks : List (Label α) → ℕ
  | [] => 0
  | .tick :: es => ticks es + 1
  | _ :: es => ticks es

/-- what was set for a time, -/
def asked (now : ℕ) (d : ℕ) : List (Label α) → List α
  | [] => []
  | .set n a :: es => if now + n = d then a :: asked now d es else asked now d es
  | .fire _ :: es => asked now d es
  | .tick :: es => asked (now + 1) d es

/-- and what was handed out then. -/
def fired (now : ℕ) (d : ℕ) : List (Label α) → List α
  | [] => []
  | .set _ _ :: es => fired now d es
  | .fire as :: es => if now = d then as ++ fired now d es else fired now d es
  | .tick :: es => fired (now + 1) d es

variable {span : ℕ} {s t : Agenda α} {es : List (Label α)} {d n : ℕ} {a : α}

@[simp] theorem set_now : (s.set n a).now = s.now := rfl

@[simp] theorem set_due : (s.set n a).due = Function.update s.due (s.now + n) (s.due (s.now + n) ++ [a]) := rfl

theorem now_of_path (h : (system span).Path s es t) : t.now = s.now + ticks es := by
  induction h with
  | nil s => rfl
  | cons hstep _ ih =>
    rename_i e es _
    cases e with
    | set n a =>
      obtain ⟨-, -, rfl⟩ := hstep
      exact ih
    | fire as =>
      obtain ⟨-, -, rfl⟩ := hstep
      exact ih
    | tick =>
      obtain ⟨-, rfl⟩ := hstep
      rw [ih, ticks]
      simp only
      omega

/-- **What was due and what was set** is what was handed out and what is due. -/
theorem due_of_path (h : (system span).Path s es t) :
    s.due d ++ asked s.now d es = fired s.now d es ++ t.due d := by
  induction h with
  | nil s => simp [asked, fired]
  | cons hstep _ ih =>
    rename_i s _ _ e es _
    cases e with
    | set n a =>
      obtain ⟨-, -, rfl⟩ := hstep
      rw [set_now, set_due] at ih
      rw [asked, fired, ← ih]
      split
      · rename_i hd
        rw [← hd, Function.update_self, List.append_assoc]
        rfl
      · rename_i hd
        rw [Function.update_of_ne (Ne.symm hd)]
    | fire as =>
      obtain ⟨-, hdue, rfl⟩ := hstep
      simp only at ih
      rw [asked, fired]
      split
      · rename_i hd
        subst hd
        rw [Function.update_self, List.nil_append] at ih
        rw [hdue, List.append_assoc, ih]
      · rename_i hd
        rw [Function.update_of_ne (Ne.symm hd)] at ih
        exact ih
    | tick =>
      obtain ⟨-, rfl⟩ := hstep
      exact ih

/-- Nothing is left of the times before. -/
theorem past_of_path (h : (system span).Path s es t) (hs : ∀ d < s.now, s.due d = []) :
    ∀ d < t.now, t.due d = [] := by
  refine h.invariant (P := fun s => ∀ d < s.now, s.due d = []) ?_ hs
  intro s e t hstep hs d hd
  cases e with
  | set n a =>
    obtain ⟨hn, -, rfl⟩ := hstep
    rw [set_now] at hd
    rw [set_due, Function.update_of_ne (by omega)]
    exact hs d hd
  | fire as =>
    obtain ⟨-, -, rfl⟩ := hstep
    have hd' : d < s.now := hd
    simp only
    rw [Function.update_of_ne (by omega)]
    exact hs d hd'
  | tick =>
    obtain ⟨hdue, rfl⟩ := hstep
    have hd' : d < s.now + 1 := hd
    rcases Nat.lt_or_ge d s.now with hlt | hge
    · exact hs d hlt
    · rw [show d = s.now by omega]
      exact hdue

/-- **Everything is handed out at its time**, in the order in which it was set, and
nothing is handed out that was not set. -/
theorem fired_eq (h : (system span).Path empty es t) :
    (∀ d < ticks es, fired 0 d es = asked 0 d es) ∧ ∀ d, fired 0 d es <+: asked 0 d es := by
  have hdue : ∀ d, asked 0 d es = fired 0 d es ++ t.due d := fun d => by simpa [empty] using due_of_path (d := d) h
  refine ⟨fun d hd => ?_, fun d => ⟨t.due d, (hdue d).symm⟩⟩
  have hpast := past_of_path h (fun d hd => absurd hd (Nat.not_lt_zero d)) d (by
    rw [now_of_path h]
    exact Nat.lt_add_left _ hd)
  rw [hdue d, hpast, List.append_nil]

end Agenda

end Athena
