import Mathlib.Data.List.Basic
import Mathlib.Tactic.Common
/-!
# Occurrences in a trace

A trace is the list of what a run did. Two notions are enough to speak
of the order of its entries: `Since R tr x` — `x` occurs and nothing
with `R` occurs after it — and `AtEach Q tr` — every entry stands in the
relation `Q` to the entries before it. Both are read over an appended
piece (`since_append`, `atEach_append`), which is how a run extends its
trace.
-/

namespace Athena

variable {α : Type*} {R : α → Prop} {Q : List α → α → Prop} {tr out : List α} {x y : α}

/-- **`x` occurs in `tr` with nothing in `R` after it.** -/
def Since (R : α → Prop) (tr : List α) (x : α) : Prop :=
  ∃ pre post, tr = pre ++ x :: post ∧ ∀ y ∈ post, ¬ R y

/-- **Every entry is `Q`-related to the entries before it.** -/
def AtEach (Q : List α → α → Prop) (tr : List α) : Prop :=
  ∀ pre x post, tr = pre ++ x :: post → Q pre x

theorem not_since_nil : ¬ Since R [] x := by
  rintro ⟨pre, post, h, -⟩
  simp at h

/-- After an appended piece, `x` is in the piece, or was there before and
the piece has nothing in `R`. -/
theorem since_append :
    Since R (tr ++ out) x ↔ Since R out x ∨ (∀ y ∈ out, ¬ R y) ∧ Since R tr x := by
  constructor
  · rintro ⟨pre, post, h, hpost⟩
    rcases List.append_eq_append_iff.mp h with ⟨as, rfl, hout⟩ | ⟨bs, rfl, hpost'⟩
    · exact Or.inl ⟨as, post, hout, hpost⟩
    · cases bs with
      | nil => exact Or.inl ⟨[], post, by simpa using hpost'.symm, hpost⟩
      | cons b bs =>
        obtain ⟨rfl, rfl⟩ : x = b ∧ post = bs ++ out := by simpa using hpost'
        exact Or.inr ⟨fun y hy => hpost y (by simp [hy]),
          pre, bs, rfl, fun y hy => hpost y (by simp [hy])⟩
  · rintro (⟨pre, post, rfl, hpost⟩ | ⟨hout, pre, post, rfl, hpost⟩)
    · exact ⟨tr ++ pre, post, by simp, hpost⟩
    · refine ⟨pre, post ++ out, by simp, fun y hy => ?_⟩
      rcases List.mem_append.mp hy with hy | hy
      · exact hpost y hy
      · exact hout y hy

theorem since_singleton : Since R [y] x ↔ x = y := by
  constructor
  · rintro ⟨pre, post, h, -⟩
    cases pre with
    | nil => simp at h; exact h.1.symm
    | cons b pre => simp at h
  · rintro rfl
    exact ⟨[], [], rfl, by simp⟩

theorem Since.mem (h : Since R tr x) : x ∈ tr := by
  obtain ⟨pre, post, rfl, -⟩ := h
  simp

theorem atEach_nil : AtEach Q [] := by
  intro pre x post h
  simp at h

/-- The first entry has nothing before it, and is before the others. -/
theorem atEach_cons : AtEach Q (x :: tr) ↔ Q [] x ∧ AtEach (fun pre y => Q (x :: pre) y) tr := by
  constructor
  · intro h
    exact ⟨h [] x tr rfl, fun pre y post heq => h (x :: pre) y post (by rw [heq]; rfl)⟩
  · rintro ⟨hx, h⟩ pre y post heq
    cases pre with
    | nil =>
      obtain ⟨rfl, -⟩ : x = y ∧ tr = post := by simpa using heq
      exact hx
    | cons z pre =>
      obtain ⟨rfl, htr⟩ : x = z ∧ tr = pre ++ y :: post := by simpa using heq
      exact h pre y post htr

/-- An appended piece owes `Q` to the trace before it. -/
theorem atEach_append (h : AtEach Q tr)
    (hout : ∀ pre x post, out = pre ++ x :: post → Q (tr ++ pre) x) : AtEach Q (tr ++ out) := by
  intro pre x post heq
  rcases List.append_eq_append_iff.mp heq with ⟨as, rfl, hx⟩ | ⟨bs, rfl, hx⟩
  · exact hout as x post hx
  · cases bs with
    | nil => simpa using hout [] x post (by simpa using hx.symm)
    | cons b bs =>
      obtain ⟨rfl, -⟩ : x = b ∧ post = bs ++ out := by simpa using hx
      exact h pre x bs rfl

end Athena
