import Mathlib.Tactic.Common
/-!
# Feistel networks

A round mixes one half of a block into the other, and the halves change places. To
take the rounds back the same network runs with its keys in the other order
(`run_reverse`), whatever it mixes in.
-/

namespace Athena

namespace Feistel

variable {κ α : Type*} (op : α → α → α) (mix : κ → α → α)

/-- **A round.** -/
def round (b : α × α) (k : κ) : α × α := (b.2, op b.1 (mix k b.2))

/-- **The network** of a list of keys. -/
def run (ks : List κ) (b : α × α) : α × α := ks.foldl (round op mix) b

variable {op mix} {ks : List κ} {b : α × α} {k : κ}

@[simp] theorem run_nil : run op mix [] b = b := rfl

@[simp] theorem run_cons : run op mix (k :: ks) b = run op mix ks (round op mix b k) := rfl

theorem round_swap (hop : ∀ x y, op (op x y) y = x) :
    round op mix (round op mix b k).swap k = b.swap :=
  congrArg (Prod.mk b.2) (hop b.1 (mix k b.2))

/-- **The network with its keys in the other order** takes back what it did. -/
theorem run_reverse (hop : ∀ x y, op (op x y) y = x) : run op mix ks.reverse (run op mix ks b).swap = b.swap := by
  induction ks generalizing b with
  | nil => rfl
  | cons k ks ih =>
    have hlast : ∀ c, run op mix (ks.reverse ++ [k]) c = round op mix (run op mix ks.reverse c) k := by
      intro c
      simp [run, List.foldl_append]
    rw [List.reverse_cons, run_cons, hlast, ih, round_swap hop]

end Feistel

end Athena
