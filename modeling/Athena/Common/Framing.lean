import Mathlib.Data.List.Basic
import Mathlib.Data.Nat.Notation
/-!
# Values in a stream

A stream of symbols carries values one after the other, and each value says by itself
where it ends. A `Framing` is what takes the first value off a text; `decode` takes all
that are whole, and leaves the beginning of the next.

So a text may be cut anywhere: what is left of one piece is put before the next, and the
values are those of the whole text (`decode_append`). What was encoded is decoded again
(`decode_encode`).
-/

namespace Athena

/-- **What takes the first value off a text**, if a whole one is there. What follows a
whole value does not matter to it. -/
structure Framing (α β : Type*) where
  next : List β → Option (α × List β)
  shrinks : ∀ {s a r}, next s = some (a, r) → r.length < s.length
  stable : ∀ {s a r}, next s = some (a, r) → ∀ t, next (s ++ t) = some (a, r ++ t)

namespace Framing

variable {α β : Type*} (F : Framing α β) {s t r : List β} {a : α}

/-- **The whole values** of a text, and what is left. -/
def decode (s : List β) : List α × List β :=
  match _hnext : F.next s with
  | none => ([], s)
  | some (a, r) => (a :: (decode r).1, (decode r).2)
termination_by s.length
decreasing_by all_goals exact F.shrinks _hnext

variable {F}

theorem decode_none (h : F.next s = none) : F.decode s = ([], s) := by
  rw [decode]
  split
  next => rfl
  next hsome => rw [h] at hsome; cases hsome

theorem decode_some (h : F.next s = some (a, r)) : F.decode s = (a :: (F.decode r).1, (F.decode r).2) := by
  rw [decode]
  split
  next hnone => rw [h] at hnone; cases hnone
  next a' r' hsome =>
    obtain ⟨rfl, rfl⟩ := Prod.mk.inj (Option.some.inj (h.symm.trans hsome))
    rfl

/-- What is left has no whole value. -/
theorem next_decode (s : List β) : F.next (F.decode s).2 = none := by
  induction s using decode.induct F with
  | case1 s h =>
    rw [decode_none h]
    exact h
  | case2 s a r h ih =>
    rw [decode_some h]
    exact ih

/-- **A text may be cut anywhere.** -/
theorem decode_append (s t : List β) : F.decode (s ++ t) =
    ((F.decode s).1 ++ (F.decode ((F.decode s).2 ++ t)).1, (F.decode ((F.decode s).2 ++ t)).2) := by
  induction s using decode.induct F with
  | case1 s h =>
    rw [decode_none h]
    rfl
  | case2 s a r h ih =>
    rw [decode_some (F.stable h t), decode_some h, ih]
    rfl

/-- **What was encoded is decoded.** -/
theorem decode_encode {encode : α → List β} {l : List α} (h : ∀ a ∈ l, ∀ r, F.next (encode a ++ r) = some (a, r))
    (r : List β) : F.decode ((l.map encode).flatten ++ r) = (l ++ (F.decode r).1, (F.decode r).2) := by
  induction l with
  | nil => rfl
  | cons a l ih =>
    have hfirst := h a List.mem_cons_self ((l.map encode).flatten ++ r)
    have hrest := ih fun b hb => h b (List.mem_cons_of_mem _ hb)
    rw [List.map_cons, List.flatten_cons, List.append_assoc, decode_some hfirst, hrest]
    rfl

end Framing

end Athena
