import Mathlib.Logic.Function.Basic
/-!
# Places

A map from places to what they hold, where some places are not there. One thing
stands for nothing, and any other is *exclusive* where no two places hold it. What
moves from a place to another, or changes places with what it displaces, stays
exclusive.
-/

namespace Athena

namespace Places

variable {κ α : Type*} {nothing a b : α} {f g : κ → Option α} {k k' : κ}

/-- **No two places hold the same thing**, but for nothing. -/
def Exclusive (nothing : α) (f : κ → Option α) : Prop :=
  ∀ a, a ≠ nothing → ∀ k k', f k = some a → f k' = some a → k = k'

/-- Where fewer places hold a thing, it is exclusive still. -/
theorem Exclusive.mono (h : Exclusive nothing f)
    (hle : ∀ k a, a ≠ nothing → g k = some a → f k = some a) : Exclusive nothing g :=
  fun a ha k k' hk hk' => h a ha k k' (hle k a ha hk) (hle k' a ha hk')

variable [DecidableEq κ]

/-- A place is emptied. -/
theorem Exclusive.clear (h : Exclusive nothing f) (k : κ) :
    Exclusive nothing (Function.update f k (some nothing)) := by
  refine h.mono fun x a ha hx => ?_
  by_cases hxk : x = k
  · subst hxk
    rw [Function.update_self] at hx
    exact absurd (Option.some.inj hx).symm ha
  · rwa [Function.update_of_ne hxk] at hx

/-- **What no place holds is put into one.** -/
theorem Exclusive.put (h : Exclusive nothing f) (hfree : ∀ x, f x ≠ some a) (k : κ) :
    Exclusive nothing (Function.update f k (some a)) := by
  intro c hc x y hx hy
  by_cases hca : c = a
  · -- only the place itself has it
    subst hca
    have honly : ∀ z, Function.update f k (some c) z = some c → z = k := by
      intro z hz
      by_contra hzk
      rw [Function.update_of_ne hzk] at hz
      exact hfree z hz
    rw [honly x hx, honly y hy]
  · have hold : ∀ z, Function.update f k (some a) z = some c → f z = some c := by
      intro z hz
      by_cases hzk : z = k
      · subst hzk
        rw [Function.update_self] at hz
        exact absurd (Option.some.inj hz).symm hca
      · rwa [Function.update_of_ne hzk] at hz
    exact h c hc x y (hold x hx) (hold y hy)

/-- Where its place is emptied, no place holds a thing. -/
theorem Exclusive.free (h : Exclusive nothing f) (ha : a ≠ nothing) (hk : f k = some a) :
    ∀ x, Function.update f k (some nothing) x ≠ some a := by
  intro x hx
  by_cases hxk : x = k
  · subst hxk
    rw [Function.update_self] at hx
    exact ha (Option.some.inj hx).symm
  · rw [Function.update_of_ne hxk] at hx
    exact hxk (h a ha x k hx hk)

/-- **A thing moves to another place**, and what was there is gone. -/
theorem Exclusive.move (h : Exclusive nothing f) (ha : a ≠ nothing) (hk : f k = some a) :
    Exclusive nothing (Function.update (Function.update f k (some nothing)) k' (some a)) :=
  (h.clear k).put (h.free ha hk) k'

/-- **Two things change places.** -/
theorem Exclusive.swap (h : Exclusive nothing f) (ha : a ≠ nothing) (hk : f k = some a)
    (hkk : k ≠ k') (hk' : f k' = some b) :
    Exclusive nothing (Function.update (Function.update f k (some b)) k' (some a)) := by
  have hmove : Exclusive nothing
      (Function.update (Function.update f k (some nothing)) k' (some a)) := h.move ha hk
  have heq : Function.update (Function.update f k (some b)) k' (some a) =
      Function.update (Function.update (Function.update f k (some nothing)) k' (some a)) k
        (some b) := by
    rw [Function.update_comm hkk, Function.update_comm hkk, Function.update_idem]
  by_cases hb : b = nothing
  · rw [hb]
    exact hmove
  · rw [heq]
    refine hmove.put (fun x hx => ?_) k
    -- the place of `b` holds `a` by now
    by_cases hxk' : x = k'
    · subst hxk'
      rw [Function.update_self] at hx
      exact hkk (h a ha k x hk (hk'.trans hx.symm))
    · rw [Function.update_of_ne hxk'] at hx
      by_cases hxk : x = k
      · subst hxk
        rw [Function.update_self] at hx
        exact hb (Option.some.inj hx).symm
      · rw [Function.update_of_ne hxk] at hx
        exact hxk' (h b hb x k' hx hk')

end Places

end Athena
