import Mathlib.Data.Set.Insert
import Mathlib.Tactic.Common
/-!
# Who holds what

Things in use are spread over holders, each of which has at most one:
`holds h` is the thing holder `h` has. `Held holds live` says that the
things held are the live ones, and that none of them is held twice or
not at all. A thing that goes from one holder to an empty one
(`Held.move`) and a new one that comes to an empty holder (`Held.add`)
keep that.
-/

namespace Athena

variable {H A : Type*} {holds holds' : H → Option A} {live : Set A} {h r : H} {a : A}

/-- **Every live thing has one holder**, and nothing else has any. -/
structure Held (holds : H → Option A) (live : Set A) : Prop where
  live_of : ∀ h a, holds h = some a → a ∈ live
  held : ∀ a ∈ live, ∃ h, holds h = some a
  one : ∀ h r a, holds h = some a → holds r = some a → h = r

/-- A thing changes hands. -/
theorem Held.move (hh : Held holds live) (hfrom : holds h = some a) (hto : holds r = none)
    (hfrom' : holds' h = none) (hto' : holds' r = some a)
    (hrest : ∀ k, k ≠ h → k ≠ r → holds' k = holds k) : Held holds' live := by
  have hne : h ≠ r := by
    rintro rfl
    rw [hfrom] at hto
    cases hto
  -- a holder of the new state is the receiver, or had the same thing before
  have hback : ∀ k b, holds' k = some b → k = r ∧ b = a ∨ k ≠ r ∧ k ≠ h ∧ holds k = some b := by
    intro k b hk
    by_cases h1 : k = r
    · subst h1
      rw [hto'] at hk
      exact Or.inl ⟨rfl, (Option.some.inj hk).symm⟩
    · by_cases h2 : k = h
      · subst h2
        rw [hfrom'] at hk
        cases hk
      · rw [hrest k h2 h1] at hk
        exact Or.inr ⟨h1, h2, hk⟩
  refine ⟨?_, ?_, ?_⟩
  · intro k b hk
    rcases hback k b hk with ⟨-, rfl⟩ | ⟨-, -, hk⟩
    · exact hh.live_of h b hfrom
    · exact hh.live_of k b hk
  · intro b hb
    obtain ⟨k, hk⟩ := hh.held b hb
    by_cases h2 : k = h
    · subst h2
      rw [hfrom] at hk
      exact ⟨r, by rw [hto', hk]⟩
    · have h1 : k ≠ r := by
        rintro rfl
        rw [hto] at hk
        cases hk
      exact ⟨k, by rw [hrest k h2 h1, hk]⟩
  · intro k k' b hk hk'
    rcases hback k b hk with ⟨rfl, rfl⟩ | ⟨-, hne₁, hk⟩ <;>
      rcases hback k' b hk' with ⟨heq, hb⟩ | ⟨-, hne₂, hk'⟩
    · exact heq.symm
    · exact absurd (hh.one k' h b hk' hfrom) hne₂
    · rw [hb] at hk
      exact absurd (hh.one k h a hk hfrom) hne₁
    · exact hh.one k k' b hk hk'

/-- A new thing comes to an empty holder. -/
theorem Held.add (hh : Held holds live) (hnew : a ∉ live) (hto : holds r = none)
    (hto' : holds' r = some a) (hrest : ∀ k, k ≠ r → holds' k = holds k) :
    Held holds' (insert a live) := by
  have hback : ∀ k b, holds' k = some b → k = r ∧ b = a ∨ holds k = some b := by
    intro k b hk
    by_cases h1 : k = r
    · subst h1
      rw [hto'] at hk
      exact Or.inl ⟨rfl, (Option.some.inj hk).symm⟩
    · rw [hrest k h1] at hk
      exact Or.inr hk
  refine ⟨?_, ?_, ?_⟩
  · intro k b hk
    rcases hback k b hk with ⟨-, rfl⟩ | hk
    · exact Set.mem_insert b live
    · exact Set.mem_insert_of_mem a (hh.live_of k b hk)
  · intro b hb
    rcases Set.mem_insert_iff.mp hb with rfl | hb
    · exact ⟨r, hto'⟩
    · obtain ⟨k, hk⟩ := hh.held b hb
      have h1 : k ≠ r := by
        rintro rfl
        rw [hto] at hk
        cases hk
      exact ⟨k, by rw [hrest k h1, hk]⟩
  · intro k k' b hk hk'
    rcases hback k b hk with ⟨rfl, rfl⟩ | hk <;> rcases hback k' b hk' with ⟨rfl, hb⟩ | hk'
    · rfl
    · exact absurd (hh.live_of k' b hk') hnew
    · exact absurd (hb ▸ hh.live_of k b hk) hnew
    · exact hh.one k k' b hk hk'

end Athena
