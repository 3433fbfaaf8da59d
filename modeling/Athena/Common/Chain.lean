import Mathlib.Data.List.Nodup
import Mathlib.Data.Finset.Card
import Mathlib.Data.Finset.Range
import Mathlib.Logic.Function.Basic
/-!
# Singly linked chains in a heap

A heap maps an address to the cell it holds, `none` where nothing is
allocated; a cell names the next one. `Linked l` says the cells of `l`
are linked in order and the last of them points nowhere. It is a frame
notion — it reads the cells of `l` only (`Linked.congr`) — and a store
into one cell respects it in two ways: with the old link it keeps every
chain (`Linked.store`), with a new link it splices (`Linked.splice`).
`walk` is the loop over a chain, bounded by a count of cells.
-/

namespace Athena

variable {P N β : Type*} [DecidableEq P] {next : N → Option P} {mem mem' : P → Option N}
  {l r : List P} {p : P} {b : N}

/-- **The cells of a list are linked in order**, the last to nothing. -/
def Linked (next : N → Option P) (mem : P → Option N) : List P → Prop
  | [] => True
  | p :: l => (∃ b, mem p = some b ∧ next b = l.head?) ∧ Linked next mem l

/-- **The loop over a chain** from an address, for at most `n` cells. -/
def walk (next : N → Option P) (mem : P → Option N) : ℕ → Option P → List P
  | 0, _ => []
  | _ + 1, none => []
  | n + 1, some p =>
    match mem p with
    | none => []
    | some b => p :: walk next mem n (next b)

/-- What the cells of a list hold, in order. -/
def contents (f : N → List β) (mem : P → Option N) (l : List P) : List β :=
  l.flatMap fun p => (mem p).elim [] f

omit [DecidableEq P] in
/-- **A chain reads its own cells only.** -/
theorem Linked.congr (h : Linked next mem l) (hm : ∀ p ∈ l, mem' p = mem p) :
    Linked next mem' l := by
  induction l with
  | nil => trivial
  | cons q l ih =>
    obtain ⟨⟨b, hb, hn⟩, hl⟩ := h
    exact ⟨⟨b, (hm q (by simp)).trans hb, hn⟩, ih hl fun p hp => hm p (by simp [hp])⟩

omit [DecidableEq P] in
theorem Linked.right (h : Linked next mem (l ++ r)) : Linked next mem r := by
  induction l with
  | nil => exact h
  | cons q l ih => exact ih h.2

/-- **A store that keeps the link keeps every chain.** -/
theorem Linked.store {b' : N} (h : Linked next mem l) (hb : mem p = some b)
    (hn : next b' = next b) : Linked next (Function.update mem p (some b')) l := by
  induction l with
  | nil => trivial
  | cons q l ih =>
    obtain ⟨⟨c, hc, hcn⟩, hl⟩ := h
    refine ⟨?_, ih hl⟩
    by_cases hq : q = p
    · subst hq
      obtain rfl : b = c := Option.some.inj (hb.symm.trans hc)
      exact ⟨b', by simp, hn.trans hcn⟩
    · exact ⟨c, by simp [hq, hc], hcn⟩

/-- **A store of a new link splices**: the chain up to `p` goes on with
the chain the link names. -/
theorem Linked.splice {t : List P} {c : N} (h : Linked next mem (l ++ p :: r)) (hl : p ∉ l)
    (hr : Linked next mem t) (hpr : p ∉ t) (hn : next c = t.head?) :
    Linked next (Function.update mem p (some c)) (l ++ p :: t) := by
  induction l with
  | nil =>
    refine ⟨⟨c, by simp, hn⟩, hr.congr fun q hq => ?_⟩
    have hne : q ≠ p := by
      rintro rfl
      exact hpr hq
    exact Function.update_of_ne hne _ _
  | cons q l ih =>
    obtain ⟨⟨d, hd, hdn⟩, ht⟩ := h
    have hq : q ≠ p := fun heq => hl (by simp [heq])
    refine ⟨⟨d, by simp [hq, hd], ?_⟩, ih ht fun hp => hl (by simp [hp])⟩
    cases l <;> simpa using hdn

omit [DecidableEq P] in
/-- **The loop over a chain visits its cells.** -/
theorem walk_head? {n : ℕ} (h : Linked next mem l) (hn : l.length ≤ n) :
    walk next mem n l.head? = l := by
  induction l generalizing n with
  | nil => cases n <;> rfl
  | cons q l ih =>
    obtain ⟨⟨b, hb, hbn⟩, hl⟩ := h
    cases n with
    | zero => simp at hn
    | succ n =>
      simp only [List.head?_cons, walk, hb, hbn]
      rw [ih hl (by simpa using hn)]

omit [DecidableEq P] in
@[simp]
theorem contents_append (f : N → List β) (mem : P → Option N) (l r : List P) :
    contents f mem (l ++ r) = contents f mem l ++ contents f mem r := by
  simp [contents]

omit [DecidableEq P] in
theorem contents_cons {f : N → List β} (hb : mem p = some b) :
    contents f mem (p :: l) = f b ++ contents f mem l := by
  simp [contents, hb]

omit [DecidableEq P] in
theorem contents_congr {f : N → List β} (hm : ∀ p ∈ l, mem' p = mem p) :
    contents f mem' l = contents f mem l := by
  induction l with
  | nil => rfl
  | cons q l ih =>
    simp only [contents, List.flatMap_cons, hm q (by simp)]
    exact congrArg _ (ih fun p hp => hm p (by simp [hp]))

/-- Distinct numbers below `n` are at most `n`. -/
theorem length_le_of_nodup {l : List ℕ} {n : ℕ} (h : l.Nodup) (hn : ∀ p ∈ l, p < n) :
    l.length ≤ n := by
  rw [← List.toFinset_card_of_nodup h, ← Finset.card_range n]
  refine Finset.card_le_card fun p hp => ?_
  simpa using hn p (by simpa using hp)

end Athena
