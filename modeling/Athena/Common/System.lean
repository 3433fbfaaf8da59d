import Mathlib.Logic.Function.Basic
import Mathlib.Data.List.Basic
/-!
# Labelled transition systems

A service is read as a transition system: its states, the states it may
start in, and the steps it takes under the events it receives. A `Path`
is a finite sequence of steps, labelled by its events; every statement
about *every run* of a service is one about paths. Two rules carry the
proofs over them: an invariant of the steps is an invariant of the paths
(`Path.invariant`), and a path over an appended event list splits at the
join (`path_append`).

`restrict` keeps the steps that meet a condition on the state before the
step and the event, so a run all of whose steps meet it is a path of the
restricted system.
-/

namespace Athena

/-- **A labelled transition system** over states `σ` and events `ε`. -/
structure System (σ ε : Type*) where
  /-- The states a run may start in. -/
  init : σ → Prop
  /-- One step, under one event. -/
  step : σ → ε → σ → Prop

namespace System

variable {σ ε : Type*} (T : System σ ε)

/-- **A finite run**: the state it starts in, its events in order, and
the state it ends in. -/
inductive Path : σ → List ε → σ → Prop
  | nil (s : σ) : Path s [] s
  | cons {s s' t : σ} {e : ε} {es : List ε} (hstep : T.step s e s') (hpath : Path s' es t) :
      Path s (e :: es) t

/-- A state some run from a start state ends in. -/
def Reachable (t : σ) : Prop := ∃ s es, T.init s ∧ T.Path s es t

/-- **The runs whose steps all meet a condition** on the state before the
step and its event. -/
def restrict (C : σ → ε → Prop) : System σ ε where
  init := T.init
  step s e t := T.step s e t ∧ C s e

variable {T}

/-- **What every step preserves, every run preserves.** -/
theorem Path.invariant {P : σ → Prop} (hstep : ∀ s e t, T.step s e t → P s → P t)
    {s t : σ} {es : List ε} (h : T.Path s es t) (hs : P s) : P t := by
  induction h with
  | nil s => exact hs
  | cons hst _ ih => exact ih (hstep _ _ _ hst hs)

/-- The same for what is said of a state and the events that led to it. -/
theorem Path.invariant_history {P : List ε → σ → Prop}
    (hstep : ∀ fs s e t, T.step s e t → P fs s → P (fs ++ [e]) t)
    {s t : σ} {es : List ε} (h : T.Path s es t) {l : List ε} (hs : P l s) : P (l ++ es) t := by
  induction h generalizing l with
  | nil s => simpa using hs
  | @cons s s' t e es hst _ ih =>
    have h' := ih (hstep l s e s' hst hs)
    simpa using h'

/-- So an invariant of the steps that the start states have is one of
every reachable state. -/
theorem Reachable.invariant {P : σ → Prop} (hinit : ∀ s, T.init s → P s)
    (hstep : ∀ s e t, T.step s e t → P s → P t) {t : σ} (h : T.Reachable t) : P t := by
  obtain ⟨s, es, hs, hp⟩ := h
  exact hp.invariant hstep (hinit s hs)

theorem Reachable.of_init {s : σ} (h : T.init s) : T.Reachable s := ⟨s, [], h, Path.nil s⟩

/-- **A run over an appended event list splits at the join.** -/
theorem path_append {s t : σ} {es fs : List ε} :
    T.Path s (es ++ fs) t ↔ ∃ m, T.Path s es m ∧ T.Path m fs t := by
  induction es generalizing s with
  | nil =>
    constructor
    · intro h
      exact ⟨s, Path.nil s, h⟩
    · rintro ⟨m, hm, ht⟩
      cases hm
      exact ht
  | cons e es ih =>
    constructor
    · intro h
      cases h with
      | cons hst hp =>
        obtain ⟨m, h1, h2⟩ := ih.mp hp
        exact ⟨m, Path.cons hst h1, h2⟩
    · rintro ⟨m, hm, ht⟩
      cases hm with
      | cons hst hp => exact Path.cons hst (ih.mpr ⟨m, hp, ht⟩)

theorem Path.trans {s m t : σ} {es fs : List ε} (h₁ : T.Path s es m) (h₂ : T.Path m fs t) :
    T.Path s (es ++ fs) t :=
  path_append.mpr ⟨m, h₁, h₂⟩

theorem path_singleton {s t : σ} {e : ε} : T.Path s [e] t ↔ T.step s e t := by
  constructor
  · intro h
    cases h with
    | cons hst hp => cases hp; exact hst
  · exact fun h => Path.cons h (Path.nil t)

/-- A reachable state extended by a run is reachable. -/
theorem Reachable.path {s t : σ} {es : List ε} (hs : T.Reachable s) (h : T.Path s es t) :
    T.Reachable t := by
  obtain ⟨s₀, fs, h0, hp⟩ := hs
  exact ⟨s₀, fs ++ es, h0, hp.trans h⟩

theorem Reachable.step {s t : σ} {e : ε} (hs : T.Reachable s) (h : T.step s e t) :
    T.Reachable t :=
  hs.path (path_singleton.mpr h)

/-- A restricted run is a run. -/
theorem Path.of_restrict {C : σ → ε → Prop} {s t : σ} {es : List ε}
    (h : (T.restrict C).Path s es t) : T.Path s es t := by
  induction h with
  | nil s => exact Path.nil s
  | cons hst _ ih => exact Path.cons hst.1 ih

/-- A weaker condition keeps more runs. -/
theorem Path.restrict_mono {C D : σ → ε → Prop} (hCD : ∀ s e, C s e → D s e) {s t : σ}
    {es : List ε} (h : (T.restrict C).Path s es t) : (T.restrict D).Path s es t := by
  induction h with
  | nil s => exact Path.nil s
  | cons hst _ ih => exact Path.cons ⟨hst.1, hCD _ _ hst.2⟩ ih

theorem Reachable.restrict_mono {C D : σ → ε → Prop} (hCD : ∀ s e, C s e → D s e) {t : σ}
    (h : (T.restrict C).Reachable t) : (T.restrict D).Reachable t := by
  obtain ⟨s, es, hs, hp⟩ := h
  exact ⟨s, es, hs, hp.restrict_mono hCD⟩

theorem Reachable.of_restrict {C : σ → ε → Prop} {t : σ} (h : (T.restrict C).Reachable t) :
    T.Reachable t := by
  obtain ⟨s, es, hs, hp⟩ := h
  exact ⟨s, es, hs, hp.of_restrict⟩

/-! ## Runs that are computed -/

variable {ω : Type*} {f : σ → ε → Option (σ × ω)} {ok : σ → ε → Bool}

/-- The state a list of events leads to, and its labels, when each event
passes a test and none is out of place. -/
def exec (f : σ → ε → Option (σ × ω)) (ok : σ → ε → Bool) (s : σ) :
    List ε → Option (σ × List (ε × ω))
  | [] => some (s, [])
  | e :: es =>
    if ok s e then
      match f s e with
      | none => none
      | some (s', out) => (exec f ok s' es).map fun r => (r.1, (e, out) :: r.2)
    else none

/-- A run that was computed is a run. -/
theorem path_of_exec {T : System σ (ε × ω)}
    (hT : ∀ s e t out, ok s e = true → f s e = some (t, out) → T.step s (e, out) t)
    {s t : σ} {es : List ε} {labels : List (ε × ω)} (h : exec f ok s es = some (t, labels)) :
    T.Path s labels t := by
  induction es generalizing s labels with
  | nil =>
    cases h
    exact Path.nil _
  | cons e es ih =>
    simp only [exec] at h
    split at h
    · rename_i he
      split at h
      · cases h
      · rename_i s' out hstep
        obtain ⟨⟨t', ls⟩, hr, heq⟩ := Option.map_eq_some_iff.mp h
        cases heq
        exact Path.cons (hT s e s' out he hstep) (ih hr)
    · cases h

end System

end Athena
