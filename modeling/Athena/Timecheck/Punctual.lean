import Athena.Timecheck.Exact
import Mathlib.Tactic.Linarith
/-!
# The expiry manager — nothing is completed

The manager is run at least every `g` hundredths of a second. A run moves no item, and
where the timer of a level has expired it raises. So an item that was put on a level
stays there until it is removed, updated, covered or cleared, however long its end time
has passed (`never_completed`).
-/

namespace Athena

namespace Timecheck

variable {κ δ η : Type*} [DecidableEq κ]

/-! ## Runs with a clock -/

/-- The manager, the time of the last call and the time of the last run. -/
structure Clock (κ δ η : Type*) where
  mgr : State κ δ η
  now : ℤ
  lastrun : ℤ

/-- A call of `run`. -/
def Op.isRun : Op κ δ η → Bool
  | .run => true
  | _ => false

/-- **Calls in time order, and a run within `g` of the last one.** The manager
counts as run when it is created. -/
def clocked (cfg : Config) (g : ℤ) : System (Clock κ δ η) (Event κ δ η × Answer κ δ η) where
  init s := s.mgr = create ∧ s.lastrun = s.now
  step s e t := step cfg s.mgr e.1 = (t.mgr, e.2) ∧ s.now ≤ e.1.now ∧ e.1.now ≤ s.lastrun + g ∧
    t.now = e.1.now ∧ t.lastrun = if e.1.op.isRun then e.1.now else s.lastrun

/-- The calls by which a key gets an item: an accepted add, or an update. -/
def Puts (k : κ) (e : Event κ δ η × Answer κ δ η) : Prop :=
  Adds k e ∨ ∃ endtime, e.1.op = .updateCheckTime k endtime

/-- The calls that change the item of a key, other than a run. -/
def Touches (k : κ) (e : Event κ δ η × Answer κ δ η) : Prop :=
  Puts k e ∨ e.1.op = .removeCheckItem k ∨ e.1.op = .clearAllCheckItem

/-- An item is completed by one of these calls. -/
def Completed (k : κ) (es : List (Event κ δ η × Answer κ δ η)) : Prop :=
  ∃ e ∈ es, ∃ calls, e.2 = .completed calls ∧ k ∈ calls.map Call.key

/-- Completed within the first interval and two gaps after the end time: a clock value. -/
def deadline (cfg : Config) (g : ℤ) (x : Item δ η) : ℤ := 100 * x.endTime + 100 * cfg.interval 0 + 2 * g

variable {cfg : Config} {s t : State κ δ η} {A : κ → Option (Item δ η)} {k : κ} {ℓ : ℕ} {g : ℤ} {x : Item δ η}
  {e : Event κ δ η × Answer κ δ η} {es : List (Event κ δ η × Answer κ δ η)} {c d f : Clock κ δ η}

/-- **What the map has of a key stays** over calls that do not touch it. -/
theorem after_untouched (hstep : step cfg s e.1 = (t, e.2)) (hx : A k = some x) (huntouched : ¬ Touches k e) :
    after A e k = some x ∧ ∀ calls, e.2 = .completed calls → k ∉ calls.map Call.key := by
  rcases e with ⟨⟨now, op⟩, a⟩
  have hstep : step cfg s ⟨now, op⟩ = (t, a) := hstep
  cases op with
  | addCheckItem key data endTime handler =>
    have hs : (addCheckItem cfg s now key data endTime handler).1 = t ∧
        .added (addCheckItem cfg s now key data endTime handler).2 = a := Prod.mk.inj hstep
    obtain ⟨-, rfl⟩ := hs
    refine ⟨?_, fun calls hc => (by cases hc)⟩
    rcases hadded : (addCheckItem cfg s now key data endTime handler).2 with - | index
    · simpa only [after, hadded] using hx
    · -- the key that was added is another one
      have hne : k ≠ key := by
        rintro rfl
        exact huntouched (Or.inl (Or.inl ⟨_, _, _, index, rfl, congrArg Answer.added hadded⟩))
      simpa only [after, hadded, Function.update_of_ne hne] using hx
  | updateCheckTime key endtime =>
    have hne : k ≠ key := by
      rintro rfl
      exact huntouched (Or.inl (Or.inr ⟨endtime, rfl⟩))
    refine ⟨by simpa only [after, Function.update_of_ne hne] using hx, fun calls hc => ?_⟩
    obtain ⟨-, rfl⟩ := Prod.mk.inj hstep
    cases hc
  | removeCheckItem key =>
    have hne : k ≠ key := by
      rintro rfl
      exact huntouched (Or.inr (Or.inl rfl))
    refine ⟨by simpa only [after, Function.update_of_ne hne] using hx, fun calls hc => ?_⟩
    obtain ⟨-, rfl⟩ := Prod.mk.inj hstep
    cases hc
  | clearAllCheckItem => exact absurd (Or.inr (Or.inr rfl)) huntouched
  | run =>
    have hrun : run cfg s now = (t, a) := hstep
    have hspec := (run_spec cfg s now).2
    rw [hrun] at hspec
    rcases hspec with ha | ha
    · obtain rfl : a = .completed [] := ha
      refine ⟨by simpa [after] using hx, fun calls hc => ?_⟩
      cases hc
      exact List.not_mem_nil
    · obtain rfl : a = .raises := ha
      exact ⟨hx, fun calls hc => (by cases hc)⟩

/-- **The item stays**, over any such calls, and none of them completes it. -/
theorem path_untouched (hcfg : cfg.checkCfg ≠ []) (h : Holds cfg c.mgr A) (hx : A k = some x)
    (hpath : (clocked cfg g).Path c es f) (huntouched : ∀ e ∈ es, ¬ Touches k e) :
    (∃ j, f.mgr.look j k = some x) ∧ ¬ Completed k es := by
  induction hpath generalizing A with
  | nil c => exact ⟨h.look_iff.mpr hx, fun ⟨e, he, _⟩ => List.not_mem_nil he⟩
  | @cons c d f e es hstep _ ih =>
    have hs : (system cfg).step c.mgr e d.mgr := hstep.1
    obtain ⟨hafter, hnot⟩ := after_untouched hstep.1 hx (huntouched e List.mem_cons_self)
    obtain ⟨hstored, hrest⟩ := ih (step_holds hcfg h hs).1 hafter
      fun e' he' => huntouched e' (List.mem_cons_of_mem _ he')
    refine ⟨hstored, ?_⟩
    rintro ⟨e', he', calls, hc, hk⟩
    rcases List.mem_cons.mp he' with rfl | he'
    · exact hnot calls hc hk
    · exact hrest ⟨e', he', calls, hc, hk⟩

/-! ## The clock -/

/-- The next run, after a gap. -/
def nextrun (cfg : Config) (g : ℤ) (c : Clock κ δ η) : Clock κ δ η :=
  ⟨(run cfg c.mgr (c.lastrun + g)).1, c.lastrun + g, c.lastrun + g⟩

theorem step_nextrun (h : c.now ≤ c.lastrun + g) :
    (clocked cfg g).step c (⟨c.lastrun + g, .run⟩, (run cfg c.mgr (c.lastrun + g)).2) (nextrun cfg g c) :=
  ⟨rfl, h, le_rfl, rfl, rfl⟩

/-- A clock that is between its last run and the next one. -/
def InTime (g : ℤ) (c : Clock κ δ η) : Prop := c.lastrun ≤ c.now ∧ c.now ≤ c.lastrun + g

/-- **The clock goes on** with runs, past any time. -/
theorem runs_past (cfg : Config) (hg : 0 ≤ g) (n : ℕ) (c : Clock κ δ η) (h : InTime g c) :
    ∃ es f, (clocked cfg g).Path c es f ∧ (∀ e ∈ es, e.1.op = .run) ∧ c.lastrun + n * g ≤ f.now := by
  induction n generalizing c with
  | zero => exact ⟨[], c, .nil c, fun e he => absurd he List.not_mem_nil, by simpa using h.1⟩
  | succ n ih =>
    have hnext : InTime g (nextrun cfg g c) := by
      simp only [InTime, nextrun]
      omega
    obtain ⟨es, f, hpath, hruns, hle⟩ := ih (nextrun cfg g c) hnext
    refine ⟨_, f, .cons (step_nextrun h.2) hpath, fun e he => ?_, ?_⟩
    · rcases List.mem_cons.mp he with rfl | he
      · rfl
      · exact hruns e he
    · simp only [nextrun] at hle
      push_cast
      linarith

theorem inTime (hg : 0 ≤ g) (h : (clocked cfg g).Reachable c) : InTime g c := by
  refine h.invariant (P := InTime g) ?_ ?_
  · rintro c ⟨-, hlast⟩
    exact ⟨hlast.le, by omega⟩
  · rintro c e d ⟨-, hnow, hle, hd, hlast⟩ ⟨hbefore, -⟩
    rw [InTime, hd, hlast]
    split
    · exact ⟨le_rfl, by omega⟩
    · exact ⟨by omega, hle⟩

theorem path_mgr (h : (clocked cfg g).Path c es d) : (system cfg).Path c.mgr es d.mgr := by
  induction h with
  | nil c => exact .nil _
  | cons hstep _ ih => exact .cons hstep.1 ih

/-- **Nothing is ever completed.** Whatever item is stored at some time is there after any calls
that do not touch its key, and none of them has completed it; and runs take the clock past
its deadline, however the manager is configured. -/
theorem never_completed (cfg : Config) (g : ℤ) (hcfg : cfg.checkCfg ≠ []) (hg : 0 < g)
    (h : (clocked cfg g).Reachable d) (hx : d.mgr.look ℓ k = some x) :
    (∀ es f, (clocked cfg g).Path d es f → (∀ e ∈ es, ¬ Touches k e) →
      (∃ j, f.mgr.look j k = some x) ∧ ¬ Completed k es) ∧
    ∃ es f, (clocked cfg g).Path d es f ∧ (∀ e ∈ es, ¬ Touches k e) ∧ deadline cfg g x < f.now := by
  obtain ⟨c₀, es₁, h₀, hpath⟩ := h
  have hmgr := path_mgr hpath
  rw [h₀.1] at hmgr
  have hholds := path_holds hcfg holds_create hmgr
  have hgiven := hholds.look_iff.mp ⟨ℓ, hx⟩
  refine ⟨fun es f hes huntouched => path_untouched hcfg hholds hgiven hes huntouched, ?_⟩
  obtain ⟨es, f, hes, hruns, hle⟩ :=
    runs_past cfg hg.le ((deadline cfg g x - d.lastrun).toNat + 1) d (inTime hg.le ⟨c₀, _, h₀, hpath⟩)
  refine ⟨es, f, hes, fun e he => ?_, ?_⟩
  · rintro ((⟨_, _, _, _, hop, -⟩ | ⟨_, hop⟩) | hop | hop) <;> rw [hruns e he] at hop <;> cases hop
  · have hn : ((deadline cfg g x - d.lastrun).toNat + 1 : ℤ) ≤ ((deadline cfg g x - d.lastrun).toNat + 1) * g :=
      le_mul_of_one_le_right (by omega) hg
    push_cast at hle
    omega

/-! ## One level -/

/-- A second as the only interval, and an item for the first second. -/
def second : Config := ⟨[1], false⟩

/-- The clock after some runs, from the add on. -/
def ranAt (times : List ℤ) : Clock ℕ Bool Unit :=
  times.foldl (fun c now => ⟨(run second c.mgr now).1, now, now⟩)
    ⟨(addCheckItem second create 0 7 true 1 none).1, 0, 0⟩

theorem ranAt_add : (clocked second 100).step ⟨create, 0, 0⟩ (⟨0, .addCheckItem 7 true 1 none⟩, .added (some 0))
    (ranAt []) :=
  ⟨rfl, by decide, by decide, rfl, rfl⟩

theorem ranAt_run (times : List ℤ) (now : ℤ) (hle : (ranAt times).now ≤ now)
    (hgap : now ≤ (ranAt times).lastrun + 100) (hraises : (run second (ranAt times).mgr now).2 = .raises) :
    (clocked second 100).step (ranAt times) (⟨now, .run⟩, .raises) (ranAt (times ++ [now])) := by
  have hlast : ranAt (times ++ [now]) = ⟨(run second (ranAt times).mgr now).1, now, now⟩ := by
    rw [ranAt, List.foldl_append]
    rfl
  rw [hlast]
  exact ⟨Prod.ext rfl hraises, hle, hgap, rfl, rfl⟩

/-- **Five runs, a second apart, raise**, and the item is still there. -/
theorem ranAt_path : (clocked second 100).Path (ranAt [])
    ([100, 200, 300, 400, 500].map fun now => (⟨now, .run⟩, .raises)) (ranAt [100, 200, 300, 400, 500]) :=
  .cons (ranAt_run [] 100 (by decide) (by decide) rfl) <|
    .cons (ranAt_run [100] 200 (by decide) (by decide) rfl) <|
    .cons (ranAt_run [100, 200] 300 (by decide) (by decide) rfl) <|
    .cons (ranAt_run [100, 200, 300] 400 (by decide) (by decide) rfl) <|
    .cons (ranAt_run [100, 200, 300, 400] 500 (by decide) (by decide) rfl) <| .nil _

theorem never_completed_second : (∃ j, (ranAt [100, 200, 300, 400, 500]).mgr.look j 7 = some ⟨true, 1, none⟩) ∧
    ¬ Completed 7 ([100, 200, 300, 400, 500].map fun now =>
      ((⟨now, .run⟩, .raises) : Event ℕ Bool Unit × Answer ℕ Bool Unit)) ∧
    deadline second 100 (⟨true, 1, none⟩ : Item Bool Unit) < (ranAt [100, 200, 300, 400, 500]).now := by
  have hstart : (clocked second 100).init (⟨create, 0, 0⟩ : Clock ℕ Bool Unit) := ⟨rfl, rfl⟩
  have hreach : (clocked second 100).Reachable (ranAt []) :=
    ⟨_, _, hstart, .cons ranAt_add (.nil _)⟩
  obtain ⟨hstored, hnot⟩ := (never_completed second 100 (by decide) (by decide) hreach
    (show (ranAt []).mgr.look 0 7 = some ⟨true, 1, none⟩ from rfl)).1 _ _ ranAt_path (by simp [Touches, Puts, Adds])
  exact ⟨hstored, hnot, by decide⟩

/-- Completed in time: what is still stored has not passed its deadline. -/
def Prompt (cfg : Config) (g : ℤ) : Prop :=
  ∀ (c₀ c d f : Clock ℕ Bool Unit) (es₁ es₂ : List (Event ℕ Bool Unit × Answer ℕ Bool Unit))
    (e : Event ℕ Bool Unit × Answer ℕ Bool Unit) (k : ℕ) (x : Item Bool Unit) (ℓ : ℕ),
    (clocked cfg g).init c₀ → (clocked cfg g).Path c₀ es₁ c → (clocked cfg g).step c e d →
    Puts k e → d.mgr.look ℓ k = some x → (clocked cfg g).Path d es₂ f →
    (∀ e ∈ es₂, ¬ Touches k e) → (∃ j, f.mgr.look j k = some x) → f.now ≤ deadline cfg g x

/-- **With one level this fails.** -/
theorem not_prompt : ¬ ∀ cfg g, cfg.checkCfg ≠ [] → cfg.checkCfg.Pairwise (· < ·) →
    (∀ c ∈ cfg.checkCfg, 0 < c) → Prompt cfg g := by
  intro h
  have hlate := h second 100 (by decide) (by decide) (by decide) ⟨create, 0, 0⟩ ⟨create, 0, 0⟩ (ranAt [])
    (ranAt [100, 200, 300, 400, 500]) [] ([100, 200, 300, 400, 500].map fun now => (⟨now, .run⟩, .raises))
    (⟨0, .addCheckItem 7 true 1 none⟩, .added (some 0)) 7 ⟨true, 1, none⟩ 0 ⟨rfl, rfl⟩ (.nil _) ranAt_add
    (Or.inl ⟨_, _, _, _, rfl, rfl⟩) rfl ranAt_path (by simp [Touches, Puts, Adds]) ⟨0, rfl⟩
  exact absurd hlate (by decide)

end Timecheck

end Athena
