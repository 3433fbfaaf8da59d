import Athena.Common.System
import Athena.Common.Trace
import Athena.Timecheck.Levels
/-!
# The expiry manager — exactness

What the manager is for, without levels and timers: a map from keys to items
(`given`), which an accepted add and an update write, and which a removal, a
clearing and a completion empty. `step_holds`: the levels hold this map after every
call, whatever the times are, also where a run raises.
-/

namespace Athena

namespace Timecheck

variable {κ δ η : Type*} [DecidableEq κ]

/-! ## The map -/

/-- The map after a call and its answer. -/
def after (A : κ → Option (Item δ η)) (e : Event κ δ η × Answer κ δ η) : κ → Option (Item δ η) :=
  match e.1.op, e.2 with
  | .addCheckItem key data endTime completeHandler, .added (some _) =>
    Function.update A key (some ⟨data, endTime, completeHandler⟩)
  | .updateCheckTime key endtime, _ =>
    Function.update A key ((A key).map fun item => { item with endTime := endtime })
  | .removeCheckItem key, _ => Function.update A key none
  | .clearAllCheckItem, _ => fun _ => none
  | .run, .completed calls => fun key => if key ∈ calls.map Call.key then none else A key
  | _, _ => A

/-- **What was given for each key last**, and was not taken away since. -/
def given (es : List (Event κ δ η × Answer κ δ η)) : κ → Option (Item δ η) :=
  es.foldl after fun _ => none

/-- The calls by which an item leaves. -/
def Ends (cfg : Config) (k : κ) (e : Event κ δ η × Answer κ δ η) : Prop :=
  (∃ calls, e.2 = .completed calls ∧ k ∈ calls.map Call.key) ∨ e.1.op = .removeCheckItem k ∨
    e.1.op = .clearAllCheckItem ∨
    cfg.isAddCover = true ∧ ∃ data endTime handler, e.1.op = .addCheckItem k data endTime handler

/-- An accepted add. -/
def Adds (k : κ) (e : Event κ δ η × Answer κ δ η) : Prop :=
  ∃ data endTime handler index,
    e.1.op = .addCheckItem k data endTime handler ∧ e.2 = .added (some index)

/-- How often a key was completed. -/
def completions (k : κ) : List (Event κ δ η × Answer κ δ η) → ℕ
  | [] => 0
  | (_, .completed calls) :: es => (calls.map Call.key).count k + completions k es
  | _ :: es => completions k es

/-- **What an answer says of the map before it.** -/
structure Tells (cfg : Config) (A : κ → Option (Item δ η)) (e : Event κ δ η × Answer κ δ η) :
    Prop where
  /-- Each key is completed once, with its item, and not before its end time. -/
  completed : ∀ calls, e.2 = .completed calls → (calls.map Call.key).Nodup ∧
    ∀ c ∈ calls, A c.key = some c.item ∧ c.item.endTime ≤ current_time e.1.now
  /-- An item changes only by an update, and leaves only by one of the calls that end it. -/
  leaves : ∀ k x, A k = some x → after A e k = some x ∨ Ends cfg k e ∨
    ∃ endtime, e.1.op = .updateCheckTime k endtime ∧ after A e k = some { x with endTime := endtime }

/-- **The manager as a transition system.** -/
def system (cfg : Config) : System (State κ δ η) (Event κ δ η × Answer κ δ η) where
  init s := s = create
  step s e t := step cfg s e.1 = (t, e.2)

variable {cfg : Config} {s t : State κ δ η} {A B : κ → Option (Item δ η)} {k : κ} {now : ℤ}
  {x : Item δ η} {e : Event κ δ η × Answer κ δ η}

/-! ## The levels hold the map -/

/-- **The levels hold a map**: each key is where its item is, on one level. -/
def Holds (cfg : Config) (s : State κ δ η) (A : κ → Option (Item δ η)) : Prop :=
  ∀ k, ∃ p, At cfg s k p ∧ p.map Prod.snd = A k

theorem Holds.oneLevel (h : Holds cfg s A) : OneLevel cfg s := fun k => ⟨_, (h k).choose_spec.1⟩

/-- An item of the map is on some level. -/
theorem Holds.stored (h : Holds cfg s A) (hk : A k = some x) : ∃ i, At cfg s k (some (i, x)) := by
  obtain ⟨p, hp, hA⟩ := h k
  rw [hk] at hA
  obtain ⟨⟨i, y⟩, rfl, rfl⟩ := Option.map_eq_some_iff.mp hA
  exact ⟨i, hp⟩

theorem Holds.absent (h : Holds cfg s A) (hk : A k = none) : At cfg s k none := by
  obtain ⟨p, hp, hA⟩ := h k
  rw [hk, Option.map_eq_none_iff] at hA
  exact hA ▸ hp

/-- What the levels show is what the map has. -/
theorem Holds.look_iff (h : Holds cfg s A) : (∃ i, s.look i k = some x) ↔ A k = some x := by
  obtain ⟨p, hp, hA⟩ := h k
  constructor
  · rintro ⟨i, hi⟩
    rw [hp.look_eq_some.mp hi] at hA
    exact hA.symm
  · intro hk
    obtain ⟨i, hi⟩ := h.stored hk
    exact ⟨i, hi.look_eq_some.mpr rfl⟩

theorem holds_create : Holds cfg (create : State κ δ η) fun _ => none :=
  fun _ => ⟨none, ⟨by simp, fun _ => rfl⟩, rfl⟩

/-- One key changed its place, the others did not move. -/
theorem Holds.update (h : Holds cfg s A) (hspares : Spares k s t) {p : Option (ℕ × Item δ η)}
    (hp : At cfg t k p) : Holds cfg t (Function.update A k (p.map Prod.snd)) := by
  intro k'
  rcases eq_or_ne k' k with rfl | hne
  · exact ⟨p, hp, by simp⟩
  · obtain ⟨q, hq, hA⟩ := h k'
    exact ⟨q, hq.spares hspares hne, by simp [hne, hA]⟩

/-! ## A step -/

/-- Without an answer of completions nothing is said of completions. -/
theorem Tells.of_leaves (hnone : ∀ calls, e.2 ≠ .completed calls)
    (h : ∀ k x, A k = some x → after A e k = some x ∨ Ends cfg k e ∨
      ∃ endtime, e.1.op = .updateCheckTime k endtime ∧
        after A e k = some { x with endTime := endtime }) : Tells cfg A e :=
  ⟨fun calls hc => absurd hc (hnone calls), h⟩

theorem add_holds (hcfg : cfg.checkCfg ≠ []) (h : Holds cfg s A) (data : δ) (endTime : ℤ)
    (handler : Option η)
    (hstep : step cfg s ⟨now, .addCheckItem k data endTime handler⟩ = (t, e.2))
    (he : e.1 = ⟨now, .addCheckItem k data endTime handler⟩) :
    Holds cfg t (after A e) ∧ Tells cfg A e := by
  obtain ⟨p, hp, hAk⟩ := h k
  by_cases hok : cfg.isAddCover = true ∨ p = none
  · obtain ⟨u, i, heq, hadd⟩ := addCheckItem_added now data endTime handler hcfg hp hok
    simp only [step, heq, Prod.mk.injEq] at hstep
    obtain ⟨rfl, ha⟩ := hstep
    have hafter : after A e = Function.update A k (some ⟨data, endTime, handler⟩) := by
      simp only [after, he, ← ha]
    refine ⟨hafter ▸ h.update hadd.spares hadd.stored, Tells.of_leaves (by simp [← ha]) ?_⟩
    intro k' y hy
    rcases eq_or_ne k' k with rfl | hne
    · rcases hok with hcover | rfl
      · exact Or.inr (Or.inl (Or.inr (Or.inr (Or.inr ⟨hcover, _, _, _, by rw [he]⟩))))
      · rw [← hAk] at hy
        cases hy
    · exact Or.inl (by rw [hafter, Function.update_of_ne hne, hy])
  · obtain ⟨hcover, hsome⟩ := not_or.mp hok
    obtain ⟨⟨i, y⟩, rfl⟩ := Option.ne_none_iff_exists'.mp hsome
    have heq := addCheckItem_refused now data endTime handler (by simpa using hcover) hp
    simp only [step, heq, Prod.mk.injEq] at hstep
    obtain ⟨rfl, ha⟩ := hstep
    have hafter : after A e = A := by simp only [after, he, ← ha]
    refine ⟨by rw [hafter]; exact h, Tells.of_leaves (by simp [← ha]) fun k' y hy => ?_⟩
    exact Or.inl (by rw [hafter, hy])

theorem update_holds (hcfg : cfg.checkCfg ≠ []) (h : Holds cfg s A) (endtime : ℤ)
    (hstep : step cfg s ⟨now, .updateCheckTime k endtime⟩ = (t, e.2))
    (he : e.1 = ⟨now, .updateCheckTime k endtime⟩) :
    Holds cfg t (after A e) ∧ Tells cfg A e := by
  have hafter : after A e
      = Function.update A k ((A k).map fun item => { item with endTime := endtime }) := by
    simp only [after, he]
  have hleaves : ∀ k' y, A k' = some y → after A e k' = some y ∨ Ends cfg k' e ∨
      ∃ endtime, e.1.op = .updateCheckTime k' endtime ∧
        after A e k' = some { y with endTime := endtime } := by
    intro k' y hy
    rcases eq_or_ne k' k with rfl | hne
    · exact Or.inr (Or.inr ⟨endtime, by rw [he], by simp [hafter, hy]⟩)
    · exact Or.inl (by rw [hafter, Function.update_of_ne hne, hy])
  rcases hA : A k with - | y
  · simp only [step, updateCheckTime_none (h.absent hA), Prod.mk.injEq] at hstep
    obtain ⟨rfl, ha⟩ := hstep
    refine ⟨?_, Tells.of_leaves (by simp [← ha]) hleaves⟩
    rw [hafter, hA]
    exact h.update Spares.refl (h.absent hA)
  · obtain ⟨i, hi⟩ := h.stored hA
    obtain ⟨u, j, heq, hadd⟩ := updateCheckTime_added now endtime hcfg hi
    simp only [step, heq, Prod.mk.injEq] at hstep
    obtain ⟨rfl, ha⟩ := hstep
    refine ⟨?_, Tells.of_leaves (by simp [← ha]) hleaves⟩
    rw [hafter, hA]
    exact h.update hadd.spares hadd.stored

theorem remove_holds (h : Holds cfg s A)
    (hstep : step cfg s ⟨now, .removeCheckItem k⟩ = (t, e.2))
    (he : e.1 = ⟨now, .removeCheckItem k⟩) : Holds cfg t (after A e) ∧ Tells cfg A e := by
  obtain ⟨p, hp, -⟩ := h k
  obtain ⟨hnone, hspares⟩ := removeCheckItem_at hp
  simp only [step, Prod.mk.injEq] at hstep
  obtain ⟨rfl, ha⟩ := hstep
  have hafter : after A e = Function.update A k none := by simp only [after, he]
  refine ⟨hafter ▸ h.update hspares hnone, Tells.of_leaves (by simp [← ha]) fun k' y hy => ?_⟩
  rcases eq_or_ne k' k with rfl | hne
  · exact Or.inr (Or.inl (Or.inr (Or.inl (by rw [he]))))
  · exact Or.inl (by rw [hafter, Function.update_of_ne hne, hy])

/-- A run takes nothing from the map. -/
theorem run_holds (h : Holds cfg s A) (hstep : step cfg s ⟨now, .run⟩ = (t, e.2)) (he : e.1 = ⟨now, .run⟩) :
    Holds cfg t (after A e) ∧ Tells cfg A e := by
  have hrun : run cfg s now = (t, e.2) := hstep
  have hspec := run_spec cfg s now
  rw [hrun] at hspec
  obtain ⟨hlist, hanswer⟩ : t.checkList = s.checkList ∧ (e.2 = .completed [] ∨ e.2 = .raises) := hspec
  have hafter : after A e = A := by
    rcases hanswer with ha | ha
    · simp [after, he, ha]
    · simp only [after, he, ha]
  have hholds : Holds cfg t A := by
    intro k
    obtain ⟨p, hp, hA⟩ := h k
    exact ⟨p, hp.congr fun j => by rw [State.look, hlist, State.look], hA⟩
  rw [hafter]
  refine ⟨hholds, fun calls hc => ?_, fun k y hy => Or.inl (by rw [hafter, hy])⟩
  rcases hanswer with ha | ha
  · rw [ha] at hc
    cases hc
    exact ⟨List.nodup_nil, fun c hc => absurd hc List.not_mem_nil⟩
  · rw [ha] at hc
    cases hc

/-- **Every call keeps the levels in step with the map.** -/
theorem step_holds (hcfg : cfg.checkCfg ≠ []) (h : Holds cfg s A)
    (hstep : (system cfg).step s e t) : Holds cfg t (after A e) ∧ Tells cfg A e := by
  have hs : step cfg s e.1 = (t, e.2) := hstep
  rcases he : e.1 with ⟨now, op⟩
  rw [he] at hs
  cases op with
  | addCheckItem k data endTime handler => exact add_holds hcfg h data endTime handler hs he
  | updateCheckTime k endtime => exact update_holds hcfg h endtime hs he
  | removeCheckItem k => exact remove_holds h hs he
  | clearAllCheckItem =>
    simp only [step, Prod.mk.injEq] at hs
    obtain ⟨rfl, ha⟩ := hs
    have hafter : after A e = fun _ => none := by simp only [after, he]
    refine ⟨hafter ▸ fun k => ⟨none, ⟨by simp, fun _ => rfl⟩, rfl⟩, ?_⟩
    exact Tells.of_leaves (by simp [← ha])
      fun k' y hy => Or.inr (Or.inl (Or.inr (Or.inr (Or.inl (by rw [he])))))
  | run => exact run_holds h hs he

/-! ## Runs -/

variable {es mid : List (Event κ δ η × Answer κ δ η)}

/-- A run keeps the levels in step with the map. -/
theorem path_holds (hcfg : cfg.checkCfg ≠ []) (h : Holds cfg s A)
    (hpath : (system cfg).Path s es t) : Holds cfg t (es.foldl after A) := by
  induction hpath generalizing A with
  | nil s => exact h
  | cons hstep _ ih => exact ih (step_holds hcfg h hstep).1

/-- A key that is absent stays absent without an accepted add of it. -/
theorem after_none (hk : A k = none) (hadd : ¬ Adds k e) : after A e k = none := by
  rcases e with ⟨⟨now, op⟩, a⟩
  cases op with
  | addCheckItem key data endTime handler =>
    rcases a with (- | index) | b | - | calls | -
    · exact hk
    · have hne : k ≠ key := by
        rintro rfl
        exact hadd ⟨data, endTime, handler, index, rfl, rfl⟩
      simpa only [after, Function.update_of_ne hne] using hk
    · exact hk
    · exact hk
    · exact hk
    · exact hk
  | updateCheckTime key endtime =>
    rcases eq_or_ne k key with rfl | hne
    · simp [after, hk]
    · simpa only [after, Function.update_of_ne hne] using hk
  | removeCheckItem key =>
    rcases eq_or_ne k key with rfl | hne
    · simp [after]
    · simpa only [after, Function.update_of_ne hne] using hk
  | clearAllCheckItem => rfl
  | run =>
    cases a with
    | completed calls => simp [after, hk]
    | added index => exact hk
    | found b => exact hk
    | none => exact hk
    | raises => exact hk

/-- Only a run answers with completions, and what it completes is gone. -/
theorem after_completed {calls : List (Call κ δ η)} (hstep : (system cfg).step s e t)
    (ha : e.2 = .completed calls) (hk : k ∈ calls.map Call.key) : after A e k = none := by
  rcases e with ⟨⟨now, op⟩, a⟩
  obtain rfl : a = .completed calls := ha
  have hs : step cfg s ⟨now, op⟩ = (t, .completed calls) := hstep
  cases op with
  | run => simp only [after, if_pos hk]
  | addCheckItem key data endTime handler => simp [step] at hs
  | updateCheckTime key endtime => simp [step] at hs
  | removeCheckItem key => simp [step] at hs
  | clearAllCheckItem => simp [step] at hs

/-- **A step completes a key at most once, and only one that is stored**; then
it is gone. -/
theorem completions_step (h : Tells cfg A e) (hstep : (system cfg).step s e t) :
    completions k [e] = 0 ∨ completions k [e] = 1 ∧ (A k).isSome ∧ after A e k = none := by
  rcases e with ⟨ev, i | b | - | calls | -⟩
  · exact Or.inl rfl
  · exact Or.inl rfl
  · exact Or.inl rfl
  · obtain ⟨hnodup, hdue⟩ := h.completed calls rfl
    have hcount : completions k [(ev, .completed calls)] = (calls.map Call.key).count k := rfl
    by_cases hk : k ∈ calls.map Call.key
    · refine Or.inr ⟨?_, ?_, after_completed hstep rfl hk⟩
      · rw [hcount]
        exact List.count_eq_one_of_mem hnodup hk
      · obtain ⟨c, hc, rfl⟩ := List.mem_map.mp hk
        simp [(hdue c hc).1]
    · exact Or.inl (hcount.trans (List.count_eq_zero_of_not_mem hk))
  · exact Or.inl rfl

theorem completions_cons : completions k (e :: es) = completions k [e] + completions k es := by
  rcases e with ⟨ev, a⟩
  cases a <;> simp [completions]

/-- **Until a key is added again it is completed at most once**, and not at all
when it is not stored. -/
theorem path_completions (hcfg : cfg.checkCfg ≠ []) (h : Holds cfg s A)
    (hpath : (system cfg).Path s es t) (hadd : ∀ e ∈ es, ¬ Adds k e) :
    completions k es ≤ if (A k).isSome then 1 else 0 := by
  induction hpath generalizing A with
  | nil s => simp [completions]
  | @cons s m t e es hstep _ ih =>
    obtain ⟨hm, htells⟩ := step_holds hcfg h hstep
    have hrest := ih hm fun e' he' => hadd e' (List.mem_cons_of_mem _ he')
    rw [completions_cons]
    rcases completions_step (k := k) htells hstep with h0 | ⟨h1, hsome, hnone⟩
    · -- nothing completed: what is stored afterwards was stored before
      by_cases hk : (A k).isSome
      · rw [h0, if_pos hk]
        split at hrest <;> omega
      · have hnone := after_none (Option.not_isSome_iff_eq_none.mp hk)
          (hadd e List.mem_cons_self)
        rw [hnone] at hrest
        simp only [Option.isSome_none, Bool.false_eq_true, if_false] at hrest
        omega
    · rw [hnone] at hrest
      simp only [Option.isSome_none, Bool.false_eq_true, if_false] at hrest
      rw [if_pos hsome]
      omega

/-- What each answer of a run says of the map before it. -/
theorem path_tells (hcfg : cfg.checkCfg ≠ []) (hpath : (system cfg).Path create es t) :
    AtEach (fun pre e => Tells cfg (given pre) e) es := by
  rintro pre e post rfl
  obtain ⟨m, hm, hrest⟩ := System.path_append.mp hpath
  cases hrest with
  | cons hstep _ => exact (step_holds hcfg (path_holds hcfg holds_create hm) hstep).2

/-- **What holds after any calls.** -/
structure Exact (cfg : Config) (es : List (Event κ δ η × Answer κ δ η)) (s : State κ δ η) :
    Prop where
  /-- A key is on one level at most. -/
  oneLevel : OneLevel cfg s
  /-- What is stored for a key is what was given for it last. -/
  stored : ∀ k x, (∃ i, s.look i k = some x) ↔ given es k = some x
  /-- Completions are due, and an item leaves only by a call that ends it. -/
  tells : AtEach (fun pre e => Tells cfg (given pre) e) es
  /-- Each added item is completed at most once. -/
  once : ∀ k pre mid post, es = pre ++ mid ++ post → (∀ e ∈ mid, ¬ Adds k e) →
    completions k mid ≤ if (given pre k).isSome then 1 else 0
  /-- A stored key is not added again without covering. -/
  refused : cfg.isAddCover = false → ∀ i k x now data endTime handler, s.look i k = some x →
    step cfg s ⟨now, .addCheckItem k data endTime handler⟩ = (s, .added none)

/-- **Exactness**, for any calls at any times. -/
theorem expiry_exact (cfg : Config) (hcfg : cfg.checkCfg ≠ []) {s : State κ δ η}
    {es : List (Event κ δ η × Answer κ δ η)} (hpath : (system cfg).Path create es s) :
    Exact cfg es s := by
  have hholds : Holds cfg s (given es) := path_holds hcfg holds_create hpath
  refine ⟨hholds.oneLevel, fun k x => hholds.look_iff, path_tells hcfg hpath, ?_, ?_⟩
  · rintro k pre mid post rfl hadd
    obtain ⟨m, hm, -⟩ := System.path_append.mp hpath
    obtain ⟨m', hpre, hmid⟩ := System.path_append.mp hm
    exact path_completions hcfg (path_holds hcfg holds_create hpre) hmid hadd
  · intro hcover i k x now data endTime handler hlook
    obtain ⟨p, hp, -⟩ := hholds k
    have hat : At cfg s k (some (i, x)) := hp.look_eq_some.mp hlook ▸ hp
    simp only [step, addCheckItem_refused now data endTime handler hcover hat]

/-- The levels of the default configuration: an item is added, is refused, is moved to another
level by its new end time, stays there when a run raises, and is removed. -/
theorem expiry_exact_default : ∃ s : State ℕ Bool Unit,
    Exact ⟨[1, 300, 3600], false⟩
      [(⟨0, .addCheckItem 7 true 1 none⟩, .added (some 0)), (⟨50, .run⟩, .completed []),
        (⟨50, .addCheckItem 7 false 2 none⟩, .added none), (⟨50, .updateCheckTime 7 400⟩, .found true),
        (⟨100, .run⟩, .raises), (⟨120, .removeCheckItem 7⟩, .found true)] s :=
  ⟨_, expiry_exact ⟨[1, 300, 3600], false⟩ (by simp)
    (.cons rfl (.cons rfl (.cons rfl (.cons rfl (.cons rfl (.cons rfl (.nil _)))))))⟩

end Timecheck

end Athena
