import Athena.Assignment.Model
import Mathlib.Logic.Relation
import Mathlib.Data.List.Forall2
/-!
# Tasks — when a task is finished

An objective asks for no less than its count, or for no more where `If_Bigger` is 0.
`is_finish` reads the second kind in a first comparison and falls through to the one of
the first kind, so it takes such an objective for met only when it is just at its count.
-/

namespace Athena

namespace Assignment

variable {cfg : Config}

/-- **An objective is met.** -/
def Met (cfg : Config) (v : Progress) : Prop :=
  ∃ object, cfg.task_object v.objectid = some object ∧
    if object.If_Bigger = 0 then v.number ≤ object.Task_Count else object.Task_Count ≤ v.number

/-- An objective that asks for no more than its count is below it. -/
def Below (cfg : Config) (v : Progress) : Prop :=
  ∃ object, cfg.task_object v.objectid = some object ∧ object.If_Bigger = 0 ∧ v.number < object.Task_Count

/-! ## The test -/

/-- **What `is_finish` tests.** -/
theorem is_finish_iff {progress : List Progress} :
    is_finish cfg progress = .ok true ↔ ∀ v ∈ progress, Met cfg v ∧ ¬Below cfg v := by
  induction progress with
  | nil => simp [is_finish]
  | cons v progress ih =>
    rw [List.forall_mem_cons]
    cases hrow : cfg.task_object v.objectid with
    | none => simp [is_finish, Met, hrow]
    | some object =>
      have hmet : Met cfg v ↔
          if object.If_Bigger = 0 then v.number ≤ object.Task_Count else object.Task_Count ≤ v.number := by
        simp [Met, hrow]
      have hbelow : Below cfg v ↔ object.If_Bigger = 0 ∧ v.number < object.Task_Count := by
        simp [Below, hrow]
      simp only [is_finish, hrow, hmet, hbelow]
      by_cases hover : object.If_Bigger = 0 ∧ object.Task_Count < v.number
      · rw [if_pos hover, if_pos hover.1]
        constructor
        · intro h
          cases h
        · rintro ⟨⟨h, -⟩, -⟩
          omega
      by_cases hunder : v.number < object.Task_Count
      · rw [if_neg hover, if_pos hunder]
        constructor
        · intro h
          cases h
        · rintro ⟨⟨h, hn⟩, -⟩
          split at h
          · exact absurd ⟨‹_›, hunder⟩ hn
          · omega
      · rw [if_neg hover, if_neg hunder, ih]
        refine ⟨fun h => ⟨⟨?_, fun hn => hunder hn.2⟩, h⟩, fun h => h.2⟩
        split <;> omega

/-- With a row for every objective it answers. -/
theorem is_finish_ok {progress : List Progress} (h : ∀ v ∈ progress, ∃ object, cfg.task_object v.objectid = some object) :
    ∃ b, is_finish cfg progress = .ok b := by
  induction progress with
  | nil => exact ⟨true, rfl⟩
  | cons v progress ih =>
    rw [List.forall_mem_cons] at h
    obtain ⟨object, hrow⟩ := h.1
    simp only [is_finish, hrow]
    split
    · exact ⟨false, rfl⟩
    · split
      · exact ⟨false, rfl⟩
      · exact ih h.2

/-! ## The events -/

/-- The event keeps the larger number for the objective that it counts, or the smaller one
where the objective asks for no more than its count. -/
def Suited (cfg : Config) (a : Advance) (progress : List Progress) : Prop :=
  ∀ v object, progress.find? (fun v => v.achid = a.achid) = some v →
    cfg.task_object v.objectid = some object → a.reset = some false ∧ (a.type = true ↔ object.If_Bigger ≠ 0)

/-- One such event. -/
def Counts (cfg : Config) (progress progress' : List Progress) : Prop :=
  ∃ a type isfinish, Suited cfg a progress ∧ count cfg a type progress = .ok (progress', isfinish)

/-- Of each objective: it is the same one, and is met if it was. -/
def Stays (cfg : Config) (v v' : Progress) : Prop :=
  v'.achid = v.achid ∧ v'.objectid = v.objectid ∧ (Met cfg v → Met cfg v')

theorem Stays.refl (v : Progress) : Stays cfg v v := ⟨rfl, rfl, id⟩

theorem Stays.trans {u v w : Progress} (h : Stays cfg u v) (h' : Stays cfg v w) : Stays cfg u w :=
  ⟨h'.1.trans h.1, h'.2.1.trans h.2.1, fun hu => h'.2.2 (h.2.2 hu)⟩

theorem forall₂_stays_trans {l l' l'' : List Progress} (h : List.Forall₂ (Stays cfg) l l')
    (h' : List.Forall₂ (Stays cfg) l' l'') : List.Forall₂ (Stays cfg) l l'' := by
  induction h generalizing l'' with
  | nil => exact h'
  | cons hv _ ih =>
    cases h' with
    | cons hv' hrest => exact .cons (hv.trans hv') (ih hrest)

/-- `countnumber` moves a number only to the side that is asked for. -/
theorem countnumber_met {a : Advance} {v : Progress} {object : TaskObject}
    (hrow : cfg.task_object v.objectid = some object) (hreset : a.reset = some false)
    (htype : a.type = true ↔ object.If_Bigger ≠ 0) (h : Met cfg v) :
    Met cfg { v with number := countnumber a v.number } := by
  obtain ⟨object', hrow', hmet⟩ := h
  obtain rfl : object = object' := Option.some_inj.1 (hrow.symm.trans hrow')
  refine ⟨object, hrow, ?_⟩
  simp only [countnumber, hreset]
  by_cases hbigger : object.If_Bigger = 0
  · rw [if_pos hbigger] at hmet ⊢
    have hsmall : ¬a.type = true := fun h => htype.1 h hbigger
    rw [if_neg hsmall]
    split <;> omega
  · rw [if_neg hbigger] at hmet ⊢
    rw [if_pos (htype.2 hbigger)]
    split <;> omega

theorem setnumber_stays {a : Advance} {progress : List Progress} {v : Progress} {object : TaskObject}
    (hfind : progress.find? (fun v => v.achid = a.achid) = some v)
    (hrow : cfg.task_object v.objectid = some object) (hsuited : Suited cfg a progress) :
    List.Forall₂ (Stays cfg) progress (setnumber a.achid (countnumber a v.number) progress) := by
  obtain ⟨hreset, htype⟩ := hsuited v object hfind hrow
  clear hsuited
  induction progress with
  | nil => cases hfind
  | cons u progress ih =>
    rw [List.find?_cons] at hfind
    rw [setnumber]
    by_cases hu : u.achid = a.achid
    · rw [decide_eq_true hu] at hfind
      obtain rfl := Option.some_inj.1 hfind
      rw [if_pos hu]
      exact .cons ⟨rfl, rfl, countnumber_met hrow hreset htype⟩ (List.forall₂_same.2 fun v _ => .refl v)
    · rw [decide_eq_false hu] at hfind
      rw [if_neg hu]
      exact .cons (.refl u) (ih hfind)

/-- **An event keeps what is met.** -/
theorem Counts.stays {progress progress' : List Progress} (h : Counts cfg progress progress') :
    List.Forall₂ (Stays cfg) progress progress' := by
  obtain ⟨a, type, isfinish, hsuited, hcount⟩ := h
  have hsame : List.Forall₂ (Stays cfg) progress progress := List.forall₂_same.2 fun v _ => .refl v
  unfold count at hcount
  split at hcount
  · cases hcount
    exact hsame
  · rename_i v hfind
    split at hcount
    · cases hcount
      exact hsame
    · split at hcount
      · cases hcount
      · rename_i object hrow
        split at hcount
        · cases hfin : is_finish cfg (setnumber a.achid (countnumber a v.number) progress) with
          | error e => simp [hfin, bind, Except.bind] at hcount
          | ok b =>
            simp only [hfin, bind, Except.bind, pure, Except.pure, Except.ok.injEq, Prod.mk.injEq] at hcount
            rw [← hcount.1]
            exact setnumber_stays hfind hrow hsuited
        · cases hcount
          exact hsame

/-- **So do all that follow.** -/
theorem counts_stays {progress progress' : List Progress} (h : Relation.ReflTransGen (Counts cfg) progress progress') :
    List.Forall₂ (Stays cfg) progress progress' := by
  induction h with
  | refl => exact List.forall₂_same.2 fun v _ => .refl v
  | tail _ hstep ih => exact forall₂_stays_trans ih hstep.stays

/-! ## The exact condition -/

/-- **The test of a task is right**: it answers true exactly when every objective is met,
and what is met stays so. -/
structure Finishes (cfg : Config) (progress : List Progress) : Prop where
  exact : is_finish cfg progress = .ok true ↔ ∀ v ∈ progress, Met cfg v
  stays : ∀ progress', Relation.ReflTransGen (Counts cfg) progress progress' →
    List.Forall₂ (Stays cfg) progress progress'

/-- **The test is right exactly where an objective is not met, or none that asks for no
more than its count is below it.** With a row for every objective it answers in any case,
and what is met stays met in any case. -/
theorem finishes_iff (cfg : Config) (progress : List Progress) :
    ((∀ v ∈ progress, ∃ object, cfg.task_object v.objectid = some object) → ∃ b, is_finish cfg progress = .ok b) ∧
    (∀ progress', Relation.ReflTransGen (Counts cfg) progress progress' →
      List.Forall₂ (Stays cfg) progress progress') ∧
    (Finishes cfg progress ↔ (∃ v ∈ progress, ¬Met cfg v) ∨ ∀ v ∈ progress, ¬Below cfg v) := by
  refine ⟨is_finish_ok, fun _ => counts_stays, ?_⟩
  constructor
  · rintro ⟨hexact, -⟩
    by_cases hall : ∀ v ∈ progress, Met cfg v
    · right
      intro v hv
      exact (is_finish_iff.1 (hexact.2 hall) v hv).2
    · left
      simpa using hall
  · intro h
    refine ⟨?_, fun _ => counts_stays⟩
    rw [is_finish_iff]
    rcases h with ⟨v, hv, hmet⟩ | hbelow
    · exact ⟨fun h => absurd (h v hv).1 hmet, fun h => absurd (h v hv) hmet⟩
    · exact ⟨fun h v hv => (h v hv).1, fun h v hv => ⟨h v hv, hbelow v hv⟩⟩

/-- An objective that asks for no more than one, at none. -/
theorem not_finishes_below :
    ¬Finishes ⟨fun _ => some ⟨10003, [], 1, 0⟩, [], [], [], []⟩ [⟨10003, 3, 0⟩] := by
  rintro ⟨hexact, -⟩
  have h := hexact.2 fun v hv => by
    rw [List.mem_singleton] at hv
    subst hv
    exact ⟨_, rfl, by decide⟩
  rw [is_finish_iff] at h
  exact (h _ List.mem_cons_self).2 ⟨_, rfl, rfl, by decide⟩

end Assignment

end Athena
