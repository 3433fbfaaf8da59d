import Athena.Queue.Entry
/-!
# Business queues — an entry ends once

What holds of the data while an end of the entry is under way, for each
place its coroutine may stand at, and that every step of a run with one
end at a time keeps it.
-/

namespace Athena

namespace Queue

open Lua

variable {market : Str → Bool} {bqid : ℕ} {r row row' : Row} {d d' : Data} {s t : State}

/-- The row of the entry, but for its end time. -/
def Row.Same (r row : Row) : Prop := ∃ e, row = { r with endtime := e }

/-- The row is there. -/
def Present (bqid : ℕ) (r : Row) (d : Data) : Prop := ∃ row, d.rows bqid = some row ∧ r.Same row

/-- The entry is listed once at most, and in its own list only. -/
def Listed (bqid : ℕ) (r : Row) (d : Data) : Prop :=
  ∀ uid c, c.running → (d.queueinfo uid c).count bqid ≤ if uid = r.playerid ∧ c = r.column then 1 else 0

/-- Nothing more was given or returned. -/
structure Logs (bqid : ℕ) (d d' : Data) : Prop where
  granted : d'.granted bqid = d.granted bqid
  awarded : d'.awarded bqid = d.awarded bqid
  returned : d'.returned bqid = d.returned bqid

theorem Row.Same.refl : r.Same r := ⟨r.endtime, rfl⟩

theorem Row.Same.setendtime (h : r.Same row) (e : ℤ) : r.Same { row with endtime := e } := by
  obtain ⟨f, rfl⟩ := h
  exact ⟨e, rfl⟩

theorem Logs.refl : Logs bqid d d := ⟨rfl, rfl, rfl⟩

theorem Untouched.logs (h : Untouched bqid d) (hl : Logs bqid d d') : Untouched bqid d' :=
  ⟨hl.granted.trans h.granted, hl.awarded.trans h.awarded, hl.returned.trans h.returned⟩

theorem Delivered.logs (h : Delivered bqid r d) (hl : Logs bqid d d') : Delivered bqid r d' := by
  refine ⟨hl.granted.trans h.granted, ?_, hl.returned.trans h.returned⟩
  rw [hl.awarded]
  exact h.awarded

theorem Cancelled.logs (h : Cancelled market bqid r d) (hl : Logs bqid d d') :
    Cancelled market bqid r d' := by
  refine ⟨hl.granted.trans h.granted, hl.awarded.trans h.awarded, hl.returned.trans h.returned, ?_⟩
  rw [hl.returned]
  exact h.all

/-! ## The lists -/

theorem count_remove_array {ids : List ℕ} (h : ids.count bqid ≤ 1) :
    (remove_array ids bqid).count bqid = 0 := by
  unfold remove_array
  split
  · rw [List.count_erase_self]
    omega
  · rfl

/-- A list that is set to one with the entry in it no oftener. -/
theorem Listed.setvalue {uid : ℤ} {c : Column} {ids : List ℕ} (h : Listed bqid r d)
    (hids : c.running → ids.count bqid ≤ (d.queueinfo uid c).count bqid) :
    Listed bqid r (d.setvalue uid c ids) := by
  intro u k hk
  rw [setvalue_queueinfo]
  split
  · rename_i heq
    obtain ⟨rfl, rfl⟩ := heq
    exact (hids hk).trans (h u k hk)
  · exact h u k hk

theorem Unlisted.setvalue {uid : ℤ} {c : Column} {ids : List ℕ} (h : Unlisted bqid d)
    (hids : c.running → ids.count bqid ≤ (d.queueinfo uid c).count bqid) :
    Unlisted bqid (d.setvalue uid c ids) := by
  intro u k hk
  rw [setvalue_queueinfo]
  split
  · rename_i heq
    obtain ⟨rfl, rfl⟩ := heq
    have hle := hids hk
    rw [List.count_eq_zero_of_not_mem (h u k hk)] at hle
    exact List.count_eq_zero.mp (by omega)
  · exact h u k hk

/-- **The entry out of its own list is out of all.** -/
theorem Listed.out {ids : List ℕ} (h : Listed bqid r d) (hids : ids.count bqid = 0) :
    Unlisted bqid (d.setvalue r.playerid r.column ids) := by
  intro u k hk
  rw [setvalue_queueinfo]
  split
  · exact List.count_eq_zero.mp hids
  · rename_i hne
    have hle := h u k hk
    rw [if_neg hne] at hle
    exact List.count_eq_zero.mp (by omega)

theorem Listed.count_own (h : Listed bqid r d) (hc : r.column.running) :
    (d.queueinfo r.playerid r.column).count bqid ≤ 1 := by
  simpa using h r.playerid r.column hc

theorem running_column : r.column.running := by
  unfold Row.column
  cases r.type <;> rfl

/-! ## delbusinessqueue -/

/-- What `delbusinessqueue` has of a transport. -/
def Del.Transport (bqid : ℕ) (r : Row) (d : Data) : Del → Prop
  | .get => True
  | .queueinfo row => r.Same row
  | .lane row info => r.Same row ∧ (info r.column).count bqid ≤ 1
  | .delete => Unlisted bqid d
  | .award .. | .ing .. | .fin .. => False

/-- What it has of a scan or a casting. -/
def Del.Awards (bqid : ℕ) (r : Row) (d : Data) : Del → Prop
  | .get => d.awarded bqid = []
  | .queueinfo row => r.Same row ∧ d.awarded bqid = []
  | .award row info => r.Same row ∧ d.awarded bqid = [] ∧ (info r.column).count bqid ≤ 1
  | .ing row info =>
    r.Same row ∧ (∃ id, d.awarded bqid = [r.award id]) ∧ (info r.column).count bqid ≤ 1
  | .fin row _ => r.Same row ∧ (∃ id, d.awarded bqid = [r.award id]) ∧ Unlisted bqid d
  | .delete => (∃ id, d.awarded bqid = [r.award id]) ∧ Unlisted bqid d
  | .lane .. => False

/-- **A step of `delbusinessqueue` with a transport**: it goes on with the row
there, or it is done and the entry is gone. -/
theorem Del.step_transport {n : Option ℕ} {x : Del} (hr : r.type = .airfreighter)
    (hp : Present bqid r d) (hl : Listed bqid r d) (hx : x.Transport bqid r d) :
    Logs bqid d (x.step bqid n d).2 ∧ Listed bqid r (x.step bqid n d).2 ∧
      ((∃ x', (x.step bqid n d).1 = some x' ∧ x'.Transport bqid r (x.step bqid n d).2 ∧
        Present bqid r (x.step bqid n d).2) ∨
      ((x.step bqid n d).1 = none ∧ (x.step bqid n d).2.rows bqid = none ∧
        Unlisted bqid (x.step bqid n d).2)) := by
  have hcol : r.column = .airfreighter r.subtype := by
    simp [Row.column, hr]
  cases x with
  | get =>
    obtain ⟨row, hrow, hsame⟩ := hp
    simp only [Del.step, hrow]
    exact ⟨Logs.refl, hl, Or.inl ⟨_, rfl, hsame, row, hrow, hsame⟩⟩
  | queueinfo row =>
    obtain ⟨e, rfl⟩ := hx
    have hstep : Del.step bqid n d (.queueinfo { r with endtime := e }) =
        (some (.lane { r with endtime := e } (d.queueinfo r.playerid)), d) := by
      simp only [Del.step]
      cases htype : r.type with
      | airfreighter => rfl
      | scan => exact absurd (hr.symm.trans htype) (by simp)
      | cast => exact absurd (hr.symm.trans htype) (by simp)
    rw [hstep]
    exact ⟨Logs.refl, hl, Or.inl ⟨_, rfl, ⟨⟨e, rfl⟩, hl.count_own running_column⟩, hp⟩⟩
  | lane row info =>
    obtain ⟨⟨e, rfl⟩, hcount⟩ := hx
    rw [hcol] at hcount
    have hzero := count_remove_array hcount
    have hout : Unlisted bqid (d.setvalue r.playerid (.airfreighter r.subtype)
        (remove_array (info (.airfreighter r.subtype)) bqid)) := by
      rw [← hcol]
      exact hl.out (by rw [hcol]; exact hzero)
    refine ⟨⟨rfl, rfl, rfl⟩, hl.setvalue fun _ => ?_, Or.inl ⟨_, rfl, hout, hp⟩⟩
    rw [hzero]
    exact Nat.zero_le _
  | delete =>
    exact ⟨⟨rfl, rfl, rfl⟩, hl, Or.inr ⟨rfl, delete_rows, hx⟩⟩
  | award row info => exact hx.elim
  | ing row info => exact hx.elim
  | fin row info => exact hx.elim

/-- **A step of it with a scan or a casting**, after the award got its id. -/
theorem Del.step_awards {n : ℕ} {x : Del} (hr : r.type ≠ .airfreighter)
    (hp : Present bqid r d) (hl : Listed bqid r d) (hx : x.Awards bqid r d) :
    (x.step bqid (some n) d).2.granted = d.granted ∧
      (x.step bqid (some n) d).2.returned = d.returned ∧ Listed bqid r (x.step bqid (some n) d).2 ∧
      ((∃ x', (x.step bqid (some n) d).1 = some x' ∧ x'.Awards bqid r (x.step bqid (some n) d).2 ∧
        Present bqid r (x.step bqid (some n) d).2) ∨
      ((x.step bqid (some n) d).1 = none ∧ (x.step bqid (some n) d).2.rows bqid = none ∧
        (∃ id, (x.step bqid (some n) d).2.awarded bqid = [r.award id]) ∧
        Unlisted bqid (x.step bqid (some n) d).2)) := by
  cases x with
  | get =>
    obtain ⟨row, hrow, hsame⟩ := hp
    have hstep : Del.step bqid (some n) d .get = (some (.queueinfo row), d) := by
      simp only [Del.step, hrow]
    rw [hstep]
    exact ⟨rfl, rfl, hl, Or.inl ⟨_, rfl, ⟨hsame, hx⟩, row, hrow, hsame⟩⟩
  | queueinfo row =>
    obtain ⟨⟨e, rfl⟩, hnil⟩ := hx
    have hstep : Del.step bqid (some n) d (.queueinfo { r with endtime := e }) =
        (some (.award { r with endtime := e } (d.queueinfo r.playerid)), d) := by
      simp only [Del.step]
      cases htype : r.type with
      | airfreighter => exact absurd htype hr
      | scan => rfl
      | cast => rfl
    rw [hstep]
    exact ⟨rfl, rfl, hl, Or.inl ⟨_, rfl, ⟨⟨e, rfl⟩, hnil, hl.count_own running_column⟩, hp⟩⟩
  | award row info =>
    obtain ⟨⟨e, rfl⟩, hnil, hcount⟩ := hx
    refine ⟨rfl, rfl, hl, Or.inl ⟨_, rfl, ⟨⟨e, rfl⟩, ⟨n, ?_⟩, hcount⟩, hp⟩⟩
    simp [Del.step, hnil, Row.award]
  | ing row info =>
    obtain ⟨⟨e, rfl⟩, haward, hcount⟩ := hx
    -- a scan loses the whole list, a casting its own id
    obtain ⟨ids, hzero, hstep⟩ : ∃ ids : List ℕ, ids.count bqid = 0 ∧
        Del.step bqid (some n) d (.ing { r with endtime := e } info) =
          (some (.fin { r with endtime := e } info), d.setvalue r.playerid r.column ids) := by
      cases htype : r.type with
      | airfreighter => exact absurd htype hr
      | scan =>
        refine ⟨remove_array [] bqid, rfl, ?_⟩
        simp [Del.step, Row.column, htype]
      | cast =>
        refine ⟨remove_array (info .ingcasting) bqid, count_remove_array ?_, ?_⟩
        · simpa [Row.column, htype] using hcount
        · simp [Del.step, Row.column, htype]
    rw [hstep]
    refine ⟨rfl, rfl, hl.setvalue fun _ => ?_, Or.inl ⟨_, rfl, ⟨⟨e, rfl⟩, haward, hl.out hzero⟩, hp⟩⟩
    rw [hzero]
    exact Nat.zero_le _
  | fin row info =>
    obtain ⟨⟨e, rfl⟩, haward, hout⟩ := hx
    have hend : ¬ r.finished.running := by
      unfold Row.finished
      cases htype : r.type with
      | airfreighter => exact absurd htype hr
      | scan => simp [Column.running]
      | cast => simp [Column.running]
    exact ⟨rfl, rfl, hl.setvalue fun h => absurd h hend,
      Or.inl ⟨_, rfl, ⟨haward, hout.setvalue fun h => absurd h hend⟩, hp⟩⟩
  | delete => exact ⟨rfl, rfl, hl, Or.inr ⟨rfl, delete_rows, hx.1, hx.2⟩⟩
  | lane row info => exact hx.elim

/-! ## onbq_completed -/

theorem Row.grants_transport (hr : r.type = .airfreighter) : r.grants =
    r.bprewardlist.map (BpReward.grant r.playerid) ++
      r.proprewardlist.filterMap (PropReward.grant r.playerid) := by
  simp [Row.grants, hr]

theorem Row.grants_awards (hr : r.type ≠ .airfreighter) : r.grants = [] := by
  unfold Row.grants
  cases htype : r.type with
  | airfreighter => exact absurd htype hr
  | scan => rfl
  | cast => rfl

/-- **What `onbq_completed` has** past its look at the row: what it gave is
what it has not to give any more. -/
def Completion.Inv (bqid : ℕ) (r : Row) (d : Data) : Completion → Prop
  | .check => False
  | .get_nextid row | .removeto_end row _ => r.type ≠ .airfreighter ∧ r.Same row ∧ Untouched bqid d
  | .blueprints row bps =>
    r.type = .airfreighter ∧ r.Same row ∧ d.awarded bqid = [] ∧ d.returned bqid = [] ∧
      ∃ done, r.bprewardlist = done ++ bps ∧
        d.granted bqid = done.map (BpReward.grant r.playerid)
  | .props row ps =>
    r.type = .airfreighter ∧ r.Same row ∧ d.awarded bqid = [] ∧ d.returned bqid = [] ∧
      ∃ done, r.proprewardlist = done ++ ps ∧
        d.granted bqid = r.bprewardlist.map (BpReward.grant r.playerid) ++
          done.filterMap (PropReward.grant r.playerid)
  | .del n x =>
    d.granted bqid = r.grants ∧ d.returned bqid = [] ∧
      ((r.type = .airfreighter ∧ d.awarded bqid = [] ∧ x.Transport bqid r d) ∨
        (r.type ≠ .airfreighter ∧ n.isSome ∧ x.Awards bqid r d))

/-- It looks at the row. -/
theorem Completion.step_check (hp : Present bqid r d) (hu : Untouched bqid d) :
    ∃ c, Completion.check.step bqid d = (some c, d) ∧ c.Inv bqid r d := by
  obtain ⟨row, hrow, e, rfl⟩ := hp
  cases htype : r.type with
  | airfreighter =>
    refine ⟨.blueprints { r with endtime := e } r.bprewardlist, ?_, htype, ⟨e, rfl⟩, hu.awarded,
      hu.returned, [], rfl, hu.granted⟩
    simp [Completion.step, hrow, htype]
  | scan =>
    refine ⟨.get_nextid { r with endtime := e }, ?_, by simp [htype], ⟨e, rfl⟩, hu⟩
    simp [Completion.step, hrow, htype]
  | cast =>
    refine ⟨.get_nextid { r with endtime := e }, ?_, by simp [htype], ⟨e, rfl⟩, hu⟩
    simp [Completion.step, hrow, htype]

/-- **A step of `onbq_completed`** past that: it goes on with the row there, or
the entry is gone, delivered and listed nowhere. -/
theorem Completion.step_inv {c : Completion} (hp : Present bqid r d) (hl : Listed bqid r d)
    (hc : c.Inv bqid r d) :
    Listed bqid r (c.step bqid d).2 ∧
      ((∃ c', (c.step bqid d).1 = some c' ∧ c'.Inv bqid r (c.step bqid d).2 ∧
        Present bqid r (c.step bqid d).2) ∨
      ((c.step bqid d).1 = none ∧ (c.step bqid d).2.rows bqid = none ∧
        Delivered bqid r (c.step bqid d).2 ∧ Unlisted bqid (c.step bqid d).2)) := by
  cases c with
  | check => exact hc.elim
  | get_nextid row =>
    obtain ⟨hr, hsame, hu⟩ := hc
    exact ⟨hl, Or.inl ⟨_, rfl, ⟨hr, hsame, hu.granted, hu.awarded, hu.returned⟩, hp⟩⟩
  | removeto_end row id =>
    obtain ⟨hr, hsame, hu⟩ := hc
    refine ⟨hl, Or.inl ⟨_, rfl, ⟨?_, hu.returned, Or.inr ⟨hr, rfl, hu.awarded⟩⟩, hp⟩⟩
    rw [Row.grants_awards hr]
    exact hu.granted
  | blueprints row bps =>
    obtain ⟨hr, ⟨e, rfl⟩, ha, hret, done, hbps, hg⟩ := hc
    cases bps with
    | nil =>
      refine ⟨hl, Or.inl ⟨_, rfl, ⟨hr, ⟨e, rfl⟩, ha, hret, [], rfl, ?_⟩, hp⟩⟩
      rw [List.append_nil] at hbps
      rw [hbps]
      simpa [Completion.step] using hg
    | cons b bps =>
      refine ⟨hl, Or.inl ⟨_, rfl, ⟨hr, ⟨e, rfl⟩, ha, hret, done ++ [b], by simp [hbps], ?_⟩, hp⟩⟩
      simp [Completion.step, hg]
  | props row ps =>
    obtain ⟨hr, ⟨e, rfl⟩, ha, hret, done, hps, hg⟩ := hc
    cases ps with
    | nil =>
      refine ⟨hl, Or.inl ⟨_, rfl, ⟨?_, hret, Or.inl ⟨hr, ha, trivial⟩⟩, hp⟩⟩
      rw [List.append_nil] at hps
      rw [Row.grants_transport hr, hps]
      exact hg
    | cons p ps =>
      have happ : r.proprewardlist = (done ++ [p]) ++ ps := by simp [hps]
      cases hgrant : p.grant r.playerid with
      | some g =>
        have hstep : Completion.step bqid d (.props { r with endtime := e } (p :: ps)) =
            (some (.props { r with endtime := e } ps), d.grant bqid g) := by
          simp only [Completion.step, hgrant]
        rw [hstep]
        refine ⟨hl, Or.inl ⟨_, rfl, ⟨hr, ⟨e, rfl⟩, ha, hret, done ++ [p], happ, ?_⟩, hp⟩⟩
        simp [hg, hgrant]
      | none =>
        -- a reward of no known kind is passed over, and counts for nothing
        have hstep : Completion.step bqid d (.props { r with endtime := e } (p :: ps)) =
            (some (.props { r with endtime := e } ps), d) := by
          simp only [Completion.step, hgrant]
        rw [hstep]
        refine ⟨hl, Or.inl ⟨_, rfl, ⟨hr, ⟨e, rfl⟩, ha, hret, done ++ [p], happ, ?_⟩, hp⟩⟩
        simp [hg, hgrant]
  | del n x =>
    -- transport has granted its rewards by now; the other types have an award id
    obtain ⟨hg, hret, ⟨hr, ha, hx⟩ | ⟨hr, hn, hx⟩⟩ := hc
    · obtain ⟨hlogs, hl', hcase⟩ := Del.step_transport (n := n) hr hp hl hx
      refine ⟨hl', ?_⟩
      rcases hcase with ⟨x', hx', hinv, hp'⟩ | ⟨hx', hgone, hout⟩
      · exact Or.inl ⟨.del n x', by simp [Completion.step, hx'], ⟨hlogs.granted.trans hg,
          hlogs.returned.trans hret, Or.inl ⟨hr, hlogs.awarded.trans ha, hinv⟩⟩, hp'⟩
      · exact Or.inr ⟨by simp [Completion.step, hx'], hgone, ⟨hlogs.granted.trans hg,
          Or.inl ⟨hr, hlogs.awarded.trans ha⟩, hlogs.returned.trans hret⟩, hout⟩
    · obtain ⟨n, rfl⟩ := Option.isSome_iff_exists.mp hn
      obtain ⟨hg', hret', hl', hcase⟩ := Del.step_awards (n := n) hr hp hl hx
      refine ⟨hl', ?_⟩
      rcases hcase with ⟨x', hx', hinv, hp'⟩ | ⟨hx', hgone, haward, hout⟩
      · exact Or.inl ⟨.del (some n) x', by simp [Completion.step, hx'],
          ⟨(congrFun hg' bqid).trans hg, (congrFun hret' bqid).trans hret, Or.inr ⟨hr, rfl, hinv⟩⟩,
          hp'⟩
      · exact Or.inr ⟨by simp [Completion.step, hx'], hgone, ⟨(congrFun hg' bqid).trans hg,
          Or.inr ⟨hr, haward⟩, (congrFun hret' bqid).trans hret⟩, hout⟩

/-! ## removebq -/

/-- What one reward comes to on the shelf. -/
def BpReward.back (market : Str → Bool) (uid : ℤ) (b : BpReward) : Option Return :=
  (b.trancancel market uid).toReturn

def PropReward.back (market : Str → Bool) (uid : ℤ) (p : PropReward) : Option Return :=
  (p.trancancel market uid).toReturn

/-- **What `removebq` has**: what it returned is what it has not to return any
more. -/
def Removal.Inv (market : Str → Bool) (bqid : ℕ) (r : Row) (d : Data) : Removal → Prop
  | .blueprints uid bps ps =>
    uid = r.playerid ∧ ps = r.proprewardlist ∧
      ∃ done, r.bprewardlist = done ++ bps ∧
        d.returned bqid = done.filterMap (BpReward.back market r.playerid)
  | .props uid ps =>
    uid = r.playerid ∧ ∃ done, r.proprewardlist = done ++ ps ∧
      d.returned bqid = r.bprewardlist.filterMap (BpReward.back market r.playerid) ++
        done.filterMap (PropReward.back market r.playerid)
  | .del x => d.returned bqid = r.returns market ∧ x.Transport bqid r d

/-- A list of which everything is taken back is returned whole. -/
theorem length_filterMap_of_isSome {α β : Type} {f : α → Option β} {l : List α}
    (h : ∀ a ∈ l, ∃ b, f a = some b) : (l.filterMap f).length = l.length := by
  induction l with
  | nil => rfl
  | cons a l ih =>
    obtain ⟨b, hb⟩ := h a List.mem_cons_self
    rw [List.filterMap_cons_some hb, List.length_cons, List.length_cons,
      ih fun a ha => h a (List.mem_cons_of_mem _ ha)]

theorem Returnable.length_returns (h : Returnable market r) :
    (r.returns market).length = r.bprewardlist.length + r.proprewardlist.length := by
  rw [Row.returns, List.length_append, length_filterMap_of_isSome, length_filterMap_of_isSome]
  · intro p hp
    obtain ⟨x, hx⟩ := h.2 p hp
    exact ⟨x, by rw [hx]; rfl⟩
  · intro b hb
    obtain ⟨x, hx⟩ := h.1 b hb
    exact ⟨x, by rw [hx]; rfl⟩

/-- **A step of `removebq`** with goods that are all taken back: it goes on
with the row there, or the entry is gone, cancelled and listed nowhere. -/
theorem Removal.step_inv {m : Removal} (hr : r.type = .airfreighter) (hret : Returnable market r)
    (hp : Present bqid r d) (hl : Listed bqid r d) (hg : d.granted bqid = [])
    (ha : d.awarded bqid = []) (hm : m.Inv market bqid r d) :
    Listed bqid r (m.step market bqid d).2 ∧
      ((∃ m', (m.step market bqid d).1 = some m' ∧ m'.Inv market bqid r (m.step market bqid d).2 ∧
        (m.step market bqid d).2.granted bqid = [] ∧ (m.step market bqid d).2.awarded bqid = [] ∧
        Present bqid r (m.step market bqid d).2) ∨
      ((m.step market bqid d).1 = none ∧ (m.step market bqid d).2.rows bqid = none ∧
        Cancelled market bqid r (m.step market bqid d).2 ∧
        Unlisted bqid (m.step market bqid d).2)) := by
  cases m with
  | blueprints uid bps ps =>
    obtain ⟨rfl, rfl, done, hbps, hd⟩ := hm
    cases bps with
    | nil =>
      refine ⟨hl, Or.inl ⟨_, rfl, ⟨rfl, [], rfl, ?_⟩, hg, ha, hp⟩⟩
      rw [List.append_nil] at hbps
      rw [hbps]
      simpa [Removal.step] using hd
    | cons b bps =>
      obtain ⟨x, hx⟩ := hret.1 b (by simp [hbps])
      have hstep : Removal.step market bqid d (.blueprints r.playerid (b :: bps) r.proprewardlist) =
          (some (.blueprints r.playerid bps r.proprewardlist), d.shelve bqid x) := by
        simp only [Removal.step, hx, Answer.take]
      rw [hstep]
      refine ⟨hl, Or.inl ⟨_, rfl, ⟨rfl, rfl, done ++ [b], by simp [hbps], ?_⟩, hg, ha, hp⟩⟩
      simp [hd, BpReward.back, hx, Answer.toReturn]
  | props uid ps =>
    obtain ⟨rfl, done, hps, hd⟩ := hm
    cases ps with
    | nil =>
      refine ⟨hl, Or.inl ⟨_, rfl, ⟨?_, trivial⟩, hg, ha, hp⟩⟩
      rw [List.append_nil] at hps
      rw [← hps] at hd
      exact hd
    | cons p ps =>
      obtain ⟨x, hx⟩ := hret.2 p (by simp [hps])
      have hstep : Removal.step market bqid d (.props r.playerid (p :: ps)) =
          (some (.props r.playerid ps), d.shelve bqid x) := by
        simp only [Removal.step, hx, Answer.take]
      rw [hstep]
      refine ⟨hl, Or.inl ⟨_, rfl, ⟨rfl, done ++ [p], by simp [hps], ?_⟩, hg, ha, hp⟩⟩
      simp [hd, PropReward.back, hx, Answer.toReturn]
  | del x =>
    obtain ⟨hd, hx⟩ := hm
    obtain ⟨hlogs, hl', hcase⟩ := Del.step_transport (n := none) hr hp hl hx
    refine ⟨hl', ?_⟩
    rcases hcase with ⟨x', hx', hinv, hp'⟩ | ⟨hx', hgone, hout⟩
    · exact Or.inl ⟨.del x', by simp [Removal.step, hx'], ⟨hlogs.returned.trans hd, hinv⟩,
        hlogs.granted.trans hg, hlogs.awarded.trans ha, hp'⟩
    · have hback := hlogs.returned.trans hd
      refine Or.inr ⟨by simp [Removal.step, hx'], hgone,
        ⟨hlogs.granted.trans hg, hlogs.awarded.trans ha, hback, ?_⟩, hout⟩
      have hlen := hret.length_returns
      rw [← hback] at hlen
      exact hlen

end Queue

end Athena
