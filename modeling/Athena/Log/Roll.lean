import Athena.Log.Order
import Mathlib.Algebra.Order.BigOperators.Group.List
import Mathlib.Algebra.GroupWithZero.Nat
import Mathlib.Algebra.Order.Group.Nat
import Mathlib.Data.Nat.Find
/-!
# The logger — rolling files

`rollfile` resets the byte count when it leaves index `0`, so its loop
ends at index `1` every time: the second size roll of a day reopens the
file of the first. A day roll keeps the count of the old day. And an
`int` product that wraps makes `rollsize` zero, with a loop that never
ends, or negative, which as a `size_t` is never reached.

A run is mild when none of this can happen: its rolls past index `0` are
on different days, its day changes come when nothing is counted, show in
the day of the month, and no midnight falls inside a `rollfile`. In mild
runs with a positive `rollsize` every roll goes to a file not written
before, and no file gets more than `rollsize` bytes and one batch.
-/

namespace Athena

namespace Log

variable {s t : State} {o o' : Output} {f g : File} {c : Clock} {mday : Day → ℕ} {arg : Int64}

/-! ## Counting what a file received -/

/-- The bytes of the writes with a property. -/
def Output.count (o : Output) (P : Entry → Bool) : ℕ :=
  ((o.written.filter P).map fun e => e.data.length).sum

/-- What a file received. -/
def Output.received (o : Output) (f : File) : ℕ := o.count fun e => decide (e.file = f)

/-- What it received before an iteration. -/
def Output.before (o : Output) (f : File) (round : ℕ) : ℕ :=
  o.count fun e => decide (e.file = f ∧ e.round < round)

/-- What it received in an iteration. -/
def Output.batch (o : Output) (f : File) (round : ℕ) : ℕ :=
  o.count fun e => decide (e.file = f ∧ e.round = round)

/-- A file no iteration wrote to. -/
def Output.Fresh (o : Output) (f : File) : Prop := ∀ e ∈ o.written, e.file ≠ f

theorem Output.count_of_written (h : o'.written = o.written) (P : Entry → Bool) :
    o'.count P = o.count P := by
  unfold Output.count
  rw [h]

theorem Output.received_of_fresh (h : o.Fresh f) : o.received f = 0 := by
  have : o.written.filter (fun e => decide (e.file = f)) = [] := by
    simpa [Output.Fresh] using h
  simp [Output.received, Output.count, this]

/-- A write adds its bytes to the counts it belongs to. -/
theorem count_fwrite {round : ℕ} {data : Bytes} (hh : o.handle = some f) (P : Entry → Bool) :
    (fwrite round data o).count P = o.count P + if P ⟨round, f, data⟩ then data.length else 0 := by
  simp only [fwrite, hh, Output.count, List.filter_append, List.map_append, List.sum_append]
  cases hP : P ⟨round, f, data⟩ <;> simp [hP]

/-- All but the last batch, and the last. -/
theorem Output.received_eq {r : ℕ} (h : ∀ e ∈ o.written, e.file = f → e.round ≤ r) :
    o.received f = o.before f r + o.batch f r := by
  unfold Output.received Output.before Output.batch Output.count
  generalize o.written = l at h
  induction l with
  | nil => rfl
  | cons e l ih =>
    have ih := ih fun e' he' => h e' (by simp [he'])
    have he := h e (by simp)
    by_cases hf : e.file = f
    · have := he hf
      by_cases hr : e.round < r
      · have hne : e.round ≠ r := by omega
        simp [hf, hr, hne, ih]
        omega
      · have heq : e.round = r := by omega
        simp [hf, heq, ih]
        omega
    · simpa [hf] using ih

/-! ## One roll -/

/-- **The loop of `rollfile` ends at index `0` or `1`.** -/
theorem rollLoop_eq {rollsize : Int32} (h : 0 < sizeT rollsize) (names : ℕ → Day) (n : ℕ) :
    rollLoop rollsize names 2 n 0 =
      some (if sizeT rollsize ≤ n then (⟨names 1, 1⟩, 0) else (⟨names 0, 0⟩, n)) := by
  have h0 : ¬ sizeT rollsize ≤ 0 := by omega
  simp only [rollLoop, h0, if_false, Nat.zero_add]
  split <;> rfl

/-- Two turns that do not end are a loop that does not end. -/
theorem rollLoop_eq_none {rollsize : Int32} {names : ℕ → Day} {n i : ℕ}
    (h : rollLoop rollsize names 2 n i = none) (fuel : ℕ) :
    rollLoop rollsize names fuel n i = none := by
  have h0 := sizeT_of_rollLoop h
  have hall : ∀ fuel n i, rollLoop rollsize names fuel n i = none := by
    intro fuel
    induction fuel with
    | zero => intro n i; rfl
    | succ fuel ih =>
      intro n i
      rw [rollLoop, if_pos (by omega), ih]
  exact hall fuel n i

/-- **A roll without surprises**: past index `0` for the first time on
the day, or with nothing counted; and with no midnight inside. -/
def Calm (c : Clock) (o : Output) : Prop :=
  sizeT o.rollsize ≤ o.writtenBytes ∧ c.names 1 = c.stamp ∧ c.names 1 ∉ o.pastZero ∨
    o.writtenBytes = 0 ∧ c.names 0 = c.stamp

/-- The file a calm roll settles on. -/
structure Settled (mday : Day → ℕ) (c : Clock) (o o' : Output) (f : File) : Prop where
  handle : o'.handle = some f
  day : f.day = c.stamp
  today : o'.today = c.stamp
  rollMday : o'.rollMday = mday f.day
  rollsize : o'.rollsize = o.rollsize
  zero : o'.writtenBytes = 0
  since : o'.sinceRoll = 0
  written : o'.written = o.written
  past : ∀ d ∈ o.pastZero, d ∈ o'.pastZero
  index : f.index = 0 ∧ o.writtenBytes = 0 ∨ f.index = 1 ∧ f.day ∈ o'.pastZero ∧ f.day ∉ o.pastZero

theorem settled_of_calm (hr : 0 < sizeT o.rollsize) (hc : Calm c o)
    (h : rollfile mday c o = .ok o') : ∃ f, Settled mday c o o' f := by
  obtain ⟨file, n, hloop, rfl⟩ := rollfile_spec h
  rw [rollLoop_eq hr] at hloop
  rcases hc with ⟨hle, hday, hpast⟩ | ⟨hz, hday⟩
  · rw [if_pos hle] at hloop
    obtain ⟨rfl, rfl⟩ : (⟨c.names 1, 1⟩ : File) = file ∧ 0 = n := by simpa using hloop
    exact ⟨_, rfl, hday, rfl, by rw [hday], rfl, rfl, rfl, rfl, fun d hd => by simp [hd],
      Or.inr ⟨rfl, by simp, hpast⟩⟩
  · rw [if_neg (by omega)] at hloop
    obtain ⟨rfl, rfl⟩ : (⟨c.names 0, 0⟩ : File) = file ∧ o.writtenBytes = n := by simpa using hloop
    exact ⟨_, rfl, hday, rfl, by rw [hday], rfl, hz, rfl, rfl, fun d hd => by simpa using hd,
      Or.inl ⟨rfl, hz⟩⟩

/-! ## The current file -/

/-- **The current file**: its bytes are counted, its day is the last day
a roll saw, and no file is of a later day. -/
structure Current (mday : Day → ℕ) (o : Output) (f : File) : Prop where
  handle : o.handle = some f
  count : o.received f = o.writtenBytes
  since : o.sinceRoll = o.writtenBytes
  rollMday : o.rollMday = mday f.day
  today : f.day ≤ o.today
  last : ∀ e ∈ o.written, e.file.day ≤ f.day
  index : f.index = 0 ∨ f.index = 1 ∧ f.day ∈ o.pastZero
  indices : ∀ e ∈ o.written, e.file.index = 0 ∨ e.file.index = 1 ∧ e.file.day ∈ o.pastZero

/-- A roll to a later day, or past index `0`, is to a fresh file. -/
theorem Settled.fresh (hs : Settled mday c o o' g) (hlast : ∀ e ∈ o.written, e.file.day ≤ f.day)
    (hind : ∀ e ∈ o.written, e.file.index = 0 ∨ e.file.index = 1 ∧ e.file.day ∈ o.pastZero)
    (h : g.index = 0 → f.day < g.day) : o.Fresh g := by
  rintro e he rfl
  rcases hs.index with ⟨h0, -⟩ | ⟨h1, -, hn⟩
  · exact absurd (hlast e he) (Nat.not_le.mpr (h h0))
  · rcases hind e he with h0 | ⟨-, hd⟩
    · rw [h0] at h1
      cases h1
    · exact hn hd

/-- The file a roll settles on is the current one. -/
theorem Settled.current (hs : Settled mday c o o' g) (hlast : ∀ e ∈ o.written, e.file.day ≤ g.day)
    (hind : ∀ e ∈ o.written, e.file.index = 0 ∨ e.file.index = 1 ∧ e.file.day ∈ o.pastZero)
    (hfresh : o.Fresh g) : Current mday o' g where
  handle := hs.handle
  count := by
    rw [hs.zero, Output.received, Output.count_of_written hs.written]
    exact Output.received_of_fresh hfresh
  since := by rw [hs.since, hs.zero]
  rollMday := hs.rollMday
  today := by rw [hs.day, hs.today]
  last := by rwa [hs.written]
  index := by
    rcases hs.index with ⟨h, -⟩ | ⟨h, hd, -⟩
    · exact Or.inl h
    · exact Or.inr ⟨h, hd⟩
  indices := by
    intro e he
    rw [hs.written] at he
    rcases hind e he with h | ⟨h, hd⟩
    · exact Or.inl h
    · exact Or.inr ⟨h, hs.past _ hd⟩

/-! ## Mild runs -/

/-- **What a mild run asks of an event**: every roll that is due is calm,
and a change of the day shows in the day of the month. -/
def Mild (mday : Day → ℕ) (s : State) : Event → Prop
  | .worker c =>
    (s.pc = .start → Calm c s.out) ∧
    (Takes s → s.out.rollMday ≠ mday c.now → Calm c s.out) ∧
    (Takes s → ∀ f, s.out.handle = some f → f.day ≠ c.now → s.out.rollMday ≠ mday c.now) ∧
    (s.pc = .write none → sizeT s.out.rollsize < s.out.writtenBytes → Calm c s.out)
  | _ => True

def mild (mday : Day → ℕ) (arg : Int64) : System State Event :=
  (system mday arg).restrict (Mild mday)

/-- The current file has at most `rollsize` bytes, those of the running
iteration not counted. -/
def Level (s : State) (f : File) : Prop :=
  match s.pc with
  | .taken => s.out.before f s.round ≤ sizeT s.out.rollsize
  | .write _ => s.out.before f s.round ≤ sizeT s.out.rollsize
  | _ => s.out.writtenBytes ≤ sizeT s.out.rollsize

/-- **The books of the worker.** -/
structure Books (mday : Day → ℕ) (arg : Int64) (s : State) : Prop where
  rollsize : s.out.rollsize = rollsizeOf arg
  rounds : ∀ e ∈ s.out.written, e.round ≤ s.round
  bounded : ∀ e ∈ s.out.written, s.out.before e.file e.round ≤ sizeT s.out.rollsize
  start : s.pc = .start → s.out.written = [] ∧ s.out.writtenBytes = 0
  current : s.pc ≠ .start → ∃ f, Current mday s.out f ∧ Level s f

theorem books_initial (today : Day) : Books mday arg (initial arg today) :=
  ⟨rfl, by simp [initial], by simp [initial], fun _ => ⟨rfl, rfl⟩, fun h => absurd rfl h⟩

/-- The books read the output, the round and the place of the worker. -/
theorem Books.congr (h : Books mday arg s) (hout : t.out = s.out) (hround : t.round = s.round)
    (hs : t.pc = .start ↔ s.pc = .start) (hl : ∀ f, Level s f → Level t f) : Books mday arg t := by
  refine ⟨hout ▸ h.rollsize, hout ▸ hround ▸ h.rounds, hout ▸ h.bounded, ?_, fun ht => ?_⟩
  · rw [hout, hs]
    exact h.start
  · obtain ⟨f, hc, hlev⟩ := h.current fun hs' => ht (hs.mpr hs')
    exact ⟨f, hout ▸ hc, hl f hlev⟩

/-- The clock alone moves on. -/
theorem Current.tick (h : Current mday o f) {d : Day} (hd : o.today ≤ d) :
    Current mday { o with today := d } f :=
  ⟨h.handle, h.count, h.since, h.rollMday, h.today.trans hd, h.last, h.index, h.indices⟩

/-- A write by the current file's iteration. -/
theorem Current.write (h : Current mday o f) (round : ℕ) (data : Bytes) :
    Current mday (fwrite round data o) f := by
  have hw : (fwrite round data o).written = o.written ++ [⟨round, f, data⟩] := by
    simp [fwrite, h.handle]
  refine ⟨?_, ?_, ?_, ?_, ?_, fun e he => ?_, ?_, fun e he => ?_⟩
  · rw [fwrite_handle, h.handle]
  · rw [Output.received, count_fwrite h.handle]
    simp only [decide_true, if_true]
    rw [show o.count _ = o.writtenBytes from h.count]
    simp [fwrite, h.handle]
  · simp [fwrite, h.handle, h.since]
  · simp [fwrite, h.handle, h.rollMday]
  · simpa [fwrite, h.handle] using h.today
  · rw [hw] at he
    rcases List.mem_append.mp he with he | he
    · exact h.last e he
    · rw [List.mem_singleton.mp he]
  · simpa [fwrite, h.handle] using h.index
  · rw [hw] at he
    have hp : (fwrite round data o).pastZero = o.pastZero := by simp [fwrite, h.handle]
    rw [hp]
    rcases List.mem_append.mp he with he | he
    · exact h.indices e he
    · rw [List.mem_singleton.mp he]
      exact h.index

theorem Clock.Forward.le_stamp (h : c.Forward o.today) : o.today ≤ c.stamp :=
  h.1.trans ((h.2.1 0).trans (h.2.2.2 0))

/-- **A calm roll goes to a fresh file**, of the current day, with
nothing counted. -/
theorem Current.roll (h : Current mday o f) (hr : 0 < sizeT o.rollsize) (hf : c.Forward o.today)
    (hc : Calm c o) (hlater : o.writtenBytes = 0 → f.day < c.stamp)
    (hroll : rollfile mday c { o with today := c.now } = .ok o') :
    ∃ g, Settled mday c { o with today := c.now } o' g ∧ o.Fresh g ∧ Current mday o' g := by
  obtain ⟨g, hs⟩ := settled_of_calm (o := { o with today := c.now }) hr hc hroll
  have hlast : ∀ e ∈ o.written, e.file.day ≤ g.day := by
    intro e he
    rw [hs.day]
    exact (h.last e he).trans (h.today.trans hf.le_stamp)
  have hfresh : o.Fresh g := hs.fresh h.last h.indices fun h0 => by
    rcases hs.index with ⟨-, hz⟩ | ⟨h1, -⟩
    · rw [hs.day]
      exact hlater hz
    · rw [h0] at h1
      cases h1
  exact ⟨g, hs, hfresh, hs.current hlast h.indices hfresh⟩

/-- At the takeover, a roll that is due goes to a later day. -/
theorem Current.day_lt (h : Current mday o f) (hf : c.Forward o.today)
    (hdue : o.rollMday ≠ mday c.now) : f.day < c.stamp := by
  have hne : f.day ≠ c.now := by
    intro heq
    rw [h.rollMday, heq] at hdue
    exact hdue rfl
  have h1 : f.day ≤ c.now := h.today.trans hf.1
  have h2 : c.now ≤ c.stamp := (hf.2.1 0).trans (hf.2.2.2 0)
  exact lt_of_lt_of_le (lt_of_le_of_ne h1 hne) h2

theorem Output.before_le (o : Output) (f : File) (r : ℕ) : o.before f r ≤ o.received f := by
  refine List.Sublist.sum_le_sum (List.Sublist.map _ ?_) (by simp)
  refine List.monotone_filter_right _ fun e he => ?_
  simp only [decide_eq_true_eq] at he ⊢
  exact he.1

/-- Where nothing is written, what was written is as it was. -/
theorem Books.unwritten (h : Books mday arg s) (hw : t.out.written = s.out.written)
    (hround : s.round ≤ t.round) (e : Entry) (he : e ∈ t.out.written) :
    e.round ≤ t.round ∧ t.out.before e.file e.round ≤ sizeT s.out.rollsize := by
  rw [hw] at he
  refine ⟨(h.rounds e he).trans hround, ?_⟩
  rw [Output.before, Output.count_of_written hw]
  exact h.bounded e he

/-- **One event keeps the books.** -/
theorem Books.step {e : Event} (hr : 0 < sizeT (rollsizeOf arg)) (h : Books mday arg s)
    (ha : Admissible s e) (hm : Mild mday s e) (he : Effect mday s t e) : Books mday arg t := by
  have hr' : 0 < sizeT s.out.rollsize := by rw [h.rollsize]; exact hr
  cases he with
  | append hpc _ _ _ _ same =>
    refine h.congr same.out same.round (by rw [hpc]) fun f hl => ?_
    unfold Level at hl ⊢
    rwa [hpc, same.out, same.round]
  | exit eq =>
    subst eq
    exact h.congr rfl rfl Iff.rfl fun f hl => hl
  | start hpc hpc' roll _ _ _ hround =>
    obtain ⟨hw, -⟩ := h.start hpc
    obtain ⟨g, hs⟩ := settled_of_calm hr' (hm.1 hpc) roll
    refine ⟨hs.rollsize.trans h.rollsize, ?_, ?_, fun hp => by simp [hpc'] at hp, fun _ => ⟨g, ?_, ?_⟩⟩
    · rw [hs.written, hw]
      simp
    · rw [hs.written, hw]
      simp
    · exact hs.current (by simp [hw]) (by simp [hw]) (by simp [Output.Fresh, hw])
    · rw [Level, hpc', hs.zero]
      exact Nat.zero_le _
  | test hpc eq =>
    have hl : ∀ f, Level s f → s.out.writtenBytes ≤ sizeT s.out.rollsize := by
      intro f hl
      rwa [Level, hpc] at hl
    subst eq
    refine h.congr rfl rfl ?_ fun f hlev => ?_
    · rw [hpc]
      cases s.running <;> simp
    · unfold Level
      cases s.running <;> exact hl f hlev
  | wait hpc _ eq =>
    have hl : ∀ f, Level s f → s.out.writtenBytes ≤ sizeT s.out.rollsize := by
      intro f hl
      rwa [Level, hpc] at hl
    subst eq
    exact h.congr rfl rfl (by simp [hpc]) fun f hlev => hl f hlev
  | take htakes hpc' roll _ _ _ _ _ hround =>
    have hstart : s.pc ≠ .start := by rcases htakes.pc with hpc | hpc <;> simp [hpc]
    obtain ⟨f, hcur, hlev⟩ := h.current hstart
    have hle : s.out.writtenBytes ≤ sizeT s.out.rollsize := by
      rcases htakes.pc with hpc | hpc <;> rwa [Level, hpc] at hlev
    have hw := (dayRoll_rolls roll).written
    have hkeep := h.unwritten hw (by omega)
    rcases dayRoll_rolls roll with ⟨hdue, hroll⟩ | ⟨-, hout⟩
    · obtain ⟨g, hs, hfresh, hg⟩ :=
        hcur.roll hr' ha (hm.2.1 htakes hdue) (fun _ => hcur.day_lt ha hdue) hroll
      have hrs : t.out.rollsize = s.out.rollsize := hs.rollsize
      refine ⟨hrs.trans h.rollsize, fun e he => (hkeep e he).1, fun e he => hrs ▸ (hkeep e he).2,
        fun hp => by simp [hpc'] at hp, fun _ => ⟨g, hg, ?_⟩⟩
      rw [Level, hpc']
      refine le_trans (Output.before_le _ _ _) ?_
      rw [hg.count, hs.zero]
      exact Nat.zero_le _
    · have hrs : t.out.rollsize = s.out.rollsize := by rw [hout]
      refine ⟨hrs.trans h.rollsize, fun e he => (hkeep e he).1, fun e he => hrs ▸ (hkeep e he).2,
        fun hp => by simp [hpc'] at hp, fun _ => ⟨f, hout ▸ hcur.tick ha.1, ?_⟩⟩
      rw [Level, hpc', hrs]
      refine le_trans (Output.before_le _ _ _) ?_
      rw [Output.received, Output.count_of_written hw]
      exact hcur.count.le.trans hle
  | keep hpc _ eq =>
    have hl : ∀ f, Level s f → s.out.before f s.round ≤ sizeT s.out.rollsize := by
      intro f hl
      rwa [Level, hpc] at hl
    subst eq
    exact h.congr rfl rfl (by simp [hpc]) fun f hlev => hl f hlev
  | drop hpc _ hpc' _ _ _ _ same =>
    refine h.congr same.out same.round (by simp [hpc, hpc']) fun f hl => ?_
    rw [Level, hpc] at hl
    rw [Level, hpc', same.out, same.round]
    exact hl
  | @emit _ p node data hpc hpc' _ out _ _ _ hround _ =>
    obtain ⟨f, hcur, hlev⟩ := h.current (by simp [hpc])
    rw [Level, hpc] at hlev
    have hw : t.out.written = s.out.written ++ [⟨s.round, f, data⟩] := by
      simp [out, fwrite, hcur.handle]
    have hrs : t.out.rollsize = s.out.rollsize := by simp [out, fwrite, hcur.handle]
    -- the write belongs to no earlier iteration
    have hbefore : ∀ g r, r ≤ s.round → t.out.before g r = s.out.before g r := by
      intro g r hle
      rw [out, Output.before, count_fwrite hcur.handle]
      simp [Nat.not_lt.mpr hle, Output.before]
    refine ⟨hrs.trans h.rollsize, fun e he => ?_, fun e he => ?_, fun hp => by simp [hpc'] at hp,
      fun _ => ⟨f, out ▸ hcur.write s.round data, ?_⟩⟩
    · rw [hw] at he
      rw [hround]
      rcases List.mem_append.mp he with he | he
      · exact h.rounds e he
      · rw [List.mem_singleton.mp he]
    · rw [hw] at he
      rw [hrs]
      rcases List.mem_append.mp he with he | he
      · rw [hbefore _ _ (h.rounds e he)]
        exact h.bounded e he
      · rw [List.mem_singleton.mp he, hbefore _ _ le_rfl]
        exact hlev
    · rw [Level, hpc', hround, hrs, hbefore _ _ le_rfl]
      exact hlev
  | finish hpc hpc' roll _ _ _ hround =>
    obtain ⟨f, hcur, hlev⟩ := h.current (by simp [hpc])
    have hw := (sizeRoll_rolls roll).written
    have hkeep := h.unwritten hw (by omega)
    rcases sizeRoll_rolls roll with ⟨hdue, hroll⟩ | ⟨hdue, hout⟩
    · obtain ⟨g, hs, hfresh, hg⟩ :=
        hcur.roll hr' ha (hm.2.2.2 hpc hdue) (fun hz => by omega) hroll
      have hrs : t.out.rollsize = s.out.rollsize := hs.rollsize
      refine ⟨hrs.trans h.rollsize, fun e he => (hkeep e he).1, fun e he => hrs ▸ (hkeep e he).2,
        fun hp => by simp [hpc'] at hp, fun _ => ⟨g, hg, ?_⟩⟩
      rw [Level, hpc', hs.zero]
      exact Nat.zero_le _
    · have hrs : t.out.rollsize = s.out.rollsize := by rw [hout]
      refine ⟨hrs.trans h.rollsize, fun e he => (hkeep e he).1, fun e he => hrs ▸ (hkeep e he).2,
        fun hp => by simp [hpc'] at hp, fun _ => ⟨f, hout ▸ hcur.tick ha.1, ?_⟩⟩
      rw [Level, hpc', hout]
      exact Nat.not_lt.mp hdue

/-! ## Whole runs -/

theorem sizeT_pos {n : Int32} (h : 0 < n) : (sizeT n : ℤ) = n.toInt ∧ 0 < sizeT n := by
  have h0 : 0 < n.toInt := by simpa using Int32.lt_iff_toInt_lt.mp h
  have h1 := n.toInt_lt
  have : (sizeT n : ℤ) = n.toInt := by
    unfold sizeT
    omega
  exact ⟨this, by omega⟩

theorem books_of_mild (hr : 0 < sizeT (rollsizeOf arg)) (h : (mild mday arg).Reachable s) :
    WellFormed s ∧ Books mday arg s := by
  refine h.invariant (P := fun s => WellFormed s ∧ Books mday arg s) ?_ ?_
  · rintro s ⟨today, rfl⟩
    exact ⟨wellFormed_initial arg today, books_initial today⟩
  · rintro s e t ⟨hst, hm⟩ ⟨hs, hb⟩
    obtain ⟨ht, he⟩ := hs.step hst
    exact ⟨ht, hb.step hr hst.1 hm he⟩

/-- A file has its last batch on top of at most `rollsize` bytes. -/
theorem Books.received_le (h : Books mday arg s) (f : File) :
    ∃ r, s.out.received f ≤ sizeT s.out.rollsize + s.out.batch f r := by
  by_cases hf : s.out.Fresh f
  · exact ⟨0, by rw [Output.received_of_fresh hf]; exact Nat.zero_le _⟩
  · obtain ⟨e₀, he₀, hf₀⟩ : ∃ e ∈ s.out.written, e.file = f := by simpa [Output.Fresh] using hf
    -- the last iteration that wrote to the file
    classical
    let P : ℕ → Prop := fun r => ∃ e ∈ s.out.written, e.file = f ∧ e.round = r
    obtain ⟨e, he, hef, hround⟩ : P (Nat.findGreatest P s.round) :=
      Nat.findGreatest_spec (h.rounds e₀ he₀) ⟨e₀, he₀, hf₀, rfl⟩
    refine ⟨e.round, ?_⟩
    rw [Output.received_eq (r := e.round) fun e' he' hf' => ?_]
    · exact Nat.add_le_add_right (hef ▸ h.bounded e he) _
    · rw [hround]
      exact Nat.le_findGreatest (h.rounds e' he') ⟨e', he', hf', rfl⟩

/-- **Rolling, in mild runs with a positive `rollsize`.** In every state
reached, a size roll that more than `rollsize` bytes since the last roll
make due goes to a file of the current day that was not written before;
no file has received more than `rollsize` bytes and one batch; a change
of the day goes to a file of the new day with nothing counted; and
`rollfile` always returns. -/
theorem roll_fresh_and_bounded (hpos : 0 < rollsizeOf arg) (h : (mild mday arg).Reachable s) :
    (sizeT s.out.rollsize : ℤ) = (rollsizeOf arg).toInt ∧
    (∀ c t, (mild mday arg).step s (.worker c) t → s.pc = .write none →
      sizeT s.out.rollsize < s.out.sinceRoll →
      ∃ f, t.out.handle = some f ∧ f.day = c.stamp ∧ s.out.Fresh f ∧ t.out.writtenBytes = 0) ∧
    (∀ f, ∃ r, s.out.received f ≤ sizeT s.out.rollsize + s.out.batch f r) ∧
    (∀ c t, (mild mday arg).step s (.worker c) t → Takes s → ∀ f, s.out.handle = some f →
      f.day ≠ c.now → ∃ g, t.out.handle = some g ∧ g.day = c.stamp ∧ f.day < g.day ∧
        s.out.Fresh g ∧ t.out.writtenBytes = 0) ∧
    ∀ c, c.Forward s.out.today → step mday s (.worker c) ≠ .error .hang := by
  obtain ⟨hsize, hr⟩ := sizeT_pos hpos
  obtain ⟨hs, hb⟩ := books_of_mild hr h
  have hr' : 0 < sizeT s.out.rollsize := by rw [hb.rollsize]; exact hr
  refine ⟨by rw [hb.rollsize, hsize], ?_, hb.received_le, ?_, ?_⟩
  · rintro c t ⟨hst, hm⟩ hpc hdue
    obtain ⟨-, he⟩ := hs.step hst
    obtain ⟨f, hcur, -⟩ := hb.current (by simp [hpc])
    rw [hcur.since] at hdue
    rcases sizeRoll_rolls (he.sizeRoll hpc) with ⟨-, hroll⟩ | ⟨hno, -⟩
    · obtain ⟨g, hg, hfresh, -⟩ :=
        hcur.roll hr' hst.1 (hm.2.2.2 hpc hdue) (fun hz => by omega) hroll
      exact ⟨g, hg.handle, hg.day, hfresh, hg.zero⟩
    · exact absurd hdue hno
  · rintro c t ⟨hst, hm⟩ htakes f hf hne
    obtain ⟨-, he⟩ := hs.step hst
    have hstart : s.pc ≠ .start := by rcases htakes.pc with hpc | hpc <;> simp [hpc]
    obtain ⟨f', hcur, -⟩ := hb.current hstart
    obtain rfl : f' = f := Option.some.inj (hcur.handle.symm.trans hf)
    have hdue := hm.2.2.1 htakes f' hf hne
    have hlt := hcur.day_lt hst.1 hdue
    rcases dayRoll_rolls (he.dayRoll htakes) with ⟨-, hroll⟩ | ⟨hno, -⟩
    · obtain ⟨g, hg, hfresh, -⟩ := hcur.roll hr' hst.1 (hm.2.1 htakes hdue) (fun _ => hlt) hroll
      exact ⟨g, hg.handle, hg.day, hg.day ▸ hlt, hfresh, hg.zero⟩
    · exact absurd hdue hno
  · intro c hc hhang
    rcases hs.progress mday (e := .worker c) hc with ⟨t, hrun, -⟩ | ⟨-, hz⟩ | hno
    · rw [hrun] at hhang
      cases hhang
    · omega
    · rw [hno] at hhang
      cases hhang

theorem system_worker {d : Day} (hd : s.out.today ≤ d) (h : worker mday s (still d) = .ok t) :
    (system mday arg).step s (.worker (still d)) t :=
  ⟨⟨hd, fun _ => le_rfl, monotone_const, fun _ => le_rfl⟩, h⟩

/-- With nothing counted, a still clock is mild where the day of the
month tells the file's day from today. -/
theorem mild_still {d : Day} (hz : s.out.writtenBytes = 0)
    (hday : ∀ f, s.out.handle = some f → f.day ≠ d → s.out.rollMday ≠ mday d) :
    Mild mday s (.worker (still d)) :=
  ⟨fun _ => Or.inr ⟨hz, rfl⟩, fun _ _ => Or.inr ⟨hz, rfl⟩, fun _ f hf hne => hday f hf hne,
    fun _ _ => Or.inr ⟨hz, rfl⟩⟩

/-- A day change with nothing counted goes to the file of the new day. -/
theorem roll_fresh_and_bounded_quiet_night :
    ∃ s t, (mild Nat.succ 1).Reachable s ∧ (mild Nat.succ 1).step s (.worker (still 1)) t ∧
      s.out.handle = some ⟨0, 0⟩ ∧ ∃ g, t.out.handle = some g ∧ g.day = 1 ∧ s.out.Fresh g := by
  obtain ⟨s, t, hp, htakes, hf, hst⟩ : ∃ s t, (mild Nat.succ 1).Path (initial 1 0)
      [.worker (still 0), .worker (still 0), .worker (still 0)] s ∧ Takes s ∧
      s.out.handle = some ⟨0, 0⟩ ∧ (mild Nat.succ 1).step s (.worker (still 1)) t := by
    refine ⟨_, _, .cons ⟨system_worker (by decide) rfl, mild_still rfl ?_⟩ <|
      .cons ⟨system_worker (by decide) rfl, mild_still rfl ?_⟩ <|
      .cons ⟨system_worker (by decide) rfl, mild_still rfl ?_⟩ <| .nil _, Or.inl rfl, rfl,
      system_worker (by decide) rfl, mild_still rfl ?_⟩
    · intro f hf
      cases hf
    · intro f hf hne
      cases hf
      exact absurd rfl hne
    · intro f hf hne
      cases hf
      exact absurd rfl hne
    · intro f _ _
      decide
  have hr : (mild Nat.succ 1).Reachable s := ⟨initial 1 0, _, ⟨0, rfl⟩, hp⟩
  obtain ⟨-, -, -, hday, -⟩ := roll_fresh_and_bounded (by decide) hr
  obtain ⟨g, hg, hgd, -, hfresh, -⟩ := hday _ t hst htakes _ hf (by decide)
  exact ⟨s, t, hr, hst, hf, g, hg, hgd, hfresh⟩

/-- One byte written before midnight is counted against the file of the
new day; every size roll goes to index `1` of its day, also the second
one; and with the argument `4096` the first `rollfile` never returns. -/
theorem roll_carries_and_reuses :
    (∃ s t, (system Nat.succ 1).Reachable s ∧ (system Nat.succ 1).step s (.worker (still 1)) t ∧
      t.out.handle = some ⟨1, 0⟩ ∧ t.out.received ⟨1, 0⟩ = 0 ∧ t.out.writtenBytes = 1) ∧
    (∀ (o o' : Output) (c : Clock), o.rollsize = rollsizeOf 1 → sizeT o.rollsize < o.writtenBytes →
      rollfile Nat.succ c o = .ok o' → o'.handle = some ⟨c.names 1, 1⟩) ∧
    step Nat.succ (initial 4096 0) (.worker (still 0)) = .error .hang := by
  refine ⟨?_, fun o o' c hsize hdue hroll => ?_, rfl⟩
  · obtain ⟨s, t, hp, hst, hres⟩ : ∃ s t, (system Nat.succ 1).Path (initial 1 0)
        ([.worker (still 0), .worker (still 0), .append (ascii "x")] ++
          .replicate 7 (.worker (still 0))) s ∧
        (system Nat.succ 1).step s (.worker (still 1)) t ∧
        t.out.handle = some ⟨1, 0⟩ ∧ t.out.received ⟨1, 0⟩ = 0 ∧ t.out.writtenBytes = 1 := by
      exact ⟨_, _, .cons (system_worker (by decide) rfl) <| .cons (system_worker (by decide) rfl) <|
        .cons (few_append (by decide) rfl).1 <| .cons (system_worker (by decide) rfl) <|
        .cons (system_worker (by decide) rfl) <| .cons (system_worker (by decide) rfl) <|
        .cons (system_worker (by decide) rfl) <| .cons (system_worker (by decide) rfl) <|
        .cons (system_worker (by decide) rfl) <| .cons (system_worker (by decide) rfl) <| .nil _,
        system_worker (by decide) rfl, rfl, rfl, rfl⟩
    exact ⟨s, t, ⟨initial 1 0, _, ⟨0, rfl⟩, hp⟩, hst, hres⟩
  · obtain ⟨file, n, hloop, rfl⟩ := rollfile_spec hroll
    have hpos : 0 < sizeT o.rollsize := by rw [hsize]; exact (sizeT_pos (by decide)).2
    rw [rollLoop_eq hpos, if_pos hdue.le] at hloop
    obtain ⟨rfl, rfl⟩ : (⟨c.names 1, 1⟩ : File) = file ∧ 0 = n := by simpa using hloop
    rfl

end Log

end Athena
