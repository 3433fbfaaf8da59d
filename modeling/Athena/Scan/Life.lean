import Athena.Scan.Award
/-!
# Blueprints — the life of a casting

Copies go from a normal list to the castings under way, from there to the
finished ones or back, and out when an award is received. What each request
may change is said here, and what holds between two requests.
-/

namespace Athena

namespace Scan

open Lua (Str)
open Queue (Row Award BpReward PropReward EquipReward)

variable {cfg : Config} {s t u : State} {id : Str} {e : Event}

/-- The lists of the player, which are empty where there is no row. -/
def State.lists (s : State) : Lists := s.blueprint.getD ⟨[], [], [], []⟩

/-- **The copies of a blueprint** in all four lists. -/
def State.total (s : State) (id : Str) : ℤ :=
  copies id s.lists.newblueprint + copies id s.lists.blueprintinfo +
    copies id s.lists.blueprinting + copies id s.lists.blueprintend

/-- The copies a request adds. -/
def added (cfg : Config) : Event → Str → ℤ
  | .addblueprint bpid n _, id => if hasblueprint cfg bpid ∧ bpid = id then n else 0
  | _, _ => 0

/-- The award of an entry is gone from one state to the other. -/
def received (s t : State) (d : Entry) : Bool :=
  match d.awardid with
  | some a => (s.awards a).isSome && (t.awards a).isNone
  | none => false

/-- **The copies consumed**: the entries whose award was received. -/
def consumed (s t : State) (id : Str) : ℤ := copies id (s.lists.blueprintend.filter (received s t))

/-- **The copies that are not finished**: as many as the time that is left has a share in,
counted up. -/
def unfinished (now begintime endtime number : ℤ) : ℤ :=
  ⌈((max 0 (endtime - now) : ℤ) : ℚ) / ((endtime - begintime : ℤ) : ℚ) * (number : ℚ)⌉

/-- The copies of a casting that are finished. -/
def finishedpart (now : ℤ) (d : Entry) : ℤ :=
  match d.begintime, d.endtime with
  | some begintime, some endtime => d.number - unfinished now begintime endtime d.number
  | _, _ => 0

/-- **The finished part of a cancelled casting.** -/
def finished (s t : State) (e : Event) (id : Str) : ℤ :=
  match e with
  | .cancelcasting (some b) =>
    if (s.rows b).isSome ∧ (t.rows b).isNone then
      ((s.lists.blueprinting.filter fun d => d.bqid = some b).map fun d =>
        if d.id = id then finishedpart s.now d else 0).sum
    else 0
  | _ => 0

/-- **Copies are conserved**: their number changes by what is added, consumed
and finished. -/
def Conserves (cfg : Config) (s : State) (e : Event) (t : State) : Prop :=
  ∀ id, t.total id = s.total id + added cfg e id - consumed s t id - finished s t e id

/-- A queue of castings that runs. -/
def Running (s : State) (b : ℕ) : Prop := ∃ row, s.rows b = some row ∧ row.type = .cast

/-- An award that is not received. -/
def Unreceived (s : State) (a : ℕ) : Prop := (s.awards a).isSome ∧ a ∈ s.endcasting

/-- **The lists are sound**: all numbers are positive, there is one entry for
each running casting and one for each unreceived award, and no other. -/
structure Sound (s : State) : Prop where
  newblueprint : Positive s.lists.newblueprint
  blueprintinfo : Positive s.lists.blueprintinfo
  blueprinting : Positive s.lists.blueprinting
  blueprintend : Positive s.lists.blueprintend
  running : Each Entry.bqid (Running s) s.lists.blueprinting
  unreceived : Each Entry.awardid (Unreceived s) s.lists.blueprintend

/-- A player without castings. -/
structure Start (s : State) : Prop where
  newblueprint : Positive s.lists.newblueprint
  blueprintinfo : Positive s.lists.blueprintinfo
  blueprinting : s.lists.blueprinting = []
  blueprintend : s.lists.blueprintend = []
  rows : ∀ b, s.rows b = none
  awards : ∀ a, s.awards a = none
  ingcasting : s.ingcasting = []
  endcasting : s.endcasting = []
  endscan : s.endscan = []

/-- **The player's data under every order of the requests.** -/
def system (cfg : Config) : System State Event where
  init := Start
  step s e t := t = (step cfg s e).1

/-! ## Where it goes right -/

/-- An award that `receivecasting` gives out. -/
def Receivable (cfg : Config) (s : State) (a : ℕ) : Prop :=
  ∃ award, s.awards a = some award ∧ a ∈ s.endcasting ∧ machinefull s award = false ∧
    awardable cfg award none

/-- The number of the normal entry that `add_blueprint` adds to. -/
def standing (l : Lists) (bpid : Str) (name : Option Str) : ℤ :=
  if (get_blueprint (some bpid) l.blueprintinfo name none).isSome then numberof l.blueprintinfo bpid name
  else numberof l.newblueprint bpid name

/-- The materials of a casting. -/
def castmaterials (cfg : Config) (bpid : Str) (number : ℤ) : List (Str × ℤ) :=
  mateinfo number ((strtoarr bpid).flatMap fun b => ((cfg.blueprint b).map Blueprint.Material).getD []) []

/-- A casting passes every check. -/
structure Castable (cfg : Config) (s : State) (bpid : Str) (number : ℤ) (name : Option Str) : Prop where
  enough : ∃ key d, get_blueprint (some bpid) s.lists.blueprintinfo name none = some key ∧
    s.lists.blueprintinfo[key]? = some d ∧ number ≤ d.number
  free : s.ingcasting.length < s.maxcasting
  known : hasblueprint cfg bpid
  materials : (castmaterials cfg bpid number).all fun x => matchmaterial s x.1 x.2
  info : (getcastring_info cfg bpid number).isSome

/-- **The requests that go right.** What is added leaves a positive number; a
casting that passes the checks is for a positive number; `addspeed` does not
bring a casting to its end; a casting is cancelled before its end, or where
there is a normal entry for its copies, it takes some time, and doubles do not
miss how many copies are left; an award is received for one copy; and `receiveallcast` finds no award to receive. -/
def Clear (cfg : Config) (s : State) : Event → Prop
  | .addblueprint bpid n name => hasblueprint cfg bpid → 0 < standing s.lists bpid name + n
  | .casting (some bpid) number name =>
    Castable cfg s bpid (number.getD 1) (if bpid.length = 18 then name else none) → 0 < number.getD 1
  | .addspeed (some b) (some time) (some _) =>
    ∀ row, s.rows b = some row → s.now < row.endtime - time * 60
  | .cancelcasting (some b) => ∀ row, s.rows b = some row → row.starttime ≠ row.endtime ∧
      ∀ d ∈ s.lists.blueprinting, d.bqid = some b →
        notfinishnum s.now row.starttime row.endtime d.number =
          some (unfinished s.now row.starttime row.endtime d.number) ∧
        (s.now < row.endtime ∨
          (get_blueprint (some d.id) s.lists.blueprintinfo d.name none).isSome ∨
          awardable cfg (row.award 0) (some (finishedshare d.number 0)) = false)
  | .receivecasting (some a) => Receivable cfg s a →
      ∀ d ∈ s.lists.blueprintend, d.awardid = some a → d.number = 1
  | .receiveallcast => ∀ a, ¬ Receivable cfg s a
  | _ => True

/-! ## The invariant -/

/-- What holds of the row of a casting. -/
structure Cast (cfg : Config) (s : State) (row : Row) : Prop where
  type : row.type = .cast
  playerid : row.playerid = cfg.uid
  bprewardlist : row.bprewardlist = []
  started : row.starttime ≤ s.now
  known : hasblueprint cfg row.sponsorid = true

/-- An entry of a casting, by its row. -/
structure Casts (d : Entry) (row : Row) : Prop where
  id : d.id = row.sponsorid
  begintime : d.begintime = some row.starttime
  endtime : d.endtime = some row.endtime

/-- **The invariant.** -/
structure Inv (cfg : Config) (s : State) : Prop where
  newblueprint : Positive s.lists.newblueprint
  blueprintinfo : Positive s.lists.blueprintinfo
  blueprinting : Positive s.lists.blueprinting
  blueprintend : Positive s.lists.blueprintend
  running : Each Entry.bqid (fun b => (s.rows b).isSome) s.lists.blueprinting
  unreceived : Each Entry.awardid (fun a => (s.awards a).isSome) s.lists.blueprintend
  row : ∀ b row, s.rows b = some row → b ≤ s.bqid ∧ Cast cfg s row
  casts : ∀ d ∈ s.lists.blueprinting, ∀ b row, d.bqid = some b → s.rows b = some row → Casts d row
  noaward : ∀ d ∈ s.lists.blueprinting, d.awardid = none
  noqueue : ∀ d ∈ s.lists.blueprintend, d.bqid = none
  ingcasting : ∀ b, (s.rows b).isSome ↔ b ∈ s.ingcasting
  ingnodup : s.ingcasting.Nodup
  award : ∀ a award, s.awards a = some award → a ≤ s.awardid ∧ award.bprewardlist = []
  endcasting : ∀ a, (s.awards a).isSome ↔ a ∈ s.endcasting
  endnodup : s.endcasting.Nodup
  endscan : s.endscan = []

theorem lists_of_blueprint {l : Lists} (h : s.blueprint = some l) : s.lists = l := by
  simp [State.lists, h]

theorem Inv.sound (h : Inv cfg s) : Sound s where
  newblueprint := h.newblueprint
  blueprintinfo := h.blueprintinfo
  blueprinting := h.blueprinting
  blueprintend := h.blueprintend
  running := by
    refine h.running.congr fun b => ⟨fun hb => ?_, ?_⟩
    · obtain ⟨row, hrow⟩ := Option.isSome_iff_exists.mp hb
      exact ⟨row, hrow, (h.row b row hrow).2.type⟩
    · rintro ⟨row, hrow, -⟩
      exact Option.isSome_iff_exists.mpr ⟨row, hrow⟩
  unreceived := h.unreceived.congr fun a => ⟨fun ha => ⟨ha, (h.endcasting a).mp ha⟩, And.left⟩

theorem Start.inv (h : Start s) : Inv cfg s where
  newblueprint := h.newblueprint
  blueprintinfo := h.blueprintinfo
  blueprinting := by simp [h.blueprinting]
  blueprintend := by simp [h.blueprintend]
  running := by
    rw [h.blueprinting]
    exact ⟨by simp, fun b hb => by simp [h.rows] at hb⟩
  unreceived := by
    rw [h.blueprintend]
    exact ⟨by simp, fun a ha => by simp [h.awards] at ha⟩
  row b row hrow := by simp [h.rows] at hrow
  casts d hd := by simp [h.blueprinting] at hd
  noaward d hd := by simp [h.blueprinting] at hd
  noqueue d hd := by simp [h.blueprintend] at hd
  ingcasting b := by simp [h.rows, h.ingcasting]
  ingnodup := by simp [h.ingcasting]
  award a award haward := by simp [h.awards] at haward
  endcasting a := by simp [h.awards, h.endcasting]
  endnodup := by simp [h.endcasting]
  endscan := h.endscan

/-- The queue of an entry runs, and the entry is as its row says. -/
theorem Inv.entry {d : Entry} (h : Inv cfg s) (hd : d ∈ s.lists.blueprinting) :
    ∃ b row, d.bqid = some b ∧ s.rows b = some row ∧ Cast cfg s row ∧ Casts d row := by
  obtain ⟨b, hb, hrow⟩ := h.running.entry d hd
  obtain ⟨row, hrow⟩ := Option.isSome_iff_exists.mp hrow
  exact ⟨b, row, hb, hrow, (h.row b row hrow).2, h.casts d hd b row hb hrow⟩

/-- The entry of a queue that runs is found. -/
theorem Inv.found {b : ℕ} {row : Row} {l : Lists} (h : Inv cfg s) (bpid name : Option Str) (hl : s.lists = l) (hrow : s.rows b = some row) :
    ∃ key d, get_blueprint bpid l.blueprinting name (some b) = some key ∧
      l.blueprinting[key]? = some d ∧ d.bqid = some b := by
  have hone := h.running.one b (by simp [hrow])
  rw [hl] at hone
  obtain ⟨d, hd, hb⟩ := List.countP_pos_iff.mp (by rw [hone]; exact Nat.one_pos)
  obtain ⟨key, hkey⟩ := exists_get_blueprint bpid name hd
    (Or.inl (of_decide_eq_true hb))
  obtain ⟨d', hd', hb'⟩ := get_blueprint_some hkey
  refine ⟨key, d', hkey, hd', hb'.resolve_right fun ha => ?_⟩
  have := h.noaward d' (hl ▸ List.mem_of_getElem? hd')
  rw [ha] at this
  cases this

/-! ## Steps that leave it alone -/

/-- **Nothing of the lists, the queues or the awards changes.** -/
structure Quiet (s t : State) : Prop where
  blueprint : t.blueprint = s.blueprint
  rows : t.rows = s.rows
  ingcasting : t.ingcasting = s.ingcasting
  awards : t.awards = s.awards
  endcasting : t.endcasting = s.endcasting
  endscan : t.endscan = s.endscan
  now : s.now ≤ t.now
  bqid : t.bqid = s.bqid
  awardid : s.awardid ≤ t.awardid

theorem Quiet.refl (s : State) : Quiet s s := ⟨rfl, rfl, rfl, rfl, rfl, rfl, le_rfl, rfl, le_rfl⟩

theorem Quiet.trans (h : Quiet s t) (h' : Quiet t u) : Quiet s u where
  blueprint := h'.blueprint.trans h.blueprint
  rows := h'.rows.trans h.rows
  ingcasting := h'.ingcasting.trans h.ingcasting
  awards := h'.awards.trans h.awards
  endcasting := h'.endcasting.trans h.endcasting
  endscan := h'.endscan.trans h.endscan
  now := h.now.trans h'.now
  bqid := h'.bqid.trans h.bqid
  awardid := h.awardid.trans h'.awardid

theorem Kept.quiet (h : Kept s t) (hb : t.blueprint = s.blueprint) : Quiet s t :=
  ⟨hb, h.rows, h.ingcasting, h.awards, h.endcasting, h.endscan, h.now.ge, h.bqid, h.awardid.ge⟩

theorem Quiet.lists (h : Quiet s t) : t.lists = s.lists := by
  rw [State.lists, State.lists, h.blueprint]

theorem Cast.later {row : Row} (h : Cast cfg s row) (hnow : s.now ≤ t.now) : Cast cfg t row :=
  ⟨h.type, h.playerid, h.bprewardlist, h.started.trans hnow, h.known⟩

theorem Inv.quiet (hi : Inv cfg s) (h : Quiet s t) : Inv cfg t where
  newblueprint := h.lists ▸ hi.newblueprint
  blueprintinfo := h.lists ▸ hi.blueprintinfo
  blueprinting := h.lists ▸ hi.blueprinting
  blueprintend := h.lists ▸ hi.blueprintend
  running := by
    rw [h.lists, h.rows]
    exact hi.running
  unreceived := by
    rw [h.lists, h.awards]
    exact hi.unreceived
  row b row hrow := by
    rw [h.rows] at hrow
    obtain ⟨hle, hc⟩ := hi.row b row hrow
    exact ⟨h.bqid ▸ hle, hc.later h.now⟩
  casts := by
    rw [h.lists, h.rows]
    exact hi.casts
  noaward := h.lists ▸ hi.noaward
  noqueue := h.lists ▸ hi.noqueue
  ingcasting := by
    rw [h.rows, h.ingcasting]
    exact hi.ingcasting
  ingnodup := h.ingcasting ▸ hi.ingnodup
  award a award haward := by
    rw [h.awards] at haward
    obtain ⟨hle, hnil⟩ := hi.award a award haward
    exact ⟨hle.trans h.awardid, hnil⟩
  endcasting := by
    rw [h.awards, h.endcasting]
    exact hi.endcasting
  endnodup := h.endcasting ▸ hi.endnodup
  endscan := h.endscan.trans hi.endscan

/-- No award is received where none goes. -/
theorem consumed_eq_zero (h : ∀ a, (s.awards a).isSome → (t.awards a).isSome) :
    consumed s t id = 0 := by
  have hnil : s.lists.blueprintend.filter (received s t) = [] := by
    rw [List.filter_eq_nil_iff]
    intro d _ hd
    unfold received at hd
    split at hd
    · rw [Bool.and_eq_true, Option.isNone_iff_eq_none] at hd
      have := h _ hd.1
      rw [hd.2] at this
      cases this
    · cases hd
  rw [consumed, hnil, copies_nil]

/-- No casting is cancelled where no row goes. -/
theorem finished_eq_zero (h : ∀ b, (s.rows b).isSome → (t.rows b).isSome) :
    finished s t e id = 0 := by
  unfold finished
  split
  · split
    · rename_i hgone
      have := h _ hgone.1
      rw [Option.isNone_iff_eq_none.mp hgone.2] at this
      cases this
    · rfl
  · rfl

theorem Quiet.conserves (h : Quiet s t) (hadd : ∀ id, added cfg e id = 0) : Conserves cfg s e t := by
  intro id
  have hc : consumed s t id = 0 := consumed_eq_zero fun a ha => by rwa [h.awards]
  have hf : finished s t e id = 0 := finished_eq_zero fun b hb => by rwa [h.rows]
  rw [hadd, hc, hf, State.total, State.total, h.lists]
  omega

end Scan

end Athena
