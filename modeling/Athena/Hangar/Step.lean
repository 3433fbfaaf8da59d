import Athena.Hangar.Model
import Athena.Chips.Install
/-!
# The hangar — what a request does

A request that is answered with an error code, or raises an error in its checks,
changes no machine. One that goes through changes the machine the part comes from
first and the current machine then; where the chip service raises an error between
the two, the first change stays.
-/

namespace Athena

namespace Hangar

open Chips (Equip Slot Machine warehousetype.chassis warehousetype.body
  warehousetype.firecontroller warehousetype.weapon update_player_attr)

variable {cfg : Config} {s t u : State} {part part' machine machine' other uniqueid n : ℤ} {l : List ℤ}
  {m : Machine} {id : Id} {c : Change} {r : Except Unit Code} {index : Option ℤ}

/-! ## Rows -/

/-- A part that is a kind of parts. -/
def Kind (part : ℤ) : Prop := 1 ≤ part ∧ part ≤ 4

/-- The four kinds of parts. -/
theorem Kind.cases (h : Kind part) : part = warehousetype.chassis ∨ part = warehousetype.body ∨
    part = warehousetype.firecontroller ∨ part = warehousetype.weapon := by
  obtain ⟨h1, h4⟩ := h
  unfold warehousetype.chassis warehousetype.body warehousetype.firecontroller warehousetype.weapon
  omega

/-- A list that is written is read, -/
theorem part_setpart (h : Kind part) : (setpart m part l).part part = l := by
  rcases h.cases with rfl | rfl | rfl | rfl <;> rfl

/-- and the others stay. -/
theorem part_setpart_of_ne (h : part' ≠ part) : (setpart m part l).part part' = m.part part' := by
  unfold setpart
  split_ifs with h1 h2 h3 h4
  · subst h1
    simp only [Machine.part, if_neg h]
  · subst h2
    simp only [Machine.part, if_neg h]
  · subst h3
    simp only [Machine.part, if_neg h]
  · subst h4
    simp only [Machine.part, if_neg h]
  · rfl

theorem part_of_not_kind (h : ¬ Kind part) : m.part part = [] := by
  unfold Kind at h
  unfold Machine.part warehousetype.chassis warehousetype.body warehousetype.firecontroller
    warehousetype.weapon
  rw [if_neg (by omega), if_neg (by omega), if_neg (by omega), if_neg (by omega)]

/-- The same of a row of the hangar. -/
theorem part_setvalue (hrow : (s.machinecfg machine).isSome) (h : Kind part) :
    (s.setvalue machine part l).part machine part = l := by
  obtain ⟨row, hrow⟩ := Option.isSome_iff_exists.mp hrow
  simp [State.part, State.row, State.setvalue, hrow, part_setpart h]

theorem part_setvalue_of_ne (h : ¬ (machine' = machine ∧ part' = part)) :
    (s.setvalue machine part l).part machine' part' = s.part machine' part' := by
  unfold State.part State.row State.setvalue
  by_cases hm : machine' = machine
  · subst hm
    have hp : part' ≠ part := fun hp => h ⟨rfl, hp⟩
    cases s.machinecfg machine' with
    | none => simp
    | some row => simp [part_setpart_of_ne hp]
  · simp [hm]

/-- A machine with a part has a row, and the part is of a kind. -/
theorem row_of_mem {k : ℕ} (h : (s.part machine part)[k]? = some n) :
    (s.machinecfg machine).isSome ∧ Kind part := by
  constructor
  · cases hrow : s.machinecfg machine with
    | none =>
      have hnil : (⟨[], [], [], []⟩ : Machine).part part = [] := by
        unfold Machine.part
        split_ifs <;> rfl
      simp [State.part, State.row, hrow, hnil] at h
    | some row => rfl
  · by_contra hkind
    simp [State.part, part_of_not_kind hkind] at h

/-! ## What leaves the machines alone -/

/-- **Only attributes change**, and which rows were read under texts. -/
structure Frame (s t : State) : Prop where
  machinecfg : t.machinecfg = s.machinecfg
  machinecfgid : t.machinecfgid = s.machinecfgid
  defaultindex : t.defaultindex = s.defaultindex
  equip : t.chips.equip = s.chips.equip
  rowof : t.rowof = s.rowof

theorem Frame.refl (s : State) : Frame s s := ⟨rfl, rfl, rfl, rfl, rfl⟩

/-- Frames come one after the other. -/
theorem Frame.trans (h : Frame s t) (h' : Frame t u) : Frame s u :=
  ⟨h'.machinecfg.trans h.machinecfg, h'.machinecfgid.trans h.machinecfgid,
    h'.defaultindex.trans h.defaultindex, h'.equip.trans h.equip, h'.rowof.trans h.rowof⟩

theorem Frame.row (h : Frame s t) (machine : ℤ) : t.row machine = s.row machine := by
  rw [State.row, h.machinecfg, State.row]

theorem Frame.part_eq (h : Frame s t) (machine part : ℤ) :
    t.part machine part = s.part machine part := by
  rw [State.part, h.row, State.part]

/-- An operation that changes no machine. -/
def Framed {α : Type} (x : Op α) : Prop := ∀ s, Frame s (x s).2

/-- **What writes no part is made of such.** -/
theorem Framed.bind {α β : Type} {x : Op α} {f : α → Op β} (hx : Framed x) (hf : ∀ a, Framed (f a)) :
    Framed (x >>= f) := fun s =>
  Act.Keeps.bind (P := Frame s) (fun t ht => ht.trans (hx t)) (fun a t ht => ht.trans (hf a t)) s
    (Frame.refl s)

/-- It leaves a frame, whether it raises or not. -/
theorem Framed.frame {α : Type} {x : Op α} {r : Except Unit α} (hx : Framed x) (h : x s = (r, t)) :
    Frame s t := by
  have := hx s
  rwa [h] at this

theorem framed_pure {α : Type} (a : α) : Framed (pure a : Op α) := fun s => Frame.refl s

theorem framed_raise {α : Type} : Framed (Act.raise () : Op α) := fun s => Frame.refl s

theorem framed_lift {α : Type} (x : Except Unit α) : Framed (Act.lift x : Op α) := fun s => Frame.refl s

theorem Framed.get_bind {α : Type} {f : State → Op α} (hf : ∀ s, Framed (f s)) :
    Framed (Act.get >>= f) := fun s => hf s s

/-- The state with a row that was read. -/
theorem read_eq (part : ℤ) (id : Id) (s : State) : ∃ t, read part id s = (.ok (s.rowof part id), t) ∧ Frame s t ∧
    t.chips = s.chips := by
  cases id with
  | number n => exact ⟨s, rfl, Frame.refl s, rfl⟩
  | text n =>
    refine ⟨_, rfl, ⟨rfl, rfl, rfl, rfl, ?_⟩, rfl⟩
    funext p i
    cases i with
    | number k => rfl
    | text k =>
      by_cases hp : p = part
      · subst hp
        by_cases hk : k = n
        · subst hk
          simp only [State.rowof, Function.update_self]
          cases s.textrows p k <;> cases s.chips.equip p k <;> rfl
        · simp [State.rowof, hk]
      · simp [State.rowof, hp]

theorem framed_read : Framed (read part id) := by
  intro s
  obtain ⟨t, ht, hframe, -⟩ := read_eq part id s
  rw [ht]
  exact hframe

theorem framed_getcfgid : Framed (getcfgid cfg part id) := framed_read.bind fun _ => framed_pure _

/-- The attributes of a chip are no part, -/
theorem framed_attr {ty : Bool} {i : Fin 5} {slot : Slot} : Framed (attr cfg part machine ty i slot) := by
  unfold attr
  split
  · exact framed_pure _
  · split
    · exact framed_pure _
    · split
      · exact framed_raise
      · intro s
        refine ⟨rfl, rfl, rfl, Chips.update_player_attr_equip, ?_⟩
        funext p i
        cases i <;> simp [State.rowof]

theorem framed_each {l : List (Fin 5 × Slot)} {ty : Bool} :
    Framed (Act.each l fun x => attr cfg part machine ty x.1 x.2) := fun s =>
  Act.Keeps.each (P := Frame s) (fun _ _ t ht => ht.trans (framed_attr t)) s (Frame.refl s)

theorem framed_slotarray {id : Option Id} : Framed (slotarray part id) := by
  cases id with
  | none => exact framed_pure _
  | some id =>
    refine framed_read.bind fun e => ?_
    cases e with
    | none => exact framed_raise
    | some e => exact framed_pure _

/-- nor are those of the chips that change, -/
theorem framed_chipchange {oldid newid : Option Id} :
    Framed (chipchange cfg part machine oldid newid) :=
  framed_slotarray.bind fun _ => framed_slotarray.bind fun _ => framed_each.bind fun _ => framed_each

/-- nor what a weapon is welded with, -/
theorem framed_weldandtype {row : Machinecfg} : Framed (weldandtype cfg part id row index) := by
  unfold weldandtype
  split
  · exact framed_pure _
  · split
    · split
      · exact framed_raise
      · exact framed_getcfgid.bind fun _ => framed_getcfgid.bind fun _ => framed_lift _
    · exact framed_pure _

theorem framed_firstcfg {row : Machinecfg} : Framed (firstcfg cfg row part) := by
  unfold firstcfg
  split
  · exact framed_raise
  · exact framed_getcfgid

/-- nor the row of attributes. -/
theorem framed_update_attribute : Framed (update_attribute cfg) := by
  refine Framed.get_bind fun s => ?_
  split
  · exact framed_raise
  · refine framed_firstcfg.bind fun _ => framed_firstcfg.bind fun _ => framed_firstcfg.bind fun _ => ?_
    split
    · exact framed_pure _
    · exact framed_raise

/-! ## The chip service -/

/-- **The chip service can read an equipment**: it has a row, and the chips that count
are in the table. -/
def Readable (cfg : Config) (s : State) (part : ℤ) (id : Id) : Prop :=
  ∃ e, s.rowof part id = some e ∧ ∀ (i : Fin 5) (chip level : ℤ), (i : ℕ) ≠ 4 →
    (e.slots i).chip = some (chip, level) → (cfg.chips.mod chip).isSome

/-- A frame reads the same, -/
theorem Frame.readable (h : Frame s t) : Readable cfg t part id ↔ Readable cfg s part id := by
  rw [Readable, Readable, h.rowof]

/-- A chip that the configuration knows raises no error. -/
theorem attr_ok {ty : Bool} {i : Fin 5} {slot : Slot} (h : ∀ chip level, (i : ℕ) ≠ 4 →
    slot.chip = some (chip, level) → (cfg.chips.mod chip).isSome) (s : State) :
    ∃ t, attr cfg part machine ty i slot s = (.ok (), t) := by
  cases hchip : slot.chip with
  | none => exact ⟨s, by simp [attr, hchip]⟩
  | some x =>
    obtain ⟨chip, level⟩ := x
    by_cases hcounts : part = warehousetype.weapon ∨ (i : ℕ) = 4
    · exact ⟨s, by simp [attr, hchip, hcounts]⟩
    · obtain ⟨m, hm⟩ := Option.isSome_iff_exists.mp (h chip level (fun hi => hcounts (Or.inr hi)) hchip)
      simp only [attr, hchip, if_neg hcounts, hm]
      exact ⟨_, rfl⟩

/-- The slots of an equipment that can be read are those of chips in the table. -/
theorem slotarray_ok {id : Option Id} (h : ∀ x ∈ id, Readable cfg s part x) :
    ∃ l t, slotarray part id s = (.ok l, t) ∧ Frame s t ∧
      ∀ x ∈ l, ∀ chip level, (x.1 : ℕ) ≠ 4 → x.2.chip = some (chip, level) →
        (cfg.chips.mod chip).isSome := by
  cases id with
  | none => exact ⟨[], s, rfl, Frame.refl s, fun x hx => absurd hx List.not_mem_nil⟩
  | some id =>
    obtain ⟨e, he, hmod⟩ := h id rfl
    obtain ⟨t, ht, hframe, -⟩ := read_eq part id s
    refine ⟨(List.finRange 5).map fun i => (i, e.slots i), t, ?_, hframe, ?_⟩
    · rw [slotarray, Act.bind_ok ht, he]
      rfl
    · rintro x hx chip level hi hchip
      obtain ⟨i, -, rfl⟩ := List.mem_map.mp hx
      exact hmod i chip level hi hchip

/-- **The chip service raises no error** over what it can read. -/
theorem chipchange_ok (machine : ℤ) {oldid newid : Option Id} (hold : ∀ x ∈ oldid, Readable cfg s part x)
    (hnew : ∀ x ∈ newid, Readable cfg s part x) :
    ∃ t, chipchange cfg part machine oldid newid s = (.ok (), t) := by
  obtain ⟨l, t₁, h1, hframe, hl⟩ := slotarray_ok hold
  obtain ⟨l', t₂, h2, -, hl'⟩ := slotarray_ok (s := t₁) fun x hx => hframe.readable.mpr (hnew x hx)
  obtain ⟨t₃, h3⟩ := Act.each_ok (l := l)
    (f := fun x => attr cfg part machine false x.1 x.2) (fun x hx s => attr_ok (hl x hx) s) t₂
  obtain ⟨t₄, h4⟩ := Act.each_ok (l := l')
    (f := fun x => attr cfg part machine true x.1 x.2) (fun x hx s => attr_ok (hl' x hx) s) t₃
  exact ⟨t₄, by rw [chipchange, Act.bind_ok h1, Act.bind_ok h2, Act.bind_ok h3, h4]⟩

/-- So an error is one over what it cannot read. -/
theorem chipchange_cases {oldid newid : Option Id} {x : Except Unit Unit}
    (h : chipchange cfg part machine oldid newid s = (x, t)) : Frame s t ∧ (x = .ok () ∨
      (x = .error () ∧ ¬ ((∀ y ∈ oldid, Readable cfg s part y) ∧ ∀ y ∈ newid, Readable cfg s part y))) := by
  refine ⟨framed_chipchange.frame h, ?_⟩
  cases x with
  | ok x => exact Or.inl rfl
  | error e =>
    refine Or.inr ⟨rfl, fun ⟨hold, hnew⟩ => ?_⟩
    obtain ⟨t', ht'⟩ := chipchange_ok machine hold hnew
    rw [h] at ht'
    cases ht'

/-! ## The two machines -/

/-- `getcfgid`, of the rows as they are. -/
def State.cfgidof (cfg : Config) (s : State) (part : ℤ) (id : Id) : Option ℤ :=
  (s.rowof part id).map fun _ => cfg.cfgid part id.int

/-- Frames stay frames under a write, -/
theorem Frame.setvalue (h : Frame s t) (machine part : ℤ) (l : List ℤ) :
    Frame (s.setvalue machine part l) (t.setvalue machine part l) := by
  refine ⟨?_, h.machinecfgid, h.defaultindex, h.equip, ?_⟩
  · simp only [State.setvalue, h.machinecfg]
  · funext p i
    have := congrFun (congrFun h.rowof p) i
    cases i <;> exact this

/-- The weapons of a machine for its new body. -/
def State.resized (cfg : Config) (s : State) (machine part : ℤ) (id : Id) : State :=
  if part = warehousetype.body then
    s.setvalue machine warehousetype.weapon
      (resize (s.cfgidof cfg warehousetype.body id) (s.part machine warehousetype.weapon))
  else s

/-- The machine a part comes from has what it gets, -/
def State.outrows (cfg : Config) (s : State) (c : Change) (other : ℤ) : State :=
  (s.resized cfg other c.part (.text c.olduniqueid)).setvalue other c.part
    ((s.part other c.part).set ((s.part other c.part).idxOf c.uniqueid) c.back)

/-- and the current machine the part. -/
def State.inrows (cfg : Config) (s : State) (c : Change) : State :=
  (s.resized cfg c.machine c.part (.number c.uniqueid)).setvalue c.machine c.part
    (c.partdata.set c.index c.uniqueid)

/-- under another number of weapons, -/
theorem Frame.resized (h : Frame s t) (machine part : ℤ) (id : Id) :
    Frame (s.resized cfg machine part id) (t.resized cfg machine part id) := by
  unfold State.resized State.cfgidof
  rw [h.rowof, h.part_eq]
  split
  · exact h.setvalue _ _ _
  · exact h

/-- and under a part that is put in. -/
theorem Frame.inrows (h : Frame s t) (c : Change) : Frame (s.inrows cfg c) (t.inrows cfg c) :=
  (h.resized _ _ _).setvalue _ _ _

/-- **The weapons of another body**, whatever is read of them on the way. -/
theorem resized_eq (cfg : Config) (s : State) (machine part : ℤ) (id : Id) (weapons : State → List ℤ)
    (hw : ∀ t, Frame s t → weapons t = s.part machine warehousetype.weapon) :
    ∃ t, resized cfg machine part id weapons s = (.ok (), t) ∧
      Frame (s.resized cfg machine part id) t := by
  unfold resized State.resized
  split
  · rename_i hbody
    subst hbody
    obtain ⟨t, ht, hframe, -⟩ := read_eq warehousetype.body id s
    refine ⟨_, ?_, hframe.setvalue machine warehousetype.weapon _⟩
    rw [getcfgid, Act.bind_ok (Act.bind_ok ht _)]
    simp only [Act.modify_apply, hw t hframe]
    rfl
  · exact ⟨s, rfl, Frame.refl s⟩

/-- **The current machine is changed**, whether the chip service raises an error or not. -/
theorem swapin_frame : Frame (s.inrows cfg c) (swapin cfg c s).2 := by
  obtain ⟨t, ht, hframe⟩ := resized_eq cfg s c.machine c.part (.number c.uniqueid)
    (fun s => s.part c.machine warehousetype.weapon) fun t h => h.part_eq _ _
  rw [swapin, Act.bind_ok ht]
  exact (hframe.setvalue _ _ _).trans (framed_chipchange _)

@[simp] theorem rowof_setvalue : (s.setvalue machine part l).rowof = s.rowof := by
  funext p i
  cases i <;> rfl

@[simp] theorem rowof_resized : (s.resized cfg machine part id).rowof = s.rowof := by
  unfold State.resized
  split
  · exact rowof_setvalue
  · rfl

@[simp] theorem rowof_outrows : (s.outrows cfg c other).rowof = s.rowof := by
  rw [State.outrows, rowof_setvalue, rowof_resized]

/-- **The chip service can read both parts** of a change that it is asked for. -/
def Change.Read (cfg : Config) (s : State) (c : Change) : Prop :=
  Readable cfg s c.part (.number c.uniqueid) ∧
    (c.part ≠ warehousetype.weapon → Readable cfg s c.part (.text c.olduniqueid))

/-- The first place of a part, as the search has it. -/
theorem findIdx?_of_mem (h : n ∈ l) : l.findIdx? (· = n) = some (l.idxOf n) := by
  have hlt : l.findIdx (· == n) < l.length := List.findIdx_lt_length_of_exists ⟨n, h, by simp⟩
  rw [List.findIdx?_eq_some_iff_findIdx_eq]
  have hfun : (fun x : ℤ => decide (x = n)) = (· == n) := by
    funext x
    simp [beq_eq_decide]
  rw [hfun]
  exact ⟨hlt, rfl⟩

/-- **The other machine is changed, or nothing is.** An error after the change is one of
the chip service. -/
theorem swapout_cases (hmem : c.uniqueid ∈ s.part other c.part) (hout : swapout cfg c other s = (r, t)) :
    (Frame s t ∧ r ≠ .ok .success) ∨ (Frame (s.outrows cfg c other) t ∧
      (r = .ok .success ∨ (r = .error () ∧ ¬ c.Read cfg s))) := by
  have hfind := findIdx?_of_mem hmem
  unfold State.part at hfind
  rw [swapout, Act.get_bind_apply] at hout
  simp only [hfind] at hout
  rcases hweld : weldandtype cfg c.part (.text c.olduniqueid) (s.row other)
    (some (((s.row other).parts.part c.part).idxOf c.uniqueid + 1)) s with ⟨code, t₁⟩
  have hframe : Frame s t₁ := framed_weldandtype.frame hweld
  cases code with
  | error e =>
    rw [Act.bind_error hweld] at hout
    cases hout
    exact Or.inl ⟨hframe, by simp⟩
  | ok code =>
    rw [Act.bind_ok hweld] at hout
    by_cases hcode : code = .success
    · subst hcode
      right
      simp only [ne_eq, not_true_eq_false, if_false] at hout
      -- the weapons and the part of the other machine
      obtain ⟨t₂, h2, hframe₂⟩ := resized_eq cfg t₁ other c.part (.text c.olduniqueid)
        (fun _ => (s.row other).parts.weapons) fun t ht => by rw [hframe.part_eq]; rfl
      rw [Act.bind_ok h2, Act.modify_bind_apply] at hout
      have hrows : Frame (s.outrows cfg c other) (t₂.setvalue other c.part
          (((s.row other).parts.part c.part).set (((s.row other).parts.part c.part).idxOf c.uniqueid)
            c.back)) := ((hframe.resized _ _ _).trans hframe₂).setvalue _ _ _
      generalize t₂.setvalue other c.part (((s.row other).parts.part c.part).set
        (((s.row other).parts.part c.part).idxOf c.uniqueid) c.back) = t₃ at hout hrows
      have hread : ∀ {t' : State} {id : Id}, Frame t₃ t' →
          Readable cfg s c.part id → Readable cfg t' c.part id := fun h hr => by
        rwa [Readable, (hrows.trans h).rowof, rowof_outrows]
      rcases hfirst : chipchange cfg c.part other (some (.number c.uniqueid)) none t₃ with ⟨x₁, t₄⟩
      obtain ⟨hframe₄, rfl | ⟨rfl, hno⟩⟩ := chipchange_cases hfirst
      · rw [Act.bind_ok hfirst] at hout
        rcases hsecond : chipchange cfg c.part other none
          (if c.part = warehousetype.weapon then none else some (.text c.olduniqueid)) t₄ with ⟨x₂, t₅⟩
        obtain ⟨hframe₅, rfl | ⟨rfl, hno⟩⟩ := chipchange_cases hsecond
        · rw [Act.bind_ok hsecond] at hout
          cases hout
          exact ⟨(hrows.trans hframe₄).trans hframe₅, Or.inl rfl⟩
        · rw [Act.bind_error hsecond] at hout
          cases hout
          refine ⟨(hrows.trans hframe₄).trans hframe₅, Or.inr ⟨rfl, fun hsound => hno ⟨?_, ?_⟩⟩⟩
          · intro y hy
            cases hy
          · intro y hy
            split at hy
            · cases hy
            · rename_i hpart
              cases hy
              exact hread hframe₄ (hsound.2 hpart)
      · rw [Act.bind_error hfirst] at hout
        cases hout
        refine ⟨hrows.trans hframe₄, Or.inr ⟨rfl, fun hsound => hno ⟨?_, ?_⟩⟩⟩
        · intro y hy
          cases hy
          exact hread (Frame.refl _) hsound.1
        · intro y hy
          cases hy
    · rw [if_pos hcode] at hout
      cases hout
      exact Or.inl ⟨hframe, fun h => hcode (Except.ok.inj h)⟩

/-! ## The request -/

/-- **What the checks have found.** -/
structure Found (s : State) (part uniqueid : ℤ) (index : Option ℤ) (c : Change) (other : Option ℤ) :
    Prop where
  part_eq : c.part = part
  uniqueid_eq : c.uniqueid = uniqueid
  current : s.current = some c.machine
  index_eq : index = some ((c.index : ℤ) + 1)
  partdata : c.partdata = s.part c.machine c.part
  displaced : c.partdata[c.index]? = some c.olduniqueid
  found : find_equip_index s part uniqueid = other
  ne : other ≠ some c.machine

/-- The machines when the one a part comes from was changed. -/
def State.outmaybe (cfg : Config) (s : State) (c : Change) : Option ℤ → State
  | none => s
  | some other => s.outrows cfg c other

/-- **What becomes of a change**: the machines are as they were, or the one the part
comes from is changed and the chip service has raised an error, or both are. -/
inductive Outcome (cfg : Config) (s : State) (part uniqueid : ℤ) (index : Option ℤ) :
    Except Unit Code → State → Prop
  | same {r : Except Unit Code} {t : State} (h : Frame s t) (hr : r ≠ .ok .success) :
      Outcome cfg s part uniqueid index r t
  | half {t : State} {c : Change} {other : ℤ} (h : Found s part uniqueid index c (some other))
      (ht : Frame (s.outrows cfg c other) t) (hread : ¬ c.Read cfg s) :
      Outcome cfg s part uniqueid index (.error ()) t
  | full {r : Except Unit Code} {t : State} {c : Change} {other : Option ℤ}
      (h : Found s part uniqueid index c other)
      (ht : Frame ((s.outmaybe cfg c other).inrows cfg c) t) (hr : r = .ok .success ∨ r = .error ()) :
      Outcome cfg s part uniqueid index r t

/-- A part is found in a machine that has it. -/
theorem mem_of_find (h : find_equip_index s part uniqueid = some other) :
    other ∈ s.machinecfgid ∧ uniqueid ∈ s.part other part :=
  ⟨List.mem_of_find?_eq_some h, by simpa using List.find?_some h⟩

/-- The current machine is changed and then the player's attributes. -/
theorem swapin_outcome (hin : (swapin cfg c >>= fun _ => update_attribute cfg >>= fun _ =>
    (pure .success : Op Code)) s = (r, t)) :
    Frame (s.inrows cfg c) t ∧ (r = .ok .success ∨ r = .error ()) := by
  have hframe : Frame (s.inrows cfg c) (swapin cfg c s).2 := swapin_frame
  rcases hswap : swapin cfg c s with ⟨x, t₁⟩
  rw [hswap] at hframe
  cases x with
  | error e =>
    rw [Act.bind_error hswap] at hin
    cases hin
    exact ⟨hframe, Or.inr rfl⟩
  | ok x =>
    rw [Act.bind_ok hswap] at hin
    rcases hattr : update_attribute cfg t₁ with ⟨y, t₂⟩
    have hframe₂ := framed_update_attribute.frame hattr
    cases y with
    | error e =>
      rw [Act.bind_error hattr] at hin
      cases hin
      exact ⟨hframe.trans hframe₂, Or.inr rfl⟩
    | ok y =>
      rw [Act.bind_ok hattr] at hin
      cases hin
      exact ⟨hframe.trans hframe₂, Or.inl rfl⟩

/-- **A change that found its place** has one of the outcomes. -/
theorem swap_outcome {machinecfg : Option ℤ} (hfound : Found u part uniqueid index c machinecfg)
    (hframe : Frame u s) (h : swap cfg c machinecfg s = (r, t)) : Outcome cfg u part uniqueid index r t := by
  cases machinecfg with
  | none =>
    obtain ⟨hin, hr⟩ := swapin_outcome h
    exact .full hfound ((hframe.inrows c).trans hin) hr
  | some other =>
    have hmem : c.uniqueid ∈ s.part other c.part := by
      rw [hframe.part_eq, hfound.part_eq, hfound.uniqueid_eq]
      exact (mem_of_find hfound.found).2
    have hout : ∀ {v : State}, Frame (s.outrows cfg c other) v → Frame (u.outrows cfg c other) v := by
      intro v hv
      have hrows : Frame (u.outrows cfg c other) (s.outrows cfg c other) := by
        rw [State.outrows, State.outrows, hframe.part_eq]
        exact (hframe.resized _ _ _).setvalue _ _ _
      exact hrows.trans hv
    rcases hswap : swapout cfg c other s with ⟨x, t₁⟩
    have hcases := swapout_cases hmem hswap
    cases x with
    | error e =>
      simp only [swap, Act.bind_error hswap] at h
      cases h
      rcases hcases with ⟨hsame, -⟩ | ⟨hrows, hx | ⟨-, hread⟩⟩
      · exact .same (hframe.trans hsame) (by simp)
      · cases hx
      · refine .half hfound (hout hrows) fun hsound => hread ?_
        exact ⟨hframe.readable.mpr hsound.1, fun hp => hframe.readable.mpr (hsound.2 hp)⟩
    | ok code =>
      simp only [swap, Act.bind_ok hswap] at h
      by_cases hcode : code = .success
      · subst hcode
        rw [if_neg (by simp)] at h
        obtain ⟨hin, hr⟩ := swapin_outcome h
        rcases hcases with ⟨-, hx⟩ | ⟨hrows, -⟩
        · exact absurd rfl hx
        · exact .full hfound (((hout hrows).inrows c).trans hin) hr
      · rw [if_pos hcode] at h
        cases h
        rcases hcases with ⟨hsame, hx⟩ | ⟨-, hx | ⟨hx, -⟩⟩
        · exact .same (hframe.trans hsame) hx
        · exact absurd (Except.ok.inj hx) hcode
        · cases hx

/-- **The change of a part has one of these outcomes.** -/
theorem change_outcome (h : change cfg part uniqueid index s = (r, t)) :
    Outcome cfg s part uniqueid index r t := by
  rw [change, Act.get_bind_apply] at h
  cases hcurrent : s.current with
  | none =>
    simp only [hcurrent, Act.raise_apply] at h
    cases h
    exact .same (Frame.refl s) (by simp)
  | some real =>
    simp only [hcurrent] at h
    by_cases hrepeat : find_equip_index s part uniqueid = some real
    · rw [if_pos hrepeat] at h
      cases h
      exact .same (Frame.refl s) (by simp)
    · rw [if_neg hrepeat] at h
      rcases hweld : weldandtype cfg part (.number uniqueid) (s.row real) index s with ⟨code, t₁⟩
      have hframe : Frame s t₁ := framed_weldandtype.frame hweld
      cases code with
      | error e =>
        rw [Act.bind_error hweld] at h
        cases h
        exact .same hframe (by simp)
      | ok code =>
        rw [Act.bind_ok hweld] at h
        by_cases hcode : code = .success
        · subst hcode
          rw [if_neg (by simp)] at h
          cases index with
          | none =>
            cases h
            exact .same hframe (by simp)
          | some index =>
            simp only at h
            cases hold : (if 1 ≤ index then (s.part real part)[(index - 1).toNat]? else none) with
            | none =>
              simp only [hold] at h
              cases h
              exact .same hframe (by simp)
            | some old =>
              simp only [hold] at h
              split at hold
              · rename_i hpos
                refine swap_outcome ⟨rfl, rfl, hcurrent, ?_, rfl, hold, rfl, hrepeat⟩ hframe h
                simp only [Option.some.injEq]
                omega
              · cases hold
        · rw [if_pos hcode] at h
          cases h
          exact .same hframe fun h => hcode (Except.ok.inj h)

end Hangar

end Athena
