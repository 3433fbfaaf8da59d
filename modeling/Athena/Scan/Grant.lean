import Athena.Scan.Run
import Mathlib.Data.List.TakeWhile
/-!
# Awards — granted once

The awards of finished queues, and the requests that receive them. A request
either takes an award with everything that belongs to it, or changes nothing of
any award; so each award is given once and as a whole. `receiveallcast` gives an
award and keeps it, and an award that cannot be given as a whole is given in
part.
-/

namespace Athena

namespace Scan

open Lua (Str)
open Queue (Row Award BpReward PropReward EquipReward)

variable {cfg : Config} {s t u s₀ : State} {a j key : ℕ} {award : Award} {l : List Given}

/-! ## What was given -/

/-- No materials are nothing. -/
def worth : Given → Bool
  | .material _ n => n ≠ 0
  | _ => true

/-- **What was given for an award.** -/
def givenfor (s : State) (a : ℕ) : List Given :=
  ((s.given.filter fun x => x.1 = some a).map Prod.snd).filter worth

/-- Everything an award has. -/
def due (award : Award) : List Given := (contents award none).filter worth

/-- What is given of it up to the first thing that cannot be given. -/
def partway (cfg : Config) (award : Award) : List Given :=
  ((contents award none).takeWhile (givable cfg)).filter worth

theorem partway_eq (h : awardable cfg award none = true) : partway cfg award = due award := by
  have hall : ∀ x ∈ contents award none, givable cfg x = true := List.all_eq_true.mp h
  rw [partway, due, List.takeWhile_eq_self_iff.mpr hall]

theorem givenfor_upto (h : t.given = s.given ++ upto cfg (some a) l) :
    givenfor t j = givenfor s j ++ if a = j then (l.takeWhile (givable cfg)).filter worth else [] := by
  have hown : ((upto cfg (some a) l).filter fun x => x.1 = some j).map Prod.snd =
      if a = j then l.takeWhile (givable cfg) else [] := by
    rw [upto]
    induction l.takeWhile (givable cfg) with
    | nil => simp
    | cons x m ih =>
      rw [List.map_cons, List.filter_cons]
      by_cases hj : a = j
      · subst hj
        rw [if_pos (by simp), List.map_cons, ih, if_pos rfl, if_pos rfl]
      · rw [if_neg (by simpa using hj), ih, if_neg hj, if_neg hj]
  rw [givenfor, h, List.filter_append, List.map_append, List.filter_append, hown, givenfor]
  split <;> rfl

theorem givenfor_get_award : givenfor (get_award cfg (some a) award none s).2 j =
    givenfor s j ++ if a = j then partway cfg award else [] :=
  givenfor_upto get_award_gives.2

/-- The finished castings are what they were. -/
theorem get_award_blueprintend {source : Option ℕ} {number : Option ℚ} :
    (get_award cfg source award number s).2.lists.blueprintend = s.lists.blueprintend := by
  have hsame : ∀ {s t : State}, t.blueprint = s.blueprint → t.lists.blueprintend = s.lists.blueprintend :=
    fun h => by rw [State.lists, State.lists, h]
  refine get_award_rel (R := fun s t => t.lists.blueprintend = s.lists.blueprintend) (fun _ => rfl)
    (fun h h' => h'.trans h) (fun e _ s => hsame ?_) (fun b _ s => ?_) (fun p _ s => hsame ?_)
    fun s => hsame ?_
  · unfold addequip
    split <;> rfl
  · have hlists : (awardblueprint cfg source number b s).2.lists =
        (addblueprint cfg b.cfgid (part b.number number) b.name s).2.lists := by
      rw [State.lists, State.lists, awardblueprint, recorded_blueprint]
    rw [hlists]
    unfold addblueprint
    split
    · exact (add_blueprint_spec s b.cfgid (part b.number number) b.name).2.1
    · rfl
  · obtain ⟨m, hm⟩ := addmaterials_snd cfg s p.cfgid (part p.number number)
    rw [awardmaterials, recorded_blueprint, hm]
  · rw [recorded_blueprint]
    unfold add_machine
    split <;> rfl

/-! ## Finished queues -/

/-- **Awards with their ids and entries**: an award is listed once, among the
scans or among the castings, and an award of a casting has one entry. -/
structure Tidy (s : State) : Prop where
  award : ∀ a, (s.awards a).isSome ↔ a ∈ s.endscan ∨ a ∈ s.endcasting
  scannodup : s.endscan.Nodup
  castnodup : s.endcasting.Nodup
  disjoint : ∀ a ∈ s.endscan, a ∉ s.endcasting
  entries : Each Entry.awardid (· ∈ s.endcasting) s.lists.blueprintend
  positive : Positive s.lists.blueprintend
  noqueue : ∀ d ∈ s.lists.blueprintend, d.bqid = none

/-- **Finished queues** of which nothing is received. -/
structure Finished (s : State) : Prop extends Tidy s where
  given : s.given = []

inductive Receipt
  | scan (awardid : Option ℕ)
  | casting (awardid : Option ℕ)
  | all
  deriving DecidableEq

def Receipt.event : Receipt → Event
  | .scan awardid => .receivescan awardid
  | .casting awardid => .receivecasting awardid
  | .all => .receiveallcast

/-- **The requests that receive awards**, over any finished queues. -/
def receipts (cfg : Config) : System State Receipt where
  init := Finished
  step s r t := t = (step cfg s r.event).1

/-- **Each award is given at most once and completely.** -/
def Once (s₀ s : State) : Prop :=
  ∀ a, givenfor s a = [] ∨ ∃ award, s₀.awards a = some award ∧ givenfor s a = due award

/-- Of an award nothing is left. -/
structure Gone (s : State) (a : ℕ) : Prop where
  award : s.awards a = none
  endscan : a ∉ s.endscan
  endcasting : a ∉ s.endcasting
  blueprintend : ∀ d ∈ s.lists.blueprintend, d.awardid ≠ some a

/-- The awards of the finished castings, as `receiveallcast` goes through them. -/
def listed (s : State) : List ℕ := s.lists.blueprintend.filterMap Entry.awardid

/-- **A reported success** means that the award is given and gone; and
`receiveallcast` is `receivecasting` of each listed award in turn. -/
def Reports (cfg : Config) (s : State) : Receipt → Prop
  | .scan (some a) => (receivescan cfg s (some a)).2 = some .success →
      Gone (receivescan cfg s (some a)).1 a ∧ ∃ award, s.awards a = some award ∧
        givenfor (receivescan cfg s (some a)).1 a = due award
  | .casting (some a) => (receivecasting cfg s (some a)).2 = some .success →
      Gone (receivecasting cfg s (some a)).1 a ∧ ∃ award, s.awards a = some award ∧
        givenfor (receivecasting cfg s (some a)).1 a = due award
  | .all => (receiveallcast cfg s).1 =
        (listed s).foldl (fun s a => (receivecasting cfg s (some a)).1) s ∧
      ((receiveallcast cfg s).2 = some .success → ∀ a ∈ listed s, Gone (receiveallcast cfg s).1 a)
  | _ => True

/-! ## Where it goes right -/

/-- All of an award can be given, or nothing of it is. -/
def Whole (cfg : Config) (award : Award) : Prop := awardable cfg award none = true ∨ partway cfg award = []

/-- **The requests that go right.** An award that is received can be given as a
whole, or nothing of it is given; the entry of a casting is for one copy; and
`receiveallcast` finds no award of which something can be given. -/
def Sole (cfg : Config) (s : State) : Receipt → Prop
  | .scan (some a) => ∀ award, s.awards a = some award → a ∈ s.endscan →
      cfg.machinecfg award.sponsorid = true → Whole cfg award
  | .casting (some a) => ∀ award, s.awards a = some award → a ∈ s.endcasting →
      machinefull s award = false → Whole cfg award ∧ (awardable cfg award none = true →
        ∀ d ∈ s.lists.blueprintend, d.awardid = some a → d.number = 1)
  | .all => ∀ a award, s.awards a = some award → a ∈ s.endcasting → machinefull s award = false →
      awardable cfg award none = false ∧ partway cfg award = []
  | _ => True

/-! ## What a request does -/

/-- **No award is touched.** -/
structure Still (s t : State) : Prop where
  awards : t.awards = s.awards
  endscan : t.endscan = s.endscan
  endcasting : t.endcasting = s.endcasting
  blueprintend : t.lists.blueprintend = s.lists.blueprintend
  machines : t.machines = s.machines
  given : ∀ a, givenfor t a = givenfor s a

/-- **An award is taken** with all that belongs to it. -/
structure Taken (s t : State) (a : ℕ) (award : Award) : Prop where
  record : s.awards a = some award
  awards : t.awards = Function.update s.awards a none
  endscan : t.endscan = s.endscan.erase a
  endcasting : t.endcasting = s.endcasting.erase a
  entries : Each Entry.awardid (fun j => j ∈ s.endcasting ∧ j ≠ a) t.lists.blueprintend
  sub : ∀ d ∈ t.lists.blueprintend, d ∈ s.lists.blueprintend
  given : ∀ j, givenfor t j = givenfor s j ++ if a = j then due award else []

theorem Still.refl (s : State) : Still s s := ⟨rfl, rfl, rfl, rfl, rfl, fun _ => rfl⟩

theorem Still.trans (h : Still s t) (h' : Still t u) : Still s u where
  awards := h'.awards.trans h.awards
  endscan := h'.endscan.trans h.endscan
  endcasting := h'.endcasting.trans h.endcasting
  blueprintend := h'.blueprintend.trans h.blueprintend
  machines := h'.machines.trans h.machines
  given a := (h'.given a).trans (h.given a)

theorem Still.tidy (h : Still s t) (hs : Tidy s) : Tidy t where
  award a := by rw [h.awards, h.endscan, h.endcasting, hs.award]
  scannodup := h.endscan ▸ hs.scannodup
  castnodup := h.endcasting ▸ hs.castnodup
  disjoint := by
    rw [h.endscan, h.endcasting]
    exact hs.disjoint
  entries := by
    rw [h.blueprintend, h.endcasting]
    exact hs.entries
  positive := h.blueprintend ▸ hs.positive
  noqueue := h.blueprintend ▸ hs.noqueue

/-- Of an award that is taken nothing is left. -/
theorem Taken.gone (h : Taken s t a award) (hs : Tidy s) : Gone t a where
  award := by rw [h.awards, Function.update_self]
  endscan := by
    rw [h.endscan]
    exact hs.scannodup.not_mem_erase
  endcasting := by
    rw [h.endcasting]
    exact hs.castnodup.not_mem_erase
  blueprintend d hd hda := by
    obtain ⟨j, hj, -, hne⟩ := h.entries.entry d hd
    exact hne (Option.some.inj (hj.symm.trans hda))

theorem Taken.tidy (h : Taken s t a award) (hs : Tidy s) : Tidy t where
  award j := by
    rw [h.awards, ← isSome_erase, hs.award, h.endscan, h.endcasting, hs.scannodup.mem_erase_iff,
      hs.castnodup.mem_erase_iff]
    tauto
  scannodup := h.endscan ▸ hs.scannodup.erase a
  castnodup := h.endcasting ▸ hs.castnodup.erase a
  disjoint j hj hj' := by
    rw [h.endscan] at hj
    rw [h.endcasting] at hj'
    exact hs.disjoint j (List.mem_of_mem_erase hj) (List.mem_of_mem_erase hj')
  entries := by
    rw [h.endcasting]
    exact h.entries.congr fun j => by rw [hs.castnodup.mem_erase_iff, and_comm]
  positive d hd := hs.positive d (h.sub d hd)
  noqueue d hd := hs.noqueue d (h.sub d hd)

/-- An award that gives nothing changes nothing. -/
theorem still_get_award (hnot : awardable cfg award none = false) (hnone : partway cfg award = []) :
    Still s (get_award cfg (some a) award none s).2 where
  awards := kept_get_award.awards
  endscan := kept_get_award.endscan
  endcasting := kept_get_award.endcasting
  blueprintend := get_award_blueprintend
  machines := get_award_machines hnot
  given j := by
    rw [givenfor_get_award, hnone]
    simp

theorem Whole.partway (h : Whole cfg award) (hnot : awardable cfg award none = false) :
    partway cfg award = [] :=
  h.resolve_left (by simp [hnot])

/-- **`receivescan`** takes an award or changes nothing. -/
theorem receivescan_cases (hs : Tidy s) (hsole : Sole cfg s (.scan (some a))) :
    (Still s (receivescan cfg s (some a)).1 ∧
        (receivescan cfg s (some a)).2 ≠ some .success) ∨
      ∃ award, Taken s (receivescan cfg s (some a)).1 a award := by
  rcases receivescan_split cfg s (some a) with ⟨heq, hne⟩ | ⟨a', award, ha', ha, hmem, hcfg, h⟩
  · exact Or.inl ⟨by rw [heq]; exact .refl s, hne⟩
  · obtain rfl : a = a' := Option.some.inj ha'
    have hwhole := hsole award ha hmem hcfg
    rcases h with ⟨hgot, heq⟩ | ⟨hgot, heq⟩
    · rw [heq]
      exact Or.inl ⟨still_get_award hgot (hwhole.partway hgot), nofun⟩
    · have hkept : Kept s (get_award cfg (some a) award none s).2 := kept_get_award
      have hnot : a ∉ s.endcasting := hs.disjoint a hmem
      rw [heq]
      refine Or.inr ⟨award, ha, ?_, ?_, ?_, ?_, ?_, fun j => ?_⟩
      · exact congrArg (Function.update · a none) hkept.awards
      · exact remove_array_eq hs.scannodup
      · exact hkept.endcasting.trans (List.erase_of_not_mem hnot).symm
      · change Each _ _ (get_award cfg (some a) award none s).2.lists.blueprintend
        rw [get_award_blueprintend]
        refine hs.entries.congr fun j => ⟨fun hj => ⟨hj, ?_⟩, And.left⟩
        rintro rfl
        exact hnot hj
      · change ∀ d ∈ (get_award cfg (some a) award none s).2.lists.blueprintend, _
        rw [get_award_blueprintend]
        exact fun d hd => hd
      · rw [← partway_eq hgot, ← givenfor_get_award]
        rfl

/-- The entry of a listed award is found. -/
theorem Tidy.found (hs : Tidy s) (ha : a ∈ s.endcasting) (id name : Option Str) {l : Lists}
    (hl : s.lists.blueprintend = l.blueprintend) :
    ∃ key d, get_blueprint id l.blueprintend name (some a) = some key ∧
      l.blueprintend[key]? = some d ∧ d.awardid = some a := by
  have hone := hs.entries.one a ha
  obtain ⟨d, hd, hda⟩ := List.countP_pos_iff.mp (by rw [hone]; exact Nat.one_pos)
  obtain ⟨key, hkey⟩ := exists_get_blueprint id name hd (Or.inr (of_decide_eq_true hda))
  rw [hl] at hkey
  obtain ⟨d', hd', ha'⟩ := get_blueprint_some hkey
  refine ⟨key, d', hkey, hd', ha'.resolve_left fun hb => ?_⟩
  cases (hs.noqueue d' (hl ▸ List.mem_of_getElem? hd')).symm.trans hb

/-- **`receivecasting`** does so where the entry is for one copy. -/
theorem receivecasting_cases (hs : Tidy s) (hsole : Sole cfg s (.casting (some a))) :
    (Still s (receivecasting cfg s (some a)).1 ∧
        (receivecasting cfg s (some a)).2 ≠ some .success) ∨
      ∃ award, Taken s (receivecasting cfg s (some a)).1 a award := by
  rcases receivecasting_split cfg s (some a) with ⟨heq, hne⟩ | ⟨a', award, ha', ha, hmem, hfull, h⟩
  · exact Or.inl ⟨by rw [heq]; exact .refl s, hne⟩
  · obtain rfl : a = a' := Option.some.inj ha'
    obtain ⟨hwhole, hone⟩ := hsole award ha hmem hfull
    have hkept : Kept s (get_award cfg (some a) award none s).2 := kept_get_award
    have hend : (get_award cfg (some a) award none s).2.lists.blueprintend = s.lists.blueprintend :=
      get_award_blueprintend
    rcases h with ⟨hgot, heq⟩ | ⟨hgot, ⟨hl, -⟩ | ⟨l, hl, heq⟩⟩
    · rw [heq]
      exact Or.inl ⟨still_get_award hgot (hwhole.partway hgot), nofun⟩
    · -- a listed award has an entry of the blueprint
      have hempty := hs.entries.one a hmem
      rw [← hend, State.lists, hl] at hempty
      cases hempty
    · have hgiven : ∀ j, givenfor (get_award cfg (some a) award none s).2 j =
          givenfor s j ++ if a = j then due award else [] := fun j => by
        rw [← partway_eq hgot]
        exact givenfor_get_award
      have hls := lists_of_blueprint hl
      obtain ⟨key, d, hkey, hd, hda⟩ := hs.found hmem (some award.sponsorid) none
        (hend.symm.trans (congrArg Lists.blueprintend hls))
      rw [hls] at hend
      have hnumber : d.number = 1 := hone hgot d (hend ▸ List.mem_of_getElem? hd) hda
      rw [heq, remblueprint_one hkey hd hnumber]
      obtain ⟨pre, post, hsplit, herase, -⟩ := split_at hd
      have hrun := hs.entries
      rw [← hend, hsplit] at hrun
      refine Or.inr ⟨award, ha, ?_, ?_, ?_, ?_, ?_, ?_⟩
      · exact congrArg (Function.update · a none) hkept.awards
      · refine hkept.endscan.trans (List.erase_of_not_mem fun h => ?_).symm
        exact hs.disjoint a h hmem
      · exact remove_array_eq hs.castnodup
      · exact herase ▸ hrun.erase hda
      · exact fun c hc => hend ▸ List.mem_of_mem_eraseIdx hc
      · exact hgiven

/-! ## receiveallcast -/

/-- **A round without anything to give** is `receivecasting`, which gives nothing. -/
theorem receiveone_eq (h : ∀ award, s.awards a = some award → a ∈ s.endcasting →
    machinefull s award = false → awardable cfg award none = false ∧ partway cfg award = []) :
    receiveone cfg s s.endcasting a = ((receivecasting cfg s (some a)).1, s.endcasting, true) ∧
      Still s (receivecasting cfg s (some a)).1 := by
  unfold receiveone receivecasting
  simp only
  cases ha : s.awards a with
  | none => exact ⟨rfl, .refl s⟩
  | some award =>
    simp only
    split
    · exact ⟨rfl, .refl s⟩
    · rename_i hmem
      split
      · exact ⟨rfl, .refl s⟩
      · rename_i hfull
        obtain ⟨hnot, hnone⟩ := h award ha (not_not.mp hmem) (by simpa using hfull)
        simp only [get_award_fst, hnot, Bool.not_false, if_true]
        exact ⟨trivial, still_get_award hnot hnone⟩

theorem Sole.still (h : Sole cfg s .all) (hst : Still s t) : Sole cfg t .all := by
  intro a award ha hmem hfull
  rw [hst.awards] at ha
  rw [hst.endcasting] at hmem
  rw [machinefull, hst.machines] at hfull
  exact h a award ha hmem hfull

theorem receiveloop_eq (ids : List ℕ) (number : ℕ) (h : Sole cfg s .all) :
    receiveloop cfg ids s s.endcasting number =
        (ids.foldl (fun s a => (receivecasting cfg s (some a)).1) s, s.endcasting, number + ids.length) ∧
      Still s (ids.foldl (fun s a => (receivecasting cfg s (some a)).1) s) := by
  induction ids generalizing s number with
  | nil => exact ⟨rfl, .refl s⟩
  | cons a ids ih =>
    obtain ⟨heq, hst⟩ := receiveone_eq (h a)
    obtain ⟨heq', hst'⟩ := ih (number + 1) (h.still hst)
    rw [hst.endcasting] at heq'
    simp only [receiveloop, heq, if_true, List.foldl_cons, List.length_cons]
    refine ⟨?_, hst.trans hst'⟩
    rw [heq', Nat.add_right_comm, Nat.add_assoc]

/-- **`receiveallcast` without anything to give** is `receivecasting` of each award,
and reports a success only where there is none. -/
theorem receiveallcast_eq (h : Sole cfg s .all) :
    (receiveallcast cfg s).1 = (listed s).foldl (fun s a => (receivecasting cfg s (some a)).1) s ∧
      Still s (receiveallcast cfg s).1 ∧
      ((receiveallcast cfg s).2 = some .success → listed s = []) := by
  unfold receiveallcast
  cases hl : s.blueprint with
  | none =>
    have hnil : listed s = [] := by simp [listed, State.lists, hl]
    rw [hnil]
    exact ⟨rfl, .refl s, fun _ => rfl⟩
  | some l =>
    have hlisted : l.blueprintend.filterMap Entry.awardid = listed s := by
      rw [listed, lists_of_blueprint hl]
    obtain ⟨heq, hst⟩ := receiveloop_eq (listed s) 0 h
    simp only [hlisted, heq]
    have heta : ∀ v : State, v.endcasting = s.endcasting → { v with endcasting := s.endcasting } = v :=
      fun v hv => by rw [← hv]
    rw [heta _ hst.endcasting]
    refine ⟨rfl, hst, fun hsuccess => ?_⟩
    by_contra hne
    have hpos : 0 + (listed s).length ≠ 0 := by
      have := List.length_pos_iff.mpr hne
      omega
    rw [if_neg hpos] at hsuccess
    cases hsuccess

/-! ## Runs -/

/-- **What holds between two requests**, after a start. -/
structure Ledger (s₀ s : State) : Prop extends Tidy s where
  same : ∀ a award, s.awards a = some award → s₀.awards a = some award ∧ givenfor s a = []
  once : Once s₀ s

theorem Finished.ledger (h : Finished s) : Ledger s s where
  toTidy := h.toTidy
  same a award ha := ⟨ha, by simp [givenfor, h.given]⟩
  once a := Or.inl (by simp [givenfor, h.given])

theorem Ledger.still (h : Ledger s₀ s) (hst : Still s t) : Ledger s₀ t where
  toTidy := hst.tidy h.toTidy
  same a award ha := by
    rw [hst.given]
    exact h.same a award ((congrFun hst.awards a).symm.trans ha)
  once a := by
    rw [hst.given]
    exact h.once a

/-- What is given when an award is taken is all it has. -/
theorem Taken.due (h : Taken s t a award) (hl : Ledger s₀ s) : givenfor t a = due award := by
  rw [h.given, (hl.same a award h.record).2, if_pos rfl, List.nil_append]

theorem Ledger.taken (h : Ledger s₀ s) (ht : Taken s t a award) : Ledger s₀ t where
  toTidy := ht.tidy h.toTidy
  same j aw hj := by
    have hne : j ≠ a := by
      rintro rfl
      rw [ht.awards, Function.update_self] at hj
      cases hj
    rw [ht.awards, Function.update_of_ne hne] at hj
    rw [ht.given, if_neg hne.symm, List.append_nil]
    exact h.same j aw hj
  once j := by
    by_cases hj : a = j
    · subst hj
      exact Or.inr ⟨award, (h.same a award ht.record).1, ht.due h⟩
    · rw [ht.given, if_neg hj, List.append_nil]
      exact h.once j

/-- **Every request that goes right** keeps the ledger, and reports a success of
an award that is given and gone. -/
theorem Ledger.step {r : Receipt} (h : Ledger s₀ s) (hsole : Sole cfg s r) :
    Ledger s₀ (step cfg s r.event).1 ∧ Reports cfg s r := by
  cases r with
  | scan awardid =>
    cases awardid with
    | none => exact ⟨h, trivial⟩
    | some a =>
      rcases receivescan_cases h.toTidy hsole with ⟨hst, hno⟩ | ⟨award, ht⟩
      · exact ⟨h.still hst, fun hyes => absurd hyes hno⟩
      · exact ⟨h.taken ht, fun _ => ⟨ht.gone h.toTidy, award, ht.record, ht.due h⟩⟩
  | casting awardid =>
    cases awardid with
    | none => exact ⟨h, trivial⟩
    | some a =>
      rcases receivecasting_cases h.toTidy hsole with ⟨hst, hno⟩ | ⟨award, ht⟩
      · exact ⟨h.still hst, fun hyes => absurd hyes hno⟩
      · exact ⟨h.taken ht, fun _ => ⟨ht.gone h.toTidy, award, ht.record, ht.due h⟩⟩
  | all =>
    obtain ⟨heq, hst, hnone⟩ := receiveallcast_eq hsole
    refine ⟨h.still hst, heq, fun hyes a ha => ?_⟩
    rw [hnone hyes] at ha
    cases ha

/-- **Awards are granted once and completely** over a run of requests that go
right from any finished queues, and a reported success leaves nothing of an award. -/
theorem awards_granted (cfg : Config) (s₀ s : State) (rs : List Receipt) (r : Receipt)
    (h₀ : Finished s₀) (h : ((receipts cfg).restrict (Sole cfg)).Path s₀ rs s) (hsole : Sole cfg s r) :
    Once s₀ s ∧ Reports cfg s r := by
  have hledger : Ledger s₀ s := by
    refine h.invariant (P := Ledger s₀) (fun s r t hst hl => ?_) h₀.ledger
    have heq : t = (Scan.step cfg s r.event).1 := hst.1
    rw [heq]
    exact (hl.step hst.2).1
  exact ⟨hledger.once, (hledger.step hsole).2⟩

/-! ## A casting to receive -/

/-- A chassis that is cast. -/
def castaward : Award := ⟨1, [], [], [⟨1, ['0', '0', '0', '0', '1'], 1, 1⟩], chassis⟩

/-- A player with one finished casting. -/
def hasfinished : State :=
  { hastwo with
    blueprint := some ⟨[], [], [], [⟨chassis, 1, none, none, none, none, some 1⟩]⟩
    endcasting := [1]
    awards := Function.update hastwo.awards 1 (some castaward) }

theorem finished_hasfinished : Finished hasfinished where
  award a := by
    by_cases ha : a = 1
    · subst ha
      decide
    · simp [hasfinished, hastwo, ha]
  scannodup := by decide
  castnodup := by decide
  disjoint a h := by cases h
  entries := by
    refine ⟨fun d hd => ⟨1, ?_, by decide⟩, fun k hk => ?_⟩
    · rw [List.mem_singleton.mp hd]
    · rw [List.mem_singleton.mp hk]
      decide
  positive d hd := by
    rw [List.mem_singleton.mp hd]
    decide
  noqueue d hd := by rw [List.mem_singleton.mp hd]
  given := rfl

theorem awards_granted_one : Once hasfinished hasfinished ∧
    Reports onecast hasfinished (.casting (some 1)) := by
  refine awards_granted onecast hasfinished hasfinished [] (.casting (some 1)) finished_hasfinished (.nil _)
    fun award ha _ _ => ?_
  have heq : award = castaward := (Option.some.inj ha).symm
  have hcan : awardable onecast castaward none = true := by decide +kernel
  refine ⟨Or.inl (heq ▸ hcan), fun _ d hd _ => ?_⟩
  rw [List.mem_singleton.mp hd]

/-- **An award that `receiveallcast` gave is given again** by `receivecasting`. -/
theorem awards_granted_twice : ¬ ∀ (cfg : Config) (s₀ s : State) (rs : List Receipt) (r : Receipt),
    Finished s₀ → (receipts cfg).Path s₀ rs s → Once s₀ s ∧ Reports cfg s r := by
  intro h
  obtain ⟨t, ht⟩ : ∃ t, after onecast hasfinished [.receiveallcast, .receivecasting (some 1)] = t :=
    ⟨_, rfl⟩
  have hpath : (receipts onecast).Path hasfinished [.all, .casting (some 1)] t :=
    ht ▸ .cons rfl (.cons rfl (.nil _))
  have hgiven : givenfor t 1 = [.equip 1 ['0', '0', '0', '0', '1'] 1 false,
      .equip 1 ['0', '0', '0', '0', '1'] 1 false] := by
    rw [← ht]
    decide +kernel
  rcases (h onecast hasfinished t _ .all finished_hasfinished hpath).1 1 with hnone | ⟨award, ha, hall⟩
  · rw [hnone] at hgiven
    cases hgiven
  · have heq : award = castaward := (Option.some.inj ha).symm
    rw [hgiven, heq] at hall
    revert hall
    decide +kernel

end Scan

end Athena
