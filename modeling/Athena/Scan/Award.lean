import Athena.Scan.Copies
/-!
# Awards — what `get_award` does

Whether it succeeds is in the award and the shared tables alone; what it
gives on the way is a part of what the award has, and all of it where it
succeeds; and it leaves the queues and the awards alone.
-/

namespace Athena

namespace Scan

open Lua (Str)
open Queue (Row Award BpReward PropReward EquipReward)

variable {cfg : Config} {s t u : State} {source : Option ℕ} {data : Award} {number : Option ℚ} {α : Type}
  {call : α → State → Bool × State} {l : List α}

/-! ## Loops -/

/-- What every call keeps, the loop keeps. -/
theorem each_rel {R : State → State → Prop} (hrefl : ∀ s, R s s)
    (htrans : ∀ {s t u}, R s t → R t u → R s u) (hcall : ∀ a ∈ l, ∀ s, R s (call a s).2) :
    R s (each call l s).2 := by
  induction l generalizing s with
  | nil => exact hrefl s
  | cons a l ih =>
    have ha := hcall a List.mem_cons_self s
    simp only [each]
    split
    · exact htrans ha (ih fun b hb => hcall b (List.mem_cons_of_mem a hb))
    · exact ha

/-- There is such a blueprint. -/
def hasblueprint (cfg : Config) (bpid : Str) : Bool :=
  (strtoarr bpid).all fun b => (cfg.blueprint b).isSome

/-- Materials that may be added. -/
def hasmaterial (cfg : Config) (cfgid : Str) (n : ℤ) : Bool := 0 ≤ n && (n = 0 || cfg.material cfgid)

/-- **What can be given**, whatever the state. -/
def givable (cfg : Config) : Given → Bool
  | .equip type cfgid _ _ => cfg.part type cfgid
  | .blueprint id _ _ => hasblueprint cfg id
  | .material cfgid n => hasmaterial cfg cfgid n
  | .machine bpid => bpid.length = 18

/-- A call gives one thing where that can be given, and else it fails and gives
nothing. -/
structure GivesOne (cfg : Config) (source : Option ℕ) (call : α → State → Bool × State)
    (g : α → Given) : Prop where
  fst : ∀ a s, (call a s).1 = givable cfg (g a)
  given : ∀ a s, (call a s).2.given = s.given ++ if givable cfg (g a) then [(source, g a)] else []

/-- What is given for an award, up to the first thing that cannot be. -/
def upto (cfg : Config) (source : Option ℕ) (l : List Given) : List (Option ℕ × Given) :=
  (l.takeWhile (givable cfg)).map fun x => (source, x)

theorem upto_append_of_all {l m : List Given} (h : l.all (givable cfg) = true) :
    upto cfg source (l ++ m) = l.map (fun x => (source, x)) ++ upto cfg source m := by
  rw [upto, List.takeWhile_append_of_pos (List.all_eq_true.mp h), List.map_append, upto]

theorem upto_append_of_not {l m : List Given} (h : l.all (givable cfg) = false) :
    upto cfg source (l ++ m) = upto cfg source l := by
  induction l with
  | nil => cases h
  | cons a l ih =>
    simp only [upto, List.cons_append, List.takeWhile_cons] at ih ⊢
    cases ha : givable cfg a with
    | false => rfl
    | true =>
      rw [List.all_cons, ha, Bool.true_and] at h
      simpa using ih h

theorem upto_of_all {l : List Given} (h : l.all (givable cfg) = true) :
    upto cfg source l = l.map fun x => (source, x) := by
  have : upto cfg source (l ++ []) = l.map (fun x => (source, x)) ++ upto cfg source [] :=
    upto_append_of_all h
  simpa [upto] using this

/-- **A loop succeeds where everything can be given**, and gives up to the first
thing that cannot be. -/
theorem each_gives {g : α → Given} (h : GivesOne cfg source call g) :
    (each call l s).1 = (l.map g).all (givable cfg) ∧
      (each call l s).2.given = s.given ++ upto cfg source (l.map g) := by
  induction l generalizing s with
  | nil => simp [each, upto]
  | cons a l ih =>
    have ha := h.given a s
    simp only [each, h.fst, List.map_cons, List.all_cons, upto, List.takeWhile_cons]
    cases hg : givable cfg (g a) with
    | false =>
      rw [hg] at ha
      simpa using ha
    | true =>
      rw [hg] at ha
      obtain ⟨h1, h2⟩ := ih (s := (call a s).2)
      simp [h1, h2, ha, upto]

/-! ## What stays -/

/-- The queues and the awards are what they were. -/
structure Kept (s t : State) : Prop where
  now : t.now = s.now
  rows : t.rows = s.rows
  bqid : t.bqid = s.bqid
  ingcasting : t.ingcasting = s.ingcasting
  endcasting : t.endcasting = s.endcasting
  endscan : t.endscan = s.endscan
  awards : t.awards = s.awards
  awardid : t.awardid = s.awardid

theorem Kept.refl (s : State) : Kept s s := ⟨rfl, rfl, rfl, rfl, rfl, rfl, rfl, rfl⟩

theorem Kept.trans (h : Kept s t) (h' : Kept t u) : Kept s u where
  now := h'.now.trans h.now
  rows := h'.rows.trans h.rows
  bqid := h'.bqid.trans h.bqid
  ingcasting := h'.ingcasting.trans h.ingcasting
  endcasting := h'.endcasting.trans h.endcasting
  endscan := h'.endscan.trans h.endscan
  awards := h'.awards.trans h.awards
  awardid := h'.awardid.trans h.awardid

theorem kept_give {g : Given} : Kept s (s.give source g) := ⟨rfl, rfl, rfl, rfl, rfl, rfl, rfl, rfl⟩

theorem kept_recorded {g : Given} {r : Bool × State} (h : Kept s r.2) :
    Kept s (recorded source g r).2 := by
  unfold recorded
  split
  · exact h.trans kept_give
  · exact h

theorem kept_addequip {w : Bool} {e : EquipReward} : Kept s (addequip cfg source w e s).2 := by
  unfold addequip
  split
  · exact kept_give
  · exact .refl s

theorem kept_addblueprint {bpid : Str} {n : ℤ} {name : Option Str} :
    Kept s (addblueprint cfg bpid n name s).2 := by
  unfold addblueprint
  split
  · exact ⟨rfl, rfl, rfl, rfl, rfl, rfl, rfl, rfl⟩
  · exact .refl s

/-- Materials are all that `addmaterials` changes. -/
theorem addmaterials_snd (cfg : Config) (s : State) (cfgid : Str) (n : ℤ) :
    ∃ m, (addmaterials cfg cfgid n s).2 = { s with materials := m } := by
  unfold addmaterials
  split
  · exact ⟨_, rfl⟩
  · split
    · exact ⟨_, rfl⟩
    · split <;> exact ⟨_, rfl⟩

theorem kept_addmaterials {cfgid : Str} {n : ℤ} : Kept s (addmaterials cfg cfgid n s).2 := by
  obtain ⟨m, hm⟩ := addmaterials_snd cfg s cfgid n
  rw [hm]
  exact ⟨rfl, rfl, rfl, rfl, rfl, rfl, rfl, rfl⟩

theorem kept_add_machine {bpid : Str} : Kept s (add_machine bpid s).2 := by
  unfold add_machine
  split
  · exact .refl s
  · exact ⟨rfl, rfl, rfl, rfl, rfl, rfl, rfl, rfl⟩

@[simp] theorem recorded_blueprint {g : Given} {r : Bool × State} :
    (recorded source g r).2.blueprint = r.2.blueprint := by
  unfold recorded
  split <;> rfl

@[simp] theorem recorded_machines {g : Given} {r : Bool × State} :
    (recorded source g r).2.machines = r.2.machines := by
  unfold recorded
  split <;> rfl

/-! ## get_award -/

/-- The states `get_award` comes through. -/
def afterequips (cfg : Config) (source : Option ℕ) (data : Award) (s : State) : Bool × State :=
  each (addequip cfg source (weld data.sponsorid)) data.equiplist s

def afterbps (cfg : Config) (source : Option ℕ) (data : Award) (number : Option ℚ) (s : State) :
    Bool × State :=
  each (awardblueprint cfg source number) data.bprewardlist (afterequips cfg source data s).2

def afterprops (cfg : Config) (source : Option ℕ) (data : Award) (number : Option ℚ) (s : State) :
    Bool × State :=
  each (awardmaterials cfg source number) data.proprewardlist (afterbps cfg source data number s).2

/-- **`get_award` in its four parts.** -/
theorem get_award_eq : get_award cfg source data number s =
    if (afterequips cfg source data s).1 = false then (false, (afterequips cfg source data s).2)
    else if (afterbps cfg source data number s).1 = false then
      (false, (afterbps cfg source data number s).2)
    else if (afterprops cfg source data number s).1 = false then
      (false, (afterprops cfg source data number s).2)
    else if weld data.sponsorid then
      recorded source (.machine data.sponsorid)
        (add_machine data.sponsorid (afterprops cfg source data number s).2)
    else (true, (afterprops cfg source data number s).2) := by
  simp only [get_award, afterequips, afterbps, afterprops, Bool.not_eq_true']
  rfl

/-- What every part keeps, `get_award` keeps. -/
theorem get_award_rel {R : State → State → Prop} (hrefl : ∀ s, R s s)
    (htrans : ∀ {s t u}, R s t → R t u → R s u)
    (hequip : ∀ e ∈ data.equiplist, ∀ s, R s (addequip cfg source (weld data.sponsorid) e s).2)
    (hbp : ∀ b ∈ data.bprewardlist, ∀ s, R s (awardblueprint cfg source number b s).2)
    (hprop : ∀ p ∈ data.proprewardlist, ∀ s, R s (awardmaterials cfg source number p s).2)
    (hmachine : ∀ s, R s (recorded source (.machine data.sponsorid)
      (add_machine data.sponsorid s)).2) :
    R s (get_award cfg source data number s).2 := by
  have h1 : R s (afterequips cfg source data s).2 := each_rel hrefl htrans hequip
  have h2 : R s (afterbps cfg source data number s).2 := htrans h1 (each_rel hrefl htrans hbp)
  have h3 : R s (afterprops cfg source data number s).2 := htrans h2 (each_rel hrefl htrans hprop)
  rw [get_award_eq]
  split
  · exact h1
  · split
    · exact h2
    · split
      · exact h3
      · split
        · exact htrans h3 (hmachine _)
        · exact h3

theorem kept_get_award : Kept s (get_award cfg source data number s).2 :=
  get_award_rel Kept.refl Kept.trans (fun _ _ _ => kept_addequip)
    (fun _ _ _ => kept_recorded kept_addblueprint) (fun _ _ _ => kept_recorded kept_addmaterials)
    fun _ => kept_recorded kept_add_machine

/-- Without blueprints it leaves the lists alone. -/
theorem get_award_blueprint (h : data.bprewardlist = []) :
    (get_award cfg source data number s).2.blueprint = s.blueprint := by
  refine get_award_rel (R := fun s t => t.blueprint = s.blueprint) (fun _ => rfl)
    (fun h h' => h'.trans h) (fun e _ s => ?_) (fun b hb => ?_) (fun p _ s => ?_) fun s => ?_
  · unfold addequip
    split <;> rfl
  · rw [h] at hb
    cases hb
  · obtain ⟨m, hm⟩ := addmaterials_snd cfg s p.cfgid (part p.number number)
    rw [awardmaterials, recorded_blueprint, hm]
  · rw [recorded_blueprint]
    unfold add_machine
    split <;> rfl

/-! ## Success -/

theorem recorded_fst {g : Given} {r : Bool × State} : (recorded source g r).1 = r.1 := by
  unfold recorded
  split
  · rename_i h
    exact h.symm
  · rfl

theorem recorded_given {g : Given} {r : Bool × State} (h : r.2.given = s.given) :
    (recorded source g r).2.given = s.given ++ if r.1 then [(source, g)] else [] := by
  unfold recorded
  split
  · simp [State.give, h]
  · simpa using h

theorem givesOne_addequip (cfg : Config) (source : Option ℕ) (w : Bool) :
    GivesOne cfg source (addequip cfg source w) fun e => .equip e.type e.cfgid e.lv w where
  fst e s := by
    unfold addequip givable
    split
    · rename_i h
      exact h.symm
    · rename_i h
      simpa using h
  given e s := by
    unfold addequip givable
    split
    · rfl
    · simp

theorem addblueprint_fst {bpid : Str} {n : ℤ} {name : Option Str} :
    (addblueprint cfg bpid n name s).1 = hasblueprint cfg bpid := by
  unfold addblueprint hasblueprint
  split
  · rename_i h
    exact h.symm
  · rename_i h
    simpa using h

theorem addmaterials_fst {cfgid : Str} {n : ℤ} :
    (addmaterials cfg cfgid n s).1 = hasmaterial cfg cfgid n := by
  unfold addmaterials hasmaterial
  split
  · rename_i h
    simp [h]
  · rename_i h
    split
    · rename_i h0
      simp [h0]
    · rename_i h0
      split
      · rename_i hm
        simp [hm]
        omega
      · rename_i hm
        simp [h0, hm]

theorem givesOne_awardblueprint (cfg : Config) (source : Option ℕ) (number : Option ℚ) :
    GivesOne cfg source (awardblueprint cfg source number)
      fun b => .blueprint b.cfgid (part b.number number) b.name where
  fst b s := recorded_fst.trans addblueprint_fst
  given b s := by
    rw [awardblueprint, recorded_given (s := s), addblueprint_fst]
    · rfl
    · unfold addblueprint
      split <;> rfl

theorem givesOne_awardmaterials (cfg : Config) (source : Option ℕ) (number : Option ℚ) :
    GivesOne cfg source (awardmaterials cfg source number)
      fun p => .material p.cfgid (part p.number number) where
  fst p s := recorded_fst.trans addmaterials_fst
  given p s := by
    rw [awardmaterials, recorded_given (s := s), addmaterials_fst]
    · rfl
    · obtain ⟨m, hm⟩ := addmaterials_snd cfg s p.cfgid (part p.number number)
      rw [hm]

/-- **Everything an award has.** -/
def contents (data : Award) (number : Option ℚ) : List Given :=
  data.equiplist.map (fun e => .equip e.type e.cfgid e.lv (weld data.sponsorid)) ++
    (data.bprewardlist.map (fun b => .blueprint b.cfgid (part b.number number) b.name) ++
      (data.proprewardlist.map (fun p => .material p.cfgid (part p.number number)) ++
        if weld data.sponsorid then [.machine data.sponsorid] else []))

/-- Everything an award has can be given. -/
def awardable (cfg : Config) (data : Award) (number : Option ℚ) : Bool :=
  (contents data number).all (givable cfg)

/-- **`get_award` is one loop over everything an award has.** -/
theorem get_award_gives : (get_award cfg source data number s).1 = awardable cfg data number ∧
    (get_award cfg source data number s).2.given =
      s.given ++ upto cfg source (contents data number) := by
  obtain ⟨e1, e2⟩ := each_gives (s := s) (l := data.equiplist)
    (givesOne_addequip cfg source (weld data.sponsorid))
  obtain ⟨b1, b2⟩ := each_gives (s := (afterequips cfg source data s).2) (l := data.bprewardlist)
    (givesOne_awardblueprint cfg source number)
  obtain ⟨p1, p2⟩ := each_gives (s := (afterbps cfg source data number s).2)
    (l := data.proprewardlist)
    (givesOne_awardmaterials cfg source number)
  change (afterequips cfg source data s).1 = _ at e1
  change (afterequips cfg source data s).2.given = _ at e2
  change (afterbps cfg source data number s).1 = _ at b1
  change (afterbps cfg source data number s).2.given = _ at b2
  change (afterprops cfg source data number s).1 = _ at p1
  change (afterprops cfg source data number s).2.given = _ at p2
  rw [get_award_eq, awardable, contents]
  cases he : (afterequips cfg source data s).1 with
  | false =>
    rw [he] at e1
    rw [if_pos rfl, List.all_append, ← e1, upto_append_of_not e1.symm]
    exact ⟨rfl, e2⟩
  | true =>
    rw [he] at e1
    rw [upto_of_all e1.symm] at e2
    rw [e2] at b2
    rw [if_neg (by simp), List.all_append, ← e1, Bool.true_and, upto_append_of_all e1.symm]
    cases hb : (afterbps cfg source data number s).1 with
    | false =>
      rw [hb] at b1
      rw [if_pos rfl, List.all_append, ← b1, upto_append_of_not b1.symm, ← List.append_assoc]
      exact ⟨rfl, b2⟩
    | true =>
      rw [hb] at b1
      rw [upto_of_all b1.symm] at b2
      rw [b2] at p2
      rw [if_neg (by simp), List.all_append, ← b1, Bool.true_and, upto_append_of_all b1.symm]
      cases hp : (afterprops cfg source data number s).1 with
      | false =>
        rw [hp] at p1
        rw [if_pos rfl, List.all_append, ← p1, upto_append_of_not p1.symm]
        exact ⟨rfl, by simpa [List.append_assoc] using p2⟩
      | true =>
        rw [hp] at p1
        rw [upto_of_all p1.symm] at p2
        rw [if_neg (by simp), List.all_append, ← p1, Bool.true_and, upto_append_of_all p1.symm]
        have hmachine : (add_machine data.sponsorid
            (afterprops cfg source data number s).2).2.given =
            (afterprops cfg source data number s).2.given := by
          unfold add_machine
          split <;> rfl
        by_cases hw : weld data.sponsorid = true
        · rw [if_pos hw, if_pos hw, recorded_fst, recorded_given hmachine, p2]
          by_cases hlen : data.sponsorid.length = 18
          · simp [add_machine, hlen, givable, upto, List.append_assoc]
          · simp [add_machine, hlen, givable, upto, List.append_assoc]
        · rw [if_neg hw, if_neg hw, p2]
          simp [upto, List.append_assoc]

theorem get_award_fst (cfg : Config) (source : Option ℕ) (data : Award) (number : Option ℚ) (s : State) :
    (get_award cfg source data number s).1 = awardable cfg data number :=
  get_award_gives.1

/-- It gives a machine only where it succeeds. -/
theorem get_award_machines (h : awardable cfg data number = false) :
    (get_award cfg source data number s).2.machines = s.machines := by
  have hsame : ∀ s : State, s.machines = s.machines := fun _ => rfl
  have h1 : (afterequips cfg source data s).2.machines = s.machines := by
    refine each_rel (R := fun s t => t.machines = s.machines) hsame (fun h h' => h'.trans h)
      fun e _ s => ?_
    unfold addequip
    split <;> rfl
  have h2 : (afterbps cfg source data number s).2.machines = s.machines := by
    refine Eq.trans ?_ h1
    refine each_rel (R := fun s t => t.machines = s.machines) hsame (fun h h' => h'.trans h)
      fun b _ s => ?_
    rw [awardblueprint, recorded_machines]
    unfold addblueprint
    split <;> rfl
  have h3 : (afterprops cfg source data number s).2.machines = s.machines := by
    refine Eq.trans ?_ h2
    refine each_rel (R := fun s t => t.machines = s.machines) hsame (fun h h' => h'.trans h)
      fun p _ s => ?_
    obtain ⟨m, hm⟩ := addmaterials_snd cfg s p.cfgid (part p.number number)
    rw [awardmaterials, recorded_machines, hm]
  have hfst := get_award_fst cfg source data number s
  rw [h, get_award_eq] at hfst
  rw [get_award_eq]
  split
  · exact h1
  · rename_i he
    rw [if_neg he] at hfst
    split
    · exact h2
    · rename_i hb
      rw [if_neg hb] at hfst
      split
      · exact h3
      · rename_i hp
        rw [if_neg hp] at hfst
        split
        · rename_i hw
          rw [if_pos hw, recorded_fst] at hfst
          unfold recorded
          rw [if_neg (by simp [hfst])]
          unfold add_machine at hfst ⊢
          split
          · exact h3
          · rename_i hlen
            rw [if_neg hlen] at hfst
            cases hfst
        · rename_i hw
          rw [if_neg hw] at hfst
          cases hfst

/-! ## Receiving one award -/

/-- **What `receivescan` does**: it refuses, or asks for the award of a listed scan,
which is given or not. -/
theorem receivescan_split (cfg : Config) (s : State) (awardid : Option ℕ) :
    ((receivescan cfg s awardid).1 = s ∧ (receivescan cfg s awardid).2 ≠ some .success) ∨
    ∃ a award, awardid = some a ∧ s.awards a = some award ∧ a ∈ s.endscan ∧
      cfg.machinecfg award.sponsorid = true ∧
      (awardable cfg award none = false ∧
          receivescan cfg s awardid = ((get_award cfg (some a) award none s).2, some .cfgid_nofind) ∨
        awardable cfg award none = true ∧ receivescan cfg s awardid =
          ({ (get_award cfg (some a) award none s).2 with
              endscan := remove_array s.endscan a
              awards := Function.update (get_award cfg (some a) award none s).2.awards a none },
            some .success)) := by
  unfold receivescan
  split
  · exact Or.inl ⟨rfl, nofun⟩
  · rename_i a
    split
    · exact Or.inl ⟨rfl, nofun⟩
    · rename_i award ha
      split
      · exact Or.inl ⟨rfl, nofun⟩
      · rename_i hmem
        split
        · exact Or.inl ⟨rfl, nofun⟩
        · rename_i hcfg
          refine Or.inr ⟨a, award, rfl, ha, not_not.mp hmem, by simpa using hcfg, ?_⟩
          cases hgot : awardable cfg award none with
          | false =>
            simp only [get_award_fst, hgot, Bool.not_false, if_true]
            exact Or.inl ⟨trivial, trivial⟩
          | true =>
            simp only [get_award_fst, hgot, Bool.not_true, Bool.false_eq_true, if_false]
            exact Or.inr ⟨trivial, trivial⟩

/-- **What `receivecasting` does**: it refuses, or asks for the award of a listed
casting. Where that is given, the entry of the blueprint loses a copy; where there
is no blueprint it raises. -/
theorem receivecasting_split (cfg : Config) (s : State) (awardid : Option ℕ) :
    ((receivecasting cfg s awardid).1 = s ∧ (receivecasting cfg s awardid).2 ≠ some .success) ∨
    ∃ a award, awardid = some a ∧ s.awards a = some award ∧ a ∈ s.endcasting ∧
      machinefull s award = false ∧
      (awardable cfg award none = false ∧
          receivecasting cfg s awardid = ((get_award cfg (some a) award none s).2, some .cfgid_nofind) ∨
        awardable cfg award none = true ∧
          ((get_award cfg (some a) award none s).2.blueprint = none ∧
              receivecasting cfg s awardid = ((get_award cfg (some a) award none s).2, none) ∨
            ∃ l, (get_award cfg (some a) award none s).2.blueprint = some l ∧
              receivecasting cfg s awardid =
                ({ (get_award cfg (some a) award none s).2 with
                    blueprint := some (remblueprint l award.sponsorid a).2
                    endcasting := remove_array s.endcasting a
                    awards := Function.update (get_award cfg (some a) award none s).2.awards a none },
                  some .success))) := by
  unfold receivecasting
  split
  · exact Or.inl ⟨rfl, nofun⟩
  · rename_i a
    split
    · exact Or.inl ⟨rfl, nofun⟩
    · rename_i award ha
      split
      · exact Or.inl ⟨rfl, nofun⟩
      · rename_i hmem
        split
        · exact Or.inl ⟨rfl, nofun⟩
        · rename_i hfull
          refine Or.inr ⟨a, award, rfl, ha, not_not.mp hmem, by simpa using hfull, ?_⟩
          cases hgot : awardable cfg award none with
          | false =>
            simp only [get_award_fst, hgot, Bool.not_false, if_true]
            exact Or.inl ⟨trivial, trivial⟩
          | true =>
            simp only [get_award_fst, hgot, Bool.not_true, Bool.false_eq_true, if_false]
            refine Or.inr ⟨trivial, ?_⟩
            cases hl : (get_award cfg (some a) award none s).2.blueprint with
            | none => exact Or.inl ⟨rfl, rfl⟩
            | some l => exact Or.inr ⟨l, rfl, rfl⟩

end Scan

end Athena
