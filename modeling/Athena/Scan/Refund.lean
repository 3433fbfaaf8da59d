import Athena.Scan.Cost
import Athena.Scan.Fresh
/-!
# Blueprints — cost and refund

What a casting takes, what it gives back where it is cancelled, and what it grants when
it is done are computed in three places. They agree for one copy, and for parts that are
no equipment and share no material.
-/

namespace Athena

namespace Scan

open Lua (Str)
open Queue (Row Award BpReward PropReward EquipReward)

variable {cfg : Config} {s t u : State} {bpid id : Str} {n k : ℤ} {name : Option Str} {key b : ℕ}
  {d : Entry} {l : Lists} {info : List PropReward × List EquipReward × ℤ} {row : Row} {arr : List Entry}

/-! ## Casting -/

/-- **All but the materials is there**: the player owns the copies, a slot is free and
each part is in the table. -/
structure Admitted (cfg : Config) (s : State) (bpid : Str) (n : ℤ) (name : Option Str) (l : Lists)
    (key : ℕ) (d : Entry) : Prop where
  blueprint : s.blueprint = some l
  found : get_blueprint (some bpid) l.blueprintinfo (if bpid.length = 18 then name else none) none = some key
  entry : l.blueprintinfo[key]? = some d
  owned : n ≤ d.number
  free : s.ingcasting.length < s.maxcasting
  known : hasblueprint cfg bpid = true
  parts : strtoarr bpid ≠ []

theorem reward_strtoarr_eq (h : strtoarr bpid ≠ []) : reward_strtoarr bpid = strtoarr bpid := by
  unfold strtoarr at h ⊢
  split
  · rename_i hlt
    exact absurd (if_pos hlt) h
  · rfl

/-- The parts a casting is made of, and its time. -/
theorem getcastring_info_eq (h : strtoarr bpid ≠ []) (hknown : hasblueprint cfg bpid = true) :
    getcastring_info cfg bpid n = some ((strtoarr bpid).flatMap fun b => (castpart n b).1,
      (strtoarr bpid).flatMap fun b => (castpart n b).2,
      ⌊((strtoarr bpid).map fun b => (((cfg.blueprint b).map Blueprint.Cast_Time).getD 0) * (n : ℚ)).sum⌋) := by
  have hall : ((reward_strtoarr bpid).all fun b => (cfg.blueprint b).isSome) = true := by
    rw [reward_strtoarr_eq h]
    exact hknown
  simp only [getcastring_info, hall, if_true]
  rw [reward_strtoarr_eq h]

/-- **A casting hangs on the materials** where all else is there. -/
theorem casting_admitted (h : Admitted cfg s bpid n name l key d)
    (hinfo : getcastring_info cfg bpid n = some info) :
    casting cfg s (some bpid) (some n) name =
      if (castmaterials cfg bpid n).all fun x => matchmaterial s x.1 x.2 then
        (((castmaterials cfg bpid n).foldl (remmaterials cfg) s).cast (castrow cfg s.now bpid info)
          (casted s (castrow cfg s.now bpid info) key n l), some .success)
      else (s, some .res_notEnough) := by
  obtain ⟨m, hm⟩ := foldl_remmaterials_eq cfg s (castmaterials cfg bpid n)
  have hknown : ((strtoarr bpid).all fun b => (cfg.blueprint b).isSome) = true := h.known
  have hfree := h.free
  have howned := h.owned
  unfold casting
  simp only [Option.getD_some, h.blueprint, h.found, h.entry, hknown, hinfo]
  rw [if_neg (by omega), if_neg (by omega), if_neg (by simp)]
  by_cases hmat : ((castmaterials cfg bpid n).all fun x => matchmaterial s x.1 x.2) = true
  · rw [if_pos hmat]
    rw [castmaterials] at hmat hm ⊢
    rw [if_neg (by simp [hmat]), hm]
    rfl
  · rw [if_neg hmat]
    rw [castmaterials] at hmat
    rw [if_pos (by simpa using hmat)]

theorem cast_rows {m : Str → ℤ} :
    ({ s with materials := m }.cast row l).rows (s.bqid + 1) = some row := Function.update_self ..

/-- What a casting takes of a material. -/
def castcost (cfg : Config) (bpid : Str) (n : ℤ) (id : Str) : ℤ :=
  compounded n 0 (amounts id (partmaterials cfg bpid))

/-- **The materials of a casting**: each is listed once, with what is taken of it. -/
theorem castmaterials_spec (h : Stocked cfg) (hn : 1 ≤ n) (bpid : Str) :
    ((castmaterials cfg bpid n).map Prod.fst).Nodup ∧
      (∀ x ∈ castmaterials cfg bpid n, x.2 = castcost cfg bpid n x.1 ∧ 0 < x.2 ∧ cfg.material x.1 = true ∧
        ∃ y ∈ partmaterials cfg bpid, y.2 = x.1) ∧
      (∀ y ∈ partmaterials cfg bpid, (y.2, castcost cfg bpid n y.2) ∈ castmaterials cfg bpid n) ∧
      ∀ id, under (castmaterials cfg bpid n) id = castcost cfg bpid n id := by
  have hpart := h.partmaterials bpid
  obtain ⟨hnodup, hkeys, hunder⟩ := mateinfo_spec n (partmaterials cfg bpid) [] List.nodup_nil
  change ((castmaterials cfg bpid n).map Prod.fst).Nodup at hnodup
  have hunder : ∀ id, under (castmaterials cfg bpid n) id = castcost cfg bpid n id := hunder
  have hkeys : ∀ id, id ∈ (castmaterials cfg bpid n).map Prod.fst ↔
      id ∈ (partmaterials cfg bpid).map Prod.snd := fun id => (hkeys id).trans (by simp)
  refine ⟨hnodup, fun x hx => ?_, fun y hy => ?_, hunder⟩
  · obtain ⟨y, hy, hyx⟩ := List.mem_map.mp ((hkeys x.1).mp (List.mem_map_of_mem hx))
    have hvalue : x.2 = castcost cfg bpid n x.1 := by
      rw [← hunder, under_of_mem hnodup hx]
    have hpos := amounts_pos x.1 fun x hx => (hpart x hx).1
    have hmem : y.1 ∈ amounts x.1 (partmaterials cfg bpid) := mem_amounts.mpr (hyx ▸ hy)
    have hsum : 0 < (amounts x.1 (partmaterials cfg bpid)).sum :=
      List.sum_pos _ hpos (List.ne_nil_of_mem hmem)
    have hle := compounded_le hn le_rfl hpos
    have hmul : 0 < n * (amounts x.1 (partmaterials cfg bpid)).sum := mul_pos (by omega) hsum
    refine ⟨hvalue, ?_, hyx ▸ (hpart y hy).2, y, hy, hyx⟩
    rw [hvalue, castcost]
    omega
  · obtain ⟨x, hx, hxy⟩ := List.mem_map.mp ((hkeys y.2).mpr (List.mem_map_of_mem hy))
    rw [← hxy, ← hunder, under_of_mem hnodup hx]
    exact hx

/-- The checks pass where all that is taken is there. -/
theorem castmaterials_match (h : Stocked cfg) (hn : 1 ≤ n) (s : State) (bpid : Str) :
    ((castmaterials cfg bpid n).all fun x => matchmaterial s x.1 x.2) = true ↔
      ∀ y ∈ partmaterials cfg bpid, castcost cfg bpid n y.2 ≤ s.materials y.2 := by
  obtain ⟨-, hmem, hpart, -⟩ := castmaterials_spec h hn bpid
  rw [List.all_eq_true]
  have hmatch : ∀ x ∈ castmaterials cfg bpid n, matchmaterial s x.1 x.2 = true ↔ x.2 ≤ s.materials x.1 := by
    intro x hx
    have hpos := (hmem x hx).2.1
    rw [matchmaterial, if_neg (by omega), if_neg (by omega), decide_eq_true_eq]
  constructor
  · intro hall y hy
    exact (hmatch _ (hpart y hy)).mp (hall _ (hpart y hy))
  · intro hall x hx
    obtain ⟨hvalue, -, -, y, hy, hyx⟩ := hmem x hx
    rw [hmatch x hx, hvalue, ← hyx]
    exact hall y hy

/-- **What the code takes is what the copies need** for one copy, or where no material
is in two places. -/
theorem castcost_eq_iff (h : Stocked cfg) (hn : 1 ≤ n) (bpid : Str) :
    (∀ id, castcost cfg bpid n id = n * percopy cfg bpid id) ↔
      n = 1 ∨ ((partmaterials cfg bpid).map Prod.snd).Nodup := by
  have hpos : ∀ id, ∀ a ∈ amounts id (partmaterials cfg bpid), 0 < a := fun id =>
    amounts_pos id fun x hx => (h.partmaterials bpid x hx).1
  rw [nodup_iff_amounts]
  constructor
  · intro heq
    by_cases hone : n = 1
    · exact Or.inl hone
    · exact Or.inr fun id => ((compounded_eq_iff hn (hpos id)).mp (heq id)).resolve_left hone
  · rintro hor id
    exact (compounded_eq_iff hn (hpos id)).mpr (hor.imp_right fun hall => hall id)

theorem percopy_le_castcost (h : Stocked cfg) (hn : 1 ≤ n) (bpid id : Str) :
    n * percopy cfg bpid id ≤ castcost cfg bpid n id := by
  have hle := compounded_le hn le_rfl (amounts_pos id fun x hx => (h.partmaterials bpid x hx).1)
  rw [zero_add] at hle
  exact hle

/-! ## Copies with a name -/

/-- The copies of a blueprint with a name. -/
def copiesof (id : Str) (name : Option Str) (l : List Entry) : ℤ :=
  tally (fun e => if e.id = id ∧ e.name = name then e.number else 0) l

theorem copiesof_addnumber {name' : Option Str} (h : arr[key]? = some d) :
    copiesof id name' (addnumber arr key n) =
      copiesof id name' arr + if d.id = id ∧ d.name = name' then n else 0 := by
  have hmod := tally_modify (f := fun e : Entry => if e.id = id ∧ e.name = name' then e.number else 0)
    (g := fun e : Entry => { e with number := e.number + n }) h
  rw [addnumber, copiesof, copiesof]
  simp only at hmod
  split at hmod <;> rename_i hd
  · rw [if_pos hd]
    omega
  · rw [if_neg hd]
    omega

theorem copiesof_change_blueprint {id' : Str} {name' : Option Str} :
    copiesof id' name' (change_blueprint id name arr n .normal) =
      copiesof id' name' arr + if id = id' ∧ name = name' then n else 0 := by
  unfold change_blueprint
  split
  · simp [copiesof, Into.entry]
  · rename_i key hkey
    obtain ⟨e, he, rfl, rfl⟩ := get_blueprint_id hkey
    exact copiesof_addnumber he

theorem copiesof_remove_number {name' : Option Str} (h : arr[key]? = some d) (hn : n ≤ d.number) :
    copiesof id name' (remove_number arr key n) =
      copiesof id name' arr - if d.id = id ∧ d.name = name' then n else 0 := by
  rw [remove_number_eq h hn]
  split
  · rw [copiesof_addnumber h]
    split <;> omega
  · have herase := tally_eraseIdx (f := fun e : Entry => if e.id = id ∧ e.name = name' then e.number else 0) h
    rw [copiesof, copiesof]
    split at herase <;> rename_i hd
    · rw [if_pos hd]
      omega
    · rw [if_neg hd]
      omega

/-! ## Materials that awards give -/

/-- What was given of a material. -/
def granted (l : List (Option ℕ × Given)) (id : Str) : ℤ :=
  tally (fun x => match x.2 with
    | .material cfgid n => if cfgid = id then n else 0
    | _ => 0) l

/-- The materials of a player but for what was given. -/
def balance (s : State) (id : Str) : ℤ := s.materials id - granted s.given id

theorem balance_give {source : Option ℕ} {g : Given} (hg : granted [(source, g)] id = 0) :
    balance (s.give source g) id = balance s id := by
  simp only [balance, State.give]
  rw [granted, tally_append]
  rw [granted] at hg
  rw [hg, add_zero, granted]

theorem balance_recorded {source : Option ℕ} {g : Given} {r : Bool × State}
    (hg : granted [(source, g)] id = 0) (hr : balance r.2 id = balance s id) :
    balance (recorded source g r).2 id = balance s id := by
  unfold recorded
  split
  · rw [balance_give hg, hr]
  · exact hr

/-- **Awards give what they record.** -/
theorem balance_get_award {source : Option ℕ} {data : Award} {number : Option ℚ} (id : Str) :
    balance (get_award cfg source data number s).2 id = balance s id := by
  refine get_award_rel (R := fun s t => balance t id = balance s id) (fun _ => rfl)
    (fun h h' => h'.trans h) (fun e _ s => ?_) (fun b _ s => ?_) (fun p _ s => ?_) fun s => ?_
  · unfold addequip
    split
    · exact balance_give (by simp [granted])
    · rfl
  · refine balance_recorded (by simp [granted]) ?_
    unfold addblueprint
    split <;> rfl
  · rw [awardmaterials, recorded]
    obtain ⟨n, hn⟩ : ∃ n, part p.number number = n := ⟨_, rfl⟩
    rw [hn]
    unfold addmaterials
    split
    · rfl
    · split
      · rename_i hzero
        rw [if_pos rfl]
        exact balance_give (by simp [granted, hzero])
      · split
        · rw [if_pos rfl]
          simp only [balance, State.give, granted, tally_append, tally_cons, tally_nil]
          by_cases hid : p.cfgid = id
          · rw [hid, Function.update_self, if_pos rfl]
            omega
          · rw [Function.update_of_ne (fun h => hid h.symm), if_neg hid]
            omega
        · rfl
  · refine balance_recorded (by simp [granted]) ?_
    unfold add_machine
    split <;> rfl

/-- The lists of a player stay there. -/
theorem get_award_isSome {source : Option ℕ} {data : Award} {number : Option ℚ} (h : s.blueprint.isSome = true) :
    (get_award cfg source data number s).2.blueprint.isSome = true := by
  refine get_award_rel (R := fun s t => s.blueprint.isSome = true → t.blueprint.isSome = true) (fun _ => id)
    (fun h h' => h' ∘ h) (fun e _ s hs => ?_) (fun b _ s hs => ?_) (fun p _ s hs => ?_) (fun s hs => ?_) h
  · unfold addequip
    split <;> exact hs
  · rw [awardblueprint, recorded_blueprint]
    unfold addblueprint
    split
    · rfl
    · exact hs
  · obtain ⟨m, hm⟩ := addmaterials_snd cfg s p.cfgid (part p.number number)
    rw [awardmaterials, recorded_blueprint, hm]
    exact hs
  · rw [recorded_blueprint]
    unfold add_machine
    split <;> exact hs

/-! ## Cancelling -/

/-- A casting that is found by `cancelcasting`. -/
structure Found (s : State) (b : ℕ) (row : Row) (l : Lists) (key : ℕ) (d : Entry) (begintime endtime : ℤ) :
    Prop where
  rows : s.rows b = some row
  lists : s.blueprint = some l
  running : b ∈ s.ingcasting
  found : get_blueprint none l.blueprinting none (some b) = some key
  entry : l.blueprinting[key]? = some d
  begins : d.begintime = some begintime
  ends : d.endtime = some endtime
  started : begintime ≤ s.now
  positive : 0 < d.number

/-- `k` copies of a casting are given back: their materials, besides what is given for the
others, and the copies. -/
def Gives (cfg : Config) (s : State) (b : ℕ) (row : Row) (l : Lists) (d : Entry) (k : ℤ) : Prop :=
  (∀ id, (cancelcasting cfg s (some b)).1.materials id = s.materials id + k * percopy cfg row.sponsorid id +
    (granted (cancelcasting cfg s (some b)).1.given id - granted s.given id)) ∧
  ∀ id name, copiesof id name (cancelcasting cfg s (some b)).1.lists.blueprintinfo =
    copiesof id name l.blueprintinfo + if d.id = id ∧ d.name = name then k else 0

/-- **What a cancelled casting gives back** are the copies that are not finished. -/
def Refunds (cfg : Config) (s : State) (b : ℕ) : Prop :=
  ∀ row l key d begintime endtime, Found s b row l key d begintime endtime →
    (cancelcasting cfg s (some b)).2 = some .success →
    Gives cfg s b row l d (unfinished s.now begintime endtime d.number)

/-- **Doubles do not miss how many copies are left** of a casting that may be cancelled. -/
def Tells (cfg : Config) (s : State) (b : ℕ) : Prop :=
  ∀ row l key d begintime endtime k, Found s b row l key d begintime endtime →
    row.playerid = cfg.uid → hasblueprint cfg row.sponsorid = true →
    notfinishnum s.now begintime endtime d.number = some k →
    (k < d.number → awardable cfg (row.award 0) (some (finishedshare d.number k)) = true) →
    k = unfinished s.now begintime endtime d.number

/-- The award of the copies that are finished. -/
def finishedaward (cfg : Config) (s : State) (row : Row) (d : Entry) (k : ℤ) : Bool × State :=
  if k < d.number then
    get_award cfg none (row.award 0) (some (finishedshare d.number k)) s
  else (true, s)

/-- A casting is not under way any more. -/
def State.dequeue (s : State) (b : ℕ) : State :=
  { s with ingcasting := s.ingcasting.erase b, rows := Function.update s.rows b none }

/-- **A cancelled casting** whose entry is found. -/
theorem cancelcasting_found {begintime endtime : ℤ} (hfound : Found s b row l key d begintime endtime)
    (hplayer : row.playerid = cfg.uid) (hk : notfinishnum s.now begintime endtime d.number = some k) :
    cancelcasting cfg s (some b) =
      if !(finishedaward cfg s row d k).1 then ((finishedaward cfg s row d k).2, some .cfgid_nofind)
      else
        cancelled cfg ((finishedaward cfg s row d k).2.dequeue b) row.sponsorid k (removeto_blueprint key k l.blueprinting l.blueprintinfo .normal).2
          (remove_number (removeto_blueprint key k l.blueprinting l.blueprintinfo .normal).1 key
            (d.number - k)) := by
  simp only [cancelcasting, hfound.rows, hplayer, ne_eq, not_true_eq_false, if_false, hfound.lists,
    hfound.running, if_true, hfound.found, hfound.entry, cancelentry, hfound.begins, hfound.ends, hk]
  rfl

/-- What is given back and written where a casting is cancelled. -/
theorem cancelled_spec (h : Stocked cfg) (hk : 0 ≤ k) {info ing : List Entry} (hl : s.blueprint.isSome = true)
    (hdone : (cancelled cfg s bpid k info ing).2 = some .success) :
    (∀ id, (cancelled cfg s bpid k info ing).1.materials id = s.materials id + k * percopy cfg bpid id) ∧
      (cancelled cfg s bpid k info ing).1.given = s.given ∧
      (cancelled cfg s bpid k info ing).1.lists.blueprintinfo = info ∧
      (cancelled cfg s bpid k info ing).1.lists.blueprinting = ing := by
  obtain ⟨l, hl⟩ := Option.isSome_iff_exists.mp hl
  unfold cancelled at hdone ⊢
  split
  · rename_i hno
    rw [if_pos hno] at hdone
    cases hdone
  · obtain ⟨m, hm⟩ := returnmaterials_eq cfg k bpid s
    have hback : ∀ id, (returnmaterials cfg k bpid s).materials id =
        s.materials id + k * percopy cfg bpid id :=
      foldl_returnmaterials hk (h.partmaterials bpid)
    simp only [hm] at hback ⊢
    refine ⟨hback, trivial, ?_, ?_⟩
    · simp [State.lists, hl]
    · simp [State.lists, hl]

/-- The share of a time that is left is not negative. -/
theorem notfinishnum_nonneg {now begintime endtime : ℤ} (hnow : begintime ≤ now) (hn : 0 < n)
    (hk : notfinishnum now begintime endtime n = some k) : 0 ≤ k := by
  unfold notfinishnum at hk
  split at hk
  · cases hk
  · have hleft : 0 ≤ Lua.double (max 0 (endtime - now) : ℤ) / Lua.double (endtime - begintime : ℤ) := by
      rcases Int.lt_or_le now endtime with hend | hend
      · exact div_nonneg (Lua.double_nonneg (by exact_mod_cast le_max_left _ _))
          (Lua.double_nonneg (by exact_mod_cast (by omega : 0 ≤ endtime - begintime)))
      · rw [max_eq_left (by omega), Int.cast_zero, Lua.double_zero, zero_div]
    have hnumber : (0 : ℚ) ≤ Lua.double n := Lua.double_nonneg (by exact_mod_cast hn.le)
    cases hk
    exact Int.ceil_nonneg (Lua.double_nonneg (mul_nonneg (Lua.double_nonneg hleft) hnumber))

/-- **A casting that is cancelled** gives back the copies that the code finds left. -/
theorem gives_of_success {begintime endtime : ℤ} (h : Stocked cfg)
    (hfound : Found s b row l key d begintime endtime)
    (hk : notfinishnum s.now begintime endtime d.number = some k)
    (hdone : (cancelcasting cfg s (some b)).2 = some .success) : Gives cfg s b row l d k := by
  have hk0 := notfinishnum_nonneg hfound.started hfound.positive hk
  by_cases hplayer : row.playerid = cfg.uid
  · rw [Gives, cancelcasting_found hfound hplayer hk] at *
    obtain ⟨got, hgot⟩ : ∃ got, finishedaward cfg s row d k = got := ⟨_, rfl⟩
    have hsome : got.2.blueprint.isSome = true := by
      rw [← hgot, finishedaward]
      split
      · exact get_award_isSome (by rw [hfound.lists]; rfl)
      · rw [hfound.lists]
        rfl
    have hbalance : ∀ id, balance got.2 id = balance s id := by
      intro id
      rw [← hgot, finishedaward]
      split
      · exact balance_get_award id
      · rfl
    rw [hgot] at hdone ⊢
    cases hok : got.1 with
    | false =>
      rw [hok] at hdone
      simp at hdone
    | true =>
      rw [hok] at hdone
      simp only [Bool.not_true, Bool.false_eq_true, if_false] at hdone ⊢
      obtain ⟨hmat, hgiven, hinfo, -⟩ := cancelled_spec (s := got.2.dequeue b) h hk0 hsome hdone
      refine ⟨fun id => ?_, fun id name => ?_⟩
      · have hsame := hbalance id
        rw [hmat, hgiven]
        simp only [balance, State.dequeue] at hsame ⊢
        omega
      · rw [hinfo]
        simp only [removeto_blueprint, hfound.entry]
        exact copiesof_change_blueprint
  · have hfail : (cancelcasting cfg s (some b)).2 = some .err_param := by
      simp only [cancelcasting, hfound.rows, ne_eq, hplayer, not_false_eq_true, if_true]
    rw [hfail] at hdone
    cases hdone

/-- **When a casting is cancelled with success.** -/
theorem cancelcasting_success_iff {begintime endtime : ℤ} (hfound : Found s b row l key d begintime endtime) :
    (cancelcasting cfg s (some b)).2 = some .success ↔
      row.playerid = cfg.uid ∧ hasblueprint cfg row.sponsorid = true ∧
        ∃ k, notfinishnum s.now begintime endtime d.number = some k ∧
          (k < d.number → awardable cfg (row.award 0) (some (finishedshare d.number k)) = true) := by
  by_cases hplayer : row.playerid = cfg.uid
  · cases hk : notfinishnum s.now begintime endtime d.number with
    | none =>
      have hfail : (cancelcasting cfg s (some b)).2 = none := by
        simp only [cancelcasting, hfound.rows, hplayer, ne_eq, not_true_eq_false, if_false, hfound.lists,
          hfound.running, if_true, hfound.found, hfound.entry, cancelentry, hfound.begins,
          hfound.ends, hk]
      rw [hfail]
      simp
    | some k =>
      have haward : (finishedaward cfg s row d k).1 = true ↔
          (k < d.number → awardable cfg (row.award 0) (some (finishedshare d.number k)) = true) := by
        unfold finishedaward
        split
        · rename_i hlt
          rw [get_award_fst]
          exact ⟨fun h _ => h, fun h => h hlt⟩
        · rename_i hge
          exact ⟨fun _ h => absurd h hge, fun _ => rfl⟩
      rw [cancelcasting_found hfound hplayer hk]
      simp only [hplayer, true_and, Option.some.injEq, exists_eq_left', ← haward]
      cases hok : (finishedaward cfg s row d k).1 with
      | false => simp
      | true =>
        simp only [Bool.not_true, Bool.false_eq_true, if_false, and_true, cancelled]
        change (if (!hasblueprint cfg row.sponsorid) = true then _ else _ : State × Reply).2 = _ ↔ _
        cases hasblueprint cfg row.sponsorid with
        | false => simp
        | true => simp
  · have hfail : (cancelcasting cfg s (some b)).2 = some .err_param := by
      simp only [cancelcasting, hfound.rows, ne_eq, hplayer, not_false_eq_true, if_true]
    rw [hfail]
    simp [hplayer]

/-- **A cancelled casting gives back the copies that are not finished** just where doubles
do not miss how many these are. -/
theorem refunds_iff (h : Stocked cfg) (s : State) (b : ℕ) : Refunds cfg s b ↔ Tells cfg s b := by
  constructor
  · intro hrefunds row l key d begintime endtime k hfound hplayer hknown hk haward
    have hdone := (cancelcasting_success_iff hfound).mpr ⟨hplayer, hknown, k, hk, haward⟩
    have hcode := (gives_of_success h hfound hk hdone).2 d.id d.name
    have hright := (hrefunds row l key d begintime endtime hfound hdone).2 d.id d.name
    rw [if_pos ⟨rfl, rfl⟩] at hcode hright
    omega
  · intro htells row l key d begintime endtime hfound hdone
    obtain ⟨hplayer, hknown, k, hk, haward⟩ := (cancelcasting_success_iff hfound).mp hdone
    rw [← htells row l key d begintime endtime k hfound hplayer hknown hk haward]
    exact gives_of_success h hfound hk hdone

/-! ## There and back -/

/-- What is made of a number of copies, by doubles, when none of them is finished. -/
def counted (n : ℤ) : ℤ := ⌈Lua.double (Lua.double n)⌉

theorem counted_eq (h₁ : 0 ≤ n) (h₂ : n ≤ 2 ^ 53) : counted n = n := by
  rw [counted, Lua.double_intCast (by omega) h₂, Lua.double_intCast (by omega) h₂, Int.ceil_intCast]

/-- Nothing of a casting is finished when it begins. -/
theorem notfinishnum_start {begintime endtime : ℤ} (h : begintime < endtime) :
    notfinishnum begintime begintime endtime n = some (counted n) := by
  have hmax : max 0 (endtime - begintime) = endtime - begintime := by omega
  have hone : (1 : ℚ) ≤ Lua.double (endtime - begintime : ℤ) :=
    Lua.one_le_double (by exact_mod_cast (by omega : 1 ≤ endtime - begintime))
  have hleft : Lua.double 1 = 1 := Lua.double_intCast (n := 1) (by omega) (by omega)
  rw [notfinishnum, if_neg h.ne', hmax, div_self (by linarith), hleft]
  simp only [one_mul, counted]

/-- A casting takes some time. -/
theorem casttime_pos (h : Stocked cfg) (hn : 1 ≤ n) (hparts : strtoarr bpid ≠ [])
    (hknown : hasblueprint cfg bpid = true) : 1 ≤ ⌊((strtoarr bpid).map fun b =>
      (((cfg.blueprint b).map Blueprint.Cast_Time).getD 0) * (n : ℚ)).sum⌋ := by
  have hnq : (1 : ℚ) ≤ n := by exact_mod_cast hn
  have hone : ∀ b ∈ strtoarr bpid,
      (1 : ℚ) ≤ (((cfg.blueprint b).map Blueprint.Cast_Time).getD 0) * (n : ℚ) := by
    intro b hb
    obtain ⟨row, hrow⟩ := Option.isSome_iff_exists.mp (List.all_eq_true.mp hknown b hb)
    rw [hrow, Option.map_some, Option.getD_some]
    exact one_le_mul_of_one_le_of_one_le (h.time b row hrow) hnq
  rw [Int.le_floor, Int.cast_one]
  obtain ⟨b, arr, harr⟩ := List.exists_cons_of_ne_nil hparts
  rw [harr] at hone ⊢
  have hrest : (0 : ℚ) ≤ (arr.map fun b =>
      (((cfg.blueprint b).map Blueprint.Cast_Time).getD 0) * (n : ℚ)).sum := by
    refine List.sum_nonneg fun x hx => ?_
    obtain ⟨c, hc, rfl⟩ := List.mem_map.mp hx
    exact zero_le_one.trans (hone c (List.mem_cons_of_mem b hc))
  have hfirst := hone b List.mem_cons_self
  rw [List.map_cons, List.sum_cons]
  linarith only [hrest, hfirst]

/-- **As it was before the casting.** -/
structure Restored (s t : State) : Prop where
  materials : t.materials = s.materials
  blueprintinfo : ∀ id name, copiesof id name t.lists.blueprintinfo = copiesof id name s.lists.blueprintinfo
  blueprinting : t.lists.blueprinting = s.lists.blueprinting

theorem remove_number_last (h : d.number = n) :
    remove_number (remove_number (arr ++ [d]) arr.length n) arr.length (d.number - n) = arr := by
  have hget : (arr ++ [d])[arr.length]? = some d := by simp
  have hgone : remove_number (arr ++ [d]) arr.length n = arr := by
    rw [remove_number_eq hget h.ge, if_neg (by omega)]
    simp [List.eraseIdx_append_of_length_le]
  rw [hgone, remove_number]
  simp

/-- The entry a casting gets. -/
def castentry (s : State) (d : Entry) (n : ℤ) (info : List PropReward × List EquipReward × ℤ) : Entry :=
  (Into.casting (s.bqid + 1) s.now (s.now + info.2.2)).entry d.id n d.name

/-- The lists after it. -/
def castlists (s : State) (l : Lists) (key : ℕ) (d : Entry) (n : ℤ)
    (info : List PropReward × List EquipReward × ℤ) : Lists :=
  { l with
    blueprintinfo := remove_number l.blueprintinfo key n
    blueprinting := l.blueprinting ++ [castentry s d n info] }

/-- The player after it, with some materials. -/
def castout (cfg : Config) (s : State) (bpid : Str) (l : Lists) (key : ℕ) (n : ℤ)
    (info : List PropReward × List EquipReward × ℤ) (m : Str → ℤ) : State :=
  { s with materials := m }.cast (castrow cfg s.now bpid info) (casted s (castrow cfg s.now bpid info) key n l)

/-- **A casting is found** under the id it got. -/
theorem casted_found (h : Admitted cfg s bpid n name l key d) (hfresh : Fresh s) (hn : 0 < n)
    (info : List PropReward × List EquipReward × ℤ) (m : Str → ℤ) :
    Found (castout cfg s bpid l key n info m) (s.bqid + 1) (castrow cfg s.now bpid info)
      (castlists s l key d n info) l.blueprinting.length (castentry s d n info) s.now (s.now + info.2.2) := by
  have hls := lists_of_blueprint h.blueprint
  -- the queue id is new: the casting got an entry of its own, the last one
  have hnone : get_blueprint (some d.id) l.blueprinting d.name (some (s.bqid + 1)) = none := by
    by_contra hsome
    obtain ⟨j, hj⟩ := Option.ne_none_iff_exists'.mp hsome
    obtain ⟨c, hc, hcb⟩ := get_blueprint_some hj
    obtain ⟨haward, hle⟩ := hfresh c (hls ▸ List.mem_of_getElem? hc)
    rcases hcb with hcb | hcb
    · have := hle _ hcb
      omega
    · rw [haward] at hcb
      cases hcb
  have hlists : casted s (castrow cfg s.now bpid info) key n l = castlists s l key d n info := by
    simp only [casted, removeto_blueprint, h.entry, change_blueprint, Into.tab, hnone]
    rfl
  have hkey : get_blueprint none (l.blueprinting ++ [castentry s d n info]) none (some (s.bqid + 1)) =
      some l.blueprinting.length := by
    have hold : l.blueprinting.findIdx? (fun e => e.bqid = some (s.bqid + 1) ∨ e.awardid = some (s.bqid + 1)) =
        none := by
      have := hnone
      simpa only [get_blueprint] using this
    simp only [get_blueprint, List.findIdx?_append, hold]
    have hbq : (castentry s d n info).bqid = some (s.bqid + 1) := rfl
    simp [hbq]
  exact {
    rows := cast_rows
    lists := congrArg some hlists
    running := List.mem_append_right _ List.mem_cons_self
    found := hkey
    entry := by simp [castlists]
    begins := rfl
    ends := rfl
    started := le_rfl
    positive := hn }

/-- **A casting that is cancelled at once** has all its copies left, as far as doubles
have their number. -/
theorem cancelcasting_casted (h : Admitted cfg s bpid n name l key d) (hfresh : Fresh s) (hn : 0 < n)
    (hcounted : counted n = n) (info : List PropReward × List EquipReward × ℤ) (htime : 0 < info.2.2)
    (m : Str → ℤ) : cancelcasting cfg (castout cfg s bpid l key n info m) (some (s.bqid + 1)) =
      cancelled cfg ((castout cfg s bpid l key n info m).dequeue (s.bqid + 1)) bpid n
        (change_blueprint d.id d.name (remove_number l.blueprintinfo key n) n .normal) l.blueprinting := by
  have hfound := casted_found h hfresh hn info m
  -- no time has passed, so no copy counts as finished
  have hleft : notfinishnum (castout cfg s bpid l key n info m).now s.now (s.now + info.2.2)
      (castentry s d n info).number = some n := by
    have hstart := notfinishnum_start (n := n) (by omega : s.now < s.now + info.2.2)
    rw [hcounted] at hstart
    exact hstart
  have hdone : finishedaward cfg (castout cfg s bpid l key n info m) (castrow cfg s.now bpid info)
      (castentry s d n info) n = (true, castout cfg s bpid l key n info m) :=
    if_neg (lt_irrefl n)
  have hback : removeto_blueprint l.blueprinting.length n (castlists s l key d n info).blueprinting
      (castlists s l key d n info).blueprintinfo .normal =
      (remove_number (l.blueprinting ++ [castentry s d n info]) l.blueprinting.length n,
        change_blueprint d.id d.name (remove_number l.blueprintinfo key n) n .normal) := by
    have hentry := hfound.entry
    simp only [removeto_blueprint, hentry]
    rfl
  have hnumber : (castentry s d n info).number = n := rfl
  have hgone : remove_number (remove_number (l.blueprinting ++ [castentry s d n info]) l.blueprinting.length n)
      l.blueprinting.length (n - n) = l.blueprinting := remove_number_last hnumber
  rw [cancelcasting_found hfound rfl hleft, hdone]
  simp only [Bool.not_true, Bool.false_eq_true, if_false, hback, hnumber, hgone]
  rfl

end Scan

end Athena
