import Athena.Warehouse.Addequip
import Mathlib.Algebra.Order.BigOperators.Group.List
/-!
# The warehouse — what addequip leaves

A round of the loop makes a row under a new id, and the list it stores is the old one
with its own id: after the loop, the last one is listed. The collection is never what
it should be: the pieces of its own text come into it as entries, and together they
are longer than all the texts that were entries before.
-/

namespace Athena

namespace Warehouse

open Lua (Str Value splitComma join jsonString jsonArray ink)

variable {cfg : EquipConfig} {s t : EquipState} {part p : Part} {cfgid : Int64} {lv newlv oldlv : ℤ}
  {lock : Bool} {hangardc row : Str → Option Str} {n id : ℕ} {entries : List Collected}
  {collection : Part → List Collected}

/-- An entry of an equipment. -/
def isof (cfgid : Int64) : Collected → Bool
  | .equip c _ => c = .num (.int cfgid)
  | .text _ => false

/-- The rows under some ids are new, and no others change. -/
structure Created (cfg : EquipConfig) (s t : EquipState) (part : Part) (cfgid : Int64) (lv : ℤ)
    (ids : List ℕ) : Prop where
  fresh : ∀ id ∈ ids, s.equipment part id = none
  created : ∀ id ∈ ids, ∃ row, t.equipment part id = some row ∧ row.cfgid = cfgid ∧ row.lv = lv ∧
    row.playerid = cfg.uid
  frame : ∀ p id, p ≠ part ∨ id ∉ ids → t.equipment p id = s.equipment p id

/-- The ids are appended to the list of new equipments. -/
def Listed (s t : EquipState) (part : Part) (ids : List ℕ) : Prop :=
  ∃ row row', s.hangar = some row ∧ t.hangar = some row' ∧
    Queue.split (row' part.partname) = Queue.split (row part.partname) ++ ids.map Queue.text

/-- **The equipment is collected once**, with the greatest level that was seen, and all
other entries stay. -/
structure CollectedOnce (before after : List Collected) (cfgid : Int64) (lv : ℤ) : Prop where
  once : after.filter (isof cfgid) =
    [.equip (.num (.int cfgid)) (((before.filter (isof cfgid)).map Collected.maxlv).foldl max lv)]
  others : (after.filter fun x => !isof cfgid x).Perm (before.filter fun x => !isof cfgid x)

/-- **What `addequip` is for.** -/
structure Granted (cfg : EquipConfig) (s : EquipState) (out : EquipState × Option Bool) (part : Part)
    (cfgid : Int64) (lv : ℤ) (n : ℕ) : Prop where
  answered : out.2 = some true
  made : ∃ ids : List ℕ, ids.length = n ∧ ids.Nodup ∧ Created cfg s out.1 part cfgid lv ids ∧
    Listed s out.1 part ids
  collected : ∃ before after, s.collection = some before ∧ out.1.collection = some after ∧
    CollectedOnce (before part) (after part) cfgid lv

/-! ## The collection -/

theorem grants_collection (cfg : EquipConfig) (part : Part) (cfgid : Int64) (lv : ℤ) (lock : Bool)
    (hangardc : Str → Option Str) (n : ℕ) (s : EquipState) :
    (grants cfg part cfgid lv lock hangardc n s).1.collection = s.collection := by
  have hgrant : ∀ s, (grant cfg part cfgid lv lock hangardc s).1.collection = s.collection := by
    intro s
    unfold grant EquipState.add
    simp only
    split
    · rfl
    · split <;> rfl
  induction n generalizing s with
  | zero => rfl
  | succ n ih =>
    unfold grants
    split
    · rename_i t h
      rw [← hgrant s, h]
    · rename_i t h
      rw [ih, ← hgrant s, h]

/-- Entries that are raised stay what they are of. -/
theorem filter_modify_raise (i : ℕ) (h : ∀ x, entries[i]? = some x → isof cfgid x = true) :
    (entries.modify i (Collected.raise newlv)).filter (fun x => !isof cfgid x) =
      entries.filter fun x => !isof cfgid x := by
  have hraise : ∀ x, isof cfgid (x.raise newlv) = isof cfgid x := by
    intro x
    cases x <;> rfl
  induction entries generalizing i with
  | nil => simp
  | cons x entries ih =>
    cases i with
    | zero =>
      have hx := h x rfl
      rw [List.modify_zero_cons, List.filter_cons_of_neg (by simp [hraise, hx]),
        List.filter_cons_of_neg (by simp [hx])]
    | succ i =>
      rw [List.modify_succ_cons, List.filter_cons, List.filter_cons, ih i h]

theorem updateexp_collection {exp : ℤ} {b : Bool} (h : updateexp cfg s exp = some (t, b)) :
    t.collection = s.collection := by
  unfold updateexp at h
  split at h
  · cases h
    rfl
  · split at h
    · cases h
    · cases h
      rfl

/-- **`updatecollection` changes no entry of another equipment.** -/
theorem updatecollection_spec (h : updatecollection cfg s oldlv newlv cfgid part = some t) :
    ∃ before after, s.collection = some before ∧ t.collection = some after ∧
      ((after part).filter fun x => !isof cfgid x) = (before part).filter fun x => !isof cfgid x := by
  unfold updatecollection at h
  split at h
  · cases h
  · rename_i collection hcoll
    simp only at h
    split at h
    · cases h
      exact ⟨_, _, hcoll, hcoll, rfl⟩
    · rename_i i hi
      split at h
      · split at h
        · cases h
        · rename_i s' hexp
          cases h
          exact ⟨_, _, hcoll, (updateexp_collection hexp).trans hcoll, rfl⟩
        · rename_i s' hexp
          cases h
          refine ⟨_, _, hcoll, rfl, ?_⟩
          rw [Function.update_self]
          refine filter_modify_raise i fun x hx => ?_
          obtain ⟨hlt, hlower, -⟩ := List.findIdx?_eq_some_iff_getElem.1 hi
          rw [List.getElem?_eq_getElem hlt, Option.some.injEq] at hx
          rw [hx] at hlower
          cases x with
          | equip c maxlv =>
            simp only [lower, Bool.and_eq_true] at hlower
            exact hlower.1
          | text s => cases hlower
      · cases h

/-- `incollection` puts the pieces of the text in. -/
theorem incollection_collection (h : s.collection = some collection) :
    (incollection cfg s cfgid part lv).collection =
      some (Function.update collection part
        ((splitComma (columntext cfg (collection part))).map .text ++ [.equip (.num (.int cfgid)) lv])) := by
  have hnone : finds (splitComma (columntext cfg (collection part))) (fun _ => none)
      (.num (.int cfgid)) = none := by
    simp [finds, List.findIdx?_eq_none_iff]
  simp only [incollection, h, hnone]

/-- How much text an entry is. -/
def Collected.ink : Collected → ℕ
  | .equip _ _ => 0
  | .text s => Lua.ink s

theorem ink_columntext (cfg : EquipConfig) (entries : List Collected) :
    tally Collected.ink entries + 2 ≤ ink (columntext cfg entries) := by
  refine le_trans (Nat.add_le_add_right ?_ 2) (Lua.ink_jsonArray _)
  rw [tally, tally, List.map_map]
  refine List.sum_le_sum fun x _ => ?_
  cases x with
  | equip cfgid maxlv => exact Nat.zero_le _
  | text s => exact le_trans (Nat.le_add_right _ 2) (Lua.ink_jsonString s)

/-- **The pieces of a text are more than what is in it.** -/
theorem ink_pieces (text : Str) :
    tally Collected.ink ((splitComma text).map .text) = ink text := by
  rw [← Lua.length_splitComma, tally, tally, List.map_map]
  refine congrArg List.sum (List.map_congr_left fun f hf => ?_)
  exact Lua.ink_field (Lua.field_of_mem_splitComma hf)

theorem not_pieces_perm {q : Collected → Bool} :
    ¬ ((splitComma (columntext cfg entries)).map Collected.text).Perm (entries.filter q) := by
  intro h
  have hpieces := ink_pieces (columntext cfg entries)
  rw [tally_perm h] at hpieces
  have hall := ink_columntext cfg entries
  have hfilter : tally Collected.ink (entries.filter q) ≤ tally Collected.ink entries :=
    ((List.filter_sublist).map _).sum_le_sum fun _ _ => Nat.zero_le _
  omega

/-- **`addequip` never leaves the collection as it should.** -/
theorem not_granted (cfg : EquipConfig) (s : EquipState) (part : Part) (cfgid : Int64) (lv number : ℤ)
    (lock : Bool) (n : ℕ) :
    ¬ Granted cfg s (addequip cfg s (some part) (some cfgid) (some lv) (some number) lock) part cfgid
      lv n := by
  rintro ⟨hanswer, -, before, after, hbefore, hafter, hcoll⟩
  unfold addequip at hanswer hafter
  simp only at hanswer hafter
  split at hanswer
  · cases hanswer
  · rename_i hequip
    rw [if_neg hequip] at hafter
    split at hanswer
    · cases hanswer
    · rename_i s₁ hgrants
      split at hanswer
      · cases hanswer
      · rename_i s₂ hupdate
        simp only [hgrants, hupdate] at hafter
        obtain ⟨before', entries, hbefore', hentries, hsame⟩ := updatecollection_spec hupdate
        have hkeep : s₁.collection = s.collection := by
          rw [← grants_collection cfg part cfgid lv lock (s.hangar.getD fun _ => none) number.toNat s,
            hgrants]
        rw [hkeep, hbefore, Option.some.injEq] at hbefore'
        rw [incollection_collection hentries, Option.some.injEq] at hafter
        subst hbefore' hafter
        -- the pieces would be entries that were there before
        have hothers := hcoll.others
        rw [Function.update_self, List.filter_append, ← hsame, List.filter_cons_of_neg (by simp [isof]),
          List.filter_nil, List.append_nil] at hothers
        rw [List.filter_eq_self.2 (by simp [isof])] at hothers
        exact not_pieces_perm hothers

/-! ## Two bodies at once -/

/-- A player with three bodies, of which two are new, and one of which is collected. -/
def bodyplayer : EquipState where
  lastid := fun _ => 3
  equipment := fun _ _ => none
  hangar := some fun _ => some "2,3".toList
  collection := some fun _ => [.equip (.num (.int 10008)) 1]
  user := none

def bodyconfig : EquipConfig where
  uid := 2
  equip := fun _ _ => true
  machine_exp := fun _ => some (2, 0)
  player_exp := [0]
  entry := fun _ _ => "\x7b\"maxlv\":1,\"cfgid\":10008\x7d".toList

/-- **Of two new bodies one is listed**, and the collection becomes pieces of its own
text. -/
theorem two_bodies :
    (addequip bodyconfig bodyplayer (some .body) (some 10001) (some 1) (some 2) false).2 = some true ∧
    (((addequip bodyconfig bodyplayer (some .body) (some 10001) (some 1) (some 2) false).1.hangar.map
        fun row => Queue.split (row "newbody".toList)) =
      some ["2".toList, "3".toList, "5".toList]) ∧
    (((addequip bodyconfig bodyplayer (some .body) (some 10001) (some 1) (some 2) false).1.collection.map
        fun c => c .body) =
      some [.text "[\x7b\"maxlv\":1".toList, .text "\"cfgid\":10008\x7d]".toList, .equip (.num (.int 10001)) 1]) ∧
    ¬ Granted bodyconfig bodyplayer
      (addequip bodyconfig bodyplayer (some .body) (some 10001) (some 1) (some 2) false) .body 10001 1 2 := by
  refine ⟨by decide, by decide, by decide, ?_⟩
  rintro ⟨-, -, before, after, hbefore, hafter, hcoll⟩
  cases hbefore
  cases hafter
  exact absurd hcoll.others.length_eq (by decide)

/-! ## The rows and the list -/

/-- No row is above the last id of its table. -/
def Fresh (s : EquipState) : Prop := ∀ part id, s.lastid part < id → s.equipment part id = none

/-- The ids that come next. -/
def newids (s : EquipState) (part : Part) (n : ℕ) : List ℕ :=
  (List.range n).map fun i => s.lastid part + 1 + i

theorem newids_succ (h : t.lastid part = s.lastid part + 1) :
    newids s part (n + 1) = (s.lastid part + 1) :: newids t part n := by
  rw [newids, List.range_succ_eq_map, List.map_cons, List.map_map, newids, h]
  congr 1
  refine List.map_congr_left fun i _ => ?_
  simp only [Function.comp]
  omega

/-- The state with one row more. -/
def granted (cfg : EquipConfig) (part : Part) (cfgid : Int64) (lv volume : ℤ) (lock : Bool)
    (hangardc : Str → Option Str) (s : EquipState) : EquipState :=
  { s with
    lastid := Function.update s.lastid part (s.lastid part + 1)
    equipment :=
      Function.update s.equipment part
        (Function.update (s.equipment part) (s.lastid part + 1)
          (some (newrow cfg part cfgid lv volume lock)))
    hangar :=
      s.hangar.map fun row =>
        Function.update row part.partname
          (some (join (Queue.split (hangardc part.partname) ++ [Queue.text (s.lastid part + 1)]))) }

/-- **What a round comes to** where its id is free. -/
theorem grant_eq {x : ℤ × ℤ} (hexp : cfg.machine_exp lv = some x) (hfresh : Fresh s) :
    grant cfg part cfgid lv lock hangardc s = (granted cfg part cfgid lv x.1 lock hangardc s, true) := by
  have hnone : (s.nextid part).equipment part (s.lastid part + 1) = none :=
    hfresh part _ (Nat.lt_succ_self _)
  unfold grant
  simp only [hexp, EquipState.add, hnone, Option.isSome_none, Bool.false_eq_true, if_false]
  rfl

theorem Fresh.granted (h : Fresh s) {volume : ℤ} :
    Fresh (granted cfg part cfgid lv volume lock hangardc s) := by
  intro p id hid
  simp only [Warehouse.granted] at hid ⊢
  by_cases hp : p = part
  · subst hp
    rw [Function.update_self] at hid
    rw [Function.update_self, Function.update_of_ne (by omega)]
    exact h p id (by omega)
  · rw [Function.update_of_ne hp] at hid
    rw [Function.update_of_ne hp]
    exact h p id hid

/-- **One round makes one row**, under the next id. -/
theorem granted_created (hfresh : Fresh s) {volume : ℤ} :
    Created cfg s (granted cfg part cfgid lv volume lock hangardc s) part cfgid lv
      [s.lastid part + 1] where
  fresh := by
    intro id hid
    rw [List.mem_singleton.1 hid]
    exact hfresh part _ (Nat.lt_succ_self _)
  created := by
    intro id hid
    rw [List.mem_singleton.1 hid]
    refine ⟨newrow cfg part cfgid lv volume lock, ?_, rfl, rfl, rfl⟩
    simp [granted]
  frame := by
    intro p id h
    simp only [granted]
    by_cases hp : p = part
    · subst hp
      rw [Function.update_self, Function.update_of_ne (by simpa using h)]
    · rw [Function.update_of_ne hp]

theorem Created.cons {u : EquipState} {ids : List ℕ} (h : Created cfg s t part cfgid lv [id])
    (h' : Created cfg t u part cfgid lv ids) : Created cfg s u part cfgid lv (id :: ids) := by
  have hid : id ∉ ids := by
    intro hmem
    obtain ⟨row, hrow, -⟩ := h.created id (List.mem_singleton_self id)
    rw [h'.fresh id hmem] at hrow
    cases hrow
  refine ⟨fun x hx => ?_, fun x hx => ?_, fun p x hx => ?_⟩
  · rcases List.mem_cons.1 hx with rfl | hmem
    · exact h.fresh x (List.mem_singleton_self x)
    · rw [← h.frame part x (Or.inr fun hx => hid (List.mem_singleton.1 hx ▸ hmem))]
      exact h'.fresh x hmem
  · rcases List.mem_cons.1 hx with rfl | hmem
    · rw [h'.frame part x (Or.inr hid)]
      exact h.created x (List.mem_singleton_self x)
    · exact h'.created x hmem
  · rw [h'.frame p x (hx.imp_right fun hx hmem => hx (List.mem_cons_of_mem _ hmem)),
      h.frame p x (hx.imp_right fun hx hmem => hx (List.mem_singleton.1 hmem ▸ List.mem_cons_self))]

/-- **The loop makes as many rows as it is asked for**, under distinct ids. -/
theorem grants_created {x : ℤ × ℤ} (hexp : cfg.machine_exp lv = some x) (n : ℕ) (hfresh : Fresh s) :
    ∃ t, grants cfg part cfgid lv lock hangardc n s = (t, true) ∧
      Created cfg s t part cfgid lv (newids s part n) := by
  induction n generalizing s with
  | zero =>
    exact ⟨s, rfl, fun _ h => absurd h List.not_mem_nil, fun _ h => absurd h List.not_mem_nil,
      fun _ _ _ => rfl⟩
  | succ n ih =>
    obtain ⟨u, hgrants, hcreated⟩ := ih hfresh.granted
    refine ⟨u, ?_, ?_⟩
    · rw [grants, grant_eq hexp hfresh]
      exact hgrants
    · rw [newids_succ (t := granted cfg part cfgid lv x.1 lock hangardc s) (by simp [granted])]
      exact (granted_created hfresh).cons hcreated

theorem granted_hangar (hrow : s.hangar = some row) {volume : ℤ} :
    (granted cfg part cfgid lv volume lock hangardc s).hangar =
      some (Function.update row part.partname
        (some (join (Queue.split (hangardc part.partname) ++ [Queue.text (s.lastid part + 1)])))) := by
  rw [granted, hrow]
  rfl

/-- **After the loop the list is the one before it**, with the last id. -/
theorem grants_hangar (part : Part) (cfgid : Int64) (lock : Bool) (hangardc : Str → Option Str)
    {x : ℤ × ℤ} (hexp : cfg.machine_exp lv = some x) (n : ℕ) (hfresh : Fresh s)
    (hrow : s.hangar = some row) :
    ∃ t row', grants cfg part cfgid lv lock hangardc (n + 1) s = (t, true) ∧ t.hangar = some row' ∧
      row' part.partname =
        some (join (Queue.split (hangardc part.partname) ++ [Queue.text (s.lastid part + 1 + n)])) := by
  induction n generalizing s row with
  | zero =>
    rw [grants, grant_eq hexp hfresh]
    refine ⟨_, _, rfl, granted_hangar hrow, ?_⟩
    rw [Function.update_self, Nat.add_zero]
  | succ n ih =>
    obtain ⟨t, row', hgrants, ht, hrow'⟩ := ih hfresh.granted (granted_hangar hrow)
    refine ⟨t, row', ?_, ht, ?_⟩
    · rw [grants, grant_eq hexp hfresh]
      exact hgrants
    · rw [hrow', granted]
      simp only [Function.update_self]
      rw [show s.lastid part + 1 + 1 + n = s.lastid part + 1 + (n + 1) by omega]

/-- **All new ids are listed just where there is one.** -/
theorem grants_listed_iff {x : ℤ × ℤ} (hexp : cfg.machine_exp lv = some x) (hn : 0 < n)
    (hfresh : Fresh s) (hrow : s.hangar = some row) :
    Listed s (grants cfg part cfgid lv lock row n s).1 part (newids s part n) ↔ n = 1 := by
  obtain ⟨n, rfl⟩ : ∃ m, n = m + 1 := ⟨n - 1, by omega⟩
  obtain ⟨t, row', hgrants, ht, hrow'⟩ :=
    grants_hangar part cfgid lock row hexp n hfresh hrow
  have hsplit : Queue.split (row' part.partname) =
      Queue.split (row part.partname) ++ [Queue.text (s.lastid part + 1 + n)] := by
    rw [hrow']
    refine Lua.splitComma_join fun f hf => ?_
    rcases List.mem_append.1 hf with hf | hf
    · cases hs : row part.partname with
      | none =>
        rw [hs] at hf
        cases hf
      | some text =>
        rw [hs] at hf
        exact Lua.field_of_mem_splitComma hf
    · rw [List.mem_singleton.1 hf]
      exact Queue.field_text
  rw [hgrants]
  constructor
  · rintro ⟨r, r', hr, hr', hlist⟩
    rw [hrow] at hr
    rw [ht] at hr'
    cases hr
    cases hr'
    rw [hsplit, List.append_right_inj] at hlist
    have hlength := congrArg List.length hlist
    simpa [newids] using hlength.symm
  · intro h
    have hzero : n = 0 := by omega
    subst hzero
    exact ⟨row, row', hrow, ht, hsplit⟩

end Warehouse

end Athena
