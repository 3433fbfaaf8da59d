import Athena.Common.Keyed
import Athena.Lua.Value
import Mathlib.Data.Int.Notation
/-!
# The warehouse — what is new and what was seen

`updatenew` of `game/warehouse/warehouse.lua`, for chips and blueprints: the entries
of a window of the new list go to the list of those that were seen. Each is looked
for again in what is left of the new list, by its content, and is merged into an
entry of the seen list that `get_data` finds. The conditions on level and lock are
written `c and x or true`, so `get_data` asks for nothing but the id, and the id of a
blueprint is a text, which equals no number.

The lists for other indices are left out.
-/

namespace Athena

namespace Warehouse

open Lua (Str)

/-- **A chip entry.** -/
structure ChipEntry where
  id : ℤ
  level : ℤ
  islock : ℤ
  number : ℤ
  deriving DecidableEq

/-- **A blueprint entry.** -/
structure BlueprintEntry where
  id : Str
  name : Option Str
  number : ℤ
  deriving DecidableEq

/-- The two lists of a row. -/
structure Shelf (α : Type) where
  new : List α
  seen : List α
  deriving DecidableEq

/-- **The rows of the player** in `d_chipinfo` and `d_blueprint`. -/
structure Inventory where
  chip : Option (Shelf ChipEntry)
  blueprint : Option (Shelf BlueprintEntry)

/-- `warehousedefine.warehousetype`. -/
def warehousetype.chip : ℤ := 5
def warehousetype.blueprint : ℤ := 6

/-! ## updatenew -/

/-- `c and x or true`, where `x` is there if `c` is. -/
def andor (x : Option Bool) : Bool := x.getD false || true

variable {α : Type}

/-- `get_data`, with its three comparisons. -/
def get_data (arry : List α) (id : α → Bool) (level islock : α → Option Bool) : Option ℕ :=
  arry.findIdx? fun x => id x && andor (level x) && andor (islock x)

/-- `add_data`: the entry that is found gets more, or there is a new one. -/
def add_data (arry : List α) (key : Option ℕ) (new : α) (more : α → α) : List α :=
  match key with
  | none => arry ++ [new]
  | some key => arry.modify key more

/-- `add_data` for a chip. The numbers are exact: their sum is one of 64 bits. -/
def ChipEntry.add (c : ChipEntry) (chipinfo : List ChipEntry) : List ChipEntry :=
  add_data chipinfo
    (get_data chipinfo (fun x => x.id = c.id) (fun x => some (x.level = c.level))
      fun x => some (x.islock = c.islock))
    c fun x => { x with number := x.number + c.number }

/-- `add_data` for a blueprint, which is given neither a level nor its name. A
number is compared with the text of its id. -/
def BlueprintEntry.add (b : BlueprintEntry) (blueprintinfo : List BlueprintEntry) :
    List BlueprintEntry :=
  add_data blueprintinfo
    (get_data blueprintinfo (fun x => (Lua.tonumber x.id).map .num = some (Lua.Value.str b.id))
      (fun _ => none) fun _ => none)
    ⟨b.id, none, b.number⟩ fun x => { x with number := x.number + b.number }

/-- The inner loop: the first entry that is the same goes. -/
def move (same : α → α → Bool) (add : α → List α → List α) (x : α) (s : Shelf α) : Shelf α :=
  match s.new.find? (same x) with
  | none => s
  | some y => ⟨s.new.eraseP (same x), add y s.seen⟩

/-- An entry of a Lua list, whose places are counted from one. -/
def entryat (l : List α) (i : ℤ) : Option α := if 1 ≤ i then l[(i - 1).toNat]? else none

/-- **The loop over the window**, with the rounds that are left. It raises an error
at a place that has no entry, where there is something to compare it with. -/
def moves (same : α → α → Bool) (add : α → List α → List α) (new : List α) :
    ℕ → ℤ → Shelf α → Option (Shelf α)
  | 0, _, s => some s
  | n + 1, i, s =>
    if s.new = [] then moves same add new n (i + 1) s
    else
      match entryat new i with
      | none => none
      | some x => moves same add new n (i + 1) (move same add x s)

/-- `update_chip_info` and `update_blueprint_info`. -/
def update_info (same : α → α → Bool) (add : α → List α → List α) (s : Shelf α)
    (beginindex endindex : ℤ) : Option (Shelf α) :=
  if s.new = [] then some s
  else moves same add s.new (min endindex s.new.length - beginindex + 1).toNat beginindex s

def update_chip_info (s : Shelf ChipEntry) (beginindex endindex : ℤ) : Option (Shelf ChipEntry) :=
  update_info (fun x y => y.id = x.id && y.level = x.level && y.islock = x.islock) ChipEntry.add s
    beginindex endindex

def update_blueprint_info (s : Shelf BlueprintEntry) (beginindex endindex : ℤ) :
    Option (Shelf BlueprintEntry) :=
  update_info (fun x y => y.id = x.id) BlueprintEntry.add s beginindex endindex

/-- Where a window ends: `math.maxinteger // 2` where it would end before it begins. -/
def windowend (beginindex endindex : ℤ) : ℤ := if endindex < beginindex then 2 ^ 62 - 1 else endindex

/-- `errcodedef`. -/
inductive Code
  | success
  | err_param
  deriving DecidableEq

/-- **`updatenew`**, for the two rows. It answers nothing where it raises an error. -/
def updatenew (s : Inventory) (index beginindex endindex : Option ℤ) : Inventory × Option Code :=
  match index, beginindex, endindex with
  | some index, some beginindex, some endindex =>
    if index ≤ 0 || 9 ≤ index then (s, some .err_param)
    else
      let endindex := windowend beginindex endindex
      if index = warehousetype.chip then
        match s.chip with
        | none => (s, some .success)
        | some shelf =>
          match update_chip_info shelf beginindex endindex with
          | none => (s, none)
          | some shelf => ({ s with chip := some shelf }, some .success)
      else if index = warehousetype.blueprint then
        match s.blueprint with
        | none => (s, some .success)
        | some shelf =>
          match update_blueprint_info shelf beginindex endindex with
          | none => (s, none)
          | some shelf => ({ s with blueprint := some shelf }, some .success)
      else (s, some .success)
  | _, _, _ => (s, some .err_param)

end Warehouse

/-!
## The warehouse — marking entries as seen

The loop over a window picks, for each entry of it, the first entry left that is the
same, and adds what it picked to the seen list one after another. What is owned is
kept just where the right entries are picked and none of them is merged into one
of another key.
-/

namespace Warehouse

open Lua (Str)

variable {α κ : Type} [DecidableEq κ] {same : α → α → Bool} {add : α → List α → List α}
  {key : α → κ} {number : α → ℤ} {new l ws : List α} {s s' : Shelf α} {b e i : ℤ} {x : α} {k : κ}

/-! ## The window -/

/-- **The entries at the places of a window.** -/
def stretch (l : List α) (beginindex endindex : ℤ) : List α :=
  (l.take endindex.toNat).drop (beginindex - 1).toNat

theorem stretch_sublist : (stretch l b e).Sublist l :=
  (List.drop_sublist _ _).trans (List.take_sublist _ _)

/-- Entries are moved one after another. -/
def run (same : α → α → Bool) (add : α → List α → List α) (ws : List α) (s : Shelf α) : Shelf α :=
  ws.foldl (fun s x => move same add x s) s

theorem move_nil (h : s.new = []) : move same add x s = s := by
  rw [move, h]
  rfl

theorem run_nil (h : s.new = []) : run same add ws s = s := by
  induction ws with
  | nil => rfl
  | cons x ws ih =>
    rw [run, List.foldl_cons, move_nil h]
    exact ih

theorem entryat_of_lt (hi : 1 ≤ i) (h : (i - 1).toNat < new.length) :
    entryat new i = some new[(i - 1).toNat] := by
  rw [entryat, if_pos hi, List.getElem?_eq_getElem h]

/-- **The loop, from a place that there is**, moves the entries at its places. -/
theorem moves_eq (n : ℕ) (hi : 1 ≤ i) (hn : (i - 1).toNat + n ≤ new.length) :
    moves same add new n i s = some (run same add ((new.drop (i - 1).toNat).take n) s) := by
  induction n generalizing i s with
  | zero => rfl
  | succ n ih =>
    have hlt : (i - 1).toNat < new.length := by omega
    have hnext : (i + 1 - 1).toNat = (i - 1).toNat + 1 := by omega
    have hdrop : (new.drop (i - 1).toNat).take (n + 1) =
        new[(i - 1).toNat] :: (new.drop ((i - 1).toNat + 1)).take n := by
      rw [List.drop_eq_getElem_cons hlt, List.take_succ_cons]
    rw [moves, hdrop]
    split
    · rename_i hnil
      rw [ih (by omega) (by omega), run_nil hnil, run_nil hnil]
    · rw [entryat_of_lt hi hlt]
      simp only
      rw [ih (by omega) (by omega), hnext]
      rfl

/-- The row after the request, where nothing is stored at an error. -/
def after (same : α → α → Bool) (add : α → List α → List α) (s : Shelf α) (b e : ℤ) : Shelf α :=
  (update_info same add s b e).getD s

/-- **The entries of the window are moved** where it begins at a place. -/
theorem after_of_pos (hb : 1 ≤ b) : after same add s b e = run same add (stretch s.new b e) s := by
  unfold after update_info
  split
  · rename_i hnil
    rw [run_nil hnil]
    rfl
  · by_cases he : b ≤ min e s.new.length
    · rw [moves_eq _ hb (by omega), Option.getD_some, stretch, List.drop_take]
      congr 1
      rw [List.take_eq_take_iff, List.length_drop]
      omega
    · have hcount : (min e (s.new.length : ℤ) - b + 1).toNat = 0 := by omega
      have hwindow : stretch s.new b e = [] := by
        rw [stretch, List.drop_eq_nil_iff, List.length_take]
        omega
      rw [hcount, hwindow]
      rfl

/-- Where it begins before the first place nothing changes. -/
theorem after_of_nonpos (hb : b ≤ 0) : after same add s b e = s := by
  unfold after update_info
  split
  · rfl
  · rename_i hnew
    cases hn : (min e (s.new.length : ℤ) - b + 1).toNat with
    | zero => rfl
    | succ n =>
      rw [moves, if_neg hnew, entryat, if_neg (by omega)]
      rfl

/-! ## What is moved -/

/-- What the moves come to, where entries are the same by a key. -/
theorem run_eq (key : α → κ) (hsame : ∀ x y, same x y = decide (key y = key x)) (ws : List α) (s : Shelf α) :
    run same add ws s =
      ⟨(picks key ws s.new).2, (picks key ws s.new).1.foldl (fun l x => add x l) s.seen⟩ := by
  induction ws generalizing s with
  | nil => rfl
  | cons w ws ih =>
    rw [run, List.foldl_cons]
    change run same add ws (move same add w s) = _
    have hfun : same w = fun x => decide (key x = key w) := funext fun x => hsame w x
    rw [ih, move, picks, hfun]
    cases s.new.find? fun x => decide (key x = key w) <;> rfl

/-- **What is owned under a key.** -/
def owned (key : α → κ) (number : α → ℤ) (l : List α) (k : κ) : ℤ :=
  tally (fun x => if key x = k then number x else 0) l

/-- The entries a list loses first under each key are those of the window. -/
def First (key : α → κ) (new ws : List α) : Prop :=
  ∀ k, ((new.filter fun x => key x = k).take (ws.countP fun x => key x = k)).Perm
    (ws.filter fun x => key x = k)

/-- **What marking entries as seen is for.** -/
structure Marks (key : α → κ) (number : α → ℤ) (ws : List α) (s s' : Shelf α) : Prop where
  kept : ∀ k, owned key number (s'.new ++ s'.seen) k = owned key number (s.new ++ s.seen) k
  single : (s.seen.map key).Nodup → (s'.seen.map key).Nodup
  left : (s'.new ++ ws).Perm s.new

/-- A request that changes nothing does it for no entries. -/
theorem marks_self_iff : Marks key number ws s s ↔ ws = [] := by
  constructor
  · intro h
    have := h.left.length_eq
    rw [List.length_append] at this
    exact List.length_eq_zero_iff.1 (by omega)
  · rintro rfl
    exact ⟨fun _ => rfl, id, by rw [List.append_nil]⟩

/-- **The window leaves the new list** just where it is what is picked. -/
theorem left_iff (ws : List α) : ((picks key ws new).2 ++ ws).Perm new ↔
    (picks key ws new).1.Perm ws := by
  have hall : ((picks key ws new).2 ++ (picks key ws new).1).Perm new :=
    List.perm_append_comm.trans (picks_perm ws new)
  constructor
  · intro h
    exact (List.perm_append_left_iff _).1 (hall.trans h.symm)
  · intro h
    exact ((List.perm_append_left_iff _).2 h.symm).trans hall

theorem picked_iff [DecidableEq α] : (picks key ws new).1.Perm ws ↔ First key new ws := by
  constructor
  · intro h k
    rw [← picks_filter]
    exact h.filter _
  · intro h
    refine perm_of_filter key fun k => ?_
    rw [picks_filter]
    exact h k

/-- The keys of a window are picked. -/
theorem picked_keys {κ' : Type} [DecidableEq κ'] (key : α → κ') (h : ws.Sublist new) :
    (picks key ws new).1.map key = ws.map key :=
  picks_keys ws new fun _ => h.countP_le

@[simp] theorem owned_append : owned key number (l ++ ws) k = owned key number l k + owned key number ws k :=
  tally_append

/-- What is picked is owned no more in the new list. -/
theorem owned_picks (key : α → κ) (number : α → ℤ) (ws new : List α) (k : κ) {κ' : Type}
    [DecidableEq κ'] (key' : α → κ') :
    owned key number (picks key' ws new).2 k + owned key number (picks key' ws new).1 k =
      owned key number new k := by
  rw [add_comm, ← owned_append]
  exact tally_perm (picks_perm ws new)

/-- **What a request has to keep**, besides picking what is in the window. -/
theorem marks_picks_iff {κ' : Type} [DecidableEq κ'] (key' : α → κ') [DecidableEq α] {seen : List α} :
    Marks key number ws s ⟨(picks key' ws s.new).2, seen⟩ ↔
      First key' s.new ws ∧
        (∀ k, owned key number seen k =
          owned key number s.seen k + owned key number (picks key' ws s.new).1 k) ∧
        ((s.seen.map key).Nodup → (seen.map key).Nodup) := by
  have hkept : ∀ k, owned key number ((picks key' ws s.new).2 ++ seen) k =
      owned key number (s.new ++ s.seen) k ↔
        owned key number seen k =
          owned key number s.seen k + owned key number (picks key' ws s.new).1 k := by
    intro k
    have hp := owned_picks key number ws s.new k key'
    rw [owned_append, owned_append]
    constructor <;> intro h <;> omega
  constructor
  · intro h
    exact ⟨picked_iff.1 ((left_iff ws).1 h.left), fun k => (hkept k).1 (h.kept k), h.single⟩
  · rintro ⟨hfirst, howned, hsingle⟩
    exact ⟨fun k => (hkept k).2 (howned k), hsingle, (left_iff ws).2 (picked_iff.2 hfirst)⟩

/-- Under each key that is left for another one, nothing is counted. -/
def Unmerged (key : α → κ) (number : α → ℤ) (T : κ → κ) (ws : List α) : Prop :=
  ∀ k, T k ≠ k → owned key number ws k = 0

theorem unmerged_nil {T : κ → κ} : Unmerged key number T [] := fun _ _ => rfl

theorem Unmerged.perm {T : κ → κ} (h : Unmerged key number T ws) (hp : ws.Perm l) :
    Unmerged key number T l := by
  intro k hk
  rw [owned, ← tally_perm hp]
  exact h k hk

theorem first_nil : First key new [] := by
  intro k
  simp

/-! ## Chips -/

def chipkey (c : ChipEntry) : ℤ × ℤ × ℤ := (c.id, c.level, c.islock)

/-- **The key a chip is counted under in the seen list**: that of the first entry
with its id. -/
def into (keys : List (ℤ × ℤ × ℤ)) (k : ℤ × ℤ × ℤ) : ℤ × ℤ × ℤ :=
  (keys.find? fun x => x.1 = k.1).getD k

variable {c : ChipEntry} {arry cs : List ChipEntry} {keys keys' : List (ℤ × ℤ × ℤ)} {k' : ℤ × ℤ × ℤ}

theorem into_into (k : ℤ × ℤ × ℤ) : into keys (into keys k) = into keys k := by
  unfold into
  cases h : keys.find? fun x => x.1 = k.1 with
  | none => rw [Option.getD_none, h, Option.getD_none]
  | some k' =>
    have hk : k'.1 = k.1 := by simpa using List.find?_some h
    rw [Option.getD_some, hk, h, Option.getD_some]

theorem andor_eq (x : Option Bool) : andor x = true := by
  rw [andor, Bool.or_true]

/-- **`get_data` asks for the id** and nothing else. -/
theorem get_data_eq (id : α → Bool) (level islock : α → Option Bool) :
    get_data l id level islock = l.findIdx? id := by
  simp [get_data, andor_eq]

/-- **What `add_data` does with a chip.** -/
theorem add_cases (c : ChipEntry) (arry : List ChipEntry) :
    (∃ key x, arry[key]? = some x ∧ arry.find? (fun x => x.id = c.id) = some x ∧
      c.add arry = arry.modify key fun x => { x with number := x.number + c.number }) ∨
    (arry.find? (fun x => x.id = c.id) = none ∧ c.add arry = arry ++ [c]) := by
  rw [ChipEntry.add, get_data_eq, List.find?_eq_bind_findIdx?_getElem?]
  cases h : arry.findIdx? fun x => x.id = c.id with
  | none => exact Or.inr ⟨rfl, rfl⟩
  | some key =>
    obtain ⟨hlt, -⟩ := List.findIdx?_eq_some_iff_getElem.1 h
    exact Or.inl ⟨key, arry[key], List.getElem?_eq_getElem hlt, List.getElem?_eq_getElem hlt, rfl⟩

/-- An entry that gets more keeps its key. -/
theorem map_chipkey_modify (key : ℕ) (number : ℤ) :
    (arry.modify key fun x => { x with number := x.number + number }).map chipkey =
      arry.map chipkey := by
  refine List.ext_getElem? fun i => ?_
  rw [List.getElem?_map, List.getElem?_map, List.getElem?_modify]
  cases arry[i]? with
  | none => rfl
  | some x => by_cases hi : key = i <;> simp [hi, chipkey]

theorem find?_chipkey (id : ℤ) : (arry.map chipkey).find? (fun x => x.1 = id) =
    (arry.find? fun x => x.id = id).map chipkey := List.find?_map

/-- **A chip goes where its key tells**, as if it stood at the end of the list. -/
theorem into_add (k : ℤ × ℤ × ℤ) : into ((c.add arry).map chipkey ++ keys) k =
    into (arry.map chipkey ++ chipkey c :: keys) k := by
  rcases add_cases c arry with ⟨key, x, -, hx, hadd⟩ | ⟨-, hadd⟩
  · rw [hadd, map_chipkey_modify, into, into, List.find?_append, List.find?_append, List.find?_cons]
    by_cases hk : c.id = k.1
    · rw [find?_chipkey, ← hk, hx]
      rfl
    · simp [chipkey, hk]
  · rw [hadd, List.map_append, List.append_assoc]
    rfl

theorem owned_add (keys : List (ℤ × ℤ × ℤ)) (k : ℤ × ℤ × ℤ) : owned chipkey ChipEntry.number (c.add arry) k =
    owned chipkey ChipEntry.number arry k +
      if into (arry.map chipkey ++ chipkey c :: keys) (chipkey c) = k then c.number else 0 := by
  rcases add_cases c arry with ⟨key, x, hkey, hx, hadd⟩ | ⟨hnone, hadd⟩
  · have hinto : into (arry.map chipkey ++ chipkey c :: keys) (chipkey c) = chipkey x := by
      have hfind : (arry.map chipkey).find? (fun x => x.1 = (chipkey c).1) = some (chipkey x) := by
        rw [find?_chipkey]
        exact congrArg (Option.map chipkey) hx
      rw [into, List.find?_append, hfind]
      rfl
    have htally := tally_modify (f := fun x => if chipkey x = k then x.number else 0)
      (g := fun x : ChipEntry => { x with number := x.number + c.number }) hkey
    rw [hadd, hinto]
    simp only [owned]
    by_cases hk : chipkey x = k
    · have hk' : chipkey { x with number := x.number + c.number } = k := hk
      simp only [hk, hk', if_true] at htally ⊢
      omega
    · have hk' : ¬ chipkey { x with number := x.number + c.number } = k := hk
      simp only [hk, hk', if_false] at htally ⊢
      omega
  · have hinto : into (arry.map chipkey ++ chipkey c :: keys) (chipkey c) = chipkey c := by
      have hfind : (arry.map chipkey).find? (fun x => x.1 = (chipkey c).1) = none := by
        rw [find?_chipkey]
        exact congrArg (Option.map chipkey) hnone
      rw [into, List.find?_append, hfind, List.find?_cons_of_pos (by simp)]
      rfl
    rw [hadd, owned_append, hinto]
    simp [owned]

/-- **What chips come to** when they are added one after another. -/
theorem owned_adds (cs arry : List ChipEntry) (k : ℤ × ℤ × ℤ) :
    owned chipkey ChipEntry.number (cs.foldl (fun l x => x.add l) arry) k =
      owned chipkey ChipEntry.number arry k +
        tally (fun x => if into (arry.map chipkey ++ cs.map chipkey) (chipkey x) = k then x.number else 0)
          cs := by
  induction cs generalizing arry with
  | nil => simp
  | cons c cs ih =>
    rw [List.foldl_cons, ih, owned_add (cs.map chipkey), tally_cons, List.map_cons]
    simp only [into_add]
    omega

/-- The seen list has one entry for a key where it had. -/
theorem nodup_add (h : (arry.map chipkey).Nodup) : ((c.add arry).map chipkey).Nodup := by
  rcases add_cases c arry with ⟨key, x, -, -, hadd⟩ | ⟨hnone, hadd⟩
  · rw [hadd, map_chipkey_modify]
    exact h
  · rw [hadd, List.map_append, List.map_singleton, List.nodup_append]
    refine ⟨h, List.nodup_singleton _, ?_⟩
    rintro a ha b hb rfl
    obtain ⟨x, hx, hkey⟩ := List.mem_map.1 ha
    have hid := List.find?_eq_none.1 hnone x hx
    rw [List.mem_singleton, ← hkey] at hb
    exact hid (decide_eq_true (congrArg Prod.fst hb))

theorem nodup_adds (cs : List ChipEntry) (h : (arry.map chipkey).Nodup) :
    ((cs.foldl (fun l x => x.add l) arry).map chipkey).Nodup := by
  induction cs generalizing arry with
  | nil => exact h
  | cons c cs ih => exact ih (nodup_add h)

/-- **Chips are marked as they should be** just where the window is empty, or begins
at a place, has what comes first under its keys, and no chip of it is merged into an
entry of another key. -/
theorem chip_marks_iff (s : Shelf ChipEntry) (b e : ℤ) :
    Marks chipkey ChipEntry.number (stretch s.new b e) s ((update_chip_info s b e).getD s) ↔
      stretch s.new b e = [] ∨
        1 ≤ b ∧ First chipkey s.new (stretch s.new b e) ∧
          Unmerged chipkey ChipEntry.number
            (into (s.seen.map chipkey ++ (stretch s.new b e).map chipkey)) (stretch s.new b e) := by
  have hsame : ∀ x y : ChipEntry, (y.id = x.id && y.level = x.level && y.islock = x.islock) =
      decide (chipkey y = chipkey x) := by
    intro x y
    simp [chipkey, Bool.and_assoc]
  change Marks _ _ _ _ (after _ _ _ _ _) ↔ _
  by_cases hb : 1 ≤ b
  · rw [after_of_pos hb, run_eq chipkey hsame, marks_picks_iff chipkey]
    generalize hws : stretch s.new b e = ws
    have hsub : ws.Sublist s.new := hws ▸ stretch_sublist
    have hkeys := picked_keys chipkey hsub
    have hmoved : (∀ k, owned chipkey ChipEntry.number
        ((picks chipkey ws s.new).1.foldl (fun l x => x.add l) s.seen) k =
          owned chipkey ChipEntry.number s.seen k +
            owned chipkey ChipEntry.number (picks chipkey ws s.new).1 k) ↔
        Unmerged chipkey ChipEntry.number (into (s.seen.map chipkey ++ ws.map chipkey))
          (picks chipkey ws s.new).1 := by
      rw [← hkeys]
      refine Iff.trans (forall_congr' fun k => ?_) (tally_moved_iff into_into)
      rw [owned_adds]
      exact add_right_inj _
    rw [hmoved]
    constructor
    · rintro ⟨hfirst, hun, -⟩
      exact Or.inr ⟨hb, hfirst, hun.perm (picked_iff.2 hfirst)⟩
    · rintro (rfl | ⟨-, hfirst, hun⟩)
      · exact ⟨first_nil, unmerged_nil, nodup_adds _⟩
      · exact ⟨hfirst, hun.perm (picked_iff.2 hfirst).symm, nodup_adds _⟩
  · rw [after_of_nonpos (by omega), marks_self_iff]
    constructor
    · exact Or.inl
    · rintro (h | ⟨h, -⟩)
      · exact h
      · exact absurd h hb

/-! ## Blueprints -/

def blueprintkey (b : BlueprintEntry) : Str × Option Str := (b.id, b.name)

/-- A blueprint that is seen has lost its name. -/
def unnamed (k : Str × Option Str) : Str × Option Str := (k.1, none)

variable {bp : BlueprintEntry} {blueprints bs : List BlueprintEntry}

/-- **A blueprint is never found**: a number is no text. -/
theorem add_blueprint (bp : BlueprintEntry) (blueprints : List BlueprintEntry) :
    bp.add blueprints = blueprints ++ [⟨bp.id, none, bp.number⟩] := by
  have hnone : (blueprints.findIdx? fun x =>
      decide ((Lua.tonumber x.id).map .num = some (Lua.Value.str bp.id))) = none := by
    rw [List.findIdx?_eq_none_iff]
    intro x _
    cases Lua.tonumber x.id <;> simp
  rw [BlueprintEntry.add, get_data_eq, hnone]
  rfl

theorem add_blueprints (bs blueprints : List BlueprintEntry) :
    bs.foldl (fun l x => x.add l) blueprints =
      blueprints ++ bs.map fun x => ⟨x.id, none, x.number⟩ := by
  induction bs generalizing blueprints with
  | nil => simp
  | cons x bs ih => rw [List.foldl_cons, ih, add_blueprint, List.append_assoc, List.map_cons, List.singleton_append]

theorem owned_blueprints (k : Str × Option Str) :
    owned blueprintkey BlueprintEntry.number (bs.map fun x => ⟨x.id, none, x.number⟩) k =
      tally (fun x => if unnamed (blueprintkey x) = k then x.number else 0) bs := by
  rw [owned, tally, List.map_map]
  rfl

/-- No blueprint of a window comes twice, or is seen without a name. -/
def Unseen (seen ws : List BlueprintEntry) : Prop :=
  (ws.map BlueprintEntry.id).Nodup ∧ ∀ w ∈ ws, (w.id, none) ∉ seen.map blueprintkey

theorem nodup_blueprints (h : (blueprints.map blueprintkey).Nodup) :
    ((blueprints ++ bs.map fun x => (⟨x.id, none, x.number⟩ : BlueprintEntry)).map blueprintkey).Nodup ↔
      Unseen blueprints bs := by
  have hmap : (bs.map fun x => (⟨x.id, none, x.number⟩ : BlueprintEntry)).map blueprintkey =
      (bs.map BlueprintEntry.id).map fun id => (id, none) := by
    rw [List.map_map, List.map_map]
    rfl
  have hinj : Function.Injective fun id : Str => (id, (none : Option Str)) :=
    fun _ _ h => congrArg Prod.fst h
  rw [List.map_append, hmap, List.nodup_append, List.nodup_map_iff hinj]
  constructor
  · rintro ⟨-, hids, hne⟩
    exact ⟨hids, fun w hw hmem =>
      hne _ hmem _ (List.mem_map_of_mem (List.mem_map_of_mem hw)) rfl⟩
  · rintro ⟨hids, hne⟩
    refine ⟨h, hids, ?_⟩
    rintro a ha b hb rfl
    obtain ⟨id, hid, rfl⟩ := List.mem_map.1 hb
    obtain ⟨w, hw, rfl⟩ := List.mem_map.1 hid
    exact hne w hw ha

theorem unseen_perm {seen : List BlueprintEntry} (hp : bs.Perm blueprints) :
    Unseen seen bs ↔ Unseen seen blueprints := by
  unfold Unseen
  rw [(hp.map _).nodup_iff]
  simp only [hp.mem_iff]

/-- **Blueprints are marked as they should be** just where the window is empty, or
begins at a place, has what comes first under its ids, has no named ones, and has
none that is seen twice then. -/
theorem blueprint_marks_iff (s : Shelf BlueprintEntry) (b e : ℤ) :
    Marks blueprintkey BlueprintEntry.number (stretch s.new b e) s
        ((update_blueprint_info s b e).getD s) ↔
      stretch s.new b e = [] ∨
        1 ≤ b ∧ First BlueprintEntry.id s.new (stretch s.new b e) ∧
          Unmerged blueprintkey BlueprintEntry.number unnamed (stretch s.new b e) ∧
          ((s.seen.map blueprintkey).Nodup → Unseen s.seen (stretch s.new b e)) := by
  change Marks _ _ _ _ (after _ _ _ _ _) ↔ _
  by_cases hb : 1 ≤ b
  · rw [after_of_pos hb, run_eq BlueprintEntry.id (fun _ _ => rfl),
      marks_picks_iff BlueprintEntry.id, add_blueprints]
    generalize hws : stretch s.new b e = ws
    have hmoved : (∀ k, owned blueprintkey BlueprintEntry.number
        (s.seen ++ (picks BlueprintEntry.id ws s.new).1.map fun x => ⟨x.id, none, x.number⟩) k =
          owned blueprintkey BlueprintEntry.number s.seen k +
            owned blueprintkey BlueprintEntry.number (picks BlueprintEntry.id ws s.new).1 k) ↔
        Unmerged blueprintkey BlueprintEntry.number unnamed (picks BlueprintEntry.id ws s.new).1 := by
      refine Iff.trans (forall_congr' fun k => ?_) (tally_moved_iff (T := unnamed) fun _ => rfl)
      rw [owned_append, owned_blueprints]
      exact add_right_inj _
    have hsingle : ((s.seen.map blueprintkey).Nodup →
        ((s.seen ++ (picks BlueprintEntry.id ws s.new).1.map fun x =>
          (⟨x.id, none, x.number⟩ : BlueprintEntry)).map blueprintkey).Nodup) ↔
        ((s.seen.map blueprintkey).Nodup → Unseen s.seen (picks BlueprintEntry.id ws s.new).1) :=
      forall_congr' nodup_blueprints
    rw [hmoved, hsingle]
    constructor
    · rintro ⟨hfirst, hun, hunseen⟩
      have hp := picked_iff.2 hfirst
      exact Or.inr ⟨hb, hfirst, hun.perm hp, fun h => (unseen_perm hp).1 (hunseen h)⟩
    · rintro (rfl | ⟨-, hfirst, hun, hunseen⟩)
      · refine ⟨first_nil, unmerged_nil, fun _ => ⟨List.nodup_nil, fun w hw => ?_⟩⟩
        exact absurd hw List.not_mem_nil
      · have hp := picked_iff.2 hfirst
        exact ⟨hfirst, hun.perm hp.symm, fun h => (unseen_perm hp).2 (hunseen h)⟩
  · rw [after_of_nonpos (by omega), marks_self_iff]
    constructor
    · exact Or.inl
    · rintro (h | ⟨h, -⟩)
      · exact h
      · exact absurd h hb

/-! ## The request -/

/-- What `updatenew` leaves in the row of the chips. -/
theorem updatenew_chip (s : Shelf ChipEntry) (o : Option (Shelf BlueprintEntry)) (b e : ℤ) :
    (updatenew ⟨some s, o⟩ (some warehousetype.chip) (some b) (some e)).1.chip =
      some ((update_chip_info s b (windowend b e)).getD s) := by
  unfold updatenew
  cases h : update_chip_info s b (windowend b e) <;> simp [warehousetype.chip, h]

theorem updatenew_blueprint (s : Shelf BlueprintEntry) (o : Option (Shelf ChipEntry)) (b e : ℤ) :
    (updatenew ⟨o, some s⟩ (some warehousetype.blueprint) (some b) (some e)).1.blueprint =
      some ((update_blueprint_info s b (windowend b e)).getD s) := by
  unfold updatenew
  cases h : update_blueprint_info s b (windowend b e) <;>
    simp [warehousetype.chip, warehousetype.blueprint, h]

/-- **`updatenew` marks the entries of a window as it should** just where the window
lets it: the chips, and the blueprints. -/
theorem updatenew_marks_iff (chips : Shelf ChipEntry) (blueprints : Shelf BlueprintEntry) (b e : ℤ) :
    ((∃ s', (updatenew ⟨some chips, some blueprints⟩ (some warehousetype.chip) (some b) (some e)).1.chip =
          some s' ∧
        Marks chipkey ChipEntry.number (stretch chips.new b (windowend b e)) chips s') ↔
      stretch chips.new b (windowend b e) = [] ∨
        1 ≤ b ∧ First chipkey chips.new (stretch chips.new b (windowend b e)) ∧
          Unmerged chipkey ChipEntry.number
            (into (chips.seen.map chipkey ++ (stretch chips.new b (windowend b e)).map chipkey))
            (stretch chips.new b (windowend b e))) ∧
    ((∃ s', (updatenew ⟨some chips, some blueprints⟩ (some warehousetype.blueprint) (some b)
          (some e)).1.blueprint = some s' ∧
        Marks blueprintkey BlueprintEntry.number (stretch blueprints.new b (windowend b e)) blueprints s') ↔
      stretch blueprints.new b (windowend b e) = [] ∨
        1 ≤ b ∧ First BlueprintEntry.id blueprints.new (stretch blueprints.new b (windowend b e)) ∧
          Unmerged blueprintkey BlueprintEntry.number unnamed
            (stretch blueprints.new b (windowend b e)) ∧
          ((blueprints.seen.map blueprintkey).Nodup →
            Unseen blueprints.seen (stretch blueprints.new b (windowend b e)))) := by
  constructor
  · rw [← chip_marks_iff, updatenew_chip]
    simp
  · rw [← blueprint_marks_iff, updatenew_blueprint]
    simp

/-! ## Two levels of a chip -/

/-- A new chip of the second level, and one of the first that was seen. -/
def twolevels : Shelf ChipEntry where
  new := [⟨10001, 2, 0, 1⟩]
  seen := [⟨10001, 1, 0, 1⟩]

/-- A named blueprint that is new. -/
def namedblueprint : Shelf BlueprintEntry where
  new := [⟨"110001210001310001".toList, some "a".toList, 2⟩]
  seen := []

/-- **A chip of the second level becomes one of the first**, and a blueprint loses its
name. -/
theorem twolevels_merged :
    (updatenew ⟨some twolevels, some namedblueprint⟩ (some 5) (some 1) (some 1)).1.chip =
      some ⟨[], [⟨10001, 1, 0, 2⟩]⟩ ∧
    (updatenew ⟨some twolevels, some namedblueprint⟩ (some 6) (some 1) (some 1)).1.blueprint =
      some ⟨[], [⟨"110001210001310001".toList, none, 2⟩]⟩ ∧
    ¬ (∃ s', (updatenew ⟨some twolevels, some namedblueprint⟩ (some 5) (some 1) (some 1)).1.chip =
        some s' ∧ Marks chipkey ChipEntry.number (stretch twolevels.new 1 1) twolevels s') := by
  refine ⟨by decide, by decide, ?_⟩
  rintro ⟨s', hs, hmarks⟩
  cases hs
  exact absurd (hmarks.kept (10001, 2, 0)) (by decide)

end Warehouse

end Athena
