import Athena.Queue.Ends
import Athena.Queue.Lanes
/-!
# Business queues — lanes in order

With one coroutine at a time in the lanes, what a creation has read of them
still holds when it writes, and so it does for a completion.
-/

namespace Athena

namespace Queue

namespace Lanes

open Lua

variable {L : Limits} {s t : State} {row : Row} {id i pick : ℕ} {cargo : Cargo}
  {list tmplist : List Timeinfo}

/-! ## What is read holds -/

/-- A row of a transport of the player. -/
structure Good (L : Limits) (row : Row) : Prop where
  playerid : row.playerid = L.uid
  type : row.type = .airfreighter
  pos : 1 ≤ row.subtype
  le : row.subtype ≤ L.maxairfreighter

theorem Good.column (h : Good L row) : row.column = .airfreighter row.subtype := by
  simp [Row.column, h.type]

/-- An entry that is not listed yet, or not any more. -/
def Pending (s : State) (id : ℕ) : Prop :=
  (∃ c ∈ s.creating, c.made = some id) ∨ ∃ n, s.completing = some (id, .del n .delete)

/-- **The lanes and the table**: what is listed has a row of that lane, and
what has a row is listed or pending. -/
structure Store (L : Limits) (s : State) : Prop where
  ordered : ∀ i, (s.lane L i).Pairwise (· < ·)
  entry : ∀ i, ∀ id ∈ s.lane L i, ∃ row, s.db.rows id = some row ∧ Good L row ∧ row.subtype = i
  good : ∀ id row, s.db.rows id = some row →
    Good L row ∧ id ≤ s.nextid ∧ (id ∈ s.lane L row.subtype ∨ Pending s id)
  bounded : ∀ i, (s.lane L i).length ≤ L.maxperairfreighter

/-- What `get_shortest` has found of the lanes before lane `i`. -/
structure Seen (L : Limits) (s : State) (i : ℕ) (list : List Timeinfo) : Prop where
  room : ∀ x ∈ list, 1 ≤ x.1 ∧ x.1 ≤ L.maxairfreighter ∧
    (s.lane L x.1).length < L.maxperairfreighter
  full : ∀ j, 1 ≤ j → j < i → j ∈ list.map Prod.fst ∨ L.maxperairfreighter ≤ (s.lane L j).length

/-- There is room in lane `i`. -/
structure Room (L : Limits) (s : State) (i : ℕ) : Prop where
  pos : 1 ≤ i
  le : i ≤ L.maxairfreighter
  lt : (s.lane L i).length < L.maxperairfreighter

/-- An id that was just given. -/
structure Fresh (s : State) (id : ℕ) : Prop where
  le : id ≤ s.nextid
  above : ∀ j, (s.db.rows j).isSome → j < id

/-- A row that was just added. -/
structure Added (L : Limits) (s : State) (id : ℕ) (row : Row) : Prop where
  row : s.db.rows id = some row
  above : ∀ j, (s.db.rows j).isSome → j ≤ id
  unlisted : ∀ i, id ∉ s.lane L i

/-- The row starts when the last of its lane ends. -/
def Behind (L : Limits) (s : State) (row : Row) : Prop :=
  ∀ tail, (s.lane L row.subtype).getLast? = some tail →
    ∃ before, s.db.rows tail = some before ∧ row.starttime = before.endtime

/-- **What a creation has.** -/
def Creation.Inv (L : Limits) (s : State) : Creation → Prop
  | .maxairfreighter _ => True
  | .lane _ i list _ | .last _ i _ list _ | .isfullbq _ i _ list _ =>
    Seen L s i list ∧ 1 ≤ i ∧ i ≤ L.maxairfreighter
  | .get_nextid _ i => Room L s i
  | .getlast _ i id => Room L s i ∧ Fresh s id
  | .endtime _ i id tail => Room L s i ∧ Fresh s id ∧ (s.lane L i).getLast? = some tail
  | .add id row => Good L row ∧ Room L s row.subtype ∧ Fresh s id ∧ Behind L s row
  | .queueinfo id row => Good L row ∧ Room L s row.subtype ∧ Added L s id row ∧ Behind L s row
  | .setvalue id row info =>
    Good L row ∧ Room L s row.subtype ∧ Added L s id row ∧ Behind L s row ∧
      info row.column = s.lane L row.subtype

/-- **What a completion has.** -/
def Ending (L : Limits) (s : State) (id : ℕ) : Completion → Prop
  | .check => True
  | .blueprints row _ | .props row _ => s.db.rows id = some row
  | .del _ .get => (s.db.rows id).isSome
  | .del _ (.queueinfo row) => s.db.rows id = some row
  | .del _ (.lane row info) => s.db.rows id = some row ∧ info row.column = s.lane L row.subtype
  | .del _ .delete => ∀ i, id ∉ s.lane L i
  | _ => False

/-- **The invariant.** -/
structure Inv (L : Limits) (s : State) : Prop where
  store : Store L s
  creating : s.creating = [] ∨ ∃ c, s.creating = [c] ∧ c.Inv L s
  completing : ∀ id x, s.completing = some (id, x) → Ending L s id x
  alone : Editing s.completing → s.creating = []

/-! ## Steps that leave the lanes and the table alone -/

/-- The lanes and the table are what they were. -/
structure Same (L : Limits) (s t : State) : Prop where
  rows : t.db.rows = s.db.rows
  lane : ∀ i, t.lane L i = s.lane L i
  nextid : s.nextid ≤ t.nextid

theorem Store.same (h : Store L s) (hs : Same L s t) (hp : ∀ id, Pending s id → Pending t id) :
    Store L t where
  ordered i := by
    rw [hs.lane]
    exact h.ordered i
  entry i id hid := by
    rw [hs.lane] at hid
    rw [hs.rows]
    exact h.entry i id hid
  good id row hrow := by
    rw [hs.rows] at hrow
    obtain ⟨hgood, hle, hlisted⟩ := h.good id row hrow
    refine ⟨hgood, hle.trans hs.nextid, ?_⟩
    rw [hs.lane]
    exact hlisted.imp_right (hp id)
  bounded i := by
    rw [hs.lane]
    exact h.bounded i

theorem Seen.same (h : Seen L s i list) (hs : Same L s t) : Seen L t i list where
  room x hx := by
    rw [hs.lane]
    exact h.room x hx
  full j h1 h2 := by
    rw [hs.lane]
    exact h.full j h1 h2

theorem Room.same (h : Room L s i) (hs : Same L s t) : Room L t i :=
  ⟨h.pos, h.le, by rw [hs.lane]; exact h.lt⟩

theorem Fresh.same (h : Fresh s id) (hs : Same L s t) : Fresh t id :=
  ⟨h.le.trans hs.nextid, by rw [hs.rows]; exact h.above⟩

theorem Added.same (h : Added L s id row) (hs : Same L s t) : Added L t id row where
  row := by rw [hs.rows, h.row]
  above := by
    rw [hs.rows]
    exact h.above
  unlisted i := by
    rw [hs.lane]
    exact h.unlisted i

theorem Behind.same (h : Behind L s row) (hs : Same L s t) : Behind L t row := by
  intro tail htail
  rw [hs.lane] at htail
  rw [hs.rows]
  exact h tail htail

theorem Creation.Inv.same {c : Creation} (h : c.Inv L s) (hs : Same L s t) : c.Inv L t := by
  cases c with
  | maxairfreighter cargo => trivial
  | lane cargo i list tmplist => exact ⟨h.1.same hs, h.2⟩
  | last cargo i tail list tmplist => exact ⟨h.1.same hs, h.2⟩
  | isfullbq cargo i time list tmplist => exact ⟨h.1.same hs, h.2⟩
  | get_nextid cargo i => exact Room.same h hs
  | getlast cargo i id => exact ⟨h.1.same hs, h.2.same hs⟩
  | endtime cargo i id tail =>
    refine ⟨h.1.same hs, h.2.1.same hs, ?_⟩
    rw [hs.lane]
    exact h.2.2
  | add id row => exact ⟨h.1, h.2.1.same hs, h.2.2.1.same hs, h.2.2.2.same hs⟩
  | queueinfo id row => exact ⟨h.1, h.2.1.same hs, h.2.2.1.same hs, h.2.2.2.same hs⟩
  | setvalue id row info =>
    refine ⟨h.1, h.2.1.same hs, h.2.2.1.same hs, h.2.2.2.1.same hs, ?_⟩
    rw [hs.lane]
    exact h.2.2.2.2

theorem Ending.same {x : Completion} (h : Ending L s id x) (hs : Same L s t) : Ending L t id x := by
  unfold Ending at h ⊢
  split at h
  · trivial
  · rw [hs.rows]
    exact h
  · rw [hs.rows]
    exact h
  · rw [hs.rows]
    exact h
  · rw [hs.rows]
    exact h
  · rw [hs.rows, hs.lane]
    exact h
  · intro i
    rw [hs.lane]
    exact h i
  · exact h.elim

/-! ## Creations -/

/-- **The end of `get_shortest`**: a lane with room, or all are full. -/
theorem scan_inv (cargo : Cargo) (pick : ℕ) (tmplist : List Timeinfo)
    (hseen : Seen L s i list) (hpos : 1 ≤ i) (hle : i ≤ L.maxairfreighter + 1) :
    (∀ c, scan L cargo i pick list tmplist = .goes c → c.Inv L s ∧ c.made = none) ∧
    (scan L cargo i pick list tmplist = .refused →
      ∀ j, 1 ≤ j → j ≤ L.maxairfreighter → L.maxperairfreighter ≤ (s.lane L j).length) := by
  unfold scan
  split
  · rename_i hi
    refine ⟨fun c hc => ?_, nofun⟩
    cases hc
    exact ⟨⟨hseen, hpos, hi⟩, rfl⟩
  · rename_i hi
    split
    · exact ⟨fun _ hc => (nomatch hc), fun hc => nomatch hc⟩
    · rename_i hnone
      refine ⟨fun _ hc => (nomatch hc), fun _ j hj hjle => ?_⟩
      have hnil : list.length = 0 := by
        unfold get_shortest at hnone
        split at hnone
        · cases hnone
        · split at hnone
          · rename_i hfull
            exact hfull.1
          · split at hnone <;> cases hnone
      rcases hseen.full j hj (by omega) with hmem | hfull
      · rw [List.length_eq_zero_iff.mp hnil] at hmem
        cases hmem
      · exact hfull
    · rename_i k hk
      refine ⟨fun c hc => ?_, nofun⟩
      cases hc
      obtain ⟨x, hx, rfl⟩ : ∃ x ∈ list, x.1 = k := by
        unfold get_shortest at hk
        split at hk
        · cases hk
        · split at hk
          · cases hk
          · split at hk
            · rename_i hshort
              cases hk
              obtain ⟨x, hx, hfirst⟩ := List.any_eq_true.mp hshort
              rw [Bool.and_eq_true] at hfirst
              exact ⟨x, hx, of_decide_eq_true hfirst.1⟩
            · cases hk
      obtain ⟨h1, h2, h3⟩ := hseen.room x hx
      exact ⟨⟨h1, h2, h3⟩, rfl⟩

theorem good_newrow (h : Room L s i) (e : ℤ) : Good L (newrow L cargo i e) := ⟨rfl, rfl, h.pos, h.le⟩

/-- A creation that only reads, or takes an id. -/
def Creation.Reads : Creation → Prop
  | .add .. | .setvalue .. => False
  | _ => True

/-- **A step of a creation that only reads**: it leaves the lanes and the table
alone, what it has read holds, and it is refused when all lanes are full. -/
theorem Creation.step_reads {c : Creation} (pick : ℕ) (hst : Store L s) (hr : c.Reads) (hc : c.Inv L s) :
    Same L s (c.step L pick s).2 ∧ (c.step L pick s).2.completing = s.completing ∧
      (∀ c', (c.step L pick s).1 = .goes c' → c'.Inv L (c.step L pick s).2 ∧ c'.made = c.made) ∧
      ((c.step L pick s).1.toList = [] → c.made = none) ∧
      Fair L s (c.step L pick s).2 (c.output (c.step L pick s).1) := by
  cases c with
  | maxairfreighter cargo =>
    -- the scan starts, with no lane seen
    have hseen : Seen L s 1 [] := ⟨by simp, fun j h1 h2 => by omega⟩
    obtain ⟨hgoes, href⟩ := scan_inv cargo pick [] hseen le_rfl
      (by omega)
    refine ⟨⟨rfl, fun _ => rfl, le_rfl⟩, rfl, hgoes, fun _ => rfl, ?_⟩
    simp only [Creation.step]
    cases hscan : scan L cargo 1 pick [] [] with
    | refused => exact href hscan
    | goes c => trivial
    | ended => trivial
  | lane cargo i list tmplist =>
    simp only [Creation.step]
    split
    · exact ⟨⟨rfl, fun _ => rfl, le_rfl⟩, rfl, fun c' hc' => by cases hc'; exact ⟨hc, rfl⟩,
        fun _ => rfl, trivial⟩
    · exact ⟨⟨rfl, fun _ => rfl, le_rfl⟩, rfl, fun c' hc' => by cases hc'; exact ⟨hc, rfl⟩,
        fun _ => rfl, trivial⟩
  | last cargo i tail list tmplist =>
    exact ⟨⟨rfl, fun _ => rfl, le_rfl⟩, rfl, fun c' hc' => by cases hc'; exact ⟨hc, rfl⟩,
      fun _ => rfl, trivial⟩
  | isfullbq cargo i time list tmplist =>
    obtain ⟨hseen, hpos, hle⟩ := hc
    simp only [Creation.step]
    split
    · -- lane `i` has room and joins the candidates
      rename_i hroom
      have hseen' : Seen L s (i + 1) (list ++ [(i, time)]) := by
        refine ⟨fun x hx => ?_, fun j h1 h2 => ?_⟩
        · rcases List.mem_append.mp hx with hx | hx
          · exact hseen.room x hx
          · rw [List.mem_singleton.mp hx]
            exact ⟨hpos, hle, hroom⟩
        · rcases Nat.lt_succ_iff_lt_or_eq.mp h2 with h2 | rfl
          · exact (hseen.full j h1 h2).imp_left fun h => by simp [h]
          · exact Or.inl (by simp)
      obtain ⟨hgoes, href⟩ := scan_inv cargo pick tmplist hseen'
        (by omega) (by omega)
      refine ⟨⟨rfl, fun _ => rfl, le_rfl⟩, rfl, hgoes, fun _ => rfl, ?_⟩
      cases hscan : scan L cargo (i + 1) pick (list ++ [(i, time)]) tmplist with
      | refused => exact href hscan
      | goes c => trivial
      | ended => trivial
    · -- lane `i` is full
      rename_i hroom
      have hseen' : Seen L s (i + 1) list := by
        refine ⟨hseen.room, fun j h1 h2 => ?_⟩
        rcases Nat.lt_succ_iff_lt_or_eq.mp h2 with h2 | rfl
        · exact hseen.full j h1 h2
        · exact Or.inr (by omega)
      obtain ⟨hgoes, href⟩ := scan_inv cargo pick (tmplist ++ [(i, time)]) hseen' (by omega) (by omega)
      refine ⟨⟨rfl, fun _ => rfl, le_rfl⟩, rfl, hgoes, fun _ => rfl, ?_⟩
      cases hscan : scan L cargo (i + 1) pick list (tmplist ++ [(i, time)]) with
      | refused => exact href hscan
      | goes c => trivial
      | ended => trivial
  | get_nextid cargo i =>
    have hs : Same L s { s with nextid := s.nextid + 1 } :=
      ⟨rfl, fun _ => rfl, Nat.le_succ _⟩
    have hfresh : Fresh { s with nextid := s.nextid + 1 } (s.nextid + 1) := by
      -- every row has an id that was handed out before
      refine ⟨le_rfl, fun j hj => ?_⟩
      obtain ⟨row, hrow⟩ := Option.isSome_iff_exists.mp hj
      exact Nat.lt_succ_of_le (hst.good j row hrow).2.1
    refine ⟨hs, rfl, fun c' hc' => ?_, fun _ => rfl, trivial⟩
    cases hc'
    exact ⟨⟨Room.same hc hs, hfresh⟩, rfl⟩
  | getlast cargo i id =>
    obtain ⟨hroom, hfresh⟩ := hc
    simp only [Creation.step]
    split
    · -- an empty lane: the row starts now, behind nobody
      rename_i hnil
      refine ⟨⟨rfl, fun _ => rfl, le_rfl⟩, rfl, fun c' hc' => ?_, fun _ => rfl, trivial⟩
      cases hc'
      refine ⟨⟨good_newrow hroom _, hroom, hfresh, fun tail htail => ?_⟩, rfl⟩
      exact absurd (htail.symm.trans hnil) (by simp)
    · rename_i tail htail
      refine ⟨⟨rfl, fun _ => rfl, le_rfl⟩, rfl, fun c' hc' => ?_, fun _ => rfl, trivial⟩
      cases hc'
      exact ⟨⟨hroom, hfresh, htail⟩, rfl⟩
  | endtime cargo i id tail =>
    obtain ⟨hroom, hfresh, htail⟩ := hc
    simp only [Creation.step]
    split
    · exact ⟨⟨rfl, fun _ => rfl, le_rfl⟩, rfl, fun _ hc' => (nomatch hc'), fun _ => rfl, trivial⟩
    · rename_i row hrow
      refine ⟨⟨rfl, fun _ => rfl, le_rfl⟩, rfl, fun c' hc' => ?_, fun _ => rfl, trivial⟩
      cases hc'
      refine ⟨⟨good_newrow hroom _, hroom, hfresh, fun last hlast => ?_⟩, rfl⟩
      obtain rfl : last = tail := Option.some.inj (hlast.symm.trans htail)
      exact ⟨row, hrow, rfl⟩
  | queueinfo id row =>
    obtain ⟨hgood, hroom, hadd, hbehind⟩ := hc
    refine ⟨⟨rfl, fun _ => rfl, le_rfl⟩, rfl, fun c' hc' => ?_, fun h => ?_, trivial⟩
    · cases hc'
      refine ⟨⟨hgood, hroom, hadd, hbehind, ?_⟩, rfl⟩
      rw [hgood.column]
      rfl
    · cases h
  | add id row => exact hr.elim
  | setvalue id row info => exact hr.elim

/-- Row `id` is added to the table. -/
def State.addrow (s : State) (id : ℕ) (row : Row) : State :=
  { s with db := { s.db with rows := Function.update s.db.rows id (some row) } }

theorem addrow_rows_ne {j : ℕ} (h : j ≠ id) : (s.addrow id row).db.rows j = s.db.rows j :=
  Function.update_of_ne h _ _

theorem addrow_rows_self : (s.addrow id row).db.rows id = some row := Function.update_self ..

theorem Fresh.ne (h : Fresh s id) {j : ℕ} {r : Row} (hr : s.db.rows j = some r) : j ≠ id :=
  (h.above j (by simp [hr])).ne

/-- **The new row.** It is pending, and what was there stays. -/
theorem Inv.add (hi : Inv L s) (hc : s.creating = [.add id row])
    (hadd : Creation.Inv L s (.add id row)) :
    Inv L { s.addrow id row with creating := [.queueinfo id row] } := by
  obtain ⟨hgood, hroom, hfresh, hbehind⟩ := hadd
  have hkeep : ∀ j r, s.db.rows j = some r → (s.addrow id row).db.rows j = some r := by
    intro j r hr
    rw [addrow_rows_ne (hfresh.ne hr)]
    exact hr
  have hunlisted : ∀ k, id ∉ s.lane L k := by
    intro k hid
    obtain ⟨r, hr, -⟩ := hi.store.entry k id hid
    exact hfresh.ne hr rfl
  refine ⟨⟨hi.store.ordered, fun k j hj => ?_, fun j r hr => ?_, hi.store.bounded⟩,
    Or.inr ⟨_, rfl, hgood, ⟨hroom.pos, hroom.le, hroom.lt⟩, ⟨addrow_rows_self, fun j hj => ?_,
      hunlisted⟩, fun tail htail => ?_⟩, fun j x hx => ?_, fun h => ?_⟩
  · obtain ⟨r, hr, hrest⟩ := hi.store.entry k j hj
    exact ⟨r, hkeep j r hr, hrest⟩
  · by_cases hj : j = id
    · subst hj
      obtain rfl : row = r := Option.some.inj (addrow_rows_self.symm.trans hr)
      exact ⟨hgood, hfresh.le, Or.inr (Or.inl ⟨_, List.mem_singleton_self _, rfl⟩)⟩
    · obtain ⟨hg, hle, hlisted⟩ := hi.store.good j r ((addrow_rows_ne hj).symm.trans hr)
      refine ⟨hg, hle, hlisted.imp_right fun hp => hp.imp_left ?_⟩
      rintro ⟨c, hmem, hmade⟩
      rw [hc, List.mem_singleton] at hmem
      subst hmem
      cases hmade
  · by_cases hj' : j = id
    · exact hj'.le
    · obtain ⟨r, hr⟩ := Option.isSome_iff_exists.mp hj
      exact (hfresh.above j (by rw [(addrow_rows_ne hj').symm.trans hr]; rfl)).le
  · obtain ⟨before, hb, hstart⟩ := hbehind tail htail
    exact ⟨before, hkeep tail before hb, hstart⟩
  · -- a completion has its row, which is not the new one
    have hend := hi.completing j x hx
    unfold Ending at hend ⊢
    split at hend
    · trivial
    · exact hkeep _ _ hend
    · exact hkeep _ _ hend
    · obtain ⟨r, hr⟩ := Option.isSome_iff_exists.mp hend
      exact Option.isSome_iff_exists.mpr ⟨r, hkeep _ _ hr⟩
    · exact hkeep _ _ hend
    · exact ⟨hkeep _ _ hend.1, hend.2⟩
    · exact hend
    · exact hend.elim
  · have hnil := hi.alone h
    rw [hc] at hnil
    cases hnil

/-- The lane `setvalue` writes, and the others. -/
theorem lane_setvalue {ids : List ℕ} {k : ℕ} {db : Data}
    (hdb : db = s.db.setvalue L.uid (.airfreighter i) ids) :
    db.queueinfo L.uid (.airfreighter k) = if k = i then ids else s.lane L k := by
  subst hdb
  rw [setvalue_queueinfo]
  by_cases hk : k = i
  · simp [hk]
  · simp [hk, State.lane]

/-- **The id comes to the end of its lane.** -/
theorem Inv.setvalue {info : Column → List ℕ} {timers : List (ℕ × ℤ)} (hi : Inv L s)
    (hc : s.creating = [.setvalue id row info]) (hset : Creation.Inv L s (.setvalue id row info)) :
    Inv L { s with
        db := s.db.setvalue L.uid row.column (info row.column ++ [id]), timers := timers
        creating := [] } ∧
      Fair L s { s with
        db := s.db.setvalue L.uid row.column (info row.column ++ [id]), timers := timers
        creating := [] } (.created id row) := by
  obtain ⟨hgood, hroom, hadd, hbehind, hinfo⟩ := hset
  have hlane : ∀ k, (s.db.setvalue L.uid row.column (info row.column ++ [id])).queueinfo L.uid
      (.airfreighter k) = if k = row.subtype then s.lane L row.subtype ++ [id] else s.lane L k := by
    intro k
    refine lane_setvalue ?_
    rw [← hgood.column, hinfo]
  -- what is listed was made earlier, so appending keeps each lane ordered
  have hbelow : ∀ k, ∀ j ∈ s.lane L k, j < id := by
    intro k j hj
    obtain ⟨r, hr, -⟩ := hi.store.entry k j hj
    have hle := hadd.above j (by simp [hr])
    rcases hle.lt_or_eq with hlt | rfl
    · exact hlt
    · exact absurd hj (hadd.unlisted k)
  refine ⟨⟨⟨fun k => ?_, fun k j hj => ?_, fun j r hr => ?_, fun k => ?_⟩, Or.inl rfl,
    fun j x hx => ?_, fun _ => rfl⟩, hadd.above, ?_, hbehind⟩
  · change (Data.queueinfo _ L.uid (.airfreighter k)).Pairwise _
    rw [hlane]
    split
    · refine List.pairwise_append.mpr ⟨hi.store.ordered _, List.pairwise_singleton _ _, ?_⟩
      intro a ha b hb
      rw [List.mem_singleton.mp hb]
      exact hbelow _ a ha
    · exact hi.store.ordered k
  · change j ∈ Data.queueinfo _ L.uid (.airfreighter k) at hj
    rw [hlane] at hj
    split at hj
    · rename_i hk
      rcases List.mem_append.mp hj with hj | hj
      · rw [hk]
        exact hi.store.entry _ j hj
      · rw [List.mem_singleton.mp hj]
        exact ⟨row, hadd.row, hgood, hk.symm⟩
    · exact hi.store.entry k j hj
  · obtain ⟨hg, hle, hlisted⟩ := hi.store.good j r hr
    have hin : ∀ k, j ∈ s.lane L k → j ∈ (s.db.setvalue L.uid row.column
        (info row.column ++ [id])).queueinfo L.uid (.airfreighter k) := by
      intro k hk
      rw [hlane]
      split
      · rename_i heq
        exact List.mem_append_left _ (heq ▸ hk)
      · exact hk
    refine ⟨hg, hle, ?_⟩
    rcases hlisted with hlisted | ⟨c, hmem, hmade⟩ | hend
    · exact Or.inl (hin _ hlisted)
    · -- the one row that was waiting to be listed is this one
      rw [hc, List.mem_singleton] at hmem
      subst hmem
      cases hmade
      obtain rfl : row = r := Option.some.inj (hadd.row.symm.trans hr)
      refine Or.inl ?_
      change _ ∈ Data.queueinfo _ L.uid (.airfreighter row.subtype)
      rw [hlane, if_pos rfl]
      exact List.mem_append_right _ (List.mem_singleton_self _)
    · exact Or.inr (Or.inr hend)
  · change (Data.queueinfo _ L.uid (.airfreighter k)).length ≤ _
    rw [hlane]
    split
    · rw [List.length_append, List.length_singleton]
      exact hroom.lt
    · exact hi.store.bounded k
  · -- no completion has the lanes in hand
    have hend := hi.completing j x hx
    have hfree : Editing s.completing = false := by
      by_contra h
      have hnil := hi.alone (by simpa using h)
      rw [hc] at hnil
      cases hnil
    rw [hx] at hfree
    unfold Ending at hend ⊢
    split at hend
    · trivial
    · exact hend
    · exact hend
    · exact hend
    · exact hend
    · cases hfree
    · cases hfree
    · exact hend.elim
  · change Data.queueinfo _ L.uid (.airfreighter row.subtype) = _
    rw [hlane, if_pos rfl]

/-- **A creation goes on.** -/
theorem Inv.create {k : ℕ} {c : Creation} (hi : Inv L s) (hk : s.creating[k]? = some c) :
    Inv L { (c.step L pick s).2 with
        creating := (c.step L pick s).1.toList ++ s.creating.eraseIdx k } ∧
      Fair L s { (c.step L pick s).2 with
        creating := (c.step L pick s).1.toList ++ s.creating.eraseIdx k }
        (c.output (c.step L pick s).1) := by
  -- it is the only one
  obtain ⟨hone, hinv⟩ : s.creating = [c] ∧ c.Inv L s := by
    rcases hi.creating with hnil | ⟨c', hone, hinv⟩
    · simp [hnil] at hk
    · rw [hone] at hk
      cases k with
      | zero =>
        cases hk
        exact ⟨hone, hinv⟩
      | succ k => simp at hk
  have hrest : s.creating.eraseIdx k = [] := by
    have hlt := (List.getElem?_eq_some_iff.mp hk).1
    rw [hone, List.length_singleton] at hlt
    rw [hone, Nat.lt_one_iff.mp hlt]
    rfl
  rw [hrest, List.append_nil]
  have hfree : Editing s.completing = false := by
    by_contra h
    have hnil := hi.alone (by simpa using h)
    rw [hone] at hnil
    cases hnil
  have hreads : c.Reads → Inv L { (c.step L pick s).2 with creating := (c.step L pick s).1.toList } ∧
      Fair L s { (c.step L pick s).2 with creating := (c.step L pick s).1.toList }
        (c.output (c.step L pick s).1) := by
    intro hr
    obtain ⟨hsame, hcomp, hgoes, hover, hfair⟩ := Creation.step_reads pick hi.store hr hinv
    obtain ⟨u, hu⟩ : ∃ u, (c.step L pick s).2 = u := ⟨_, rfl⟩
    obtain ⟨n, hn⟩ : ∃ n, (c.step L pick s).1 = n := ⟨_, rfl⟩
    rw [hu] at hsame hcomp hgoes hfair ⊢
    rw [hn] at hgoes hover hfair ⊢
    have hsame' : Same L s { u with creating := n.toList } := ⟨hsame.rows, hsame.lane, hsame.nextid⟩
    have hu' : Same L u { u with creating := n.toList } := ⟨rfl, fun _ => rfl, le_rfl⟩
    refine ⟨⟨hi.store.same hsame' fun j hp => ?_, ?_, fun j x hx => ?_, fun h => ?_⟩, ?_⟩
    · rcases hp with ⟨c', hmem, hmade⟩ | ⟨m, hm⟩
      · rw [hone, List.mem_singleton] at hmem
        subst hmem
        cases n with
        | goes c₁ => exact Or.inl ⟨c₁, List.mem_singleton_self _, (hgoes c₁ rfl).2.trans hmade⟩
        | refused => exact absurd (hover rfl) (by simp [hmade])
        | ended => exact absurd (hover rfl) (by simp [hmade])
      · exact Or.inr ⟨m, hcomp.trans hm⟩
    · cases n with
      | goes c₁ => exact Or.inr ⟨c₁, rfl, (hgoes c₁ rfl).1.same hu'⟩
      | refused => exact Or.inl rfl
      | ended => exact Or.inl rfl
    · exact (hi.completing j x (hcomp.symm.trans hx)).same hsame'
    · rw [hcomp] at h
      rw [hfree] at h
      cases h
    · cases hout : c.output n with
      | silent => trivial
      | refused =>
        rw [hout] at hfair
        exact hfair
      | created id row =>
        rw [hout] at hfair
        exact hfair
  cases c with
  | add id row => exact ⟨hi.add hone hinv, trivial⟩
  | setvalue id row info => exact hi.setvalue hone hinv
  | maxairfreighter cargo => exact hreads trivial
  | lane cargo i list tmplist => exact hreads trivial
  | last cargo i tail list tmplist => exact hreads trivial
  | isfullbq cargo i time list tmplist => exact hreads trivial
  | get_nextid cargo i => exact hreads trivial
  | getlast cargo i id => exact hreads trivial
  | endtime cargo i id tail => exact hreads trivial
  | queueinfo id row => exact hreads trivial

/-! ## Completions -/

/-- A completion that leaves the lanes and the table alone goes on. -/
theorem Inv.complete_same {db : Data} {x x' : Completion} (hi : Inv L s)
    (hx : s.completing = some (id, x)) (hrows : db.rows = s.db.rows)
    (hlane : db.queueinfo = s.db.queueinfo) (hx' : Ending L s id x')
    (hnot : ∀ n, x ≠ .del n .delete) (halone : Editing (some (id, x')) → s.creating = []) :
    Inv L { s with completing := some (id, x'), db := db } := by
  have hsame : Same L s { s with completing := some (id, x'), db := db } :=
    ⟨hrows, fun i => congrFun (congrFun hlane L.uid) _, le_rfl⟩
  refine ⟨hi.store.same hsame fun j hp => hp.imp_right ?_, ?_, fun j y hy => ?_, halone⟩
  · rintro ⟨n, hn⟩
    rw [hx] at hn
    cases hn
    exact absurd rfl (hnot n)
  · exact hi.creating.imp_right fun ⟨c, hone, hinv⟩ => ⟨c, hone, hinv.same hsame⟩
  · cases hy
    exact hx'.same hsame

/-- A completion without a row is over. -/
theorem Inv.complete_over {x : Completion} (hi : Inv L s) (hx : s.completing = some (id, x))
    (hnot : ∀ n, x ≠ .del n .delete) : Inv L { s with completing := none } := by
  have hsame : Same L s { s with completing := none } := ⟨rfl, fun _ => rfl, le_rfl⟩
  refine ⟨hi.store.same hsame fun j hp => hp.imp_right ?_, ?_, fun _ _ hx' => (nomatch hx'),
    fun hedit => nomatch hedit⟩
  · rintro ⟨n, hn⟩
    rw [hx] at hn
    cases hn
    exact absurd rfl (hnot n)
  · exact hi.creating.imp_right fun ⟨c, hone, hinv⟩ => ⟨c, hone, hinv.same hsame⟩

theorem mem_erase_iff_of_pairwise {ids : List ℕ} {j : ℕ} (h : ids.Pairwise (· < ·)) :
    j ∈ ids.erase id ↔ j ≠ id ∧ j ∈ ids := by
  have hnodup : ids.Nodup := h.imp fun hlt => hlt.ne
  exact hnodup.mem_erase_iff

/-- **The id leaves its lane.** -/
theorem Inv.complete_lane {n : Option ℕ} {info : Column → List ℕ} (hi : Inv L s)
    (hx : s.completing = some (id, .del n (.lane row info))) :
    Inv L { s with
      completing := some (id, .del n .delete)
      db := s.db.setvalue row.playerid (.airfreighter row.subtype)
        (remove_array (info (.airfreighter row.subtype)) id) } := by
  obtain ⟨hrow, hinfo⟩ := hi.completing _ _ hx
  have hnil : s.creating = [] := hi.alone (by rw [hx]; rfl)
  obtain ⟨hgood, -, hlisted⟩ := hi.store.good id row hrow
  -- nobody but this end has the lanes in hand, so the row is still listed
  have hmem : id ∈ s.lane L row.subtype := by
    rcases hlisted with hmem | ⟨c, hc, -⟩ | ⟨m, hm⟩
    · exact hmem
    · rw [hnil] at hc
      cases hc
    · rw [hx] at hm
      cases hm
  rw [hgood.column] at hinfo
  have hlane : ∀ k, (s.db.setvalue row.playerid (.airfreighter row.subtype)
      (remove_array (info (.airfreighter row.subtype)) id)).queueinfo L.uid (.airfreighter k) =
      if k = row.subtype then (s.lane L row.subtype).erase id else s.lane L k := by
    intro k
    refine lane_setvalue ?_
    rw [hgood.playerid, hinfo, remove_array, if_pos hmem]
  have hout : ∀ k, id ∉ (s.db.setvalue row.playerid (.airfreighter row.subtype)
      (remove_array (info (.airfreighter row.subtype)) id)).queueinfo L.uid (.airfreighter k) := by
    intro k
    rw [hlane]
    split
    · rw [mem_erase_iff_of_pairwise (hi.store.ordered _)]
      simp
    · intro hk
      obtain ⟨r, hr, -, hsub⟩ := hi.store.entry k id hk
      obtain rfl : row = r := Option.some.inj (hrow.symm.trans hr)
      rename_i hne
      exact hne hsub.symm
  have hsub : ∀ k, ((s.db.setvalue row.playerid (.airfreighter row.subtype)
      (remove_array (info (.airfreighter row.subtype)) id)).queueinfo L.uid
        (.airfreighter k)).Sublist (s.lane L k) := by
    intro k
    rw [hlane]
    split
    · rename_i hk
      rw [hk]
      exact List.erase_sublist
    · exact List.Sublist.refl _
  refine ⟨⟨fun k => (hi.store.ordered k).sublist (hsub k),
    fun k j hj => hi.store.entry k j ((hsub k).subset hj), fun j r hr => ?_,
    fun k => (hsub k).length_le.trans (hi.store.bounded k)⟩, Or.inl hnil, fun j x hx' => ?_,
    fun _ => hnil⟩
  · obtain ⟨hg, hle, hl⟩ := hi.store.good j r hr
    refine ⟨hg, hle, ?_⟩
    by_cases hj : j = id
    · -- the row that has left its lane is about to be deleted
      subst hj
      exact Or.inr (Or.inr ⟨n, rfl⟩)
    · rcases hl with hl | ⟨c, hc, -⟩ | ⟨m, hm⟩
      · refine Or.inl ?_
        change j ∈ Data.queueinfo _ L.uid (.airfreighter r.subtype)
        rw [hlane]
        split
        · rename_i heq
          exact (mem_erase_iff_of_pairwise (hi.store.ordered _)).mpr ⟨hj, heq ▸ hl⟩
        · exact hl
      · rw [hnil] at hc
        cases hc
      · rw [hx] at hm
        cases hm
  · cases hx'
    exact hout

/-- **The row goes.** -/
theorem Inv.complete_delete {n : Option ℕ} (hi : Inv L s)
    (hx : s.completing = some (id, .del n .delete)) :
    Inv L { s with completing := none, db := s.db.delete id } := by
  have hout : ∀ k, id ∉ s.lane L k := hi.completing _ _ hx
  have hnil : s.creating = [] := hi.alone (by rw [hx]; rfl)
  have hrows : ∀ j, j ≠ id → (s.db.delete id).rows j = s.db.rows j :=
    fun j hj => Function.update_of_ne hj _ _
  refine ⟨⟨hi.store.ordered, fun k j hj => ?_, fun j r hr => ?_, hi.store.bounded⟩, Or.inl hnil,
    fun _ _ hx' => (nomatch hx'), fun hedit => nomatch hedit⟩
  · have hne : j ≠ id := by
      rintro rfl
      exact hout k hj
    obtain ⟨r, hr, hrest⟩ := hi.store.entry k j hj
    exact ⟨r, (hrows j hne).trans hr, hrest⟩
  · have hne : j ≠ id := by
      rintro rfl
      rw [delete_rows] at hr
      cases hr
    obtain ⟨hg, hle, hl⟩ := hi.store.good j r ((hrows j hne).symm.trans hr)
    refine ⟨hg, hle, Or.inl ?_⟩
    rcases hl with hl | ⟨c, hc, -⟩ | ⟨m, hm⟩
    · exact hl
    · rw [hnil] at hc
      cases hc
    · rw [hx] at hm
      cases hm
      exact absurd rfl hne

/-- **A completion goes on.** -/
theorem Inv.complete {x : Completion} (hi : Inv L s) (hx : s.completing = some (id, x))
    (hserial : Taking s.completing → s.creating = []) :
    Inv L { s with
      completing := (x.step id s.db).1.map fun y => (id, y)
      db := (x.step id s.db).2 } := by
  have hend := hi.completing id x hx
  cases x with
  | check =>
    simp only [Completion.step]
    split
    · exact hi.complete_over hx (by simp)
    · rename_i r hr
      obtain ⟨hgood, -⟩ := hi.store.good id r hr
      simp only [hgood.type, Option.map_some]
      exact hi.complete_same hx rfl rfl hr (by simp) (by simp [Editing])
  | blueprints row bps =>
    cases bps with
    | nil => exact hi.complete_same hx rfl rfl hend (by simp) (by simp [Editing])
    | cons b bps => exact hi.complete_same hx rfl rfl hend (by simp) (by simp [Editing])
  | props row ps =>
    cases ps with
    | nil =>
      refine hi.complete_same hx rfl rfl (?_ : (s.db.rows id).isSome) (by simp) (by simp [Editing])
      rw [show s.db.rows id = some row from hend]
      rfl
    | cons p ps =>
      simp only [Completion.step]
      split
      · exact hi.complete_same hx rfl rfl hend (by simp) (by simp [Editing])
      · exact hi.complete_same hx rfl rfl hend (by simp) (by simp [Editing])
  | del n y =>
    cases y with
    | get =>
      obtain ⟨r, hr⟩ := Option.isSome_iff_exists.mp hend
      simp only [Completion.step, Del.step, hr, Option.map_some]
      exact hi.complete_same hx rfl rfl hr (by simp) (by simp [Editing])
    | queueinfo row =>
      obtain ⟨hgood, -⟩ := hi.store.good id row hend
      simp only [Completion.step, Del.step, hgood.type, Option.map_some]
      refine hi.complete_same hx rfl rfl ⟨hend, ?_⟩ (by simp) fun _ => hserial (by rw [hx]; rfl)
      rw [hgood.column, hgood.playerid]
      rfl
    | lane row info => exact hi.complete_lane hx
    | delete => exact hi.complete_delete hx
    | award row info => exact hend.elim
    | ing row info => exact hend.elim
    | fin row info => exact hend.elim
  | get_nextid row => exact hend.elim
  | removeto_end row k => exact hend.elim

/-! ## Runs -/

/-- **Every step with one at a time in the lanes** keeps the invariant, and
answers as it may. -/
theorem inv_step {l : Event × Output} (hi : Inv L s) (hstep : step L s l.1 = some (t, l.2))
    (hserial : Serial s l) : Inv L t ∧ Fair L s t l.2 := by
  obtain ⟨e, out⟩ := l
  change step L s e = some (t, out) at hstep
  cases e with
  | tick =>
    cases hstep
    have hsame : Same L s { s with now := s.now + 1 } := ⟨rfl, fun _ => rfl, le_rfl⟩
    exact ⟨⟨hi.store.same hsame fun _ h => h,
      hi.creating.imp_right fun ⟨c, hone, hinv⟩ => ⟨c, hone, hinv.same hsame⟩,
      fun j x hx => (hi.completing j x hx).same hsame, hi.alone⟩, trivial⟩
  | request cargo =>
    cases hstep
    -- a request is taken up only while nothing else is in the lanes
    obtain ⟨hnil, hfree⟩ : s.creating = [] ∧ Editing s.completing = false := hserial
    have hsame : Same L s { s with creating := .maxairfreighter cargo :: s.creating } :=
      ⟨rfl, fun _ => rfl, le_rfl⟩
    refine ⟨⟨hi.store.same hsame fun j hp => hp.imp_left ?_, Or.inr ⟨.maxairfreighter cargo, ?_, trivial⟩,
      fun j x hx => (hi.completing j x hx).same hsame, fun h => ?_⟩, trivial⟩
    · rintro ⟨c, hc, -⟩
      rw [hnil] at hc
      cases hc
    · change _ :: s.creating = _
      rw [hnil]
    · exact absurd (show Editing s.completing = true from h) (by simp [hfree])
  | create k pick =>
    obtain ⟨c, hc, heq⟩ := Option.map_eq_some_iff.mp hstep
    cases heq
    exact hi.create hc
  | fire timer =>
    simp only [step] at hstep
    split at hstep
    · cases hstep
      have hsame : Same L s { s with
          timers := s.timers.erase timer, waiting := timer.1 :: s.waiting } :=
        ⟨rfl, fun _ => rfl, le_rfl⟩
      exact ⟨⟨hi.store.same hsame fun _ h => h,
        hi.creating.imp_right fun ⟨c, hone, hinv⟩ => ⟨c, hone, hinv.same hsame⟩,
        fun j x hx => (hi.completing j x hx).same hsame, hi.alone⟩, trivial⟩
    · cases hstep
  | enter bqid =>
    simp only [step] at hstep
    split at hstep
    · rename_i hfree
      cases hstep
      have hnone : s.completing = none := Option.isNone_iff_eq_none.mp hfree.1
      have hsame : Same L s { s with
          waiting := s.waiting.erase bqid, completing := some (bqid, .check) } :=
        ⟨rfl, fun _ => rfl, le_rfl⟩
      refine ⟨⟨hi.store.same hsame fun j hp => hp.imp_right ?_,
        hi.creating.imp_right fun ⟨c, hone, hinv⟩ => ⟨c, hone, hinv.same hsame⟩, fun j x hx => ?_,
        nofun⟩, trivial⟩
      · rintro ⟨n, hn⟩
        rw [hnone] at hn
        cases hn
      · cases hx
        trivial
    · cases hstep
  | complete =>
    obtain ⟨⟨j, x⟩, hc, heq⟩ := Option.map_eq_some_iff.mp hstep
    cases heq
    exact ⟨hi.complete hc hserial, trivial⟩

/-- **What the invariant says of the lanes.** -/
theorem Inv.sound (hi : Inv L s) : Sound L s := by
  refine ⟨fun id hu => ?_, hi.store.bounded, hi.store.ordered⟩
  obtain ⟨row, hrow⟩ := Option.isSome_iff_exists.mp hu.row
  obtain ⟨hgood, -, hlisted⟩ := hi.store.good id row hrow
  have hmem : id ∈ s.lane L row.subtype := by
    rcases hlisted with hmem | ⟨c, hc, hmade⟩ | ⟨n, hn⟩
    · exact hmem
    · exact absurd hmade (hu.created c hc)
    · exact absurd hn (hu.running n)
  refine ⟨row.subtype, hgood.pos, hgood.le, ?_, fun j hj hid => ?_⟩
  · have hnodup : (s.lane L row.subtype).Nodup := (hi.store.ordered _).imp fun hlt => hlt.ne
    rw [hnodup.count, if_pos hmem]
  · obtain ⟨r, hr, -, hsub⟩ := hi.store.entry j id hid
    obtain rfl : row = r := Option.some.inj (hrow.symm.trans hr)
    exact hj hsub.symm

theorem Start.inv (h : Start L s) : Inv L s where
  store :=
    { ordered := fun i => by simp [h.lanes]
      entry := fun i id hid => by simp [h.lanes] at hid
      good := fun id row hrow => by simp [h.rows] at hrow
      bounded := fun i => by simp [h.lanes] }
  creating := Or.inl h.creating
  completing id x hx := by simp [h.completing] at hx
  alone hx := by simp [h.completing, Editing] at hx

/-- The runs with one coroutine at a time in the lanes. -/
def serial (L : Limits) : System State (Event × Output) := (system L).restrict Serial

/-- **Transport lanes.** In every run with one coroutine at a time in the lanes
every state is sound, and every step answers as it may. -/
theorem lanes_sound (L : Limits) {s : State} (h : (serial L).Reachable s) :
    Sound L s ∧ ∀ l t, (serial L).step s l t → Fair L s t l.2 := by
  have hi : Inv L s := by
    refine h.invariant (P := Inv L) (fun s hs => Start.inv hs) ?_
    intro s l t hstep hs
    exact (inv_step hs hstep.1 hstep.2).1
  exact ⟨hi.sound, fun l t hstep => (inv_step hi hstep.1 hstep.2).2⟩

/-- A service without transports. -/
def vacant : State where
  now := 0
  db :=
    { rows := fun _ => none
      queueinfo := fun _ _ => []
      awardid := 0
      granted := fun _ => []
      awarded := fun _ => []
      returned := fun _ => [] }
  nextid := 0
  creating := []
  timers := []
  waiting := []
  completing := none

theorem start_vacant (L : Limits) : Start L vacant :=
  ⟨fun _ => rfl, fun _ => rfl, rfl, rfl, rfl, rfl⟩

/-- An empty transport that takes a second. -/
def parcel : Cargo := ⟨[], [], [], 1⟩

/-- A request that meets no other, in `n` steps and a last one. -/
def creates (n id : ℕ) (row : Row) : List (Event × Output) :=
  (.request parcel, .silent) :: List.replicate n (.create 0 1, .silent) ++ [(.create 0 1, .created id row)]

/-- Two requests, in a player's only lane, and the completion of the first. -/
theorem lanes_sound_two : ∃ s : State, s.lane ⟨1, 1, 2⟩ 1 = [2] ∧ s.db.rows 1 = none ∧ Sound ⟨1, 1, 2⟩ s := by
  have hrun : (serial ⟨1, 1, 2⟩).Path vacant (creates 7 1 (newrow ⟨1, 1, 2⟩ parcel 1 0) ++
      creates 9 2 (newrow ⟨1, 1, 2⟩ parcel 1 1) ++ [(.tick, .silent), (.fire (1, 1), .silent), (.enter 1, .silent)] ++
      List.replicate 7 (.complete, .silent)) _ :=
    .cons ⟨rfl, rfl, rfl⟩ <| .cons ⟨rfl, trivial⟩ <| .cons ⟨rfl, trivial⟩ <| .cons ⟨rfl, trivial⟩ <|
      .cons ⟨rfl, trivial⟩ <| .cons ⟨rfl, trivial⟩ <| .cons ⟨rfl, trivial⟩ <| .cons ⟨rfl, trivial⟩ <|
      .cons ⟨rfl, trivial⟩ <| .cons ⟨rfl, rfl, rfl⟩ <| .cons ⟨rfl, trivial⟩ <| .cons ⟨rfl, trivial⟩ <|
      .cons ⟨rfl, trivial⟩ <| .cons ⟨rfl, trivial⟩ <| .cons ⟨rfl, trivial⟩ <| .cons ⟨rfl, trivial⟩ <|
      .cons ⟨rfl, trivial⟩ <| .cons ⟨rfl, trivial⟩ <| .cons ⟨rfl, trivial⟩ <| .cons ⟨rfl, trivial⟩ <|
      .cons ⟨rfl, trivial⟩ <| .cons ⟨rfl, trivial⟩ <| .cons ⟨rfl, trivial⟩ <| .cons ⟨rfl, fun _ => rfl⟩ <|
      .cons ⟨rfl, fun _ => rfl⟩ <| .cons ⟨rfl, fun _ => rfl⟩ <| .cons ⟨rfl, fun _ => rfl⟩ <|
      .cons ⟨rfl, fun _ => rfl⟩ <| .cons ⟨rfl, fun _ => rfl⟩ <| .cons ⟨rfl, fun _ => rfl⟩ <| .nil _
  exact ⟨_, rfl, rfl, (lanes_sound ⟨1, 1, 2⟩ ⟨_, _, start_vacant _, hrun⟩).1⟩

/-- **Two at a time in the lanes.** Two requests find room for one, and the lane
has two. A request adds its entry to a lane a completion has in hand, and is
in no lane when that is written back. -/
theorem lanes_unsound :
    (∃ s, (system ⟨1, 1, 1⟩).Reachable s ∧ s.lane ⟨1, 1, 1⟩ 1 = [1, 2] ∧ ¬ Sound ⟨1, 1, 1⟩ s) ∧
    (∃ s, (system ⟨1, 1, 2⟩).Reachable s ∧ s.lane ⟨1, 1, 2⟩ 1 = [] ∧ (s.db.rows 2).isSome ∧
      ¬ Sound ⟨1, 1, 2⟩ s) := by
  constructor
  · have hrun : (system ⟨1, 1, 1⟩).Path vacant
        [(.request parcel, .silent), (.create 0 1, .silent), (.create 0 1, .silent),
          (.create 0 1, .silent), (.request parcel, .silent), (.create 0 1, .silent),
          (.create 0 1, .silent), (.create 0 1, .silent), (.create 1 1, .silent),
          (.create 0 1, .silent), (.create 0 1, .silent), (.create 0 1, .silent),
          (.create 0 1, .created 1 (newrow ⟨1, 1, 1⟩ parcel 1 0)), (.create 0 1, .silent),
          (.create 0 1, .silent), (.create 0 1, .silent), (.create 0 1, .silent),
          (.create 0 1, .silent),
          (.create 0 1, .created 2 (newrow ⟨1, 1, 1⟩ parcel 1 1))] _ :=
      .cons rfl (.cons rfl (.cons rfl (.cons rfl (.cons rfl (.cons rfl (.cons rfl (.cons rfl
        (.cons rfl (.cons rfl (.cons rfl (.cons rfl (.cons rfl (.cons rfl (.cons rfl (.cons rfl
        (.cons rfl (.cons rfl (.cons rfl (.nil _)))))))))))))))))))
    refine ⟨_, ⟨_, _, start_vacant _, hrun⟩, rfl, fun h => ?_⟩
    exact absurd (show (2 : ℕ) ≤ 1 from h.bounded 1) (by decide)
  · have hrun : (system ⟨1, 1, 2⟩).Path vacant
        (creates 7 1 (newrow ⟨1, 1, 2⟩ parcel 1 0) ++ [(.tick, .silent), (.fire (1, 1), .silent), (.enter 1, .silent)] ++
          List.replicate 5 (.complete, .silent) ++ creates 9 2 (newrow ⟨1, 1, 2⟩ parcel 1 1) ++ [(.complete, .silent)]) _ :=
      .cons rfl (.cons rfl (.cons rfl (.cons rfl (.cons rfl (.cons rfl (.cons rfl (.cons rfl
        (.cons rfl (.cons rfl (.cons rfl (.cons rfl (.cons rfl (.cons rfl (.cons rfl (.cons rfl
        (.cons rfl (.cons rfl (.cons rfl (.cons rfl (.cons rfl (.cons rfl (.cons rfl (.cons rfl
        (.cons rfl (.cons rfl (.cons rfl (.cons rfl (.cons rfl
        (.nil _)))))))))))))))))))))))))))))
    refine ⟨_, ⟨_, _, start_vacant _, hrun⟩, rfl, rfl, fun h => ?_⟩
    obtain ⟨i, hpos, hle, hcount, -⟩ := h.listed 2 ⟨rfl, fun _ hx => (nomatch hx), fun _ hx => nomatch hx⟩
    obtain rfl : i = 1 := Nat.le_antisymm hle hpos
    exact absurd (show (0 : ℕ) = 1 from hcount) (by decide)

end Lanes

end Queue

end Athena
