import Athena.Common.System
import Athena.Prices.Aligned
/-!
# The price history of blueprints — runs

The server starts after any number of days, the prices move at midnight, and
trades are recorded in between. Every row stays aligned with today where a start on
another day is in the same year and has no row to add, and where a trade finds a row or
no name to add one with (`rows_aligned`): the gap is a difference of days of the year, it
is taken from one row for all, and a row that a trade adds is one entry too short. The
id of a scanned machine has no name (`tradename_scanned`).
-/

namespace Athena

namespace Prices

open Calendar Lua

/-! ## Starts -/

variable {m : Machines} {zone t begintime zero : ℤ} {keys blueprint : List ℤ} {index : ℤ → ℚ}
  {rows : List (ℤ × Blueprint)} {row : Blueprint} {d : Data}

/-- All rows are of a day. -/
def AllAligned (zero : ℤ) (rows : List (ℤ × Blueprint)) : Prop :=
  ∀ r ∈ rows, Aligned zero r.2

theorem dayOf_midnight (zone day : ℤ) : dayOf zone (midnight zone day) = day := by
  simp only [dayOf, midnight]
  omega

/-- A loop over rows that succeeds on each. -/
theorem mapM_aligned {f : Blueprint → Option Blueprint} {zero' : ℤ}
    (hf : ∀ row, Aligned zero row → ∃ row', f row = some row' ∧ Aligned zero' row')
    (h : AllAligned zero rows) : ∃ rows', rows.mapM (fun r => (f r.2).map (r.1, ·)) = some rows' ∧
      AllAligned zero' rows' := by
  induction rows with
  | nil => exact ⟨[], rfl, by simp [AllAligned]⟩
  | cons r rows ih =>
    obtain ⟨row', hrow, haligned⟩ := hf r.2 (h r List.mem_cons_self)
    obtain ⟨rows', hrows, hall⟩ := ih fun r' hr' => h r' (List.mem_cons_of_mem _ hr')
    refine ⟨(r.1, row') :: rows', ?_, ?_⟩
    · simp only [List.mapM_cons, hrow, Option.map_some, Option.bind_eq_bind, Option.bind_some, hrows]
      rfl
    · intro r' hr'
      rcases List.mem_cons.mp hr' with rfl | hr'
      · exact haligned
      · exact hall r' hr'

theorem fresh_aligned (zero : ℤ) : Aligned zero ⟨day24 zero, days30 zero⟩ :=
  ⟨day24_slots zero, days30_slots zero⟩

/-- Rows that are added are of today. -/
theorem addrows_aligned (h : AllAligned zero rows) : AllAligned zero (addrows keys zero rows) := by
  induction keys generalizing rows with
  | nil => exact h
  | cons key keys ih =>
    refine ih ?_
    dsimp only
    split
    · exact h
    · intro r hr
      rcases List.mem_append.mp hr with hr | hr
      · exact h r hr
      · rw [List.mem_singleton.mp hr]
        exact fresh_aligned zero

/-- Where every blueprint has a row none is added. -/
theorem addrows_eq (h : ∀ key ∈ keys, (rows.lookup key).isSome) :
    addrows keys zero rows = rows := by
  induction keys with
  | nil => rfl
  | cons key keys ih =>
    rw [addrows, List.foldl_cons, if_pos (h key List.mem_cons_self)]
    exact ih fun key' hkey' => h key' (List.mem_cons_of_mem _ hkey')

/-- **The gap of aligned rows** is one between days of the year. -/
theorem gapnum_aligned {day : ℤ} (h : AllAligned (midnight zone day) rows) (hne : rows ≠ []) :
    gapnum zone begintime rows = some (some (begintime - yday day)) := by
  obtain ⟨⟨key, row⟩, rest, rfl⟩ := List.exists_cons_of_ne_nil hne
  obtain ⟨p, -, hget⟩ := (h _ List.mem_cons_self).arr.2 0 (by omega)
  have hhead : row.arr.head? = some (slot (midnight zone day) p) := by
    rw [List.head?_eq_getElem?]
    simpa [halfhour] using hget
  simp only [gapnum, hhead, Option.bind_eq_bind, Option.bind_some]
  have hkeys : (slot (midnight zone day) p).keys.head? = some (midnight zone day) := rfl
  rw [hkeys, Option.map_some, gaptime, dayOf_midnight]

/-- The rows of a day are brought to today. -/
theorem catchups_aligned {day : ℤ} (h : AllAligned (midnight zone day) rows)
    (hday : day ≤ dayOf zone t) : ∃ rows',
      catchups (zerotime zone t) (some (dayOf zone t - day)) rows = some rows' ∧
        AllAligned (zerotime zone t) rows' := by
  have hzero : midnight zone day = zerotime zone t - (dayOf zone t - day) * 86400 := by
    simp only [zerotime, midnight]
    omega
  simp only [catchups]
  split
  · rename_i heq
    refine ⟨rows, rfl, ?_⟩
    rw [hzero, heq, zero_mul, sub_zero] at h
    exact h
  · rw [hzero] at h
    exact mapM_aligned (fun row hrow => catchup_aligned (by omega) hrow) h

/-- **A start that finds aligned rows**: on their own day, without rows, or on
another day of their year without a row to add. -/
theorem initprice_aligned (zone : ℤ) (blueprint : List ℤ) (index : ℤ → ℚ) {t day : ℤ} {d : Data}
    (h : AllAligned (midnight zone day) d.rows) (hday : day ≤ dayOf zone t)
    (hok : dayOf zone t = day ∨ d.rows = [] ∨
      (ofDay (dayOf zone t)).year = (ofDay day).year ∧
        ∀ key ∈ blueprint, (d.rows.lookup key).isSome) :
    ∃ d', initprice zone blueprint index t d = some d' ∧ AllAligned (zerotime zone t) d'.rows ∧
      d'.marketinfo = marketdays index (zerotime zone t) := by
  -- the rows after some were added are all of one day, and the gap is that to today
  obtain ⟨day', hday', hrows, hyear⟩ : ∃ day' ≤ dayOf zone t,
      AllAligned (midnight zone day') (addrows blueprint (zerotime zone t) d.rows) ∧
        (ofDay (dayOf zone t)).year = (ofDay day').year := by
    rcases hok with heq | hnil | ⟨hyear, hkeys⟩
    · refine ⟨dayOf zone t, le_rfl, addrows_aligned ?_, rfl⟩
      rw [heq]
      exact h
    · refine ⟨dayOf zone t, le_rfl, addrows_aligned ?_, rfl⟩
      simp [AllAligned, hnil]
    · refine ⟨day, hday, ?_, hyear⟩
      rw [addrows_eq hkeys]
      exact h
  obtain ⟨rows, hadd⟩ : ∃ rows, rows = addrows blueprint (zerotime zone t) d.rows := ⟨_, rfl⟩
  rw [← hadd] at hrows
  obtain ⟨gap, rows', hgap, hcatchups, haligned⟩ : ∃ gap rows',
      gapnum zone (yday (dayOf zone t)) rows = some gap ∧
        catchups (zerotime zone t) gap rows = some rows' ∧
        AllAligned (zerotime zone t) rows' := by
    rcases eq_or_ne rows [] with rfl | hne
    · exact ⟨none, [], rfl, rfl, by simp [AllAligned]⟩
    · obtain ⟨rows', hcatchups, haligned⟩ := catchups_aligned hrows hday'
      rw [gapnum_aligned hrows hne, yday_sub hyear]
      exact ⟨_, rows', rfl, hcatchups, haligned⟩
  refine ⟨⟨rows', marketdays index (zerotime zone t)⟩, ?_, haligned, rfl⟩
  simp only [initprice, ← hadd, hgap, hcatchups, Option.bind_eq_bind, Option.bind_some]

/-- **Midnight.** -/
theorem updatesys_aligned (zone : ℤ) (index : ℤ → ℚ) {t day : ℤ} {d : Data}
    (h : AllAligned (midnight zone day) d.rows) (hday : dayOf zone t = day + 1) :
    ∃ d', updatesys zone index t d = some d' ∧ AllAligned (zerotime zone t) d'.rows ∧
      d'.marketinfo = marketdays index (zerotime zone t) := by
  have hzero : midnight zone day = zerotime zone t - 86400 := by
    simp only [zerotime, midnight, hday]
    omega
  rw [hzero] at h
  obtain ⟨rows', hrows, haligned⟩ := mapM_aligned (fun row hrow => nextday_aligned hrow) h
  refine ⟨⟨rows', marketdays index (zerotime zone t)⟩, ?_, haligned, rfl⟩
  simp only [updatesys, hrows, Option.bind_eq_bind, Option.bind_some]

/-- **A trade of a blueprint that has a row.** -/
theorem khoriumbuy_aligned (m : Machines) (zone : ℤ) {t cfgid : ℤ} {oneprice : ℚ} {d : Data}
    (h : AllAligned (zerotime zone t) d.rows) (hrow : (d.rows.lookup cfgid).isSome)
    (hprice : 0 ≤ oneprice) :
    ∃ d', khoriumbuy m zone t cfgid oneprice d = some d' ∧ AllAligned (zerotime zone t) d'.rows ∧
      d'.marketinfo = d.marketinfo := by
  obtain ⟨row, hlookup⟩ := Option.isSome_iff_exists.mp hrow
  have hmem : (cfgid, row) ∈ d.rows := by
    obtain ⟨l₁, l₂, heq, -⟩ := List.lookup_eq_some_iff.mp hlookup
    simp [heq]
  obtain ⟨row', htrade, haligned⟩ := trade_aligned hprice (h _ hmem)
  refine ⟨⟨d.rows.map fun r => if r.1 = cfgid then (cfgid, row') else r, d.marketinfo⟩, ?_, ?_, rfl⟩
  · simp only [khoriumbuy, hlookup, htrade, Option.bind_eq_bind, Option.bind_some]
  · intro r hr
    obtain ⟨r', hr', rfl⟩ := List.mem_map.mp hr
    split
    · exact haligned
    · exact h r' hr'

/-- **A trade without a row and without a name** raises. -/
theorem khoriumbuy_raises {cfgid : ℤ} (hrow : d.rows.lookup cfgid = none) (hname : tradename m cfgid = none)
    (zone t : ℤ) (oneprice : ℚ) : khoriumbuy m zone t cfgid oneprice d = none := by
  simp only [khoriumbuy, hrow, hname, Option.bind_eq_bind, Option.bind_none]

/-- A loop over rows keeps their ids. -/
theorem mapM_keys {f : Blueprint → Option Blueprint} {rows' : List (ℤ × Blueprint)}
    (h : rows.mapM (fun r => (f r.2).map (r.1, ·)) = some rows') : rows'.map Prod.fst = rows.map Prod.fst := by
  induction rows generalizing rows' with
  | nil =>
    cases h
    rfl
  | cons r rows ih =>
    rw [List.mapM_cons] at h
    obtain ⟨r', hr', h⟩ := Option.bind_eq_some_iff.mp h
    obtain ⟨rest, hrest, h⟩ := Option.bind_eq_some_iff.mp h
    obtain ⟨row', -, rfl⟩ := Option.map_eq_some_iff.mp hr'
    cases h
    rw [List.map_cons, List.map_cons, ih hrest]

theorem updatesys_keys {d' : Data} (h : updatesys zone index t d = some d') :
    d'.rows.map Prod.fst = d.rows.map Prod.fst := by
  obtain ⟨rows', hrows, h⟩ := Option.bind_eq_some_iff.mp h
  cases h
  exact mapM_keys hrows

theorem khoriumbuy_keys {cfgid : ℤ} {oneprice : ℚ} {d' : Data} (hrow : (d.rows.lookup cfgid).isSome)
    (h : khoriumbuy m zone t cfgid oneprice d = some d') : d'.rows.map Prod.fst = d.rows.map Prod.fst := by
  obtain ⟨row, hlookup⟩ := Option.isSome_iff_exists.mp hrow
  simp only [khoriumbuy, hlookup] at h
  obtain ⟨row', -, h⟩ := Option.bind_eq_some_iff.mp h
  cases h
  rw [List.map_map]
  refine List.map_congr_left fun r _ => ?_
  rw [Function.comp_apply]
  split
  · rename_i heq
    exact heq.symm
  · rfl

/-! ## Readers -/

/-- **A reader finds every price it looks up.** -/
def Finds (r : Option (List Point)) : Prop := ∃ ps, r = some ps ∧ ∀ p ∈ ps, p.2 ≠ none

/-- A reader finds what it finds at each place. -/
theorem finds_mapM {α : Type} {l : List α} {f : α → Option Point}
    (h : ∀ a ∈ l, ∃ p, f a = some p ∧ p.2 ≠ none) : Finds (l.mapM f) := by
  induction l with
  | nil => exact ⟨[], rfl, by simp⟩
  | cons a l ih =>
    obtain ⟨p, hp, hne⟩ := h a List.mem_cons_self
    obtain ⟨ps, hps, hall⟩ := ih fun b hb => h b (List.mem_cons_of_mem _ hb)
    refine ⟨p :: ps, ?_, ?_⟩
    · simp only [List.mapM_cons, hp, Option.bind_eq_bind, Option.bind_some, hps]
      rfl
    · intro q hq
      rcases List.mem_cons.mp hq with rfl | hq
      · exact hne
      · exact hall q hq

/-- A place of an array at its own time. -/
theorem Slots.point {P : ℚ → Prop} {n : ℕ} {time : ℕ → ℤ} {l : List Slot} (h : Slots P n time l)
    {i : ℕ} (hi : i < n) : ∃ p, point l (i + 1) (time i) = some p ∧ p.2 ≠ none := by
  obtain ⟨p, -, hget⟩ := h.at1 hi
  exact ⟨(time i, some p), by simp [Prices.point, hget], by simp⟩

theorem oneday_finds (h : Aligned (zerotime zone t) row) : Finds (oneday zone t row) := by
  obtain ⟨-, h48, -⟩ := indextime_spec zone t
  refine finds_mapM fun i hi => h.arr.point ?_
  have := List.mem_range.mp hi
  omega

/-- The days of an array that has as many. -/
theorem daysFrom_finds {P : ℚ → Prop} {n m : ℕ} {l : List Slot} {first : ℕ → ℕ → List ℕ}
    (h : Slots P (3 * n) (dayThird (zerotime zone t)) l) (hm : m ≤ n)
    (hfirst : ∀ i, ∀ j ∈ first (third zone t) i, j < 3) : Finds (daysFrom zone t l first m) := by
  refine finds_mapM fun p hp => ?_
  obtain ⟨i, hi, hp⟩ := List.mem_flatMap.mp hp
  obtain ⟨j, hj, rfl⟩ := List.mem_map.mp hp
  have hj3 := hfirst i j hj
  have him : i < m := by simpa using hi
  have htime : zerotime zone t - (i : ℤ) * (24 * 3600) + (j : ℤ) * (8 * 3600)
      = dayThird (zerotime zone t) (i * 3 + j) := by
    simp only [dayThird]
    omega
  rw [htime]
  exact h.point (by omega)

theorem bluedetails_finds (h : Aligned (zerotime zone t) row) {n : ℕ} (hn : n ≤ 30) :
    Finds (bluedetails zone t row n) := by
  obtain ⟨-, h3⟩ := third_spec zone t
  refine daysFrom_finds (n := 30) h.arrday hn fun i j hj => ?_
  have hlt := List.mem_range.mp hj
  split at hlt <;> omega

theorem marketpic_finds (h : d.marketinfo = marketdays index (zerotime zone t)) :
    Finds (marketpic zone t d) := by
  obtain ⟨-, h3⟩ := third_spec zone t
  unfold marketpic
  rw [h]
  refine daysFrom_finds (n := 8) (marketdays_slots index _) le_rfl fun i j hj => ?_
  split at hj
  · have hlt := List.mem_range.mp hj
    omega
  · split at hj
    · simp only [List.mem_cons, List.not_mem_nil, or_false] at hj
      omega
    · exact List.mem_range.mp hj

theorem initmarket_finds (h : Aligned (zerotime zone t) row) :
    ∃ cur zero, initmarket zone t row = some (some cur, some zero) := by
  obtain ⟨h1, h48, hnear⟩ := indextime_spec zone t
  obtain ⟨i, hi⟩ : ∃ i, indextime zone t = i + 1 := ⟨indextime zone t - 1, by omega⟩
  rw [hi, Nat.add_sub_cancel] at hnear
  obtain ⟨p, -, hcur⟩ := h.arr.at1 (show i < 48 by omega)
  obtain ⟨q, -, hzero⟩ := h.arrday.at1 (show 0 < 90 by omega)
  have htime : dayThird (zerotime zone t) 0 = zerotime zone t := by simp [dayThird]
  rw [htime] at hzero
  have hlookup : (slot (halfhour (zerotime zone t) i) p).lookup (neartime zone t) = some p :=
    hnear ▸ slot_lookup
  refine ⟨p, q, ?_⟩
  simp only [initmarket, point, hi, hcur, zero_add] at hzero ⊢
  simp [hzero, hlookup]

/-! ## Where it goes wrong -/

/-- **The row of a first trade** has one entry too few, where it comes to it: of today only
the second and the last third. -/
theorem firsttrade_length (zone t : ℤ) (oneprice : ℚ) :
    (firsttrade zone t oneprice).arrday.length = 89 := by
  have hdays : (firsttrade zone t oneprice).arrday.length
      = ((List.range 30).map fun i => if i = 0 then 2 else 3).sum := by
    rw [firsttrade, List.length_flatMap]
    refine congrArg List.sum (List.map_congr_left fun i _ => ?_)
    split <;> simp
  rw [hdays]
  decide

theorem firsttrade_not_aligned (zone t : ℤ) (oneprice : ℚ) :
    ¬ Aligned zero (firsttrade zone t oneprice) := by
  intro h
  have hlen := h.arrday.1
  rw [firsttrade_length] at hlen
  omega

/-- **A start in a new year** counts a gap below zero and leaves `arrday` where it
was. -/
theorem catchup_negative {gap zero' : ℤ} {row' : Blueprint} (hgap : gap < 0) (hne : zero' ≠ zero)
    (h : Aligned zero' row) (hrun : catchup zero gap row = some row') : ¬ Aligned zero row' := by
  have hnat : gap.toNat = 0 := by omega
  simp only [catchup, hnat, pushDays, Option.bind_eq_bind, Option.bind_some,
    Option.some.injEq] at hrun
  subst hrun
  intro h'
  obtain ⟨p, -, hp⟩ := h.arrday.2 0 (by omega)
  obtain ⟨q, -, hq⟩ := h'.arrday.2 0 (by omega)
  rw [hp] at hq
  have hkeys := congrArg AList.keys (Option.some.inj hq)
  simp only [slot, AList.keys_singleton, List.cons.injEq, and_true, dayThird] at hkeys
  omega

/-- The tables of parts. -/
def machines : Machines where
  machinebody id := [(10001, "战狂机甲".toList), (10002, "裁决机甲".toList), (10003, "神赋机甲".toList),
    (10008, "王御机甲".toList)].lookup id
  machinechassis id := [(10001, "飞袭".toList), (10002, "推进".toList), (10003, "跃动".toList)].lookup id
  firecontrol id := [(10001, "壹型".toList), (10002, "贰型".toList), (10003, "叁型".toList), (10008, "捌型".toList),
    (90002, "壹型".toList)].lookup id

/-- The id that a scan gives a machine, `1 .. chassis .. 2 .. body .. 3 .. firecontroller`. -/
def scanned (chassis body firecontroller : ℤ) : ℤ :=
  ((((1 * 10 ^ 5 + chassis) * 10 + 2) * 10 ^ 5 + body) * 10 + 3) * 10 ^ 5 + firecontroller

/-- **No scanned machine has a name at its first trade.** -/
theorem tradename_scanned : ∀ chassis ∈ [10001, 10002, 10003], ∀ body ∈ [10001, 10002, 10003, 10008],
    ∀ firecontroller ∈ [10001, 10002, 10003, 10008, 90002],
      tradename machines (scanned chassis body firecontroller) = none := by
  decide +kernel

/-! ## Runs -/

/-- The services, the day of the last start or midnight, and whether there was a
start. -/
structure Server where
  data : Data
  day : ℤ
  running : Bool

inductive Event
  | start (t : ℤ)
  | midnight (t : ℤ)
  | trade (t cfgid : ℤ) (oneprice : ℚ)

/-- One event: a start on the same day or later, the update of the midnight after,
or a trade on the day. A trade that raises leaves the rows as they are. -/
inductive Step (m : Machines) (zone : ℤ) (blueprint : List ℤ) (index : ℤ → ℚ) : Server → Event → Server → Prop
  | start {s : Server} {t : ℤ} {d : Data} : s.day ≤ dayOf zone t →
      initprice zone blueprint index t s.data = some d →
      Step m zone blueprint index s (.start t) ⟨d, dayOf zone t, true⟩
  | midnight {s : Server} {t : ℤ} {d : Data} : s.running = true → dayOf zone t = s.day + 1 →
      updatesys zone index t s.data = some d →
      Step m zone blueprint index s (.midnight t) ⟨d, dayOf zone t, true⟩
  | trade {s : Server} {t cfgid : ℤ} {oneprice : ℚ} : s.running = true → dayOf zone t = s.day →
      Step m zone blueprint index s (.trade t cfgid oneprice)
        ⟨(khoriumbuy m zone t cfgid oneprice s.data).getD s.data, s.day, true⟩

/-- **The server**, from rows of some day on, or none. -/
def system (m : Machines) (zone : ℤ) (blueprint : List ℤ) (index : ℤ → ℚ) : System Server Event where
  init s := AllAligned (Calendar.midnight zone s.day) s.data.rows ∧ s.running = false
  step := Step m zone blueprint index

/-- **What the readers need**: all rows are of today, and every chart of any time
of the day finds its prices. -/
structure Readable (zone : ℤ) (s : Server) : Prop where
  aligned : AllAligned (Calendar.midnight zone s.day) s.data.rows
  charts : ∀ r ∈ s.data.rows, ∀ t, dayOf zone t = s.day → Finds (oneday zone t r.2) ∧
    Finds (bluedetails zone t r.2 7) ∧ Finds (bluedetails zone t r.2 30) ∧
      ∃ cur zero, initmarket zone t r.2 = some (some cur, some zero)
  market : s.running = true → ∀ t, dayOf zone t = s.day → Finds (marketpic zone t s.data)

/-- **The days of the year tell the gap, and no trade adds a row.** A start is on
the day of the rows, or there are no rows, or it is in their year and every
blueprint has a row; a trade is of something that has a row, and its price is not
negative, or of something that has neither a row nor a name. -/
def Tells (m : Machines) (zone : ℤ) (blueprint : List ℤ) (s : Server) : Event → Prop
  | .start t => dayOf zone t = s.day ∨ s.data.rows = [] ∨
      (ofDay (dayOf zone t)).year = (ofDay s.day).year ∧
        ∀ key ∈ blueprint, (s.data.rows.lookup key).isSome
  | .midnight _ => True
  | .trade _ cfgid oneprice => (s.data.rows.lookup cfgid).isSome ∧ 0 ≤ oneprice ∨
      s.data.rows.lookup cfgid = none ∧ tradename m cfgid = none

/-- **The invariant.** -/
structure Kept (zone : ℤ) (index : ℤ → ℚ) (s : Server) : Prop where
  aligned : AllAligned (Calendar.midnight zone s.day) s.data.rows
  market : s.running = true → s.data.marketinfo = marketdays index (Calendar.midnight zone s.day)

variable {s s' : Server} {e : Event}

theorem Kept.readable (h : Kept zone index s) : Readable zone s := by
  refine ⟨h.aligned, fun r hr t ht => ?_, fun hrun t ht => ?_⟩
  · have hrow : Aligned (zerotime zone t) r.2 := by
      rw [zerotime, ht]
      exact h.aligned r hr
    exact ⟨oneday_finds hrow, bluedetails_finds hrow (by omega), bluedetails_finds hrow le_rfl,
      initmarket_finds hrow⟩
  · have hdays : s.data.marketinfo = marketdays index (zerotime zone t) := by
      rw [zerotime, ht]
      exact h.market hrun
    exact marketpic_finds hdays

/-- **An event returns**, and keeps the rows aligned. -/
theorem kept_step (hstep : ((system m zone blueprint index).restrict (Tells m zone blueprint)).step s e s')
    (h : Kept zone index s) : Kept zone index s' := by
  obtain ⟨hstep, htells⟩ := hstep
  cases hstep with
  | start hday hrun =>
    obtain ⟨d', hd', haligned, hmarket⟩ :=
      initprice_aligned zone blueprint index h.aligned hday htells
    rw [hrun] at hd'
    cases hd'
    exact ⟨haligned, fun _ => hmarket⟩
  | midnight hrunning hday hrun =>
    obtain ⟨d', hd', haligned, hmarket⟩ := updatesys_aligned zone index h.aligned hday
    rw [hrun] at hd'
    cases hd'
    exact ⟨haligned, fun _ => hmarket⟩
  | @trade t cfgid oneprice hrunning hday =>
    rcases htells with ⟨hrow, hprice⟩ | ⟨hrow, hname⟩
    · have hzero : zerotime zone t = Calendar.midnight zone s.day := by rw [zerotime, hday]
      obtain ⟨d', hd', haligned, hmarket⟩ :=
        khoriumbuy_aligned m zone (hzero ▸ h.aligned) hrow hprice
      rw [hd', Option.getD_some]
      exact ⟨hzero ▸ haligned, fun _ => hmarket.trans (h.market hrunning)⟩
    · rw [khoriumbuy_raises hrow hname, Option.getD_none]
      exact ⟨h.aligned, fun _ => h.market hrunning⟩

/-- The events that may come: in time order, and after a start. -/
def Comes (zone : ℤ) (s : Server) : Event → Prop
  | .start t => s.day ≤ dayOf zone t
  | .midnight t => s.running = true ∧ dayOf zone t = s.day + 1
  | .trade t _ _ => s.running = true ∧ dayOf zone t = s.day

/-- Starts and updates return. -/
theorem step_total (h : Kept zone index s) (hcomes : Comes zone s e)
    (htells : Tells m zone blueprint s e) :
    ∃ s', (system m zone blueprint index).step s e s' := by
  cases e with
  | start t =>
    obtain ⟨d', hd', -⟩ := initprice_aligned zone blueprint index h.aligned hcomes htells
    exact ⟨_, Step.start hcomes hd'⟩
  | midnight t =>
    obtain ⟨d', hd', -⟩ := updatesys_aligned zone index h.aligned hcomes.2
    exact ⟨_, Step.midnight hcomes.1 hcomes.2 hd'⟩
  | trade t cfgid oneprice => exact ⟨_, Step.trade hcomes.1 hcomes.2⟩

/-- So do trades of something that has a row. -/
theorem Kept.records (h : Kept zone index s) {cfgid : ℤ} {oneprice : ℚ} (hcomes : Comes zone s (.trade t cfgid oneprice))
    (hrow : (s.data.rows.lookup cfgid).isSome) (hprice : 0 ≤ oneprice) :
    ∃ d, khoriumbuy m zone t cfgid oneprice s.data = some d := by
  have hzero : zerotime zone t = Calendar.midnight zone s.day := by rw [zerotime, hcomes.2]
  obtain ⟨d, hd, -⟩ := khoriumbuy_aligned m zone (hzero ▸ h.aligned) hrow hprice
  exact ⟨d, hd⟩

/-- **Where the days of the year tell the gap and no trade adds a row, every row
is aligned with today, every reader finds its prices, and the next event returns**, a
trade where it finds a row. -/
theorem rows_aligned (m : Machines) (zone : ℤ) (blueprint : List ℤ) (index : ℤ → ℚ) {s : Server}
    (h : ((system m zone blueprint index).restrict (Tells m zone blueprint)).Reachable s) :
    Readable zone s ∧ (∀ e, Comes zone s e → Tells m zone blueprint s e →
      ∃ s', (system m zone blueprint index).step s e s') ∧
      ∀ t cfgid oneprice, Comes zone s (.trade t cfgid oneprice) → (s.data.rows.lookup cfgid).isSome →
        0 ≤ oneprice → ∃ d, khoriumbuy m zone t cfgid oneprice s.data = some d := by
  have hkept : Kept zone index s :=
    System.Reachable.invariant (T := (system m zone blueprint index).restrict (Tells m zone blueprint))
      (fun s hs => ⟨hs.1, fun hrun => absurd (hs.2.symm.trans hrun) Bool.false_ne_true⟩)
      (fun _ _ _ => kept_step) h
  exact ⟨hkept.readable, fun e => step_total hkept, fun t cfgid oneprice => hkept.records⟩

/-- A server that was never started, on the first of January 2020. -/
def newServer : Server := ⟨⟨[], []⟩, 18262, false⟩

/-- It starts with one blueprint. -/
def startedServer : Server :=
  ⟨⟨[(110001, ⟨day24 1577808000, days30 1577808000⟩)], marketdays (fun _ => 0) 1577808000⟩, 18262, true⟩

theorem newServer_init : (system machines 28800 [110001] fun _ => 0).init newServer :=
  ⟨by simp [newServer, AllAligned], rfl⟩

theorem newServer_start : (system machines 28800 [110001] fun _ => 0).step newServer (.start 1577808000) startedServer :=
  Step.start (by decide) rfl

/-- The blueprint is traded at half past nine and a machine at ten, and a day passes. -/
def dayEvents : List Event :=
  [.start 1577808000, .trade 1577842200 110001 5, .trade 1577844000 110001210001310001 5, .midnight 1577894400]

/-- The day has its row, and what it leaves is readable. -/
theorem rows_aligned_day : ∃ s, ((system machines 28800 [110001] fun _ => 0).restrict
    (Tells machines 28800 [110001])).Path newServer dayEvents s ∧
      s.data.rows.map Prod.fst = [110001] ∧ Readable 28800 s := by
  have hfirst : AllAligned (zerotime 28800 1577842200) startedServer.data.rows := by
    intro r hr
    rw [List.mem_singleton.mp hr]
    exact fresh_aligned _
  obtain ⟨d₁, hd₁, haligned₁, -⟩ : ∃ d, khoriumbuy machines 28800 1577842200 110001 5 startedServer.data = some d ∧
      AllAligned (zerotime 28800 1577842200) d.rows ∧ d.marketinfo = startedServer.data.marketinfo :=
    khoriumbuy_aligned machines 28800 hfirst rfl (by norm_num)
  have hkeys₁ : d₁.rows.map Prod.fst = [110001] := khoriumbuy_keys rfl hd₁
  have hunnamed : tradename machines 110001210001310001 = none :=
    tradename_scanned 10001 (by simp) 10001 (by simp) 10001 (by simp)
  have hunlisted : d₁.rows.lookup 110001210001310001 = none := by
    rw [List.lookup_eq_none_iff]
    intro r hr
    have hkey := List.mem_map_of_mem (f := Prod.fst) hr
    rw [hkeys₁, List.mem_singleton] at hkey
    rw [hkey]
    rfl
  obtain ⟨d₂, hd₂, -, -⟩ : ∃ d, updatesys 28800 (fun _ => 0) 1577894400 d₁ = some d ∧
      AllAligned (zerotime 28800 1577894400) d.rows ∧ d.marketinfo = marketdays (fun _ => 0) (zerotime 28800 1577894400) :=
    updatesys_aligned 28800 (fun _ => 0) haligned₁ (by decide)
  have htraded : (system machines 28800 [110001] fun _ => 0).step startedServer (.trade 1577842200 110001 5)
      ⟨d₁, 18262, true⟩ := by
    have hstep : (system machines 28800 [110001] fun _ => 0).step startedServer (.trade 1577842200 110001 5)
        ⟨(khoriumbuy machines 28800 1577842200 110001 5 startedServer.data).getD startedServer.data, 18262, true⟩ :=
      Step.trade rfl (by decide)
    rwa [hd₁, Option.getD_some] at hstep
  have hraised : (system machines 28800 [110001] fun _ => 0).step ⟨d₁, 18262, true⟩
      (.trade 1577844000 110001210001310001 5) ⟨d₁, 18262, true⟩ := by
    have hstep : (system machines 28800 [110001] fun _ => 0).step ⟨d₁, 18262, true⟩
        (.trade 1577844000 110001210001310001 5)
        ⟨(khoriumbuy machines 28800 1577844000 110001210001310001 5 d₁).getD d₁, 18262, true⟩ :=
      Step.trade rfl rfl
    rwa [khoriumbuy_raises hunlisted hunnamed, Option.getD_none] at hstep
  have hmidnight : (system machines 28800 [110001] fun _ => 0).step ⟨d₁, 18262, true⟩ (.midnight 1577894400)
      ⟨d₂, 18263, true⟩ := Step.midnight rfl rfl hd₂
  have hpath : ((system machines 28800 [110001] fun _ => 0).restrict (Tells machines 28800 [110001])).Path newServer
      dayEvents ⟨d₂, 18263, true⟩ :=
    .cons ⟨newServer_start, Or.inr (Or.inl rfl)⟩ (.cons ⟨htraded, Or.inl ⟨rfl, by norm_num⟩⟩
      (.cons ⟨hraised, Or.inr ⟨hunlisted, hunnamed⟩⟩ (.cons ⟨hmidnight, trivial⟩ (.nil _))))
  have h := rows_aligned machines 28800 [110001] (fun _ => 0) ⟨newServer, _, newServer_init, hpath⟩
  exact ⟨_, hpath, (updatesys_keys hd₂).trans hkeys₁, h.1⟩

/-- A server of the day before, with one row. -/
def oldServer : Server := ⟨⟨[(110001, ⟨day24 1577721600, days30 1577721600⟩)], []⟩, 18261, false⟩

/-- It starts in the new year: the half hours are of today, and the days are not. -/
def newyearServer : Server :=
  ⟨⟨[(110001, ⟨day24 1577808000, days30 1577721600⟩)], marketdays (fun _ => 0) 1577808000⟩, 18262, true⟩

/-- **A start in a new year** leaves a row that is not aligned. -/
theorem not_aligned : ¬ ∀ m zone blueprint index s, (system m zone blueprint index).Reachable s →
    AllAligned (Calendar.midnight zone s.day) s.data.rows := by
  intro h
  have hinit : (system machines 28800 [110001] fun _ => 0).init oldServer := by
    refine ⟨fun r hr => ?_, rfl⟩
    rw [List.mem_singleton.mp hr]
    exact fresh_aligned _
  have hstart : (system machines 28800 [110001] fun _ => 0).step oldServer (.start 1577808000) newyearServer :=
    Step.start (by decide) rfl
  have haligned := h machines 28800 [110001] (fun _ => 0) newyearServer ⟨oldServer, _, hinit, .cons hstart (.nil _)⟩
  have hrun : catchup 1577808000 (-364) ⟨day24 1577721600, days30 1577721600⟩ =
      some ⟨day24 1577808000, days30 1577721600⟩ := rfl
  exact catchup_negative (by decide) (by decide) (fresh_aligned _) hrun (haligned _ List.mem_cons_self)

end Prices

end Athena
