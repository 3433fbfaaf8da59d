import Athena.Prices.Model
import Mathlib.Data.Rat.Floor
import Mathlib.Tactic.Linarith
/-!
# The price history of blueprints — rows that are aligned

`Slots P n time l`: entry `i` of `l` is at `time i` with a price in `P`, for `n`
entries. A row is `Aligned` with a midnight when its arrays are at the half hours
of that day and the thirds of the last thirty. A day that ends moves the thirds
by three (`nextday_aligned`), a start after some days as often as there are days
(`catchup_aligned`), and a trade keeps each entry where it is.
-/

namespace Athena

namespace Prices

open Calendar

/-- **Entries at given times**, with prices that meet `P`. -/
def Slots (P : ℚ → Prop) (n : ℕ) (time : ℕ → ℤ) (l : List Slot) : Prop :=
  l.length = n ∧ ∀ i < n, ∃ p, P p ∧ l[i]? = some (slot (time i) p)

/-- The half hours of a day. -/
def halfhour (zerotime : ℤ) (i : ℕ) : ℤ := zerotime + i * 1800

/-- The thirds of the last days, the newest day first. -/
def dayThird (zerotime : ℤ) (i : ℕ) : ℤ :=
  zerotime - (i / 3 : ℕ) * 86400 + (i % 3 : ℕ) * 28800

/-- **A row of the day that began at `zerotime`.** -/
structure Aligned (zerotime : ℤ) (row : Blueprint) : Prop where
  arr : Slots (0 ≤ ·) 48 (halfhour zerotime) row.arr
  arrday : Slots (0 ≤ ·) 90 (dayThird zerotime) row.arrday

variable {P : ℚ → Prop} {n m : ℕ} {time : ℕ → ℤ} {l l' : List Slot} {zero zone t : ℤ} {p : ℚ} {x y z : Slot}
  {row : Blueprint}

@[simp] theorem slot_lookup : (slot t p).lookup t = some p :=
  List.dlookup_cons_eq (β := fun _ => ℚ) [] t p

@[simp] theorem slot_insert (q : ℚ) : (slot t p).insert t q = slot t q :=
  AList.insert_singleton_eq

/-! ## Entries at given times -/

theorem Slots.append (h : Slots P n time l) (h' : Slots P m (fun i => time (n + i)) l') :
    Slots P (n + m) time (l ++ l') := by
  obtain ⟨hlen, hl⟩ := h
  obtain ⟨hlen', hl'⟩ := h'
  refine ⟨by simp [hlen, hlen'], fun i hi => ?_⟩
  rcases Nat.lt_or_ge i n with hlt | hge
  · obtain ⟨p, hp, hget⟩ := hl i hlt
    exact ⟨p, hp, by rw [List.getElem?_append_left (by omega), hget]⟩
  · obtain ⟨p, hp, hget⟩ := hl' (i - n) (by omega)
    refine ⟨p, hp, ?_⟩
    rw [List.getElem?_append_right (by omega), hlen, hget]
    simp only [Nat.add_sub_cancel' hge]

/-- Entries made one by one. -/
theorem slots_range (price : ℕ → ℚ) (hprice : ∀ i, P (price i)) (time' : ℕ → ℤ)
    (htime : ∀ i < n, time' i = time i) :
    Slots P n time ((List.range n).map fun i => slot (time' i) (price i)) := by
  refine ⟨by simp, fun i hi => ⟨price i, hprice i, ?_⟩⟩
  rw [List.getElem?_map, List.getElem?_range hi, Option.map_some, htime i hi]

/-- Entries made in threes. -/
theorem slots_days (price : ℕ → ℕ → ℚ) (hprice : ∀ i j, P (price i j)) (time' : ℕ → ℕ → ℤ)
    (htime : ∀ i, ∀ j < 3, time' i j = time (3 * i + j)) (d : ℕ) :
    Slots P (3 * d) time ((List.range d).flatMap fun i =>
      (List.range 3).map fun j => slot (time' i j) (price i j)) := by
  induction d with
  | zero => exact ⟨rfl, fun i hi => absurd hi (by omega)⟩
  | succ d ih =>
    rw [List.range_succ (n := d), List.flatMap_append, List.flatMap_singleton, Nat.mul_succ]
    exact ih.append (slots_range (price d) (hprice d) (time' d) (htime d))

theorem Slots.set (h : Slots P n time l) {i : ℕ} (hi : i < n) (hp : P p) :
    Slots P n time (l.set i (slot (time i) p)) := by
  obtain ⟨hlen, hl⟩ := h
  refine ⟨by rw [List.length_set, hlen], fun j hj => ?_⟩
  rcases eq_or_ne i j with rfl | hne
  · exact ⟨p, hp, List.getElem?_set_self (by omega)⟩
  · obtain ⟨q, hq, hget⟩ := hl j hj
    exact ⟨q, hq, by rw [List.getElem?_set_ne hne, hget]⟩

/-- The entry at a position of Lua. -/
theorem Slots.at1 (h : Slots P n time l) {i : ℕ} (hi : i < n) :
    ∃ p, P p ∧ at1 l (i + 1) = some (slot (time i) p) := by
  obtain ⟨p, hp, hget⟩ := h.2 i hi
  exact ⟨p, hp, by simpa [Prices.at1] using hget⟩

/-! ## Times of a day -/

theorem zerotime_le (zone t : ℤ) : zerotime zone t + secondOf zone t = t :=
  midnight_add_secondOf zone t

theorem indextime_eq (zone t : ℤ) : (indextime zone t : ℤ) = secondOf zone t / 1800 + 1 := by
  have h0 := secondOf_nonneg zone t
  simp only [indextime, ceilDiv]
  omega

/-- **The half hour of a time** is one of the day, and it is the one that
`neartime` is the beginning of. -/
theorem indextime_spec (zone t : ℤ) : 1 ≤ indextime zone t ∧ indextime zone t ≤ 48 ∧
    neartime zone t = halfhour (zerotime zone t) (indextime zone t - 1) := by
  have h := indextime_eq zone t
  have h0 := secondOf_nonneg zone t
  have h1 := secondOf_lt zone t
  have hz := zerotime_le zone t
  refine ⟨by omega, by omega, ?_⟩
  simp only [neartime, halfhour]
  split <;> omega

theorem third_spec (zone t : ℤ) : 1 ≤ third zone t ∧ third zone t ≤ 3 := by
  obtain ⟨h1, h48, -⟩ := indextime_spec zone t
  simp only [third, ceilDiv]
  omega

/-! ## Rows that start -/

theorem day24_slots (zero : ℤ) : Slots (0 ≤ ·) 48 (halfhour zero) (day24 zero) :=
  slots_range (fun _ => 0) (fun _ => le_rfl) _ fun _ _ => rfl

theorem days30_slots (zero : ℤ) : Slots (0 ≤ ·) 90 (dayThird zero) (days30 zero) := by
  refine slots_days (fun _ _ => 0) (fun _ _ => le_rfl)
    (fun i j => zero - i * (24 * 3600) + j * (8 * 3600)) (fun i j hj => ?_) 30
  simp only [dayThird]
  omega

theorem marketdays_slots (index : ℤ → ℚ) (zero : ℤ) :
    Slots (fun _ => True) 24 (dayThird zero) (marketdays index zero) := by
  refine slots_days (fun i j => index (zero - i * (24 * 3600) + j * (8 * 3600)))
    (fun _ _ => trivial) (fun i j => zero - i * (24 * 3600) + j * (8 * 3600)) (fun i j hj => ?_) 8
  simp only [dayThird]
  omega

/-! ## A day that ends -/

/-- An entry in front, and the last one gone. -/
theorem push_spec (hlen : l.length = 90) (x : Slot) : ∃ l', push l x = some l' ∧
    l'.length = 90 ∧ l'[0]? = some x ∧ ∀ i < 89, l'[i + 1]? = l[i]? := by
  have h91 : 90 < (x :: l).length := by simp [hlen]
  refine ⟨(x :: l).eraseIdx 90, by rw [push, if_pos h91.le], ?_, ?_, fun i hi => ?_⟩
  · rw [List.length_eraseIdx_of_lt h91, List.length_cons, hlen]
  · rw [List.getElem?_eraseIdx_of_lt (by omega), List.getElem?_cons_zero]
  · rw [List.getElem?_eraseIdx_of_lt (by omega), List.getElem?_cons_succ]

/-- Three entries in front move the thirds by a day. -/
theorem push_day (h : Slots (0 ≤ ·) 90 (dayThird (zero - 86400)) l) {p₀ p₁ p₂ : ℚ} (h₀ : 0 ≤ p₀)
    (h₁ : 0 ≤ p₁) (h₂ : 0 ≤ p₂) : ∃ l₁ l₂ l₃, push l (slot (zero + 2 * (8 * 3600)) p₂) = some l₁ ∧
      push l₁ (slot (zero + 8 * 3600) p₁) = some l₂ ∧ push l₂ (slot zero p₀) = some l₃ ∧
      Slots (0 ≤ ·) 90 (dayThird zero) l₃ := by
  obtain ⟨l₁, e₁, hlen₁, hfst₁, hrest₁⟩ := push_spec h.1 (slot (zero + 2 * (8 * 3600)) p₂)
  obtain ⟨l₂, e₂, hlen₂, hfst₂, hrest₂⟩ := push_spec hlen₁ (slot (zero + 8 * 3600) p₁)
  obtain ⟨l₃, e₃, hlen₃, hfst₃, hrest₃⟩ := push_spec hlen₂ (slot zero p₀)
  refine ⟨l₁, l₂, l₃, e₁, e₂, e₃, hlen₃, fun i hi => ?_⟩
  rcases i with - | - | - | i
  · exact ⟨p₀, h₀, by simpa [dayThird] using hfst₃⟩
  · refine ⟨p₁, h₁, ?_⟩
    rw [hrest₃ 0 (by omega), hfst₂]
    simp [dayThird]
  · refine ⟨p₂, h₂, ?_⟩
    rw [hrest₃ 1 (by omega), hrest₂ 0 (by omega), hfst₁]
    simp [dayThird]
  · obtain ⟨p, hp, hget⟩ := h.2 i (by omega)
    refine ⟨p, hp, ?_⟩
    rw [hrest₃ (i + 2) (by omega), hrest₂ (i + 1) (by omega), hrest₁ i (by omega), hget]
    have htime : dayThird (zero - 86400) i = dayThird zero (i + 1 + 1 + 1) := by
      simp only [dayThird]
      omega
    rw [htime]

/-- **The price at midnight** is one of the last third of the day before, or
zero. -/
theorem zeroSlot_spec (h : Slots (0 ≤ ·) 48 (halfhour (zero - 86400)) l) (ks : List ℕ)
    (hks : ∀ k ∈ ks, 1 ≤ k ∧ k ≤ 16) : ∃ p, 0 ≤ p ∧ zeroSlot l zero ks = some (slot zero p) := by
  induction ks with
  | nil => exact ⟨0, le_rfl, rfl⟩
  | cons k ks ih =>
    obtain ⟨h1, h16⟩ := hks k List.mem_cons_self
    obtain ⟨p, hp, hget⟩ := h.at1 (show 31 + k < 48 by omega)
    have hpos : 31 + k + 1 = 32 + k := by omega
    have htime : halfhour (zero - 86400) (31 + k) = zero - 8 * 3600 + 1800 * ((k : ℤ) - 1) := by
      simp only [halfhour]
      omega
    rw [hpos, htime] at hget
    simp only [zeroSlot, hget, Option.bind_eq_bind, Option.bind_some, slot_lookup,
      Option.some.injEq]
    split
    · exact ih fun k' hk' => hks k' (List.mem_cons_of_mem _ hk')
    · exact ⟨p, hp, rfl⟩

theorem sixteen_bounds : ∀ k ∈ sixteen, 1 ≤ k ∧ k ≤ 16 := by decide

theorem pushDay_spec (harr : Slots (0 ≤ ·) 48 (halfhour (zero - 86400)) l')
    (h : Slots (0 ≤ ·) 90 (dayThird (zero - 86400)) l) :
    ∃ l'', pushDay l' zero l = some l'' ∧ Slots (0 ≤ ·) 90 (dayThird zero) l'' := by
  obtain ⟨p, hp, hzero⟩ := zeroSlot_spec harr sixteen sixteen_bounds
  obtain ⟨l₁, l₂, l₃, e₁, e₂, e₃, hslots⟩ := push_day h hp le_rfl le_rfl
  refine ⟨l₃, ?_, hslots⟩
  simp only [pushDay, e₁, e₂, hzero, Option.bind_eq_bind, Option.bind_some, e₃]

theorem pushEmpty_spec (h : Slots (0 ≤ ·) 90 (dayThird (zero - 86400)) l) :
    ∃ l', pushEmpty zero l = some l' ∧ Slots (0 ≤ ·) 90 (dayThird zero) l' := by
  have hzero : (0 : ℚ) ≤ 0 := le_rfl
  obtain ⟨l₁, l₂, l₃, e₁, e₂, e₃, hslots⟩ := push_day h hzero hzero hzero
  refine ⟨l₃, ?_, hslots⟩
  simp only [pushEmpty, e₁, e₂, Option.bind_eq_bind, Option.bind_some, e₃]

/-- **The midnight after a day.** -/
theorem nextday_aligned (h : Aligned (zero - 86400) row) :
    ∃ row', nextday zero row = some row' ∧ Aligned zero row' := by
  obtain ⟨l, hl, hslots⟩ := pushDay_spec h.arr h.arrday
  refine ⟨⟨day24 zero, l⟩, ?_, day24_slots zero, hslots⟩
  simp only [nextday, hl, Option.bind_eq_bind, Option.bind_some]

/-- The days of a gap, from the oldest that is missing to today. -/
theorem pushDays_spec {gap : ℤ} (harr : Slots (0 ≤ ·) 48 (halfhour (zero - gap * 86400)) l') (i : ℕ)
    (hi : (i : ℤ) ≤ gap) (h : Slots (0 ≤ ·) 90 (dayThird (zero - i * 86400)) l) :
    ∃ l'', pushDays l' zero gap i l = some l'' ∧ Slots (0 ≤ ·) 90 (dayThird zero) l'' := by
  induction i generalizing l with
  | zero => exact ⟨l, rfl, by simpa using h⟩
  | succ i ih =>
    have hday : zero - ((i + 1 : ℕ) : ℤ) * 86400 = zero - i * (24 * 3600) - 86400 := by
      push_cast
      omega
    rw [hday] at h
    obtain ⟨l₁, hl₁, hslots⟩ : ∃ l₁, (if (i + 1 : ℤ) = gap then
        pushDay l' (zero - i * (24 * 3600)) l else pushEmpty (zero - i * (24 * 3600)) l)
          = some l₁ ∧ Slots (0 ≤ ·) 90 (dayThird (zero - i * (24 * 3600))) l₁ := by
      split
      · rename_i heq
        refine pushDay_spec ?_ h
        rw [← hday, Nat.cast_succ, heq]
        exact harr
      · exact pushEmpty_spec h
    obtain ⟨l₂, hl₂, hslots₂⟩ := ih (by omega) (l := l₁) (by simpa using hslots)
    refine ⟨l₂, ?_, hslots₂⟩
    by_cases heq : (i + 1 : ℤ) = gap
    · rw [if_pos heq] at hl₁
      simp only [pushDays, if_pos heq, hl₁, Option.bind_eq_bind, Option.bind_some, hl₂]
    · rw [if_neg heq] at hl₁
      simp only [pushDays, if_neg heq, hl₁, Option.bind_eq_bind, Option.bind_some, hl₂]

/-- **A start after a gap.** -/
theorem catchup_aligned {gap : ℤ} (hgap : 0 ≤ gap) (h : Aligned (zero - gap * 86400) row) :
    ∃ row', catchup zero gap row = some row' ∧ Aligned zero row' := by
  have hnat : (gap.toNat : ℤ) = gap := Int.toNat_of_nonneg hgap
  obtain ⟨l, hl, hslots⟩ := pushDays_spec h.arr gap.toNat hnat.le (by rw [hnat]; exact h.arrday)
  refine ⟨⟨day24 zero, l⟩, ?_, day24_slots zero, hslots⟩
  simp only [catchup, hl, Option.bind_eq_bind, Option.bind_some]

/-! ## A trade -/

theorem Slots.assign (h : Slots P n time l) {i : ℕ} (hi : i < n) (hp : P p) :
    ∃ l', assign l (i + 1) (time i) p = some l' ∧ Slots P n time l' := by
  obtain ⟨q, -, hget⟩ := h.at1 hi
  refine ⟨_, ?_, h.set hi hp⟩
  simp only [Prices.assign, hget, Option.bind_eq_bind, Option.bind_some, slot_insert,
    Nat.add_sub_cancel]

/-- **A trade keeps a row aligned.** -/
theorem trade_aligned (hp : 0 ≤ p) (h : Aligned (zerotime zone t) row) :
    ∃ row', trade zone t p row = some row' ∧ Aligned (zerotime zone t) row' := by
  obtain ⟨h1, h48, hnear⟩ := indextime_spec zone t
  obtain ⟨ht1, ht3⟩ := third_spec zone t
  obtain ⟨i, hi⟩ : ∃ i, indextime zone t = i + 1 := ⟨indextime zone t - 1, by omega⟩
  rw [hi, Nat.add_sub_cancel] at hnear
  obtain ⟨q, hq, hget⟩ := h.arr.at1 (show i < 48 by omega)
  obtain ⟨arr, harr, hslots⟩ := h.arr.assign (show i < 48 by omega) hp
  simp only [trade, hi, hnear, hget, Option.bind_eq_bind, Option.bind_some, harr]
  split
  · split
    · have htime : zerotime zone t + (third zone t : ℤ) * 8 * 3600
          = dayThird (zerotime zone t) (third zone t) := by
        simp only [dayThird]
        omega
      obtain ⟨arrday, harrday, hslots'⟩ :=
        h.arrday.assign (show third zone t < 90 by omega) hp
      rw [htime, harrday]
      exact ⟨_, rfl, hslots, hslots'⟩
    · exact ⟨_, rfl, hslots, h.arrday⟩
  · exact ⟨_, rfl, h⟩

end Prices

/-!
## The price of the current half hour

The system's price of a material is read from the array of the day, at the place and
under the key that `timeindex` gives for a time. Where the time is one of the day
both are those of its half hour (`indextime_spec`). What goes on sale takes the price
of half an hour later, and in the last half hour of the day that is a time of the
next one: the place is the first and the key is of no entry of the array.
-/

namespace Prices

open Calendar

variable {zone now addtime zero : ℤ} {price : ℕ → ℚ} {i : ℕ}

/-- **`timeindex`**: the half hour, its key and the midnight. -/
def timeindex (zone now addtime : ℤ) : ℕ × ℤ × ℤ :=
  (indextime zone (now + addtime), neartime zone (now + addtime), zerotime zone (now + addtime))

/-- An array of a day: an entry for each half hour. -/
def dayprices (zerotime : ℤ) (price : ℕ → ℚ) : List Slot :=
  (List.range 48).map fun i : ℕ => slot (zerotime + i * 1800) (price i)

/-- The array of a material in `initprice` and `updatesys`, from the table of its
prices. -/
def material24 (fuction : ℤ → ℚ) (zerotime : ℤ) : List Slot :=
  dayprices zerotime fun i => (⌊fuction (zerotime + i * 1800) + 1 / 2⌋ : ℤ)

/-- `arr[index][key]`: without the entry it is an error, without the key a nil. -/
def current (zone now addtime : ℤ) (arr : List Slot) : Option (Option ℚ) :=
  let (index, key, _) := timeindex zone now addtime
  (at1 arr index).map fun x => x.lookup key

/-- The price with which `putaway`, `sell` and `trancancel` put up a material. -/
def stayprice (zone now : ℤ) (arr : List Slot) : Option ℚ :=
  (current zone now (30 * 60) arr).map fun price => price.getD 0

/-- The price of `curprice`: a nil is `eEC_cfgid_nofind`. -/
def curprice (zone now : ℤ) (arr : List Slot) : Option (Option ℤ) :=
  (current zone now 0 arr).map fun price => price.map fun p => ⌊p⌋

/-- The price in `goldbuy` is the current one; otherwise it is `eEC_shop_price`. -/
def pricematches (zone now : ℤ) (arr : List Slot) (price : ℚ) : Option Bool :=
  (current zone now 0 arr).map fun currentprice => currentprice = some price

/-- **The array has the price of the half hour** of a time. -/
def HasPrice (arr : List Slot) (zero : ℤ) (price : ℕ → ℚ) (zone now addtime : ℤ) : Prop :=
  ∃ i < 48, (halfhour zero i ≤ now + addtime ∧ now + addtime < halfhour zero i + 1800) ∧
    current zone now addtime arr = some (some (price i))

theorem slot_lookup_of_ne {t t' : ℤ} {p : ℚ} (h : t' ≠ t) : (slot t p).lookup t' = none :=
  AList.lookup_eq_none.mpr fun hmem => h (List.mem_singleton.mp (AList.mem_keys.mp hmem))

theorem at1_dayprices (h : i < 48) :
    at1 (dayprices zero price) (i + 1) = some (slot (halfhour zero i) (price i)) := by
  simp [at1, dayprices, halfhour, h]

/-- The entry of the half hour, and the key, which may be of another day. -/
theorem current_eq (zone now addtime zero : ℤ) (price : ℕ → ℚ) :
    current zone now addtime (dayprices zero price) =
      some ((slot (halfhour zero (indextime zone (now + addtime) - 1))
        (price (indextime zone (now + addtime) - 1))).lookup
          (halfhour (zerotime zone (now + addtime)) (indextime zone (now + addtime) - 1))) := by
  obtain ⟨h1, h48, hkey⟩ := indextime_spec zone (now + addtime)
  have hat : at1 (dayprices zero price) (indextime zone (now + addtime) - 1 + 1) =
      some (slot (halfhour zero (indextime zone (now + addtime) - 1))
        (price (indextime zone (now + addtime) - 1))) := at1_dayprices (by omega)
  rw [Nat.sub_add_cancel h1] at hat
  simp only [current, timeindex, hat, Option.map_some]
  rw [hkey]

/-- **A time of the day finds the price of its half hour.** -/
theorem current_of_day (hzero : zerotime zone (now + addtime) = zero) :
    current zone now addtime (dayprices zero price) =
      some (some (price (indextime zone (now + addtime) - 1))) := by
  rw [current_eq, hzero, slot_lookup]

/-- **A time of the next day finds an entry without its key.** -/
theorem current_of_nextday (hzero : zerotime zone (now + addtime) = zero + 86400) :
    current zone now addtime (dayprices zero price) = some none := by
  rw [current_eq, hzero, slot_lookup_of_ne]
  simp only [halfhour]
  omega

theorem hasPrice_of_day (hzero : zerotime zone (now + addtime) = zero) :
    HasPrice (dayprices zero price) zero price zone now addtime := by
  obtain ⟨h1, h48, -⟩ := indextime_spec zone (now + addtime)
  have hindex := indextime_eq zone (now + addtime)
  have htime := zerotime_le zone (now + addtime)
  refine ⟨indextime zone (now + addtime) - 1, by omega, ?_, current_of_day hzero⟩
  simp only [halfhour]
  omega

/-- The midnight of half an hour later. -/
theorem zerotime_add (zone now : ℤ) : zerotime zone (now + 1800) =
    if secondOf zone now < 84600 then zerotime zone now else zerotime zone now + 86400 := by
  simp only [zerotime, midnight, dayOf, secondOf]
  split_ifs <;> omega

theorem stayprice_eq (zone now : ℤ) (arr : List Slot) :
    stayprice zone now arr = (current zone now 1800 arr).map fun price => price.getD 0 := rfl

/-- **Where the array has the price**: now always, and half an hour later but for the last
half hour of the day. There, and only there, a material goes on sale at no price. -/
theorem current_iff (zone now : ℤ) (price : ℕ → ℚ) :
    (∀ addtime, addtime = 0 ∨ addtime = 1800 →
      (HasPrice (dayprices (zerotime zone now) price) (zerotime zone now) price zone now addtime ↔
        addtime = 0 ∨ secondOf zone now < 84600)) ∧
    (∃ i < 48, (halfhour (zerotime zone now) i ≤ now ∧ now < halfhour (zerotime zone now) i + 1800) ∧
      curprice zone now (dayprices (zerotime zone now) price) = some (some ⌊price i⌋) ∧
      ∀ p, pricematches zone now (dayprices (zerotime zone now) price) p = some (decide (price i = p))) ∧
    (stayprice zone now (dayprices (zerotime zone now) price) =
      if secondOf zone now < 84600 then some (price (indextime zone (now + 1800) - 1)) else some 0) := by
  have hnow : HasPrice (dayprices (zerotime zone now) price) (zerotime zone now) price zone now 0 :=
    hasPrice_of_day (by rw [add_zero])
  have hzero := zerotime_add zone now
  refine ⟨?_, ?_, ?_⟩
  · rintro addtime (rfl | rfl)
    · exact ⟨fun _ => Or.inl rfl, fun _ => hnow⟩
    · constructor
      · rintro ⟨i, -, -, hprice⟩
        by_contra hlate
        -- the key is of the next day
        rw [if_neg (by omega)] at hzero
        rw [current_of_nextday hzero] at hprice
        cases hprice
      · rintro (h | h)
        · omega
        · rw [if_pos h] at hzero
          exact hasPrice_of_day hzero
  · obtain ⟨i, hi, hhalf, hprice⟩ := hnow
    refine ⟨i, hi, ?_, ?_, fun p => ?_⟩
    · rwa [add_zero] at hhalf
    · rw [curprice, hprice]
      rfl
    · rw [pricematches, hprice]
      simp
  · split_ifs at hzero ⊢ with h
    · rw [stayprice_eq, current_of_day hzero]
      rfl
    · rw [stayprice_eq, current_of_nextday hzero]
      rfl

/-- Eleven at night, at UTC+8: the price of the half hour at half past. -/
theorem current_eleven : HasPrice (dayprices (zerotime 28800 1600095600) fun i => i)
    (zerotime 28800 1600095600) (fun i => i) 28800 1600095600 1800 :=
  ((current_iff 28800 1600095600 fun i => i).1 1800 (Or.inr rfl)).mpr (Or.inr (by decide))

/-- Half past eleven at night, at UTC+8, with a price of 50 all day. -/
theorem current_lost : ¬ HasPrice (dayprices (zerotime 28800 1600097400) fun _ => 50)
      (zerotime 28800 1600097400) (fun _ => 50) 28800 1600097400 1800 ∧
    stayprice 28800 1600097400 (dayprices (zerotime 28800 1600097400) fun _ => 50) = some 0 := by
  have hzero : zerotime 28800 (1600097400 + 1800) = zerotime 28800 1600097400 + 86400 := by decide
  constructor
  · rintro ⟨i, -, -, hprice⟩
    rw [current_of_nextday hzero] at hprice
    cases hprice
  · rw [stayprice_eq, current_of_nextday hzero]
    rfl

end Prices

end Athena
