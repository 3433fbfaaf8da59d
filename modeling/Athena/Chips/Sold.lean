import Athena.Chips.Paid
import Athena.Chips.Taken
/-!
# Chips — what is taken for what is paid

The loop over the chips of a request takes from three lists, and what it takes from
one kind of chips hangs on the numbers that are listed for this kind alone. A
number that is refused is paid like any other.
-/

namespace Athena

namespace Chips

variable {cfg : Config} {s t : State} {x : Item} {items : List Item} {l : List Chip}
  {price : Item → Option (Option ℤ)} {id level lock r n number : ℤ}

/-! ## Kinds of chips -/

/-- **The list a chip is in.** -/
inductive Place
  | new
  | seen
  | fitted (record : ℤ)
  deriving DecidableEq

def State.list (s : State) : Place → List Chip
  | .new => s.newchipinfo
  | .seen => s.chipinfoarr
  | .fitted r => s.inchipinfoarr.filter fun c => c.record = some r

/-- The list a chip of a request is taken from. -/
def Item.place (x : Item) : Place :=
  if x.isequip then .fitted x.record else if x.isnew then .new else .seen

/-- The chips there that it may be; the level of a fitted one is not looked at. -/
def Item.kind (x : Item) (c : Chip) : Bool :=
  c.id = x.id && c.islock = 0 && (x.isequip || c.level = x.level)

/-- It is not said to be both fitted and new. -/
def Item.Onelist (x : Item) : Prop := ¬ (x.isequip = true ∧ x.isnew = true)

def ofkind (id level lock : ℤ) (c : Chip) : Bool := c.id = id && c.level = level && c.islock = lock

/-- The unlocked chips of an id. -/
def ofid (id : ℤ) (c : Chip) : Bool := c.id = id && c.islock = 0

theorem Item.kind_blind (x : Item) : Blind x.kind := fun _ _ => rfl

theorem ofkind_blind (id level lock : ℤ) : Blind (ofkind id level lock) := fun _ _ => rfl

theorem ofid_blind (id : ℤ) : Blind (ofid id) := fun _ _ => rfl

/-! ## One round of the loop -/

theorem less_get_chip (l : List Chip) (id level n : ℤ) :
    remove_key l (get_chip id l (some level) 0 none) n =
      less (fun c => c.id = id && c.islock = 0 && (false || c.level = level)) n l := by
  unfold less get_chip
  congr 2
  funext c
  simp only [Option.some.injEq, Bool.false_or, Bool.and_assoc, Bool.decide_and, eq_comm (a := (0 : ℤ)),
    Bool.and_comm (decide (c.level = level))]

theorem less_get_chip_inchip (l : List Chip) (id r n : ℤ) :
    remove_key l (get_chip_inchip id l r (some 0)) n =
      less (fun c => c.record = some r && (c.id = id && c.islock = 0)) n l := by
  unfold less get_chip_inchip
  congr 2
  funext c
  simp only [Option.some.injEq, Bool.decide_and, eq_comm (a := (0 : ℤ))]
  rw [← Bool.and_assoc, ← Bool.and_assoc, Bool.and_comm (decide (c.id = id))]

/-- The chips a fitted chip of a request may be. -/
def Item.slotted (x : Item) (c : Chip) : Bool := c.record = some x.record && (c.id = x.id && c.islock = 0)

/-- **What a round takes from the three lists.** -/
theorem takeitem_lists (hx : x.Onelist) (h : takeitem cfg x s = some t) :
    t.newchipinfo = (if x.place = .new then less x.kind x.number s.newchipinfo else s.newchipinfo) ∧
      t.chipinfoarr = (if x.place = .seen then less x.kind x.number s.chipinfoarr else s.chipinfoarr) ∧
      t.inchipinfoarr =
        if x.isequip then less x.slotted x.number s.inchipinfoarr else s.inchipinfoarr := by
  unfold takeitem at h
  split at h
  · rename_i hequip
    have hnew : x.isnew = false := by simpa using fun hnew => hx ⟨hequip, hnew⟩
    split at h
    · rename_i m e _ _
      obtain rfl := Option.some.inj h
      have hplace : x.place = .fitted x.record := if_pos hequip
      simp only [hplace, hequip, if_true]
      refine ⟨by simp [takefitted], by simp [takefitted], ?_⟩
      simp [takefitted, upgradekey, hequip, hnew, less_get_chip_inchip]
      rfl
    · cases h
  · rename_i hequip
    have hequip : x.isequip = false := by simpa using hequip
    have hkind : x.kind = fun c => c.id = x.id && c.islock = 0 && (false || c.level = x.level) := by
      funext c
      simp [Item.kind, hequip]
    split at h
    · rename_i hnew
      obtain rfl := Option.some.inj h
      simp [Item.place, hequip, hnew, hkind, upgradekey, less_get_chip]
    · rename_i hnew
      obtain rfl := Option.some.inj h
      simp [Item.place, hequip, hnew, hkind, upgradekey, less_get_chip]

/-- **A round takes from the list of its chip**, and from no other. -/
theorem takeitem_list (hx : x.Onelist) (h : takeitem cfg x s = some t) (p : Place) :
    t.list p = if x.place = p then less x.kind x.number (s.list p) else s.list p := by
  obtain ⟨hnew, hseen, hin⟩ := takeitem_lists hx h
  cases p with
  | new => exact hnew
  | seen => exact hseen
  | fitted r =>
    rw [State.list, State.list, hin]
    by_cases hequip : x.isequip = true
    · have hplace : x.place = .fitted x.record := if_pos hequip
      have hkind : x.kind = fun c => c.id = x.id && c.islock = 0 := by
        funext c
        simp [Item.kind, hequip]
      rw [if_pos hequip, hplace, hkind]
      by_cases hr : x.record = r
      · rw [if_pos (by rw [hr]), ← hr]
        exact filter_less (fun _ _ => rfl) fun _ => rfl
      · rw [if_neg (by simpa using hr)]
        refine filter_less_of_disjoint (fun _ _ => rfl) fun c hc => ?_
        simp only [Item.slotted, Bool.and_eq_true, decide_eq_true_eq] at hc
        simpa [hc.1] using hr
    · have hplace : x.place ≠ .fitted r := by
        unfold Item.place
        rw [if_neg hequip]
        split <;> simp
      rw [if_neg hequip, if_neg hplace]

/-! ## The loop -/

/-- **The rounds of the loop**, whatever they come to. -/
def takeall (cfg : Config) : List Item → State → Option State
  | [], s => some s
  | x :: items, s => (takeitem cfg x s).bind (takeall cfg items)

/-- What some chips of a request take from their list. -/
def takes (items : List Item) (l : List Chip) : List Chip :=
  items.foldl (fun l x => less x.kind x.number l) l

/-- **The lists do not touch one another.** -/
theorem takeall_list (hitems : ∀ x ∈ items, x.Onelist) (h : takeall cfg items s = some t) (p : Place) :
    t.list p = takes (items.filter fun x => x.place = p) (s.list p) := by
  induction items generalizing s with
  | nil =>
    obtain rfl := Option.some.inj h
    rfl
  | cons x items ih =>
    obtain ⟨t₁, hx, hrest⟩ := Option.bind_eq_some_iff.mp h
    rw [ih (fun y hy => hitems y (List.mem_cons_of_mem x hy)) hrest,
      takeitem_list (hitems x List.mem_cons_self) hx p]
    by_cases hp : x.place = p
    · rw [if_pos hp, List.filter_cons_of_pos (by simpa using hp)]
      rfl
    · rw [if_neg hp, List.filter_cons_of_neg (by simpa using hp)]

/-- It is of the id and the level. -/
def Item.isof (id level : ℤ) (x : Item) : Bool := x.id = id && x.level = level

/-- The numbers that are listed for a chip of a list. -/
def asks (items : List Item) (p : Place) (id level : ℤ) : List ℤ :=
  ((items.filter fun x => x.place = p).filter (Item.isof id level)).map Item.number

/-- How many times a fitted chip is listed, whatever its level. -/
def listedtimes (items : List Item) (p : Place) (id : ℤ) : ℕ :=
  ((items.filter fun x => x.place = p).filter fun x => x.id = id).length

/-- **The numbers of a kind** are taken by what is listed for it. -/
theorem takes_numbers (hitems : ∀ x ∈ items, x.isequip = false) (hl : Numbered l) :
    numbers ((takes items l).filter (ofkind id level 0)) =
      ((items.filter (Item.isof id level)).map Item.number).foldl takenumber
        (numbers (l.filter (ofkind id level 0))) := by
  induction items generalizing l with
  | nil => rfl
  | cons x items ih =>
    have hequip := hitems x List.mem_cons_self
    change numbers ((takes items (less x.kind x.number l)).filter _) = _
    rw [ih (fun y hy => hitems y (List.mem_cons_of_mem x hy)) hl.less]
    by_cases hx : Item.isof id level x = true
    · have hkind : x.kind = ofkind id level 0 := by
        simp only [Item.isof, Bool.and_eq_true, decide_eq_true_eq] at hx
        funext c
        simp only [Item.kind, ofkind, hequip, Bool.false_or, hx]
        rw [Bool.and_right_comm]
      rw [List.filter_cons_of_pos hx, List.map_cons, List.foldl_cons, hkind,
        filter_less_self (ofkind_blind id level 0), numbers_remove hl.filter]
    · rw [List.filter_cons_of_neg hx, filter_less_of_disjoint (ofkind_blind id level 0)]
      intro c hc
      simp only [Item.kind, Item.isof, hequip, Bool.false_or, Bool.and_eq_true, decide_eq_true_eq] at hc hx
      simp only [ofkind, hc]
      simpa using hx

/-- Locked chips are not taken. -/
theorem takes_locked (hlock : lock ≠ 0) :
    (takes items l).filter (ofkind id level lock) = l.filter (ofkind id level lock) := by
  induction items generalizing l with
  | nil => rfl
  | cons x items ih =>
    change ((takes items (less x.kind x.number l)).filter _) = _
    rw [ih, filter_less_of_disjoint (ofkind_blind id level lock)]
    intro c hc
    simp only [Item.kind, Bool.and_eq_true, decide_eq_true_eq] at hc
    simp [ofkind, hc, hlock.symm]

/-- **Fitted chips of an id** go one for each time it is listed. -/
theorem takes_fitted (hitems : ∀ x ∈ items, x.isequip = true) (hl : ∀ c ∈ l, c.number = none) :
    (takes items l).filter (ofid id) =
      (l.filter (ofid id)).drop (items.filter fun x => x.id = id).length := by
  induction items generalizing l with
  | nil => rfl
  | cons x items ih =>
    have hequip := hitems x List.mem_cons_self
    have hkind : x.kind = ofid x.id := by
      funext c
      simp [Item.kind, ofid, hequip]
    change (takes items (less x.kind x.number l)).filter _ = _
    rw [ih (fun y hy => hitems y (List.mem_cons_of_mem x hy)) (plain_less hl), hkind]
    by_cases hx : x.id = id
    · rw [List.filter_cons_of_pos (by simpa using hx), List.length_cons, hx,
        filter_less_self (ofid_blind id),
        remove_plain fun c hc => hl c (List.mem_of_mem_filter hc), List.drop_tail]
    · rw [List.filter_cons_of_neg (by simpa using hx), filter_less_of_disjoint (ofid_blind id)]
      intro c hc
      simp only [ofid, Bool.and_eq_true, decide_eq_true_eq] at hc
      simp [ofid, hc, hx]

theorem takes_numbered (hl : Numbered l) : Numbered (takes items l) := by
  induction items generalizing l with
  | nil => exact hl
  | cons x items ih => exact ih hl.less

theorem takes_plain (hl : ∀ c ∈ l, c.number = none) : ∀ c ∈ takes items l, c.number = none := by
  induction items generalizing l with
  | nil => exact hl
  | cons x items ih => exact ih (plain_less hl)

/-! ## How many are taken -/

/-- **How many chips of a level and a lock** a list has. -/
def stock (s : State) (p : Place) (id level lock : ℤ) : ℤ :=
  (numbers ((s.list p).filter (ofkind id level lock))).sum

/-- What is listed for a chip in all. -/
def asked (items : List Item) (p : Place) (id level : ℤ) : ℤ := (asks items p id level).sum

/-- **How many chips go**: of a list all that is not refused, of fitted ones the first
of the id, by the levels they have. -/
def gone (s : State) (items : List Item) (p : Place) (id level : ℤ) : ℤ :=
  match p with
  | .fitted r =>
    ((((s.list (.fitted r)).filter (ofid id)).take (listedtimes items (.fitted r) id)).countP fun c => c.level = level : ℕ)
  | p => asked items p id level - refused (numbers ((s.list p).filter (ofkind id level 0))) (asks items p id level)

/-- **The entries of a player**: those of the lists have positive numbers, and fitted
chips have none. -/
structure Counted (s : State) : Prop where
  newchipinfo : Numbered s.newchipinfo
  chipinfoarr : Numbered s.chipinfoarr
  plain : ∀ c ∈ s.inchipinfoarr, c.number = none

theorem Fits.counted (h : Fits cfg s) : Counted s := ⟨h.newchipinfo, h.chipinfoarr, h.plain⟩

theorem place_fitted_iff : x.place = .fitted r ↔ x.isequip = true ∧ x.record = r := by
  unfold Item.place
  split
  · rename_i h
    simp [h]
  · rename_i h
    split <;> simp [h]

theorem place_list {p : Place} (h : p = .new ∨ p = .seen) (hx : x.place = p) : x.isequip = false := by
  unfold Item.place at hx
  split at hx
  · rcases h with rfl | rfl <;> cases hx
  · rename_i hequip
    simpa using hequip

/-- **What a list has after the loop.** -/
theorem stock_listed {p : Place} (h : Numbered (s.list p)) (hp : p = .new ∨ p = .seen)
    (hlist : t.list p = takes (items.filter fun x => x.place = p) (s.list p)) :
    stock t p id level 0 = stock s p id level 0 - asked items p id level +
      refused (numbers ((s.list p).filter (ofkind id level 0))) (asks items p id level) := by
  have hitems : ∀ x ∈ items.filter (fun x => x.place = p), x.isequip = false := fun x hx =>
    place_list hp (by simpa using (List.mem_filter.mp hx).2)
  rw [stock, hlist, takes_numbers hitems h, sum_foldl_takenumber]
  rfl

theorem stock_plain {p : Place} (h : ∀ c ∈ s.list p, c.number = none) : stock s p id level 0 =
    (((s.list p).filter (ofid id)).countP fun c => c.level = level : ℕ) := by
  have hfilter : (s.list p).filter (ofkind id level 0) =
      ((s.list p).filter (ofid id)).filter fun c => c.level = level := by
    rw [List.filter_filter]
    refine List.filter_congr fun c _ => ?_
    simp only [ofkind, ofid]
    rw [Bool.and_comm (decide (c.level = level)), Bool.and_right_comm]
  rw [stock, numbers_plain fun c hc => h c (List.mem_of_mem_filter hc), hfilter, List.countP_eq_length_filter]

theorem stock_locked {p : Place} (hlist : t.list p = takes items (s.list p)) (hlock : lock ≠ 0) :
    stock t p id level lock = stock s p id level lock := by
  rw [stock, hlist, takes_locked hlock, stock]

/-- **What each list has after the loop** is what it had without what is gone. -/
theorem takeall_stock (h : Counted s) (hitems : ∀ x ∈ items, x.Onelist)
    (hrun : takeall cfg items s = some t) (p : Place) (id level lock : ℤ) :
    stock t p id level lock = stock s p id level lock - if lock = 0 then gone s items p id level else 0 := by
  have hlist := takeall_list hitems hrun p
  by_cases hlock : lock = 0
  · subst hlock
    rw [if_pos rfl]
    cases p with
    | new =>
      rw [stock_listed (p := .new) h.newchipinfo (Or.inl rfl) hlist]
      simp only [gone]
      ring
    | seen =>
      rw [stock_listed (p := .seen) h.chipinfoarr (Or.inr rfl) hlist]
      simp only [gone]
      ring
    | fitted r =>
      have hplain : ∀ c ∈ s.list (.fitted r), c.number = none := fun c hc =>
        h.plain c (List.mem_of_mem_filter hc)
      have hequip : ∀ x ∈ items.filter (fun x => x.place = .fitted r), x.isequip = true := fun x hx =>
        (place_fitted_iff.mp (by simpa using (List.mem_filter.mp hx).2)).1
      have hplain' : ∀ c ∈ t.list (.fitted r), c.number = none := by
        rw [hlist]
        exact takes_plain hplain
      have hsplit := congrArg (List.countP fun c => c.level = level)
        (List.take_append_drop (listedtimes items (.fitted r) id) ((s.list (.fitted r)).filter (ofid id)))
      rw [List.countP_append] at hsplit
      rw [stock_plain hplain', stock_plain hplain, hlist, takes_fitted hequip hplain, ← hsplit]
      simp only [gone, listedtimes]
      push_cast
      ring
  · rw [if_neg hlock, sub_zero, stock_locked hlist hlock]

/-! ## Just what is listed -/

/-- **Just what is listed is taken**, and the player had it. -/
structure Taken (s t : State) (items : List Item) : Prop where
  removed : ∀ p id level lock, stock t p id level lock =
    stock s p id level lock - if lock = 0 then asked items p id level else 0
  owned : ∀ p id level, asked items p id level ≤ stock s p id level 0

/-- **What is listed is there**: what entries refuse comes to nothing, and each fitted
chip that goes is listed once, with its level. -/
structure Covered (s : State) (items : List Item) : Prop where
  newchipinfo : ∀ id level, refused (numbers (s.newchipinfo.filter (ofkind id level 0)))
    (asks items .new id level) = 0
  chipinfoarr : ∀ id level, refused (numbers (s.chipinfoarr.filter (ofkind id level 0)))
    (asks items .seen id level) = 0
  inchipinfoarr : ∀ r id level, asked items (.fitted r) id level =
    ((((s.list (.fitted r)).filter (ofid id)).take (listedtimes items (.fitted r) id)).countP fun c => c.level = level : ℕ)

theorem covered_iff : Covered s items ↔ ∀ p id level, gone s items p id level = asked items p id level := by
  constructor
  · rintro ⟨hnew, hseen, hin⟩ p id level
    cases p with
    | new => simp [gone, State.list, hnew]
    | seen => simp [gone, State.list, hseen]
    | fitted r => exact (hin r id level).symm
  · intro h
    refine ⟨fun id level => ?_, fun id level => ?_, fun r id level => (h (.fitted r) id level).symm⟩
    · have := h .new id level
      simp only [gone, State.list] at this
      omega
    · have := h .seen id level
      simp only [gone, State.list] at this
      omega

theorem takeall_counted (h : Counted s) (hitems : ∀ x ∈ items, x.Onelist)
    (hrun : takeall cfg items s = some t) (p : Place) : ∀ c ∈ t.list p, 0 ≤ c.number.getD 1 := by
  intro c hc
  rw [takeall_list hitems hrun] at hc
  cases p with
  | new =>
    obtain ⟨n, hn, hpos⟩ := takes_numbered (l := s.list .new) h.newchipinfo c hc
    simp [hn, hpos.le]
  | seen =>
    obtain ⟨n, hn, hpos⟩ := takes_numbered (l := s.list .seen) h.chipinfoarr c hc
    simp [hn, hpos.le]
  | fitted r =>
    rw [takes_plain (fun d hd => h.plain d (List.mem_of_mem_filter hd)) c hc]
    exact zero_le_one

/-- **The loop takes just what is listed** where it is there. -/
theorem takeall_taken_iff (h : Counted s) (hitems : ∀ x ∈ items, x.Onelist)
    (hrun : takeall cfg items s = some t) : Taken s t items ↔ Covered s items := by
  have hstock := takeall_stock h hitems hrun
  rw [covered_iff]
  constructor
  · rintro ⟨hremoved, -⟩ p id level
    have h₁ := hremoved p id level 0
    have h₂ := hstock p id level 0
    simp only [if_true] at h₁ h₂
    omega
  · intro hgone
    have hremoved : ∀ p id level lock, stock t p id level lock =
        stock s p id level lock - if lock = 0 then asked items p id level else 0 := by
      intro p id level lock
      rw [hstock, hgone]
    refine ⟨hremoved, fun p id level => ?_⟩
    have hthis := hremoved p id level 0
    have hnonneg : 0 ≤ stock t p id level 0 :=
      numbers_nonneg fun c hc => takeall_counted h hitems hrun p c (List.mem_of_mem_filter hc)
    simp only [if_true] at hthis
    omega

/-! ## All chips -/

/-- What a chip of a request is counted under; a fitted one whatever its level. -/
def Item.key (x : Item) : Place × ℤ × Option ℤ := (x.place, x.id, if x.isequip then none else some x.level)

/-- How many chips there are under a key. -/
def keystock (s : State) : Place × ℤ × Option ℤ → ℤ
  | (p, id, some level) => stock s p id level 0
  | (p, id, none) => (numbers ((s.list p).filter (ofid id))).sum

/-- **How many go** under a key. -/
def keygone (s : State) (items : List Item) : Place × ℤ × Option ℤ → ℤ
  | (p, id, some level) => gone s items p id level
  | (p, id, none) => (((s.list p).filter (ofid id)).take (listedtimes items p id)).length

/-- **All chips of the player.** -/
def owned (s : State) : ℤ := weight (fun _ _ => 1) s

theorem owned_eq (s : State) : owned s =
    (numbers s.newchipinfo).sum + (numbers s.chipinfoarr).sum + (numbers s.inchipinfoarr).sum := by
  have hweigh : (weigh fun _ _ => 1) = fun c => c.number.getD 1 := by
    funext c
    simp [weigh]
  rw [owned, weight, hweigh]
  rfl

theorem numbers_filter (p : Chip → Bool) (l : List Chip) :
    (numbers l).sum = (numbers (l.filter p)).sum + (numbers (l.filter fun c => !p c)).sum := by
  induction l with
  | nil => rfl
  | cons c l ih =>
    rw [numbers] at ih ⊢
    rw [List.map_cons, List.sum_cons, ih]
    by_cases hp : p c = true
    · rw [List.filter_cons_of_pos hp, List.filter_cons_of_neg (by simp [hp])]
      simp only [numbers, List.map_cons, List.sum_cons]
      omega
    · rw [List.filter_cons_of_neg hp, List.filter_cons_of_pos (by simpa using hp)]
      simp only [numbers, List.map_cons, List.sum_cons]
      omega

/-- A list loses what its chips of the kind lose. -/
theorem numbers_less {p : Chip → Bool} (hp : Blind p) (n : ℤ) (l : List Chip) :
    (numbers (less p n l)).sum =
      (numbers l).sum - (numbers (l.filter p)).sum + (numbers ((less p n l).filter p)).sum := by
  have hrest : (less p n l).filter (fun c => !p c) = l.filter fun c => !p c :=
    filter_less_of_disjoint (fun c m => by rw [hp c m]) fun c hc => by simp [hc]
  rw [numbers_filter p l, numbers_filter p (less p n l), hrest]
  omega

theorem keystock_key (s : State) (x : Item) :
    keystock s x.key = (numbers ((s.list x.place).filter x.kind)).sum := by
  unfold Item.key
  split
  · rename_i hequip
    have hkind : x.kind = ofid x.id := by
      funext c
      simp [Item.kind, ofid, hequip]
    rw [hkind]
    rfl
  · rename_i hequip
    have hkind : x.kind = ofkind x.id x.level 0 := by
      funext c
      have hequip : x.isequip = false := by simpa using hequip
      simp only [Item.kind, ofkind, hequip, Bool.false_or]
      rw [Bool.and_right_comm]
    rw [hkind]
    rfl

/-- **A round takes all it takes under the key of its chip.** -/
theorem takeitem_owned (hx : x.Onelist) (h : takeitem cfg x s = some t) :
    owned t = owned s - keystock s x.key + keystock t x.key := by
  obtain ⟨hnew, hseen, hin⟩ := takeitem_lists hx h
  have hkey : keystock t x.key = (numbers ((less x.kind x.number (s.list x.place)).filter x.kind)).sum := by
    rw [keystock_key, takeitem_list hx h, if_pos rfl]
  rw [hkey, keystock_key, owned_eq, owned_eq, hnew, hseen, hin]
  by_cases hequip : x.isequip = true
  · have hplace : x.place = .fitted x.record := if_pos hequip
    have hkind : x.kind = ofid x.id := by
      funext c
      simp [Item.kind, ofid, hequip]
    have hslotted : ∀ l : List Chip, l.filter x.slotted =
        (l.filter fun c => c.record = some x.record).filter (ofid x.id) := by
      intro l
      rw [List.filter_filter]
      refine List.filter_congr fun c _ => ?_
      rw [Item.slotted, ofid, Bool.and_comm]
    have hfilter : (less x.slotted x.number s.inchipinfoarr).filter (fun c => c.record = some x.record) =
        less (ofid x.id) x.number (s.inchipinfoarr.filter fun c => c.record = some x.record) :=
      filter_less (fun _ _ => rfl) fun _ => rfl
    have hless := numbers_less (p := x.slotted) (fun _ _ => rfl) x.number s.inchipinfoarr
    rw [hslotted, hslotted, hfilter] at hless
    rw [hplace, hequip, hkind]
    simp only [State.list, if_true, reduceCtorEq, if_false]
    omega
  · have hequip : x.isequip = false := by simpa using hequip
    cases hn : x.isnew with
    | true =>
      have hplace : x.place = .new := by simp [Item.place, hequip, hn]
      have hless := numbers_less x.kind_blind x.number s.newchipinfo
      rw [hplace, hequip]
      simp only [State.list, if_true, reduceCtorEq, Bool.false_eq_true, if_false]
      omega
    | false =>
      have hplace : x.place = .seen := by simp [Item.place, hequip, hn]
      have hless := numbers_less x.kind_blind x.number s.chipinfoarr
      rw [hplace, hequip]
      simp only [State.list, if_true, reduceCtorEq, Bool.false_eq_true, if_false]
      omega

/-- Other keys are not touched. -/
theorem takeitem_keystock {y : Item} (hx : x.Onelist) (h : takeitem cfg x s = some t)
    (hne : y.key ≠ x.key) : keystock t y.key = keystock s y.key := by
  rw [keystock_key, keystock_key, takeitem_list hx h]
  by_cases hplace : x.place = y.place
  · rw [if_pos hplace, filter_less_of_disjoint y.kind_blind]
    intro c hc
    by_contra hy
    have hy : y.kind c = true := by simpa using hy
    have hequip : x.isequip = y.isequip := by
      rw [Bool.eq_iff_iff]
      constructor
      · intro hxe
        have hfitted : x.place = .fitted x.record := if_pos hxe
        rw [hplace] at hfitted
        exact (place_fitted_iff.mp hfitted).1
      · intro hye
        have hfitted : y.place = .fitted y.record := if_pos hye
        rw [← hplace] at hfitted
        exact (place_fitted_iff.mp hfitted).1
    simp only [Item.kind, Bool.and_eq_true, Bool.or_eq_true, decide_eq_true_eq] at hc hy
    refine hne ?_
    unfold Item.key
    rw [← hplace, ← hequip, ← hc.1.1, ← hy.1.1]
    by_cases hxe : x.isequip = true
    · rw [if_pos hxe, if_pos hxe]
    · have hx' : x.isequip = false := by simpa using hxe
      have hlx : c.level = x.level := by simpa [hx'] using hc.2
      have hly : c.level = y.level := by simpa [← hequip, hx'] using hy.2
      rw [if_neg hxe, if_neg hxe, ← hlx, ← hly]
  · rw [if_neg hplace]

/-- **All that the loop takes** is taken under the keys of its chips. -/
theorem takeall_owned (K : Finset (Place × ℤ × Option ℤ)) (hK : ∀ k ∈ K, ∃ y : Item, k = y.key)
    (hitems : ∀ x ∈ items, x.Onelist) (hkeys : ∀ x ∈ items, x.key ∈ K)
    (hrun : takeall cfg items s = some t) :
    owned t = owned s - ∑ k ∈ K, (keystock s k - keystock t k) := by
  induction items generalizing s with
  | nil =>
    obtain rfl := Option.some.inj hrun
    simp
  | cons x items ih =>
    obtain ⟨t₁, hx, hrest⟩ := Option.bind_eq_some_iff.mp hrun
    have hxone := hitems x List.mem_cons_self
    have hround := takeitem_owned hxone hx
    have hih := ih (fun y hy => hitems y (List.mem_cons_of_mem x hy))
      (fun y hy => hkeys y (List.mem_cons_of_mem x hy)) hrest
    have hsingle : ∑ k ∈ K, (keystock s k - keystock t₁ k) = keystock s x.key - keystock t₁ x.key := by
      refine Finset.sum_eq_single x.key (fun k hk hne => ?_) fun hno =>
        absurd (hkeys x List.mem_cons_self) hno
      obtain ⟨y, rfl⟩ := hK k hk
      rw [takeitem_keystock hxone hx hne, sub_self]
    have hsum : ∑ k ∈ K, (keystock s k - keystock t k) =
        ∑ k ∈ K, (keystock s k - keystock t₁ k) + ∑ k ∈ K, (keystock t₁ k - keystock t k) := by
      rw [← Finset.sum_add_distrib]
      exact Finset.sum_congr rfl fun k _ => by omega
    rw [hsum, hsingle]
    omega

/-- Under each key goes what is said of it. -/
theorem takeall_keygone (h : Counted s) (hitems : ∀ x ∈ items, x.Onelist)
    (hrun : takeall cfg items s = some t) (y : Item) :
    keystock s y.key - keystock t y.key = keygone s items y.key := by
  unfold Item.key
  split
  · rename_i hequip
    have hplace : y.place = .fitted y.record := if_pos hequip
    have hplain : ∀ c ∈ s.list (.fitted y.record), c.number = none := fun c hc =>
      h.plain c (List.mem_of_mem_filter hc)
    have hlist := takeall_list hitems hrun (.fitted y.record)
    have hfitted : ∀ x ∈ items.filter (fun x => x.place = .fitted y.record), x.isequip = true := fun x hx =>
      (place_fitted_iff.mp (by simpa using (List.mem_filter.mp hx).2)).1
    have hplain' : ∀ c ∈ t.list (.fitted y.record), c.number = none := by
      rw [hlist]
      exact takes_plain hplain
    have hdrop : (t.list (.fitted y.record)).filter (ofid y.id) =
        ((s.list (.fitted y.record)).filter (ofid y.id)).drop (listedtimes items (.fitted y.record) y.id) := by
      rw [hlist, takes_fitted hfitted hplain]
      rfl
    simp only [keystock, keygone, hplace]
    rw [numbers_plain fun c hc => hplain c (List.mem_of_mem_filter hc),
      numbers_plain fun c hc => hplain' c (List.mem_of_mem_filter hc), hdrop, List.length_drop,
      List.length_take]
    omega
  · have := takeall_stock h hitems hrun y.place y.id y.level 0
    simp only [if_true] at this
    simp only [keystock, keygone]
    omega

end Chips

end Athena
