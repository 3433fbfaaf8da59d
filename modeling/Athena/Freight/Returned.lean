import Athena.Common.Mirror
import Athena.Freight.Transport
import Mathlib.Data.List.Nodup
/-!
# Freight — what comes back of a transport

The calls that pass the check of `trancancel` come onto the shelf one after the
other, up to the first for which no price is found. A reward that does not pass
is lost, as the entry is deleted all the same.
-/

namespace Athena

namespace Freight

open Lua Queue.Lanes

variable {quote : Quotes} {now : ℤ} {s t : State} {uid : Int64} {bqid : ℕ} {row : Queue.Row}
  {shop u : Shop.State} {c : Call} {cs : List Call} {id : ℤ}

/-! ## One call -/

theorem passes_eq_true_iff :
    c.passes = true ↔ ¬ (c.iskh = none ∨ c.iskh = some 1 ∧ c.price = none) := by
  unfold Call.passes
  rw [Bool.not_eq_true', decide_eq_false_iff_not]

theorem passes_eq_false_iff :
    c.passes = false ↔ c.iskh = none ∨ c.iskh = some 1 ∧ c.price = none := by
  rw [← Bool.not_eq_true, passes_eq_true_iff, not_not]

theorem trancancel_refused (h : c.passes = false) :
    c.trancancel quote now uid shop = (shop, .code .errParam) := by
  unfold Call.trancancel Shop.trancancel
  rw [if_pos (passes_eq_false_iff.1 h)]

theorem trancancel_raised (h : c.passes = true) (hp : c.priced quote = false) :
    c.trancancel quote now uid shop = (shop, .raised) := by
  obtain ⟨hprice, hquote⟩ : c.price = none ∧ quote c.cfgid = none := by
    simpa [Call.priced] using hp
  unfold Call.trancancel Shop.trancancel
  rw [if_neg (passes_eq_true_iff.1 h), hprice, hquote]

/-- The row of a call. -/
def Call.stay (now : ℤ) (uid : Int64) (price : Int64) (c : Call) : Shop.Stayputaway :=
  ⟨c.cfgid, c.number, c.iskh, price, c.index, now, now + Shop.stay c.iskh, uid⟩

theorem trancancel_taken (now : ℤ) (uid : Int64) (shop : Shop.State) (h : c.passes = true)
    (hp : c.priced quote = true) :
    ∃ price, c.trancancel quote now uid shop = (shop.enter (c.stay now uid price), .code .success) := by
  unfold Call.trancancel Shop.trancancel
  rw [if_neg (passes_eq_true_iff.1 h)]
  cases hprice : c.price with
  | some price => exact ⟨_, rfl⟩
  | none =>
    cases hquote : quote c.cfgid with
    | none => simp [Call.priced, hprice, hquote] at hp
    | some q => exact ⟨_, rfl⟩

/-! ## The loops -/

/-- The calls that come onto the shelf. -/
def returned (quote : Quotes) : List Call → List Call
  | [] => []
  | c :: cs =>
    if c.passes = false then returned quote cs
    else if c.priced quote = true then c :: returned quote cs
    else []

/-- No call raises an error. -/
def finishes (quote : Quotes) (cs : List Call) : Bool := cs.all fun c => !c.passes || c.priced quote

theorem returned_refused (cs : List Call) (h : c.passes = false) :
    returned quote (c :: cs) = returned quote cs := by
  rw [returned, if_pos h]

theorem returned_taken (cs : List Call) (h : c.passes = true) (hp : c.priced quote = true) :
    returned quote (c :: cs) = c :: returned quote cs := by
  rw [returned, if_neg (by rw [h]; decide), if_pos hp]

theorem returned_raised (cs : List Call) (h : c.passes = true) (hp : c.priced quote = false) :
    returned quote (c :: cs) = [] := by
  rw [returned, if_neg (by rw [h]; decide), if_neg (by rw [hp]; decide)]

/-- What may become of a call. -/
theorem call_cases (quote : Quotes) (c : Call) : c.passes = false ∨
    (c.passes = true ∧ c.priced quote = true) ∨ (c.passes = true ∧ c.priced quote = false) := by
  cases c.passes <;> cases c.priced quote <;> simp

theorem returned_sublist (quote : Quotes) (cs : List Call) : (returned quote cs).Sublist cs := by
  induction cs with
  | nil => exact .slnil
  | cons c cs ih =>
    obtain h | ⟨h, hp⟩ | ⟨h, hp⟩ := call_cases quote c
    · rw [returned_refused cs h]
      exact ih.cons c
    · rw [returned_taken cs h hp]
      exact ih.cons_cons c
    · rw [returned_raised cs h hp]
      exact List.nil_sublist _

/-- **All come onto the shelf** just where each passes the check and has a price. -/
theorem returned_eq_self_iff :
    returned quote cs = cs ↔ ∀ c ∈ cs, c.passes = true ∧ c.priced quote = true := by
  induction cs with
  | nil => simp [returned]
  | cons c cs ih =>
    rw [List.forall_mem_cons, ← ih]
    obtain h | ⟨h, hp⟩ | ⟨h, hp⟩ := call_cases quote c
    · rw [returned_refused cs h]
      refine iff_of_false (fun hself => ?_) (by simp [h])
      have hlength := (returned_sublist quote cs).length_le
      rw [hself, List.length_cons] at hlength
      omega
    · rw [returned_taken cs h hp]
      simp [h, hp]
    · rw [returned_raised cs h hp]
      simp [hp]

/-- **Nothing comes onto it before an error** just where the first call that passes
has no price. -/
theorem returned_eq_nil_iff (h : finishes quote cs = false) :
    returned quote cs = [] ↔ ∃ c, cs.find? Call.passes = some c ∧ c.priced quote = false := by
  induction cs with
  | nil => cases h
  | cons c cs ih =>
    obtain hc | ⟨hc, hp⟩ | ⟨hc, hp⟩ := call_cases quote c
    · rw [returned_refused cs hc, List.find?_cons_of_neg (by rw [hc]; decide)]
      exact ih (by simpa [finishes, hc] using h)
    · rw [returned_taken cs hc hp, List.find?_cons_of_pos hc]
      simp [hp]
    · rw [returned_raised cs hc hp, List.find?_cons_of_pos hc]
      simp [hp]

theorem finishes_of_taken (h : Taken quote row) : finishes quote (calls row) = true :=
  List.all_eq_true.2 fun c hc => by simp [(h c hc).2]

theorem not_stopped_of_finishes (h : finishes quote (calls row) = true) : ¬ Stopped quote row := by
  rintro ⟨c, hc, hprice⟩
  have hall := List.all_eq_true.1 h c (List.mem_of_find?_eq_some hc)
  rw [List.find?_some hc, hprice] at hall
  cases hall

theorem trancancels_refused (cs : List Call) (h : c.passes = false) :
    trancancels quote now uid shop (c :: cs) = trancancels quote now uid shop cs := by
  rw [trancancels, trancancel_refused h]

theorem trancancels_raised (cs : List Call) (h : c.passes = true) (hp : c.priced quote = false) :
    trancancels quote now uid shop (c :: cs) = (shop, false) := by
  rw [trancancels, trancancel_raised h hp]

theorem trancancels_taken (now : ℤ) (uid : Int64) (shop : Shop.State) (cs : List Call)
    (h : c.passes = true) (hp : c.priced quote = true) :
    ∃ price, trancancels quote now uid shop (c :: cs) =
      trancancels quote now uid (shop.enter (c.stay now uid price)) cs := by
  obtain ⟨price, hprice⟩ := trancancel_taken now uid shop h hp
  exact ⟨price, by rw [trancancels, hprice]⟩

theorem trancancels_finishes : (trancancels quote now uid shop cs).2 = finishes quote cs := by
  induction cs generalizing shop with
  | nil => rfl
  | cons c cs ih =>
    obtain h | ⟨h, hp⟩ | ⟨h, hp⟩ := call_cases quote c
    · rw [trancancels_refused cs h, ih]
      simp [finishes, h]
    · obtain ⟨price, hprice⟩ := trancancels_taken now uid shop cs h hp
      rw [hprice, ih]
      simp [finishes, hp]
    · rw [trancancels_raised cs h hp]
      simp [finishes, h, hp]

/-! ## The shelf -/

/-- The ids of a player's rows that wait. -/
def shelf (shop : Shop.State) (uid : Int64) : List ℤ :=
  (shop.putawayinfo uid).staygoldarr ++ (shop.putawayinfo uid).staykhoriumarr

/-- **The calls are on the shelf**, each under an id of its own from the counter, and
what was there stays. -/
structure Puts (shop u : Shop.State) (uid : Int64) (cs : List Call) : Prop where
  rows : ∃ ids : List ℤ, ids.Nodup ∧ (∀ id ∈ ids, shop.stayputawayId < id ∧ id ≤ u.stayputawayId) ∧
    List.Forall₂ (OnShelf u uid) ids cs ∧
    ∀ id, id ∉ ids → u.stayputaway id = shop.stayputaway id
  count : u.stayputawayId = shop.stayputawayId + cs.length
  kept : ∀ id ∈ shelf shop uid, id ∈ shelf u uid

theorem puts_nil : Puts shop shop uid [] where
  rows := ⟨[], List.nodup_nil, by simp, .nil, fun _ _ => rfl⟩
  count := by simp
  kept _ h := h

theorem shelf_enter (price : Int64) :
    shelf (shop.enter (c.stay now uid price)) uid =
      if c.iskh = some 1 then shelf shop uid ++ [shop.stayputawayId + 1]
      else (shop.putawayinfo uid).staygoldarr ++ [shop.stayputawayId + 1] ++
        (shop.putawayinfo uid).staykhoriumarr := by
  unfold shelf Shop.State.enter Call.stay Shop.State.setInfo
  split <;> simp_all

/-- One call more. -/
theorem Puts.cons {price : Int64} (hs : Shelved shop)
    (h : Puts (shop.enter (c.stay now uid price)) u uid cs) : Puts shop u uid (c :: cs) := by
  obtain ⟨⟨ids, hn, hids, hrows, hothers⟩, hcount, hkept⟩ := h
  have hnext : (shop.enter (c.stay now uid price)).stayputawayId = shop.stayputawayId + 1 := rfl
  have htable : (shop.enter (c.stay now uid price)).stayputaway =
      Function.update shop.stayputaway (shop.stayputawayId + 1) (some (c.stay now uid price)) :=
    Shop.insertRow_of_none (hs _ (by omega))
  have hnot : shop.stayputawayId + 1 ∉ ids := by
    intro hin
    have hlt := (hids _ hin).1
    omega
  have hmem : ∀ id, id ∈ shelf shop uid ∨ id = shop.stayputawayId + 1 → id ∈ shelf u uid := by
    intro id hid
    refine hkept id ?_
    rw [shelf_enter]
    unfold shelf at hid
    split <;> simp only [shelf, List.mem_append, List.mem_singleton] at hid ⊢ <;> tauto
  refine ⟨⟨(shop.stayputawayId + 1) :: ids, List.nodup_cons.2 ⟨hnot, hn⟩, ?_, .cons ?_ hrows, ?_⟩, ?_,
    fun id hid => hmem id (Or.inl hid)⟩
  · rw [List.forall_mem_cons]
    refine ⟨by omega, fun id hid => ?_⟩
    have hbounds := hids id hid
    omega
  · refine ⟨c.stay now uid price, ?_, rfl, rfl, rfl, rfl, List.mem_append.1 (hmem _ (Or.inr rfl))⟩
    rw [hothers _ hnot, htable, Function.update_self]
  · intro id hid
    rw [List.mem_cons, not_or] at hid
    rw [hothers id hid.2, htable, Function.update_of_ne hid.1]
  · rw [hcount, hnext, List.length_cons]
    omega

theorem trancancels_puts (quote : Quotes) (now : ℤ) (uid : Int64) (hs : Shelved shop) (cs : List Call) :
    Puts shop (trancancels quote now uid shop cs).1 uid (returned quote cs) := by
  induction cs generalizing shop with
  | nil => exact puts_nil
  | cons c cs ih =>
    obtain h | ⟨h, hp⟩ | ⟨h, hp⟩ := call_cases quote c
    · rw [trancancels_refused cs h, returned_refused cs h]
      exact ih hs
    · obtain ⟨price, hprice⟩ := trancancels_taken now uid shop cs h hp
      rw [hprice, returned_taken cs h hp]
      exact (ih (shelved_enter hs _)).cons hs
    · rw [trancancels_raised cs h hp, returned_raised cs h hp]
      exact puts_nil

/-- Without a call that comes onto the shelf the market stays as it was. -/
theorem trancancels_eq_self_iff (quote : Quotes) (now : ℤ) (uid : Int64) (hs : Shelved shop)
    (cs : List Call) :
    (trancancels quote now uid shop cs).1 = shop ↔ returned quote cs = [] := by
  constructor
  · intro h
    have hcount := (trancancels_puts quote now uid hs cs).count
    rw [h] at hcount
    exact List.length_eq_zero_iff.1 (by omega)
  · intro h
    induction cs with
    | nil => rfl
    | cons c cs ih =>
      obtain hc | ⟨hc, hp⟩ | ⟨hc, hp⟩ := call_cases quote c
      · rw [returned_refused cs hc] at h
        rw [trancancels_refused cs hc]
        exact ih h
      · rw [returned_taken cs hc hp] at h
        cases h
      · rw [trancancels_raised cs hc hp]

/-- There are no more new rows than calls that were put. -/
theorem Puts.length_le {cs' : List Call} (h : Puts shop u uid cs') {ids : List ℤ} (hn : ids.Nodup)
    (hnew : ∀ id ∈ ids, shop.stayputaway id = none) (hrows : List.Forall₂ (OnShelf u uid) ids cs) :
    cs.length ≤ cs'.length := by
  obtain ⟨puts, -, -, hputs, hothers⟩ := h.rows
  have hsub : ids ⊆ puts := by
    intro id hid
    by_contra hnot
    obtain ⟨k, hk, rfl⟩ := List.getElem_of_mem hid
    obtain ⟨stay, hstay, -⟩ := (List.forall₂_iff_get.1 hrows).2 k hk
      (by rw [← hrows.length_eq]; exact hk)
    have hold := hothers _ hnot
    rw [hnew _ hid] at hold
    exact nomatch hold.symm.trans hstay
  rw [← hrows.length_eq, ← hputs.length_eq]
  exact (List.subperm_of_subset hn hsub).length_le

/-! ## The list of the entry -/

/-- **The list is right** just where the entry is in it once, or it is empty. -/
theorem remove_array_iff (ids : List ℕ) :
    Queue.remove_array ids bqid = ids.filter (· ≠ bqid) ↔ ids.count bqid = 1 ∨ ids = [] := by
  unfold Queue.remove_array
  by_cases hmem : bqid ∈ ids
  · have hne : ids ≠ [] := List.ne_nil_of_mem hmem
    have hone : ids.diff [bqid] = ids.filter (· ∉ [bqid]) ↔ ∀ a ∈ [bqid], ids.count a = 1 :=
      diff_eq_filter_iff (List.nodup_singleton _) (by simpa using hmem)
    rw [if_pos hmem]
    simpa [hne] using hone
  · have hself : ids.filter (· ≠ bqid) = ids := by
      refine List.filter_eq_self.2 fun id hid => ?_
      have hne : id ≠ bqid := fun h => hmem (h ▸ hid)
      simpa using hne
    rw [if_neg hmem, hself, List.count_eq_zero.2 hmem]
    simp [eq_comm]

/-! ## The request -/

/-- **The owner's entry**: the calls are made, and the entry is deleted where they finish. -/
theorem removebq_owned (quote : Quotes) (now : ℤ) (hrow : s.queue.db.rows bqid = some row) (howner : row.playerid = uid.toInt) :
    (removebq quote now s uid bqid).1.shop = (trancancels quote now uid s.shop (calls row)).1 ∧
      (removebq quote now s uid bqid).1.queue =
        if finishes quote (calls row) then { s.queue with db := delbusinessqueue bqid s.queue.db } else s.queue := by
  unfold removebq
  split
  · rename_i hnone
    rw [hrow] at hnone
    cases hnone
  · rename_i row' hrow'
    obtain rfl := Option.some.inj (hrow.symm.trans hrow')
    simp only [howner, if_true, trancancels_finishes]
    cases finishes quote (calls row) <;> exact ⟨rfl, rfl⟩

/-- Where the calls end with an error, the queues stay as they were. -/
theorem removebq_raised (now : ℤ) (hrow : s.queue.db.rows bqid = some row) (howner : row.playerid = uid.toInt)
    (h : finishes quote (calls row) = false) :
    (removebq quote now s uid bqid).1.queue = s.queue ∧
      (removebq quote now s uid bqid).1.shop = (trancancels quote now uid s.shop (calls row)).1 := by
  obtain ⟨hshop, hqueue⟩ := removebq_owned quote now hrow howner
  rw [h, if_neg Bool.false_ne_true] at hqueue
  exact ⟨hqueue, hshop⟩

/-- Otherwise the entry is deleted. -/
theorem removebq_finishes (now : ℤ) (hrow : s.queue.db.rows bqid = some row) (howner : row.playerid = uid.toInt)
    (h : finishes quote (calls row) = true) :
    (removebq quote now s uid bqid).1.queue.db = delbusinessqueue bqid s.queue.db ∧
      (removebq quote now s uid bqid).1.shop = (trancancels quote now uid s.shop (calls row)).1 := by
  obtain ⟨hshop, hqueue⟩ := removebq_owned quote now hrow howner
  rw [h, if_pos rfl] at hqueue
  exact ⟨by rw [hqueue], hshop⟩

/-- **A transport whose calls all come to an end.** -/
theorem returned_airfreighter_iff (now : ℤ) (hrow : s.queue.db.rows bqid = some row)
    (howner : row.playerid = uid.toInt) (htype : row.type = .airfreighter)
    (h : finishes quote (calls row) = true) :
    Returned s (removebq quote now s uid bqid).1 uid bqid row ↔
      Taken quote row ∧ Listed s bqid row := by
  obtain ⟨hdb, hshop⟩ := removebq_finishes now hrow howner h
  have hputs := trancancels_puts quote now uid s.shelved (calls row)
  have hqueue : ∀ u c, (removebq quote now s uid bqid).1.queue.db.queueinfo u c =
      if u = row.playerid ∧ c = row.column then
        Queue.remove_array (s.queue.db.queueinfo row.playerid row.column) bqid
      else s.queue.db.queueinfo u c := by
    intro u c
    rw [hdb, delbusinessqueue_airfreighter hrow htype]
    rfl
  constructor
  · rintro ⟨⟨ids, hn, hnew, hrows, -⟩, hlist, -⟩
    rw [hshop] at hrows
    have hle := hputs.length_le hn hnew hrows
    refine ⟨returned_eq_self_iff.1 ((returned_sublist quote (calls row)).eq_of_length_le hle), ?_⟩
    have hown := hlist row.playerid row.column
    rw [hqueue, if_pos ⟨rfl, rfl⟩, if_pos ⟨rfl, rfl⟩] at hown
    exact (remove_array_iff _).1 hown
  · rintro ⟨htaken, hlisted⟩
    rw [returned_eq_self_iff.2 htaken] at hputs
    obtain ⟨⟨ids, hn, hids, hrows, hothers⟩, -, -⟩ := hputs
    refine ⟨⟨ids, hn, fun id hid => s.shelved id (hids id hid).1, by rwa [hshop], by rwa [hshop]⟩, ?_, ?_⟩
    · intro u c
      rw [hqueue]
      split
      · rename_i huc
        rw [huc.1, huc.2]
        exact (remove_array_iff _).2 hlisted
      · rfl
    · rw [hdb, delbusinessqueue_airfreighter hrow htype]
      rfl

/-- **An error among the calls** is right only where nothing had been returned. -/
theorem cancels_raised_iff (now : ℤ) (hrow : s.queue.db.rows bqid = some row)
    (howner : row.playerid = uid.toInt) (h : finishes quote (calls row) = false) :
    Cancels quote now s uid bqid row ↔ Stopped quote row := by
  obtain ⟨hqueue, hshop⟩ := removebq_raised now hrow howner h
  have hself := trancancels_eq_self_iff quote now uid s.shelved (calls row)
  have hnil := returned_eq_nil_iff h
  constructor
  · rintro (⟨hkept, -, -⟩ | ⟨-, -, htable⟩)
    · exact hnil.1 (hself.1 (hshop.symm.trans hkept))
    · have hgone := congrFun htable bqid
      rw [hqueue, hrow, Function.update_self] at hgone
      cases hgone
  · intro hstop
    refine Or.inl ⟨?_, by rw [hqueue], by rw [hqueue]⟩
    rw [hshop]
    exact hself.2 (hnil.2 hstop)

/-- **A transport whose calls come to their end.** -/
theorem cancels_airfreighter_iff (now : ℤ) (hrow : s.queue.db.rows bqid = some row)
    (howner : row.playerid = uid.toInt) (htype : row.type = .airfreighter)
    (h : finishes quote (calls row) = true) :
    Cancels quote now s uid bqid row ↔ Taken quote row ∧ Listed s bqid row := by
  rw [← returned_airfreighter_iff now hrow howner htype h]
  refine or_iff_right ?_
  rintro ⟨-, hkept, -⟩
  have hgone : (removebq quote now s uid bqid).1.queue.db.rows bqid = none := by
    rw [(removebq_finishes now hrow howner h).1, delbusinessqueue_airfreighter hrow htype]
    exact Queue.delete_rows
  rw [hkept, hrow] at hgone
  cases hgone

/-- **A scan or a casting**: an award is made, and the entry stays in the table. -/
theorem not_cancels_of_finishes (now : ℤ) (hrow : s.queue.db.rows bqid = some row)
    (howner : row.playerid = uid.toInt) (htype : row.type ≠ .airfreighter)
    (h : finishes quote (calls row) = true) : ¬ Cancels quote now s uid bqid row := by
  obtain ⟨hdb, -⟩ := removebq_finishes now hrow howner h
  obtain ⟨hrows, haward⟩ := delbusinessqueue_finishes hrow htype
  rintro (⟨-, hkept, -⟩ | ⟨-, -, htable⟩)
  · rw [← hdb, hkept] at haward
    simp at haward
  · have hgone := congrFun htable bqid
    rw [hdb, hrows, hrow, Function.update_self] at hgone
    cases hgone

/-- **`removebq` cancels an entry** just where it stops before it has returned anything,
or the entry is a transport, each of whose rewards is taken back, and it is listed. -/
theorem cancels_iff (hrow : s.queue.db.rows bqid = some row) (howner : row.playerid = uid.toInt) :
    Cancels quote now s uid bqid row ↔
      Stopped quote row ∨ row.type = .airfreighter ∧ Taken quote row ∧ Listed s bqid row := by
  cases hfin : finishes quote (calls row) with
  | false =>
    have hnotaken : ¬ Taken quote row := by
      intro htaken
      rw [finishes_of_taken htaken] at hfin
      cases hfin
    rw [cancels_raised_iff now hrow howner hfin]
    simp [hnotaken]
  | true =>
    rw [or_iff_right (not_stopped_of_finishes hfin)]
    by_cases htype : row.type = .airfreighter
    · rw [cancels_airfreighter_iff now hrow howner htype hfin]
      simp [htype]
    · exact iff_of_false (not_cancels_of_finishes now hrow howner htype hfin) fun h => htype h.1

/-! ## A purchase and a battle reward -/

/-- A blueprint and a material from the market. -/
def shipment : Queue.Row :=
  ⟨3, .airfreighter, 1, [⟨"110001".toList, 1, none, some 1, some 50⟩],
    [⟨7, "10001".toList, none, 5, some 0⟩], [], "0".toList, 0, 30, 30⟩

/-- What a battle left of a material. -/
def booty : Queue.Row :=
  ⟨3, .airfreighter, 1, [], [⟨7, "10001".toList, some 0, 22, none⟩], [], "0".toList, 0, 30, 30⟩

/-- Player 3 with one entry in his first lane, and nothing on the market. -/
def holder (row : Queue.Row) : State where
  shop := Shop.initial (fun _ => none) (fun _ => []) 0 (fun _ _ => none)
    fun _ => ⟨fun _ => none, fun _ => none⟩
  queue :=
    { now := 10
      db :=
        ⟨fun id => if id = 1 then some row else none,
          fun uid c => if uid = 3 ∧ c = .airfreighter 1 then [1] else [], 0, fun _ => [], fun _ => [],
          fun _ => []⟩
      nextid := 1
      creating := []
      timers := [(1, 30)]
      waiting := []
      completing := none }
  shelved _ _ := rfl
  queued id hid := if_neg (fun h => absurd hid (by rw [h]; exact Nat.lt_irrefl 1))

/-- The price of everything is 20. -/
def twenty : Quotes := fun _ => some (some 20)

/-- The theorem at the purchases: they come back. -/
theorem cancels_shipment : Cancels twenty 10 (holder shipment) 3 1 shipment :=
  (cancels_iff rfl rfl).2 (Or.inr ⟨rfl, by unfold Taken; decide, Or.inl (by decide)⟩)

/-- **A battle reward is cancelled**: the entry is deleted, and nothing comes back. -/
theorem booty_lost : (removebq twenty 10 (holder booty) 3 1).2 = .success ∧
    (removebq twenty 10 (holder booty) 3 1).1.queue.db.rows 1 = none ∧
    shelf (removebq twenty 10 (holder booty) 3 1).1.shop 3 = [] ∧
    ¬ Cancels twenty 10 (holder booty) 3 1 booty := by
  refine ⟨by decide, by decide, by decide, ?_⟩
  rw [cancels_airfreighter_iff 10 rfl rfl rfl (by decide)]
  rintro ⟨htaken, -⟩
  unfold Taken at htaken
  revert htaken
  decide

end Freight

end Athena
