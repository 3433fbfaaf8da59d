import Athena.Common.Mirror
import Athena.Freight.Transport
/-!
# Freight — a purchase named twice

`transport` deletes the rows it was told to delete, whatever else it does. It
is right where each purchase is named once, is listed once, and is of a kind that
a transport takes: a name that comes twice goes into the transport twice, and
when it is no longer found the last of the list goes in its place.
-/

namespace Athena

namespace Freight

open Lua Queue.Lanes

variable {cfg : Config} {s t : State} {uid : Int64} {infos : List (Option ℤ)} {pick : ℕ}
  {datainfos : Option (List (Option ℤ))} {shop : Shop.State} {data : List (Option Shop.Shopitem)}
  {ids : List ℤ} {item : Shop.Shopitem} {c d : Cargo} {r : Reply}

/-! ## Looking up -/

theorem lookup_eq_ok_iff : lookup shop uid infos = .ok data ↔
    ∃ ids : List ℤ, infos = ids.map some ∧ (∀ id ∈ ids, id ∈ shop.shopiteminfo uid) ∧
      data = ids.map shop.shopitem := by
  induction infos generalizing data with
  | nil =>
    constructor
    · intro h
      cases h
      exact ⟨[], rfl, by simp, rfl⟩
    · rintro ⟨ids, hids, -, rfl⟩
      rw [List.map_eq_nil_iff.1 hids.symm]
      rfl
  | cons x infos ih =>
    cases x with
    | none => exact iff_of_false (fun h => nomatch h) (by rintro ⟨_ | _, h, -⟩ <;> simp at h)
    | some shopid =>
      rw [lookup]
      constructor
      · intro h
        split at h
        · rename_i hown
          cases hrest : lookup shop uid infos with
          | error r => rw [hrest] at h; cases h
          | ok rest =>
            rw [hrest] at h
            cases h
            obtain ⟨ids, rfl, hids, rfl⟩ := ih.1 hrest
            exact ⟨shopid :: ids, rfl, by simpa using ⟨hown, hids⟩, rfl⟩
        · cases h
      · rintro ⟨_ | ⟨a, ids⟩, hinfos, hown, rfl⟩
        · simp at hinfos
        · obtain ⟨h, rfl⟩ := List.cons.inj hinfos
          cases h
          rw [if_pos (hown _ (List.mem_cons_self ..)),
            ih.2 ⟨ids, rfl, fun id hid => hown id (List.mem_cons_of_mem _ hid), rfl⟩]
          rfl

theorem lookup_error (h : lookup shop uid infos = .error r) : r ≠ .success := by
  induction infos with
  | nil => cases h
  | cons x infos ih =>
    cases x with
    | none =>
      cases h
      decide
    | some shopid =>
      rw [lookup] at h
      split at h
      · cases hrest : lookup shop uid infos with
        | error r' =>
          rw [hrest] at h
          cases h
          exact ih hrest
        | ok rest => rw [hrest] at h; cases h
      · cases h
        decide

/-! ## The cargo -/

/-- It is of a kind that a transport takes. -/
def Sent (item : Shop.Shopitem) : Prop := item.type = Shop.blueprint ∨ item.type = Shop.material

instance : Decidable (Sent item) := inferInstanceAs (Decidable (_ ∨ _))

/-- What becomes of a row. -/
def sent (value : Option Shop.Shopitem) : Option Goods :=
  value.bind fun item => if Sent item then some (goods item) else none

theorem packed_rewards (h : packed cfg item = some c) :
    rewards c.bprewardlist c.proprewardlist = (sent (some item)).toList := by
  simp only [packed] at h
  by_cases hb : item.type = Shop.blueprint
  · have hm : item.type ≠ Shop.material := by rw [hb]; decide
    have htype : item.type.toInt = Queue.blueprint := by rw [hb]; decide
    have hsent : sent (some item) = some (goods item) := if_pos (Or.inl hb)
    rw [if_pos hb] at h
    split at h
    · cases h
      rw [hsent]
      simp [rewards, bpgoods, goods, hm, htype]
    · cases h
  · rw [if_neg hb] at h
    by_cases hm : item.type = Shop.material
    · have hsent : sent (some item) = some (goods item) := if_pos (Or.inr hm)
      rw [if_pos hm] at h
      obtain ⟨cfgid, hcfgid, h⟩ := Option.bind_eq_some_iff.1 h
      obtain ⟨time, -, rfl⟩ := Option.map_eq_some_iff.1 h
      rw [hsent]
      simp [rewards, propgoods, goods, hm, hcfgid]
    · have hsent : sent (some item) = none := if_neg (by simp [Sent, hb, hm])
      rw [if_neg hm] at h
      cases h
      rw [hsent]
      rfl

theorem rewards_both (c d : Cargo) :
    (rewards (both c d).bprewardlist (both c d).proprewardlist).Perm
      (rewards c.bprewardlist c.proprewardlist ++ rewards d.bprewardlist d.proprewardlist) := by
  simp only [rewards, both, List.map_append, List.append_assoc]
  refine List.Perm.append_left _ ?_
  rw [← List.append_assoc, ← List.append_assoc]
  exact List.Perm.append_right _ List.perm_append_comm

/-- **The rewards are those of the rows**, each as often as it was named. -/
theorem rewards_getshopmarket_info (h : getshopmarket_info cfg data = some c) :
    (rewards c.bprewardlist c.proprewardlist).Perm (data.filterMap sent) := by
  induction data generalizing c with
  | nil =>
    cases h
    exact .refl _
  | cons value data ih =>
    cases value with
    | none => exact ih h
    | some item =>
      obtain ⟨d, hd, hc⟩ := Option.bind_eq_some_iff.1 h
      obtain ⟨e, he, rfl⟩ := Option.map_eq_some_iff.1 hc
      refine (rewards_both d e).trans ?_
      rw [packed_rewards hd]
      have hcons : (some item :: data).filterMap sent = (sent (some item)).toList ++ data.filterMap sent := by
        cases hs : sent (some item) <;> simp [hs]
      rw [hcons]
      exact (ih he).append_left _

theorem getshopmarket_info_isSome {f : ℤ → Option Shop.Shopitem} :
    (getshopmarket_info cfg (ids.map f)).isSome ↔
      ∀ id ∈ ids, ∀ item, f id = some item → (packed cfg item).isSome := by
  induction ids with
  | nil => simp [getshopmarket_info]
  | cons id ids ih =>
    rw [List.map_cons, List.forall_mem_cons, ← ih]
    cases hid : f id with
    | none => simp [getshopmarket_info]
    | some item => cases hp : packed cfg item <;> simp [getshopmarket_info, hp]

theorem sent_eq_some_iff {value : Option Shop.Shopitem} {g : Goods} :
    sent value = some g ↔ ∃ item, value = some item ∧ Sent item ∧ goods item = g := by
  cases value with
  | none => simp [sent]
  | some item => by_cases h : Sent item <;> simp [sent, h]

/-- Rows of what is sent are all that is sent. -/
theorem sent_items {f : ℤ → Option Shop.Shopitem}
    (h : ∀ id ∈ ids, ∃ item, f id = some item ∧ Sent item) :
    ∃ items : List Shop.Shopitem, ids.map f = items.map some ∧
      (ids.map f).filterMap sent = items.map goods := by
  induction ids with
  | nil => exact ⟨[], rfl, rfl⟩
  | cons id ids ih =>
    obtain ⟨item, hitem, hsent⟩ := h id (List.mem_cons_self ..)
    obtain ⟨items, hmap, hfilter⟩ := ih fun a ha => h a (List.mem_cons_of_mem _ ha)
    refine ⟨item :: items, by rw [List.map_cons, hitem, hmap, List.map_cons], ?_⟩
    rw [List.map_cons, List.filterMap_cons_some (sent_eq_some_iff.2 ⟨item, hitem, hsent, rfl⟩), hfilter,
      List.map_cons]

/-- **Each purchase comes once into the rewards** just where each is named once,
is there, and is of a kind that is sent. -/
theorem carried_once_iff {f : ℤ → Option Shop.Shopitem} :
    (∃ items : List Shop.Shopitem, ids.dedup.map f = items.map some ∧
        ((ids.map f).filterMap sent).Perm (items.map goods)) ↔
      ids.Nodup ∧ ∀ id ∈ ids, ∃ item, f id = some item ∧ Sent item := by
  constructor
  · rintro ⟨items, hitems, hperm⟩
    have hthere : ∀ id ∈ ids, ∃ item, f id = some item ∧ Sent item := by
      intro id hid
      have hin : f id ∈ items.map some := hitems ▸ List.mem_map_of_mem (List.mem_dedup.2 hid)
      obtain ⟨item, hitem, hf⟩ := List.mem_map.1 hin
      have hgoods := hperm.mem_iff.2 (List.mem_map_of_mem hitem)
      obtain ⟨value, -, hvalue⟩ := List.mem_filterMap.1 hgoods
      obtain ⟨item', -, hsent, hsame⟩ := sent_eq_some_iff.1 hvalue
      have htype : item'.type = item.type := Int64.toInt_inj.1 (congrArg Goods.type hsame)
      exact ⟨item, hf.symm, by rwa [Sent, htype] at hsent⟩
    refine ⟨?_, hthere⟩
    -- nothing is dropped, so a name that comes twice makes the rewards too many
    have hall : ((ids.map f).filterMap sent).length = (ids.map f).length := by
      refine List.filterMap_length_eq_length.2 fun value hvalue => ?_
      obtain ⟨id, hid, rfl⟩ := List.mem_map.1 hvalue
      obtain ⟨item, hitem, hsent⟩ := hthere id hid
      rw [sent_eq_some_iff.2 ⟨item, hitem, hsent, rfl⟩]
      rfl
    have hlength : ids.dedup.length = ids.length := by
      have h₁ := congrArg List.length hitems
      have h₂ := hperm.length_eq
      simp only [List.length_map] at h₁ h₂ hall
      omega
    exact List.dedup_eq_self.1 ((List.dedup_sublist ids).eq_of_length hlength)
  · rintro ⟨hn, hthere⟩
    obtain ⟨items, hmap, hfilter⟩ := sent_items hthere
    exact ⟨items, by rw [List.dedup_eq_self.2 hn, hmap], by rw [hfilter]⟩

/-! ## The request -/

theorem named_map (ids : List ℤ) : named (some (ids.map some)) = ids := by
  simp [named, List.filterMap_map]

theorem sendshopmarke_shop : (sendshopmarke cfg s uid data pick).1.shop = s.shop := by
  unfold sendshopmarke
  split <;> rfl

theorem sendshopmarke_true (h : (sendshopmarke cfg s uid data pick).2 = some true) :
    ∃ cargo, getshopmarket_info cfg data = some cargo ∧
      (send (cfg.limits uid) s.queue cargo pick).2 = some true ∧
      (sendshopmarke cfg s uid data pick).1.queue = (send (cfg.limits uid) s.queue cargo pick).1 := by
  unfold sendshopmarke at h ⊢
  cases hcargo : getshopmarket_info cfg data with
  | none => rw [hcargo] at h; cases h
  | some cargo =>
    rw [hcargo] at h
    exact ⟨cargo, rfl, h, rfl⟩

theorem sendshopmarke_kept (h : (sendshopmarke cfg s uid data pick).2 ≠ some true) :
    Kept s (sendshopmarke cfg s uid data pick).1 := by
  unfold sendshopmarke at h ⊢
  cases hcargo : getshopmarket_info cfg data with
  | none => exact ⟨rfl, rfl, rfl⟩
  | some cargo =>
    rw [hcargo] at h
    obtain ⟨hdb, htimers⟩ := send_kept h
    exact ⟨rfl, hdb, htimers⟩

/-- **What a transport comes to**: nothing has changed, or the names were found and
sent, and are taken out. -/
theorem transport_cases (cfg : Config) (s : State) (uid : Int64)
    (datainfos : Option (List (Option ℤ))) (pick : ℕ) :
    ((transport cfg s uid datainfos pick).2 ≠ .success ∧
        Kept s (transport cfg s uid datainfos pick).1) ∨
      ∃ ids : List ℤ, datainfos = some (ids.map some) ∧ ids ≠ [] ∧
        (∀ id ∈ ids, id ∈ s.shop.shopiteminfo uid) ∧
        (sendshopmarke cfg s uid (ids.map s.shop.shopitem) pick).2 = some true ∧
        transport cfg s uid datainfos pick =
          ((sendshopmarke cfg s uid (ids.map s.shop.shopitem) pick).1.takeout uid ids, .success) := by
  unfold transport
  split
  · exact Or.inl ⟨(fun h => nomatch h), ⟨rfl, rfl, rfl⟩⟩
  · exact Or.inl ⟨(fun h => nomatch h), ⟨rfl, rfl, rfl⟩⟩
  · rename_i infos hnil
    split
    · rename_i r hlookup
      exact Or.inl ⟨lookup_error hlookup, ⟨rfl, rfl, rfl⟩⟩
    · rename_i data hlookup
      obtain ⟨ids, rfl, hown, rfl⟩ := lookup_eq_ok_iff.1 hlookup
      have hkept : (sendshopmarke cfg s uid (ids.map s.shop.shopitem) pick).2 ≠ some true →
          Kept s (sendshopmarke cfg s uid (ids.map s.shop.shopitem) pick).1 := sendshopmarke_kept
      split
      · rename_i t hsend
        rw [hsend] at hkept
        exact Or.inl ⟨(fun h => nomatch h), hkept (by simp)⟩
      · rename_i t hsend
        rw [hsend] at hkept
        exact Or.inl ⟨(fun h => nomatch h), hkept (by simp)⟩
      · rename_i t hsend
        refine Or.inr ⟨ids, rfl, ?_, hown, by rw [hsend], by rw [hsend, named_map]⟩
        rintro rfl
        exact hnil rfl

/-- **It succeeds just where it is granted.** -/
theorem transport_success_iff :
    (transport cfg s uid datainfos pick).2 = .success ↔ Granted cfg s uid datainfos pick := by
  constructor
  · intro h
    obtain ⟨hne, -⟩ | ⟨ids, rfl, hne, hown, hsend, -⟩ := transport_cases cfg s uid datainfos pick
    · exact absurd h hne
    · obtain ⟨cargo, hcargo, hsend, -⟩ := sendshopmarke_true hsend
      refine ⟨by rw [named_map], by rwa [named_map], by rwa [named_map], ?_, send_eq_true_iff.1 hsend⟩
      rw [named_map]
      exact getshopmarket_info_isSome.1 (Option.isSome_iff_exists.2 ⟨cargo, hcargo⟩)
  · rintro ⟨hgiven, hne, hown, hknown, hlane⟩
    obtain ⟨cargo, hcargo⟩ := Option.isSome_iff_exists.1 (getshopmarket_info_isSome.2 hknown)
    have hlookup : lookup s.shop uid ((named datainfos).map some) =
        .ok ((named datainfos).map s.shop.shopitem) :=
      lookup_eq_ok_iff.2 ⟨_, rfl, hown, rfl⟩
    have hsend : (sendshopmarke cfg s uid ((named datainfos).map s.shop.shopitem) pick).2 = some true := by
      unfold sendshopmarke
      rw [hcargo]
      exact send_eq_true_iff.2 hlane
    obtain ⟨id, ids, hids⟩ := List.exists_cons_of_ne_nil hne
    rw [hids, List.map_cons] at hlookup
    rw [hgiven, hids, List.map_cons]
    rw [hids] at hsend
    unfold transport
    simp only [hlookup]
    split
    · rename_i hs
      rw [hs] at hsend
      cases hsend
    · rename_i hs
      rw [hs] at hsend
      cases hsend
    · rfl

theorem transport_of_success (h : (transport cfg s uid datainfos pick).2 = .success) :
    ∃ cargo i start, getshopmarket_info cfg ((named datainfos).map s.shop.shopitem) = some cargo ∧
      (transport cfg s uid datainfos pick).1.queue =
        s.queue.place (cfg.limits uid) (s.queue.nextid + 1) (newrow (cfg.limits uid) cargo i start) ∧
      (transport cfg s uid datainfos pick).1.shop = (s.takeout uid (named datainfos)).shop := by
  obtain ⟨hne, -⟩ | ⟨ids, rfl, hne, hown, hsend, heq⟩ := transport_cases cfg s uid datainfos pick
  · exact absurd h hne
  · obtain ⟨cargo, hcargo, htrue, hqueue⟩ := sendshopmarke_true hsend
    obtain ⟨i, start, hplace⟩ := send_place htrue
    rw [named_map, heq]
    refine ⟨cargo, i, start, hcargo, hqueue.trans hplace, ?_⟩
    simp only [State.takeout, sendshopmarke_shop]

/-- **Where it fails, nothing has changed.** -/
theorem transport_kept (h : (transport cfg s uid datainfos pick).2 ≠ .success) :
    Kept s (transport cfg s uid datainfos pick).1 := by
  obtain ⟨-, hkept⟩ | ⟨ids, -, -, -, -, heq⟩ := transport_cases cfg s uid datainfos pick
  · exact hkept
  · exact absurd (congrArg Prod.snd heq) h

/-! ## What is carried -/

theorem foldl_update_none {α : Type} (ids : List ℤ) (f : ℤ → Option α) (id : ℤ) :
    ids.foldl (fun t id => Function.update t id none) f id = if id ∈ ids then none else f id := by
  induction ids generalizing f with
  | nil => simp
  | cons a ids ih =>
    rw [List.foldl_cons, ih]
    by_cases ha : id = a
    · subst ha
      simp
    · simp [ha]

/-- A table has one new row. -/
theorem update_some_inj {α : Type} {f : ℕ → Option α} {i j : ℕ} {x y : α} (hi : f i = none)
    (h : Function.update f i (some x) = Function.update f j (some y)) : j = i ∧ y = x := by
  have hat := congrFun h i
  rw [Function.update_self] at hat
  by_cases hij : i = j
  · subst hij
    rw [Function.update_self] at hat
    exact ⟨rfl, (Option.some.inj hat).symm⟩
  · rw [Function.update_of_ne hij, hi] at hat
    cases hat

/-- The list without the names is right just where each was listed once. -/
theorem takeout_list_iff (hn : ids.Nodup) (hown : ∀ id ∈ ids, id ∈ s.shop.shopiteminfo uid) :
    (s.takeout uid ids).shop.shopiteminfo =
        Function.update s.shop.shopiteminfo uid ((s.shop.shopiteminfo uid).filter (· ∉ ids)) ↔
      ∀ id ∈ ids, (s.shop.shopiteminfo uid).count id = 1 := by
  rw [← diff_eq_filter_iff hn hown, ← foldl_removeFound hn hown]
  exact ⟨fun h => by simpa [State.takeout] using congrFun h uid, fun h => by rw [← h]; rfl⟩

/-- **The purchases are carried** just where each is named once and listed once. -/
theorem carried_iff (h : Granted cfg s uid datainfos pick) :
    Carried s (transport cfg s uid datainfos pick).1 uid (named datainfos) ↔
      Apart s uid (named datainfos) := by
  obtain ⟨cargo, i, start, hcargo, hqueue, hshop⟩ := transport_of_success (transport_success_iff.2 h)
  have hperm := rewards_getshopmarket_info hcargo
  have hnew : s.queue.db.rows (s.queue.nextid + 1) = none := s.queued _ (Nat.lt_succ_self _)
  have hrows : (transport cfg s uid datainfos pick).1.queue.db.rows =
      Function.update s.queue.db.rows (s.queue.nextid + 1)
        (some (newrow (cfg.limits uid) cargo i start)) := by
    rw [hqueue]
    rfl
  constructor
  · rintro ⟨⟨id, row, -, hrow, -, -, -, items, hitems, hgoods⟩, hlist, -⟩
    obtain ⟨rfl, rfl⟩ := update_some_inj hnew (hrows.symm.trans hrow)
    obtain ⟨hn, hthere⟩ := carried_once_iff.1 ⟨items, hitems, hperm.symm.trans hgoods⟩
    rw [hshop] at hlist
    exact ⟨hn, (takeout_list_iff hn h.owned).1 hlist, hthere⟩
  · rintro ⟨hn, hlisted, hthere⟩
    obtain ⟨items, hitems, hgoods⟩ := carried_once_iff.2 ⟨hn, hthere⟩
    refine ⟨⟨s.queue.nextid + 1, newrow (cfg.limits uid) cargo i start, hnew, hrows, rfl, rfl, ?_,
      items, hitems, hperm.trans hgoods⟩, ?_, ?_⟩
    · rw [hqueue]
      exact if_pos ⟨rfl, rfl⟩
    · rw [hshop]
      exact (takeout_list_iff hn h.owned).2 hlisted
    · intro id
      rw [hshop]
      exact foldl_update_none _ _ id

/-- **A transport is right** just where it is not granted, or each purchase is named
once and listed once and is there and of a kind that is sent. -/
theorem transports_iff (cfg : Config) (s : State) (uid : Int64) (datainfos : Option (List (Option ℤ)))
    (pick : ℕ) :
    Transports cfg s uid datainfos pick ↔
      (Granted cfg s uid datainfos pick → Apart s uid (named datainfos)) := by
  constructor
  · rintro ⟨hsuccess, -⟩ h
    exact (carried_iff h).1 (hsuccess (transport_success_iff.2 h))
  · intro h
    refine ⟨fun hsuccess => ?_, transport_kept⟩
    have hgranted := transport_success_iff.1 hsuccess
    exact (carried_iff hgranted).2 (h hgranted)

/-- **No purchase is transported twice**: what has been carried is not granted again. -/
theorem Carried.not_again (h : Carried s t uid ids) {id : ℤ} (hid : id ∈ ids)
    (hagain : id ∈ named datainfos) (pick : ℕ) :
    (transport cfg t uid datainfos pick).2 ≠ .success := by
  intro hsuccess
  have hown := (transport_success_iff.1 hsuccess).owned id hagain
  rw [h.list, Function.update_self] at hown
  simpa [hid] using List.mem_filter.1 hown

/-- **Nothing else is lost.** -/
theorem Carried.others (h : Carried s t uid ids) {id : ℤ} (hid : id ∉ ids)
    (hown : id ∈ s.shop.shopiteminfo uid) :
    id ∈ t.shop.shopiteminfo uid ∧ t.shop.shopitem id = s.shop.shopitem id := by
  rw [h.list, Function.update_self, h.table, if_neg hid]
  exact ⟨List.mem_filter.2 ⟨hown, by simpa using hid⟩, rfl⟩

/-! ## A material and a blueprint -/

/-- A player's purchases: five of a material, and a blueprint. -/
def purse : Shop.State :=
  Shop.initial
    (fun id =>
      if id = 1 then some ⟨"10001".toList, 5, 20, Shop.material, 100, 0, 3⟩
      else if id = 2 then some ⟨"110001".toList, 1, 50, Shop.blueprint, 200, 1, 3⟩
      else none)
    (fun uid => if uid = 3 then [1, 2] else []) 2 (fun _ _ => none)
    fun _ => ⟨fun _ => none, fun _ => none⟩

/-- Their owner, whose lanes are empty. -/
def buyer : State where
  shop := purse
  queue :=
    { now := 1000
      db := ⟨fun _ => none, fun _ _ => [], 0, fun _ => [], fun _ => [], fun _ => []⟩
      nextid := 0
      creating := []
      timers := []
      waiting := []
      completing := none }
  shelved _ _ := rfl
  queued _ _ := rfl

def oneLane : Config where
  blueprint _ := some 10
  material_list _ := some 10
  maxairfreighter _ := 1
  maxperairfreighter _ := 3

/-- **The material is named twice**: it is transported twice, and the blueprint is no
longer on the list. -/
theorem material_twice :
    (transport oneLane buyer 3 (some [some 1, some 1]) 1).2 = .success ∧
      ((transport oneLane buyer 3 (some [some 1, some 1]) 1).1.queue.db.rows 1).map
          (fun row => row.proprewardlist.length) = some 2 ∧
      (transport oneLane buyer 3 (some [some 1, some 1]) 1).1.shop.shopiteminfo 3 = [] ∧
      ¬ Transports oneLane buyer 3 (some [some 1, some 1]) 1 := by
  refine ⟨by decide +kernel, by decide +kernel, by decide +kernel, ?_⟩
  rintro ⟨hsuccess, -⟩
  have hlist := (hsuccess (by decide +kernel)).list
  exact absurd (congrFun hlist 3) (by decide +kernel)

end Freight

end Athena
