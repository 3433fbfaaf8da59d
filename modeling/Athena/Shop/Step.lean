import Athena.Shop.Model
/-!
# The market — what one event does

`Does` names what each event can do to the market, with the state it
leaves and the guards that stand before it; the invariants are read off its
cases. A new row enters `stayputaway` in one way (`State.enter`), whichever
of the three operations puts it there.
-/

namespace Athena

namespace Shop

open Lua Warehouse

variable {known : Number → Bool} {s t : State} {e : Event} {out : List Out}

def Event.isUpdate : Event → Bool
  | .update _ => true
  | _ => false

/-- **What an event can do.** -/
inductive Does (known : Number → Bool) (s : State) : Event → State → List Out → Prop
  | refused {e : Event} : Does known s e s []
  /-- The goods are not there, and an id is used up. -/
  | lacks {uid : Int64} {msg : PutawayMsg} {quote : Quote} {now : ℤ} {scanned : Bool}
      {m : Materials} :
      Does known s (.putaway uid msg quote now scanned)
        { s.setMaterials uid m with stayputawayId := s.stayputawayId + 1 } []
  | puts {uid index : Int64} {cfgid : Str} {msg : PutawayMsg} {quote : Quote} {now : ℤ}
      {scanned : Bool} {m : Materials} {row : Stayputaway} (asked : msg.index = some index)
      (room : (s.putawayinfo uid).size < 10)
      (entry : row = ⟨cfgid, msg.number.getD 1, kindOf index,
        msg.price.getD ((quote.getD none).getD 0), index, now, now + stay (kindOf index), uid⟩) :
      Does known s (.putaway uid msg quote now scanned) ((s.setMaterials uid m).enter row)
        [.put (s.stayputawayId + 1) row ((quote.getD none).getD 0)]
  | sells {uid : Int64} {shopid : ℤ} {quote : Quote} {now : ℤ} {item : Shopitem}
      {row : Stayputaway} {shopitem : ℤ → Option Shopitem} {shopiteminfo : Int64 → List ℤ}
      (bought : s.shopitem shopid = some item) (room : (s.putawayinfo uid).size < 10)
      (entry : row = ⟨item.cfgid, item.number, some item.iskh,
        (if item.iskh = 0 then (quote.getD none).getD 0 else item.price) * item.number, item.type,
        now, now + stay (some item.iskh), uid⟩) :
      Does known s (.sell uid (some shopid) quote now)
        { s.enter row with shopitem := shopitem, shopiteminfo := shopiteminfo }
        [.put (s.stayputawayId + 1) row ((quote.getD none).getD 0)]
  | cancels {uid index : Int64} {cfgid : Str} {kind : Int64} {number : Int64}
      {given : Option Int64} {quote : Quote} {now : ℤ} {row : Stayputaway}
      (entry : row = ⟨cfgid, number, some kind, given.getD ((quote.getD none).getD 0), index, now,
        now + stay (some kind), uid⟩) :
      Does known s (.trancancel uid index cfgid (some kind) number given quote now) (s.enter row)
        [.put (s.stayputawayId + 1) row ((quote.getD none).getD 0)]
  | buys {uid : Int64} {idandnum : Option (List (Option ℤ × Option Int64))} {now : ℤ} :
      Does known s (.khoriumbuy uid idandnum now) (khoriumbuy s uid idandnum now).1
        (khoriumbuy s uid idandnum now).2.2
  | updates {r : Round} :
      Does known s (.update r) (putawayupdate known s r).1 (putawayupdate known s r).2

theorem takeGoods_state (known : Number → Bool) (s : State) (uid index : Int64) (cfgid : Str) (number : Int64)
    (scanned : Bool) : ∃ m, (takeGoods known s uid index cfgid number scanned).2 =
      s.setMaterials uid m := by
  have hsame : s.setMaterials uid (s.materials uid) = s := by
    simp [State.setMaterials]
  unfold takeGoods
  split
  · exact ⟨_, rfl⟩
  · split <;> exact ⟨_, hsame.symm⟩

/-- **Every event does one of these things.** -/
theorem does_of_act (h : act known s e = (t, out)) : Does known s e t out := by
  obtain ⟨rfl, rfl⟩ : (act known s e).1 = t ∧ (act known s e).2 = out := Prod.ext_iff.mp h
  cases e with
  | putaway uid msg quote now scanned =>
    simp only [act, putaway]
    split
    · rename_i index cfgid isnew hindex hcfgid hisnew
      split
      · exact .refused
      · split
        · exact .refused
        · split
          · exact .refused
          · rename_i hroom
            obtain ⟨m, hm⟩ := takeGoods_state known s uid index (digits cfgid)
              (msg.number.getD 1) scanned
            rw [hm]
            split
            · exact .puts hindex (Nat.lt_of_not_le hroom) rfl
            · exact .lacks
    · exact .refused
  | sell uid shopid quote now =>
    simp only [act, sell]
    split
    · exact .refused
    · split
      · split
        · exact .refused
        · rename_i item hitem
          split
          · exact .refused
          · split
            · exact .refused
            · rename_i hroom
              exact .sells hitem (Nat.lt_of_not_le hroom) rfl
      · exact .refused
  | trancancel uid index cfgid iskh number given quote now =>
    simp only [act, trancancel]
    split
    · exact .refused
    · rename_i hargs
      split
      · exact .refused
      · cases iskh with
        | none => exact absurd (Or.inl rfl) hargs
        | some kind => exact .cancels rfl
  | khoriumbuy uid idandnum now => exact .buys
  | update r => exact .updates

/-! ## The tables -/

theorem insertRow_of_none {α : Type} {f : ℤ → Option α} {id : ℤ} {row : α} (h : f id = none) :
    insertRow f id row = Function.update f id (some row) := by
  simp [insertRow, h]

/-- An id that was not in use is below the counter now. -/
theorem fresh_update {α : Type} {f : ℤ → Option α} {k : ℤ} {row : Option α}
    (h : ∀ id, k < id → f id = none) (id : ℤ) (hid : k + 1 < id) :
    Function.update f (k + 1) row id = none := by
  rw [Function.update_of_ne (by omega)]
  exact h id (by omega)

theorem fresh_delete {α : Type} {f : ℤ → Option α} {k a : ℤ}
    (h : ∀ id, k < id → f id = none) (id : ℤ) (hid : k < id) :
    Function.update f a none id = none := by
  by_cases ha : id = a
  · rw [ha, Function.update_self]
  · rw [Function.update_of_ne ha]
    exact h id hid

/-- What goes back leaves the tables of the market alone. -/
theorem giveBack_tables (s : State) (uid type : Int64) (cfgid : Option Value) (number : Int64)
    (scanned : Bool) :
    (giveBack known s uid type cfgid number scanned).2.putaway = s.putaway ∧
    (giveBack known s uid type cfgid number scanned).2.putawaygold = s.putawaygold ∧
    (giveBack known s uid type cfgid number scanned).2.stayputaway = s.stayputaway := by
  unfold giveBack
  split
  · exact ⟨rfl, rfl, rfl⟩
  · split <;> exact ⟨rfl, rfl, rfl⟩

@[simp] theorem dropGold_putawaygold (s : State) (uid : Int64) (key : ℤ) :
    (s.dropGold uid key).putawaygold = Function.update s.putawaygold key none := rfl

/-- A khorium row leaves the market. -/
def State.dropKhorium (s : State) (uid : Int64) (key : ℤ) : State :=
  let info := s.putawayinfo uid
  { s with putaway := Function.update s.putaway key none }.setInfo uid
    { info with khoriumarr := removeFound info.khoriumarr key }

/-- An update takes rows from those that wait, and adds none. -/
theorem visit_stayputaway (v : Visit) (id : ℤ) {row : Stayputaway}
    (h : (visit known s v).1.stayputaway id = some row) : s.stayputaway id = some row := by
  have hdel : ∀ id', Function.update s.stayputaway id' none id = some row →
      s.stayputaway id = some row := by
    intro id' hu
    by_cases hid : id = id'
    · rw [hid, Function.update_self] at hu
      cases hu
    · rwa [Function.update_of_ne hid] at hu
  have hback : ∀ (uid type : Int64) (cfgid : Option Value) (number : Int64) (scanned : Bool),
      (giveBack known s uid type cfgid number scanned).2.stayputaway id = some row →
        s.stayputaway id = some row := by
    intro uid type cfgid number scanned hu
    rwa [(giveBack_tables s uid type cfgid number scanned).2.2] at hu
  cases v with
  | trade key =>
    simp only [visit, trade] at h
    split at h
    · exact h
    · split at h
      · split at h <;> exact h
      · exact h
  | downKhorium key now scanned =>
    simp only [visit, downKhorium] at h
    split at h
    · exact h
    · split at h
      · split at h <;> exact hback _ _ _ _ _ h
      · exact h
  | downGold key now scanned =>
    simp only [visit, downGold] at h
    split at h
    · exact h
    · split at h
      · split at h <;> exact hback _ _ _ _ _ h
      · exact h
  | up id' draw =>
    simp only [visit, up] at h
    split at h
    · exact h
    · split at h
      · exact hdel id' h
      · split at h <;> exact hdel id' h

/-! ## The rows of a pass -/

theorem enumerates_nil {α : Type} : Enumerates [] fun _ : ℤ => (none : Option α) :=
  mirrors_nil fun _ h => by cases h

/-- A row more in the table is one more to go over. -/
theorem Enumerates.insert {α : Type} {ids : List ℤ} {f : ℤ → Option α} (h : Enumerates ids f)
    {id : ℤ} {row : α} (hid : f id = none) : Enumerates (ids ++ [id]) (insertRow f id row) := by
  rw [insertRow_of_none hid]
  refine Mirrors.append h (by simp [hid]) fun i => ?_
  by_cases hi : i = id
  · simp [hi]
  · simp [hi]

/-- A market, with what player 1 has: 100 of each balance and five of
material 10016. -/
def stall : State :=
  initial (fun _ => none) (fun _ => []) 0 (fun _ uid => if uid = 1 then some 100 else none)
    fun uid => ⟨fun c => if uid = 1 ∧ c = .int 10016 then some (.int 5) else none, fun _ => none⟩

/-- Three of them are put on sale while the half-hour price is 20. -/
def three : Event :=
  .putaway 1 ⟨some material, some "10016".toList, some 3, none, some true⟩ (some (some 20)) 0 true

/-- An update that finds row 1 waiting, and draws for it. -/
def firstRound (draw : ℕ) : Round := ⟨[], [], [], [(1, draw)]⟩

theorem full_firstRound (draw : ℕ) :
    (firstRound draw).Full (fun _ => true) (act (fun _ => true) stall three).1 :=
  ⟨enumerates_nil, enumerates_nil, enumerates_nil, enumerates_nil.insert rfl⟩

end Shop

end Athena
