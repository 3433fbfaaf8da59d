import Athena.Freight.Returned
import Athena.Lua.Value
import Athena.Queue.Entry
/-!
# Freight — where entries come from

The rewards of an entry are built by `rewardhandler`: for a battle
(`getreward_mat`, which rolls packages with `getmat_bypackage`), for a casting,
for a scan, and for purchases. Only those of purchases say how they were bought,
and without that `trancancel` takes nothing back. The coroutine of `removebq`
takes back the same rewards.

A draw of `math.random` is an argument: the `k`-th call of a request answers
`rand k`. Packages may hold packages, and `getmat_bypackage` comes to an end where
the fuel is enough.
-/

namespace Athena

namespace Freight

open Lua Queue.Lanes

/-! ## Battle rewards -/

/-- `warehousedefine.warehousetype.package`. -/
def package : Int64 := 14

def chip : Int64 := 5

/-- An entry of a droplist. -/
structure Drop where
  normalmatId : Value
  droptype : Value
  min : ℤ
  max : ℤ

/-- An entry of the `Drop_rate` of a package. -/
structure Rate where
  normalmatId : Value
  droptype : Value
  rollrate : ℤ

/-- `==` with one of the types. -/
def isType (droptype : Value) (type : Int64) : Bool := droptype = .num (.int type)

/-- `randindex_bypackage`, for a draw: the last of the rates whose range it is in. -/
def randindex_bypackage (drop_rate : List Rate) (radindex : ℤ) : Option ℕ :=
  let numarray := 0 :: drop_rate.map Rate.rollrate
  ((List.range drop_rate.length).filter fun i =>
    (numarray[i]?.getD 0 ≤ radindex) && (radindex ≤ numarray[i + 1]?.getD 0)).getLast?

/-- The rewards so far, and how many draws there were. -/
structure Rolled where
  bprewardlist : List Queue.BpReward
  proprewardlist : List Queue.PropReward
  draws : ℕ

/-- Others behind them. -/
def Rolled.add (r other : Rolled) : Rolled :=
  ⟨r.bprewardlist ++ other.bprewardlist, r.proprewardlist ++ other.proprewardlist, other.draws⟩

def Rolled.addbp (r : Rolled) (cfgid : Str) (number : ℤ) : Rolled :=
  { r with bprewardlist := r.bprewardlist ++ [⟨cfgid, number, none, none, none⟩] }

def Rolled.addprop (r : Rolled) (type : Int64) (cfgid : Str) (number : ℤ) : Rolled :=
  { r with proprewardlist := r.proprewardlist ++ [⟨type.toInt, cfgid, some 0, number, none⟩] }

variable (drop_package : Value → Option (List Rate)) (rand : ℕ → ℤ)

/-- **`getmat_bypackage`.** -/
def getmat_bypackage : ℕ → Value → ℕ → ℕ → Option Rolled
  | 0, _, _, _ => none
  | fuel + 1, packageid, rolltimes, draws =>
    (drop_package packageid).bind fun drop_rate =>
      let radindex_arr := ((List.range rolltimes).filterMap fun j =>
        randindex_bypackage drop_rate (rand (draws + j))).eraseDups
      radindex_arr.foldlM (fun r index =>
        (drop_rate[index]?).bind fun rate =>
          let number := ((rate.normalmatId.tonumber).map tostring).getD []
          if isType rate.droptype Shop.material then some (r.addprop Shop.material number 1)
          else if isType rate.droptype package then
            (getmat_bypackage fuel rate.normalmatId 1 r.draws).map r.add
          else if isType rate.droptype chip then some (r.addprop chip number 1)
          else if rate.droptype.tonumber = some (.int Shop.blueprint) then
            some (r.addbp (rate.normalmatId.wire.drop 1) 1)
          else some r) ⟨[], [], draws + rolltimes⟩

/-- **`getreward_mat`.** -/
def getreward_mat (fuel : ℕ) (droplist : List Drop) : Option Rolled :=
  droplist.foldlM (fun r drop =>
    let number := drop.min + rand r.draws
    let drawn : Rolled := { r with draws := r.draws + 1 }
    if isType drop.droptype Shop.material then
      some (if number ≠ 0 then drawn.addprop Shop.material drop.normalmatId.wire number else drawn)
    else if isType drop.droptype package then
      (getmat_bypackage drop_package rand fuel drop.normalmatId 1 r.draws).map r.add
    else if isType drop.droptype chip then
      some (if number ≠ 0 then drawn.addprop chip drop.normalmatId.wire number else drawn)
    else if isType drop.droptype Shop.blueprint then
      some (drawn.addbp ('B' :: drop.normalmatId.wire) number)
    else some r) ⟨[], [], 0⟩

/-- The cargo of `sendbattle_reward`: chips go to the player at once. -/
def battlecargo (r : Rolled) : Cargo :=
  ⟨r.bprewardlist, r.proprewardlist.filter fun p => p.type ≠ chip.toInt, [], 30⟩

variable {drop_package rand}

/-- **No reward says how it was bought.** -/
structure Bare (bps : List Queue.BpReward) (props : List Queue.PropReward) : Prop where
  bps : ∀ b ∈ bps, b.iskh = none
  props : ∀ p ∈ props, p.iskh = none

/-- What every turn of a loop keeps holds at its end. -/
theorem foldlM_invariant {α β : Type} {P : β → Prop} {f : β → α → Option β} {l : List α} {b b' : β}
    (hf : ∀ b a b', f b a = some b' → P b → P b') (h : l.foldlM f b = some b') (hb : P b) : P b' := by
  induction l generalizing b with
  | nil =>
    cases h
    exact hb
  | cons a l ih =>
    rw [List.foldlM_cons] at h
    obtain ⟨c, hc, hl⟩ := Option.bind_eq_some_iff.1 h
    exact ih hl (hf b a c hc hb)

abbrev Rolled.Bare (r : Rolled) : Prop := Freight.Bare r.bprewardlist r.proprewardlist

variable {r other : Rolled} {fuel rolltimes draws : ℕ} {droplist : List Drop}

theorem bare_add (h : r.Bare) (ho : other.Bare) : (r.add other).Bare where
  bps b hb := (List.mem_append.1 hb).elim (h.bps b) (ho.bps b)
  props p hp := (List.mem_append.1 hp).elim (h.props p) (ho.props p)

theorem bare_addbp (h : r.Bare) (cfgid : Str) (number : ℤ) : (r.addbp cfgid number).Bare where
  bps b hb := (List.mem_append.1 hb).elim (h.bps b) fun hb => by rw [List.mem_singleton.1 hb]
  props := h.props

theorem bare_addprop (h : r.Bare) (type : Int64) (cfgid : Str) (number : ℤ) :
    (r.addprop type cfgid number).Bare where
  bps := h.bps
  props p hp := (List.mem_append.1 hp).elim (h.props p) fun hp => by rw [List.mem_singleton.1 hp]

/-- **Packages**, by induction on how deep they go. -/
theorem getmat_bypackage_bare {packageid : Value}
    (h : getmat_bypackage drop_package rand fuel packageid rolltimes draws = some r) :
    r.Bare := by
  induction fuel generalizing packageid rolltimes draws r with
  | zero => cases h
  | succ fuel ih =>
    obtain ⟨drop_rate, -, h⟩ := Option.bind_eq_some_iff.1 h
    refine foldlM_invariant (P := Rolled.Bare) ?_ h
      ⟨by simp, by simp⟩
    intro b index b' hstep hb
    obtain ⟨rate, -, hstep⟩ := Option.bind_eq_some_iff.1 hstep
    simp only [] at hstep
    split at hstep
    · cases hstep
      exact bare_addprop hb _ _ _
    · split at hstep
      · obtain ⟨other, hother, rfl⟩ := Option.map_eq_some_iff.1 hstep
        exact bare_add hb (ih hother)
      · split at hstep
        · cases hstep
          exact bare_addprop hb _ _ _
        · split at hstep
          · cases hstep
            exact bare_addbp hb _ _
          · cases hstep
            exact hb

/-- **Battle rewards.** -/
theorem getreward_mat_bare (h : getreward_mat drop_package rand fuel droplist = some r) : r.Bare := by
  refine foldlM_invariant (P := Rolled.Bare) ?_ h
    ⟨by simp, by simp⟩
  intro b drop b' hstep hb
  have hdrawn : ({ b with draws := b.draws + 1 } : Rolled).Bare := hb
  have hprop : ∀ (type : Int64) (number : ℤ),
      (if number ≠ 0 then ({ b with draws := b.draws + 1 } : Rolled).addprop type
        drop.normalmatId.wire number else { b with draws := b.draws + 1 }).Bare := by
    intro type number
    split
    · exact bare_addprop hdrawn _ _ _
    · exact hdrawn
  simp only [] at hstep
  split at hstep
  · cases hstep
    exact hprop _ _
  · split at hstep
    · obtain ⟨other, hother, rfl⟩ := Option.map_eq_some_iff.1 hstep
      exact bare_add hb (getmat_bypackage_bare hother)
    · split at hstep
      · cases hstep
        exact hprop _ _
      · split at hstep
        · cases hstep
          exact bare_addbp hdrawn _ _
        · cases hstep
          exact hb

theorem battlecargo_bare (h : getreward_mat drop_package rand fuel droplist = some r) :
    Bare (battlecargo r).bprewardlist (battlecargo r).proprewardlist where
  bps := (getreward_mat_bare h).bps
  props p hp := (getreward_mat_bare h).props p (List.mem_filter.1 hp).1

/-- Twenty-two of a material, in a battle. -/
example : (getreward_mat (fun _ => none) (fun _ => 0) 0
    [⟨.num (.int 10001), .num (.int 7), 22, 6⟩]).map battlecargo =
      some ⟨booty.bprewardlist, booty.proprewardlist, [], 30⟩ := by decide

/-! ## Castings and scans -/

/-- The reward of `getscan_info`. -/
def scanreward (blueprintid name : Str) : Queue.BpReward := ⟨blueprintid, 1, some name, none, none⟩

theorem castpart_bare (number : ℤ) (b : Str) : ∀ p ∈ (Scan.castpart number b).1, p.iskh = none := by
  intro p hp
  unfold Scan.castpart at hp
  split at hp
  · cases hp
  · cases hp
  · cases hp
  · cases hp
  · split at hp
    · cases hp
    · rw [List.mem_singleton.1 hp]

theorem getcastring_info_bare {cfg : Scan.Config} {bpid : Str} {number : ℤ}
    {info : List Queue.PropReward × List Queue.EquipReward × ℤ}
    (h : Scan.getcastring_info cfg bpid number = some info) : Bare [] info.1 where
  bps := by simp
  props p hp := by
    unfold Scan.getcastring_info at h
    simp only [Option.ite_none_right_eq_some, Option.some.injEq] at h
    rw [← h.2] at hp
    obtain ⟨b, -, hb⟩ := List.mem_flatMap.1 hp
    exact castpart_bare number b p hb

/-! ## What of them comes back -/

variable {quote : Quotes} {now : ℤ} {s : State} {uid : Int64} {bqid : ℕ} {row : Queue.Row}

/-- **Without a word how it was bought no reward comes back**: only an empty transport is
cancelled. -/
theorem cancels_bare_iff (h : Bare row.bprewardlist row.proprewardlist)
    (hrow : s.queue.db.rows bqid = some row) (howner : row.playerid = uid.toInt) :
    Cancels quote now s uid bqid row ↔
      row.type = .airfreighter ∧ row.bprewardlist = [] ∧ row.proprewardlist = [] ∧ Listed s bqid row := by
  have hpass : ∀ c ∈ calls row, c.passes = false := by
    intro c hc
    rw [passes_eq_false_iff]
    obtain hmem | hmem := List.mem_append.1 hc
    · obtain ⟨b, hb, rfl⟩ := List.mem_map.1 hmem
      exact Or.inl (Option.map_eq_none_iff.2 (h.bps b hb))
    · obtain ⟨p, hp, rfl⟩ := List.mem_map.1 hmem
      exact Or.inl (Option.map_eq_none_iff.2 (h.props p hp))
  have hfin : finishes quote (calls row) = true :=
    List.all_eq_true.2 fun c hc => by simp [hpass c hc]
  have hempty : Taken quote row ↔ row.bprewardlist = [] ∧ row.proprewardlist = [] := by
    have hcalls : calls row = [] ↔ row.bprewardlist = [] ∧ row.proprewardlist = [] := by
      rw [calls, List.append_eq_nil_iff, List.map_eq_nil_iff, List.map_eq_nil_iff]
    rw [← hcalls]
    constructor
    · intro htaken
      refine List.eq_nil_iff_forall_not_mem.2 fun c hc => ?_
      have hboth := (htaken c hc).1
      rw [hpass c hc] at hboth
      cases hboth
    · intro hnil c hc
      rw [hnil] at hc
      cases hc
  by_cases htype : row.type = .airfreighter
  · rw [cancels_airfreighter_iff now hrow howner htype hfin, hempty]
    simp [htype, and_assoc]
  · exact iff_of_false (not_cancels_of_finishes now hrow howner htype hfin) fun h => htype h.1

/-- **What a battle left is lost**, where it is anything. -/
theorem cancels_battle_iff {L : Limits} {i : ℕ} {start : ℤ}
    (h : getreward_mat drop_package rand fuel droplist = some r)
    (hrow : s.queue.db.rows bqid = some (newrow L (battlecargo r) i start)) (howner : L.uid = uid.toInt) :
    Cancels quote now s uid bqid (newrow L (battlecargo r) i start) ↔
      (battlecargo r).bprewardlist = [] ∧ (battlecargo r).proprewardlist = [] ∧
        Listed s bqid (newrow L (battlecargo r) i start) :=
  (cancels_bare_iff (battlecargo_bare h) hrow howner).trans (and_iff_right rfl)

/-- **A casting is never cancelled.** -/
theorem not_cancels_casting {cfg : Scan.Config} {start number : ℤ} {bpid : Str}
    {info : List Queue.PropReward × List Queue.EquipReward × ℤ}
    (h : Scan.getcastring_info cfg bpid number = some info)
    (hrow : s.queue.db.rows bqid = some (Scan.castrow cfg start bpid info))
    (howner : cfg.uid = uid.toInt) :
    ¬ Cancels quote now s uid bqid (Scan.castrow cfg start bpid info) := by
  intro hcancels
  have hair := ((cancels_bare_iff (getcastring_info_bare h) hrow howner).1 hcancels).1
  cases hair

/-- **Nor is a scan.** -/
theorem not_cancels_scan {blueprintid name : Str} (hbps : row.bprewardlist = [scanreward blueprintid name])
    (hprops : row.proprewardlist = []) (hrow : s.queue.db.rows bqid = some row)
    (howner : row.playerid = uid.toInt) : ¬ Cancels quote now s uid bqid row := by
  intro hcancels
  have hbare : Bare row.bprewardlist row.proprewardlist := by
    rw [hbps, hprops]
    exact ⟨by simp [scanreward], by simp⟩
  have hnil := ((cancels_bare_iff hbare hrow howner).1 hcancels).2.1
  rw [hbps] at hnil
  cases hnil

/-- **Purchases say how they were bought**, and blueprints at what price. -/
structure Marked (bps : List Queue.BpReward) (props : List Queue.PropReward) : Prop where
  bps : ∀ b ∈ bps, b.iskh = some 1 ∧ b.price.isSome = true
  props : ∀ p ∈ props, p.iskh = some 0

theorem packed_marked {cfg : Config} {item : Shop.Shopitem} {c : Cargo} (h : packed cfg item = some c) :
    Marked c.bprewardlist c.proprewardlist := by
  simp only [packed] at h
  split at h
  · split at h
    · cases h
      exact ⟨by simp, by simp⟩
    · cases h
  · split at h
    · obtain ⟨cfgid, -, h⟩ := Option.bind_eq_some_iff.1 h
      obtain ⟨time, -, rfl⟩ := Option.map_eq_some_iff.1 h
      exact ⟨by simp, by simp⟩
    · cases h
      exact ⟨by simp, by simp⟩

theorem getshopmarket_info_marked {cfg : Config} {data : List (Option Shop.Shopitem)} {c : Cargo}
    (h : getshopmarket_info cfg data = some c) : Marked c.bprewardlist c.proprewardlist := by
  induction data generalizing c with
  | nil =>
    cases h
    exact ⟨by simp, by simp⟩
  | cons value data ih =>
    cases value with
    | none => exact ih h
    | some item =>
      obtain ⟨d, hd, h⟩ := Option.bind_eq_some_iff.1 h
      obtain ⟨e, he, rfl⟩ := Option.map_eq_some_iff.1 h
      have h₁ := packed_marked hd
      have h₂ := ih he
      exact ⟨fun b hb => (List.mem_append.1 hb).elim (h₁.bps b) (h₂.bps b),
        fun p hp => (List.mem_append.1 hp).elim (h₁.props p) (h₂.props p)⟩

/-- **A transport of purchases comes back** where the market has a price for each
material, and the entry is listed. -/
theorem cancels_marked (h : Marked row.bprewardlist row.proprewardlist)
    (hrow : s.queue.db.rows bqid = some row) (howner : row.playerid = uid.toInt)
    (htype : row.type = .airfreighter)
    (hquote : ∀ p ∈ row.proprewardlist, (quote p.cfgid).isSome = true) (hlisted : Listed s bqid row) :
    Returned s (removebq quote now s uid bqid).1 uid bqid row := by
  have htaken : Taken quote row := by
    intro c hc
    obtain hmem | hmem := List.mem_append.1 hc
    · obtain ⟨b, hb, rfl⟩ := List.mem_map.1 hmem
      obtain ⟨hkh, hprice⟩ := h.bps b hb
      obtain ⟨price, hprice⟩ := Option.isSome_iff_exists.1 hprice
      refine ⟨?_, by simp [Call.priced, bpcall, hprice]⟩
      rw [passes_eq_true_iff]
      simp [bpcall, hkh, hprice]
    · obtain ⟨p, hp, rfl⟩ := List.mem_map.1 hmem
      refine ⟨?_, by simp [Call.priced, propcall, hquote p hp]⟩
      rw [passes_eq_true_iff]
      simp [propcall, h.props p hp]
  exact (returned_airfreighter_iff now hrow howner htype (finishes_of_taken htaken)).2 ⟨htaken, hlisted⟩

/-! ## The coroutine of `removebq` -/

/-- How something was bought is 0 or 1. -/
structure Flagged (row : Queue.Row) : Prop where
  bps : ∀ b ∈ row.bprewardlist, ∀ k, b.iskh = some k → k = 0 ∨ k = 1
  props : ∀ p ∈ row.proprewardlist, ∀ k, p.iskh = some k → k = 0 ∨ k = 1

/-- What comes back of one reward, there and here. -/
theorem returned_call_iff {market : Str → Bool} (hmarket : ∀ cfgid, market cfgid = (quote cfgid).isSome)
    {player type number : ℤ} {index : Int64} {cfgid : Str} {iskh price : Option ℤ}
    (hkh : ∀ k, iskh = some k → k = 0 ∨ k = 1) {c : Call}
    (hc : c = ⟨index, cfgid, iskh.map Int64.ofInt, Int64.ofInt number, price.map Int64.ofInt⟩) :
    (∃ x, Queue.trancancel market player type cfgid iskh number price = .returned x) ↔
      c.passes = true ∧ c.priced quote = true := by
  subst hc
  rw [passes_eq_true_iff]
  unfold Queue.trancancel Call.priced
  cases iskh with
  | none => simp
  | some k =>
    have hone : Int64.ofInt k = 1 ↔ k = 1 := by
      obtain rfl | rfl := hkh k rfl
      · decide
      · decide
    cases price <;> by_cases hk : k = 1 <;> cases hq : quote cfgid <;> simp [hone, hk, hq, hmarket]

/-- **Both find the same entries returnable.** -/
theorem returnable_iff_taken {market : Str → Bool}
    (hmarket : ∀ cfgid, market cfgid = (quote cfgid).isSome) (h : Flagged row) :
    Queue.Returnable market row ↔ Taken quote row := by
  have hbp : ∀ b ∈ row.bprewardlist, (∃ x, b.trancancel market row.playerid = .returned x) ↔
      (bpcall b).passes = true ∧ (bpcall b).priced quote = true :=
    fun b hb => returned_call_iff hmarket (h.bps b hb) rfl
  have hprop : ∀ p ∈ row.proprewardlist, (∃ x, p.trancancel market row.playerid = .returned x) ↔
      (propcall p).passes = true ∧ (propcall p).priced quote = true :=
    fun p hp => returned_call_iff hmarket (h.props p hp) rfl
  unfold Queue.Returnable Taken calls
  simp only [List.forall_mem_append, List.forall_mem_map]
  exact and_congr (forall₂_congr hbp) (forall₂_congr hprop)

end Freight

end Athena
