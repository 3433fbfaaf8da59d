import Athena.Warehouse.Balance
/-!
# A request by itself

What the requests of the warehouse do when nothing comes between their
steps, as the callers in the shop have it: `serve` for a balance
(`serve_run` connects it with the steps), `addmaterials` and `remmaterials`
for the materials.

The materials of a player are two lists of a cfgid and its number, one for
those not looked at yet; they are read here as two maps. `known` is whether
`material_list` has a cfgid.
-/

namespace Athena

namespace Warehouse

open Lua

/-! ## A balance -/

/-- The new balance, of integers. -/
def Request.result (r : Request) (b n : Int64) : Int64 :=
  if r.removes then if 0 < (b - n).toInt then b - n else 0 else b + n

theorem compute_int (r : Request) (b n : Int64) :
    r.compute (.int b) (.int n) = .int (r.result b n) := by
  unfold Request.compute Request.result
  split
  · simp only [Number.sub_int, Number.floor_int, Number.max, Number.lt_int, Int64.toInt_zero]
    by_cases h : 0 < (b - n).toInt
    · rw [if_pos (decide_eq_true h), if_pos h]
    · rw [if_neg (by simpa only [decide_eq_true_eq] using h), if_neg h]
  · rfl

/-- **A request on a balance**: its answer and the balance after it. -/
def Request.serve (r : Request) (b : Option Int64) (n : Int64) : Bool × Option Int64 :=
  if n.toInt < 0 then (false, b)
  else if n = 0 then (true, b)
  else
    match b with
    | some b => (true, some (r.result b n))
    | none => (false, none)

/-- Nothing changes where the number is not positive, or there is no balance. -/
theorem serve_of_not_pos (r : Request) (b : Option Int64) {n : Int64} (h : n.toInt ≤ 0) :
    (r.serve b n).2 = b := by
  unfold Request.serve
  split
  · rfl
  · rename_i hneg
    have hzero : n.toInt = 0 := by omega
    rw [if_pos (Int64.toInt_inj.mp hzero)]

theorem serve_none (r : Request) (n : Int64) : (r.serve none n).2 = none := by
  unfold Request.serve
  split
  · rfl
  · split <;> rfl

/-- Otherwise the balance is the result. -/
theorem serve_of_pos (r : Request) (b : Int64) {n : Int64} (h : 0 < n.toInt) :
    r.serve (some b) n = (true, some (r.result b n)) := by
  have hne : n ≠ 0 := by
    rintro rfl
    exact absurd h (by decide)
  rw [Request.serve, if_neg (by omega), if_neg hne]

/-- The steps of one request with nothing between them. -/
theorem serve_run (b : Option Int64) (r : Request) (n : Int64) :
    ∃ labels t, (system (C := Unit)).Path (initial fun _ => b) labels t ∧
      .answer () r (some (.num (.int n))) (.returned (r.serve b n).1) ∈ labels.flatMap Prod.snd ∧
      t.balance r.purse = (r.serve b n).2.map .int := by
  have hcheck : check (some (.num (.int n))) = if n.toInt < 0 then .error false
      else if n = 0 then .error true else .ok (.int n) := by
    simp only [check, Number.lt_int, Number.eq_int, Int64.toInt_zero, decide_eq_true_eq]
  by_cases hneg : n.toInt < 0
  · rw [if_pos hneg] at hcheck
    have hserve : r.serve b n = (false, b) := if_pos hneg
    refine ⟨[(.call () r (some (.num (.int n))), _)], _, .cons rfl (.nil _), ?_, ?_⟩
    · simp [hcheck, hserve]
    · simp [hcheck, hserve, initial, State.goto]
  · rw [if_neg hneg] at hcheck
    by_cases hzero : n = 0
    · rw [if_pos hzero] at hcheck
      have hserve : r.serve b n = (true, b) := (if_neg hneg).trans (if_pos hzero)
      refine ⟨[(.call () r (some (.num (.int n))), _)], _, .cons rfl (.nil _), ?_, ?_⟩
      · simp [hcheck, hserve]
      · simp [hcheck, hserve, initial, State.goto]
    · rw [if_neg hzero] at hcheck
      have hcall : step (initial (C := Unit) fun _ => b) (.call () r (some (.num (.int n)))) =
          some ((initial fun _ => b).goto () (.reading r (.int n)), []) := by
        simp [step, begin, hcheck, initial]
      cases b with
      | none =>
        have hserve : r.serve none n = (false, none) := (if_neg hneg).trans (if_neg hzero)
        rw [hserve]
        refine ⟨[(.call () r (some (.num (.int n))), _), (.read (), _)], _, .cons hcall (.cons rfl (.nil _)), ?_, rfl⟩
        simp
      | some b =>
        have hserve : r.serve (some b) n = (true, some (r.result b n)) :=
          (if_neg hneg).trans (if_neg hzero)
        rw [hserve]
        refine ⟨[(.call () r (some (.num (.int n))), _), (.read (), _), (.write (), _),
          (.notified () true, _)], _,
          .cons hcall (.cons rfl (.cons rfl (.cons rfl (.nil _)))), ?_, ?_⟩
        · simp
        · simp [State.goto, State.setvalue, initial, compute_int]

/-! ## Materials -/

/-- The materials of a player, each with what its text is read as. -/
structure Materials where
  materials : Number → Option Number
  newmaterials : Number → Option Number

/-- How many of a number there are, where it is a whole one. -/
def pieces (x : Option Number) : ℤ := ((x.bind Number.toInteger).map Int64.toInt).getD 0

/-- How many there are of a material. -/
def Materials.held (m : Materials) (cfgid : Number) : ℤ :=
  pieces (m.materials cfgid) + pieces (m.newmaterials cfgid)

/-- What is read of the text a number is stored as. A number of many pieces
loses digits; none gets so large that it is no number. -/
def reread (x : Number) : Number := (Lua.tonumber (tostring x)).getD x

@[simp] theorem reread_int (i : Int64) : reread (.int i) = .int i := by
  rw [reread, tonumber_tostring_int, Option.getD_some]

@[simp] theorem pieces_none : pieces none = 0 := rfl

@[simp] theorem pieces_int (i : Int64) : pieces (some (.int i)) = i.toInt := rfl

variable (known : Number → Bool)

/-- `addmaterials`. The cfgid may be a number or a text. -/
def addmaterials (m : Materials) (cfgid : Option Value) (number : Int64) : Bool × Materials :=
  match cfgid with
  | none => (false, m)
  | some v =>
    if number.toInt < 0 then (false, m)
    else if number = 0 then (true, m)
    else
      match v.tonumber with
      | none => (false, m)
      | some c =>
        if known c then
          match m.materials c with
          | some x =>
            (true, { m with materials :=
              Function.update m.materials c (some (reread (x.ceilSum (.int number)))) })
          | none =>
            let n := match m.newmaterials c with
              | some x => reread (x.ceilSum (.int number))
              | none => .int number
            (true, { m with newmaterials := Function.update m.newmaterials c (some n) })
        else (false, m)

/-- `remmaterials`. Where there are some of both kinds the old ones go
below zero when they are too few. -/
def remmaterials (m : Materials) (cfgid : Option Number) (number : Int64) : Bool × Materials :=
  match cfgid with
  | none => (false, m)
  | some c =>
    if number.toInt < 0 then (false, m)
    else if number = 0 then (true, m)
    else if known c then
      match m.materials c, m.newmaterials c with
      | none, none => (false, m)
      | some x, none =>
        let left := x.sub (.int number)
        if left.lt (.int 0) then (false, m)
        else if left.eq (.int 0) then
          (true, { m with materials := Function.update m.materials c none })
        else (true, { m with materials := Function.update m.materials c (some (reread left)) })
      | old, some y =>
        let change := match old with
          | some x => Number.max (.int 0) ((Number.int number).sub x)
          | none => .int number
        let left := y.sub change
        let old' := old.map fun x => reread (x.sub (.int number))
        let m' := { m with materials := Function.update m.materials c old' }
        if left.lt (.int 0) then (false, m)
        else if left.eq (.int 0) then
          (true, { m' with newmaterials := Function.update m.newmaterials c none })
        else (true, { m' with newmaterials := Function.update m.newmaterials c (some (reread left)) })
    else (false, m)

/-- **The sum with a total fits**: the total is not negative, and doubles have the
sum. -/
def FitsTotal (x : Number) (number : Int64) : Prop :=
  ∃ i : Int64, x = .int i ∧ 0 ≤ i.toInt ∧ i.toInt + number.toInt ≤ 2 ^ 53

theorem FitsTotal.pieces {x : Number} {number : Int64} (h : FitsTotal x number)
    (hn : 0 ≤ number.toInt) :
    pieces (some (reread (x.ceilSum (.int number)))) = pieces (some x) + number.toInt := by
  obtain ⟨i, rfl, h0, hle⟩ := h
  rw [Number.ceilSum_int (by omega) (by omega) (by omega) (by omega) (by omega) hle, reread_int,
    pieces_int, pieces_int, Number.toInt_add (by omega) (by omega)]

/-- **What `addmaterials` adds**, when it answers yes and the sum fits. -/
theorem addmaterials_held {m : Materials} {c : Number} {number : Int64}
    (h : (addmaterials known m (some (.num c)) number).1 = true)
    (hfit : ∀ x, m.materials c = some x ∨ m.newmaterials c = some x → FitsTotal x number) :
    (addmaterials known m (some (.num c)) number).2.held c = m.held c + number.toInt := by
  unfold addmaterials at h ⊢
  simp only [Value.tonumber] at h ⊢
  split at h
  · cases h
  · rename_i hneg
    rw [if_neg hneg]
    split at h
    · rename_i hzero
      simp [hzero]
    · rename_i hzero
      rw [if_neg hzero]
      split at h
      · rename_i hk
        rw [if_pos hk]
        split
        · rename_i x hx
          have hadd := (hfit x (Or.inl hx)).pieces (by omega)
          simp only [Materials.held, Function.update_self, hx, hadd]
          omega
        · rename_i hx
          cases hy : m.newmaterials c with
          | none => simp [Materials.held, hx, hy]
          | some y =>
            have hadd := (hfit y (Or.inr hy)).pieces (by omega)
            simp only [Materials.held, hx, hy, Function.update_self, pieces_none, hadd]
            omega
      · cases h

/-- **What an addition to a balance adds**, when it answers yes and the sum
fits. -/
theorem serve_adds {r : Request} {b : Option Int64} {n : Int64} (hr : r.removes = false)
    (h : (r.serve b n).1 = true) (hfit : ∀ x, b = some x → x.toInt + n.toInt < 2 ^ 63) :
    0 ≤ n.toInt ∧ (((r.serve b n).2.map Int64.toInt).getD 0) =
      ((b.map Int64.toInt).getD 0) + n.toInt := by
  unfold Request.serve at h ⊢
  split at h
  · cases h
  · rename_i hneg
    rw [if_neg hneg]
    refine ⟨by omega, ?_⟩
    split at h
    · rename_i hzero
      simp [hzero]
    · rename_i hzero
      rw [if_neg hzero]
      cases b with
      | none => cases h
      | some x =>
        have := Int64.le_toInt x
        have hadd : (x + n).toInt = x.toInt + n.toInt :=
          Number.toInt_add (by omega) (hfit x rfl)
        simp only [Request.result, hr, Bool.false_eq_true, if_false, Option.map_some,
          Option.getD_some]
        exact hadd

end Warehouse

end Athena
