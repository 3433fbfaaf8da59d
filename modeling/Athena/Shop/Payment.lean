import Athena.Shop.Lines
/-!
# The money of a purchase

What `addkhorium` adds to the balance of a seller (`Adds`) and what
`remkhorium` takes from that of the buyer (`Takes`), as differences of
balances. The loop of `khoriumbuy_queue` pays what the lines cost exactly
where each line adds that (`Pays`).
-/

namespace Athena

namespace Shop

open Lua Warehouse

variable {s t u : State} {uid price : Int64} {ls : List Line} {outs : List Out}

/-! ## The money -/

/-- The khorium of the players. -/
def State.khorium (s : State) (v : Int64) : Option ℤ := (s.balance .khorium v).map Int64.toInt

theorem worth_khorium (s : State) (v : Int64) :
    s.worth .khorium v = (s.khorium v).getD 0 := rfl

/-- What `addkhorium` adds to a balance when it is asked for `p`: nothing
where `p` is not positive or there is no balance, and `2 ^ 64` less past
the range. -/
def Adds (b : Option ℤ) (p : Int64) (g : ℤ) : Prop :=
  match b with
  | none => g = 0
  | some b =>
    if p.toInt ≤ 0 then g = 0
    else if b + p.toInt < 2 ^ 63 then g = p.toInt
    else g = p.toInt - 2 ^ 64

/-- What `remkhorium` takes from a balance when it is asked for `m`: no more
than there is. -/
def Takes (b : Option ℤ) (m : Int64) (d : ℤ) : Prop :=
  match b with
  | none => d = 0
  | some b =>
    if m.toInt ≤ 0 then d = 0
    else if b - m.toInt < -2 ^ 63 then d = m.toInt - 2 ^ 64
    else d = min m.toInt b

/-- A seller has received what a line costs. -/
def receive (b : Int64 → Option ℤ) (l : Line) (v : Int64) : Option ℤ :=
  (b v).map fun x => if l.row.uid = v then x + l.cost else x

/-- **What is added for each line is what it costs**, line by line. -/
def Pays (price : Int64) : (Int64 → Option ℤ) → List Line → Prop
  | _, [] => True
  | b, l :: ls => Adds (b l.row.uid) (price * l.number) l.cost ∧ Pays price (receive b l) ls

/-- What the sellers receive. -/
def payments (ls : List Line) : List Out := ls.map fun l => .paid l.row.uid l.cost

/-- **What is added is the difference of the balances.** -/
theorem adds_iff (b : Option Int64) (p : Int64) (g : ℤ) :
    (((addkhorium.serve b p).2.map Int64.toInt).getD 0 - (b.map Int64.toInt).getD 0 = g) ↔
      Adds (b.map Int64.toInt) p g := by
  cases b with
  | none =>
    rw [serve_none]
    simp only [Adds, Option.map_none, Option.getD_none, sub_self]
    exact eq_comm
  | some b =>
    simp only [Adds, Option.map_some]
    by_cases hpos : p.toInt ≤ 0
    · rw [if_pos hpos, serve_of_not_pos addkhorium _ hpos]
      simp only [Option.map_some, Option.getD_some, sub_self]
      exact eq_comm
    · rw [if_neg hpos, serve_of_pos addkhorium b (by omega)]
      simp only [Option.map_some, Option.getD_some, Request.result, addkhorium,
        Bool.false_eq_true, if_false]
      by_cases hfits : b.toInt + p.toInt < 2 ^ 63
      · have hb := Int64.le_toInt b
        rw [if_pos hfits, Number.toInt_add (by omega) hfits]
        omega
      · rw [if_neg hfits, Number.toInt_add_over (by omega)]
        omega

/-- Then the balance has it. -/
theorem adds_balance {b : Option Int64} {p : Int64} {g : ℤ} (h : Adds (b.map Int64.toInt) p g) :
    (addkhorium.serve b p).2.map Int64.toInt = (b.map Int64.toInt).map (· + g) := by
  have hgain := (adds_iff b p g).mpr h
  cases b with
  | none =>
    rw [serve_none]
    rfl
  | some b =>
    have hsome : ∃ x, (addkhorium.serve (some b) p).2 = some x := by
      by_cases hpos : p.toInt ≤ 0
      · exact ⟨b, serve_of_not_pos addkhorium _ hpos⟩
      · exact ⟨_, by rw [serve_of_pos addkhorium b (by omega)]⟩
    obtain ⟨x, hx⟩ := hsome
    rw [hx] at hgain ⊢
    simp only [Option.map_some, Option.getD_some, Option.some.injEq] at hgain ⊢
    omega

/-- **What is taken is the difference of the balances.** -/
theorem takes_iff (b : Option Int64) (m : Int64) (d : ℤ) :
    ((b.map Int64.toInt).getD 0 - ((remkhorium.serve b m).2.map Int64.toInt).getD 0 = d) ↔
      Takes (b.map Int64.toInt) m d := by
  cases b with
  | none =>
    rw [serve_none]
    simp only [Takes, Option.map_none, Option.getD_none, sub_self]
    exact eq_comm
  | some b =>
    simp only [Takes, Option.map_some]
    by_cases hpos : m.toInt ≤ 0
    · rw [if_pos hpos, serve_of_not_pos remkhorium _ hpos]
      simp only [Option.map_some, Option.getD_some, sub_self]
      exact eq_comm
    · have hb := Int64.toInt_lt b
      rw [if_neg hpos, serve_of_pos remkhorium b (by omega)]
      simp only [Option.map_some, Option.getD_some, Request.result, remkhorium, if_true]
      by_cases hunder : b.toInt - m.toInt < -2 ^ 63
      · have hm := Int64.toInt_lt m
        have hle := Int64.le_toInt b
        have hsub := Number.toInt_sub_under hunder
        rw [if_pos hunder, if_pos (by omega), hsub]
        omega
      · have hsub : (b - m).toInt = b.toInt - m.toInt :=
          Number.toInt_sub (by omega) (by omega)
        rw [if_neg hunder]
        by_cases hgt : 0 < (b - m).toInt
        · rw [if_pos hgt, min_eq_left (by omega)]
          omega
        · rw [if_neg hgt, min_eq_right (by omega), Int64.toInt_zero]
          omega

theorem serve_khorium_self (s : State) {r : Request} (hr : r.purse = .khorium) (v n : Int64) :
    (s.serve r v n).2.khorium v = (r.serve (s.balance .khorium v) n).2.map Int64.toInt := by
  simp [State.khorium, State.serve, hr]

theorem serve_khorium_of_ne (s : State) (r : Request) {v w n : Int64} (h : w ≠ v) :
    (s.serve r v n).2.khorium w = s.khorium w := by
  by_cases hr : r.purse = .khorium
  · simp [State.khorium, State.serve, hr, h]
  · simp [State.khorium, State.serve, Ne.symm hr]

/-- A turn that adds what the line costs pays its seller. -/
theorem Taken.receive {l : Line} {n : Int64} {out : List Out} (h : Taken price s l n t out)
    (hadds : Adds (s.khorium l.row.uid) (price * l.number) l.cost) :
    t.khorium = receive s.khorium l := by
  funext v
  have hbal : t.khorium v = (s.serve addkhorium l.row.uid (price * l.number)).2.khorium v := by
    simp only [State.khorium, h.balance]
  rw [hbal]
  by_cases hv : v = l.row.uid
  · subst hv
    rw [serve_khorium_self s rfl, adds_balance hadds]
    simp [Shop.receive, State.khorium]
  · rw [serve_khorium_of_ne s addkhorium hv]
    simp [Shop.receive, Ne.symm hv]

/-- **The loop pays what the lines cost** where each line adds that. -/
theorem Run.paid (h : Run price s ls u outs) : outs = payments ls ↔ Pays price s.khorium ls := by
  induction h with
  | nil => exact iff_of_true rfl trivial
  | @cons s t u l ls n out outs row turn rest ih =>
    have hgain : out = [.paid l.row.uid l.cost] ↔
        Adds (s.khorium l.row.uid) (price * l.number) l.cost := by
      have hiff := adds_iff (s.balance .khorium l.row.uid) (price * l.number) l.cost
      rw [← serve_khorium_self s (r := addkhorium) rfl] at hiff
      rw [turn.out]
      simp only [List.cons.injEq, Out.paid.injEq, true_and, and_true]
      exact hiff
    have hsplit : out ++ outs = payments (l :: ls) ↔
        out = [.paid l.row.uid l.cost] ∧ outs = payments ls := by
      rw [turn.out]
      simp [payments]
    rw [hsplit, hgain, ih]
    refine and_congr_right fun hadds => ?_
    rw [turn.receive hadds]

theorem receive_none {b : Int64 → Option ℤ} {l : Line} {v : Int64} (h : b v = none) :
    receive b l v = none := by
  simp [receive, h]

/-- A player with no balance is owed nothing. -/
theorem Pays.owed_of_none {b : Int64 → Option ℤ} (h : Pays price b ls) {v : Int64}
    (hv : b v = none) : owed ls v = 0 := by
  induction ls generalizing b with
  | nil => rfl
  | cons l ls ih =>
    rw [owed_cons, ih h.2 (receive_none hv)]
    split
    · rename_i hl
      have hadds := h.1
      rw [hl, hv] at hadds
      have hcost : l.cost = 0 := hadds
      omega
    · rfl

/-- **What the players have** when the lines are paid. -/
theorem Run.khorium (h : Run price s ls u outs) (hp : Pays price s.khorium ls) (v : Int64) :
    u.khorium v = (s.khorium v).map (· + owed ls v) := by
  induction h with
  | nil s => simp [owed]
  | @cons s t u l ls n out outs row turn rest ih =>
    have hreceive := turn.receive hp.1
    rw [ih (by rw [hreceive]; exact hp.2), hreceive, owed_cons]
    simp only [receive, Option.map_map]
    refine congrArg (fun f => (s.khorium v).map f) (funext fun x => ?_)
    simp only [Function.comp_apply]
    split <;> omega

end Shop

end Athena
