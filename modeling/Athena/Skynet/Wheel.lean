import Athena.Skynet.Timer
import Mathlib.Data.Nat.Bitwise
import Mathlib.Tactic.NormNum
/-!
# Timers — each at its time

A timer is where its time and the time there is put it (`Placed`), and the list that
`timer_shift` moves is the only one for which that changes (`place_succ`). So the
lists are an agenda (`Keeps`): a timer fires at the tick it was set for, once, behind
those that were set for the same tick before it.
-/

namespace Athena

namespace Skynet

variable {T T' : Timer} {s : Slot} {t e ct n B : ℕ} {node : TimerNode} {event : TimerEvent}

/-! ## Blocks of times -/

theorem or_mask (a b k : ℕ) : (a ||| (2 ^ k - 1)) = (b ||| (2 ^ k - 1)) ↔ a / 2 ^ k = b / 2 ^ k := by
  constructor
  · intro h
    refine Nat.eq_of_testBit_eq fun i => ?_
    have hi := congrArg (fun n => n.testBit (k + i)) h
    have hik : ¬ k + i < k := by omega
    simpa [Nat.testBit_div_two_pow, Nat.testBit_or, Nat.testBit_two_pow_sub_one, Nat.add_comm, hik] using hi
  · intro h
    refine Nat.eq_of_testBit_eq fun i => ?_
    have hi := congrArg (fun n => n.testBit (i - k)) h
    by_cases hik : i < k
    · simp [Nat.testBit_or, Nat.testBit_two_pow_sub_one, hik]
    · simp only [Nat.testBit_div_two_pow] at hi
      rw [Nat.sub_add_cancel (by omega)] at hi
      simp [Nat.testBit_or, hi]

/-- A time that is to come. -/
structure Ahead (t e : ℕ) : Prop where
  now : t < 2 ^ 32
  lt : e < 2 ^ 32
  ne : e ≠ t
  window : (e + 2 ^ 32 - t) % 2 ^ 32 < 2 ^ 31

/-- The time stays in a block when the next does not begin, -/
theorem block_same (ht : t < 2 ^ 32) (hct : ct = (t + 1) % 2 ^ 32) (hb : ¬ B ∣ ct) :
    ct / B = t / B := by
  have hne : t + 1 ≠ 2 ^ 32 := by
    intro heq
    rw [hct, heq, Nat.mod_self] at hb
    exact hb (Nat.dvd_zero B)
  rw [Nat.mod_eq_of_lt (by omega)] at hct
  rw [hct] at hb ⊢
  rw [Nat.succ_div, if_neg hb, Nat.add_zero]

/-- and when it does, nothing to come is in the block that is over. -/
theorem block_last (h : Ahead t e) (hB : 0 < B) (hle : B ≤ 2 ^ 31) (hd : B ∣ 2 ^ 32)
    (hct : ct = (t + 1) % 2 ^ 32) (hb : B ∣ ct) : e / B ≠ t / B := by
  intro heq
  obtain ⟨ht, he, hpos, hwin⟩ := h
  have hsucc : B ∣ t + 1 := by
    rw [hct] at hb
    exact (Nat.dvd_mod_iff hd).mp hb
  have hte := Nat.div_add_mod t B
  have hee := Nat.div_add_mod e B
  have hmod := Nat.mod_lt e hB
  have hmod' := Nat.mod_lt t hB
  rw [heq] at hee
  have hlast : B ≤ t % B + 1 := by
    refine Nat.le_of_dvd (by omega) ((Nat.dvd_add_right (Nat.dvd_mul_right B (t / B))).mp ?_)
    rw [← Nat.add_assoc, hte]
    exact hsucc
  omega

/-! ## The place of a timer -/

/-- **The list of a timer** for `e` at the time `t`. -/
def place (t e : ℕ) : Slot :=
  if e / 2 ^ 8 = t / 2 ^ 8 then .near (e % 2 ^ 8)
  else if e / 2 ^ 14 = t / 2 ^ 14 then .t 0 (e / 2 ^ 8 % 2 ^ 6)
  else if e / 2 ^ 20 = t / 2 ^ 20 then .t 1 (e / 2 ^ 14 % 2 ^ 6)
  else if e / 2 ^ 26 = t / 2 ^ 26 then .t 2 (e / 2 ^ 20 % 2 ^ 6)
  else .t 3 (e / 2 ^ 26 % 2 ^ 6)

/-- The list that is moved when the time comes to `ct`. -/
def moved (ct : ℕ) : Option (ℕ × ℕ) :=
  if ct % 2 ^ 8 ≠ 0 then none
  else if ct / 2 ^ 8 % 2 ^ 6 ≠ 0 then some (0, ct / 2 ^ 8 % 2 ^ 6)
  else if ct / 2 ^ 14 % 2 ^ 6 ≠ 0 then some (1, ct / 2 ^ 14 % 2 ^ 6)
  else if ct / 2 ^ 20 % 2 ^ 6 ≠ 0 then some (2, ct / 2 ^ 20 % 2 ^ 6)
  else some (3, ct / 2 ^ 26 % 2 ^ 6)

theorem add_node_eq (T : Timer) (node : TimerNode) : add_node T node = link T (place T.time node.expire) node := by
  have h8 := or_mask node.expire T.time 8
  have h14 := or_mask node.expire T.time 14
  have h20 := or_mask node.expire T.time 20
  have h26 := or_mask node.expire T.time 26
  have hnear := Nat.and_two_pow_sub_one_eq_mod node.expire 8
  have hlevel : ∀ k, (node.expire >>> k) &&& (2 ^ 6 - 1) = node.expire / 2 ^ k % 2 ^ 6 := fun k => by
    rw [Nat.and_two_pow_sub_one_eq_mod, Nat.shiftRight_eq_div_pow]
  unfold add_node place
  simp only [add_level, timeNearMask, timeNear, timeNearShift, timeLevelMask, timeLevel, timeLevelShift, uint32]
  norm_num only [Nat.shiftLeft_eq] at *
  simp only [h8, h14, h20, h26, hnear]
  split
  · rfl
  · split
    · rw [hlevel]
      rfl
    · split
      · rw [hlevel]
        rfl
      · split
        · rw [hlevel]
          rfl
        · rw [hlevel]
          rfl

theorem timer_shift_eq (T : Timer) : timer_shift T = some (match moved (uint32 (T.time + 1)) with
    | none => { T with time := uint32 (T.time + 1) }
    | some (level, idx) => move_list { T with time := uint32 (T.time + 1) } level idx) := by
  have hlt : uint32 (T.time + 1) < 2 ^ 32 := Nat.mod_lt _ (by decide)
  unfold timer_shift
  generalize uint32 (T.time + 1) = ct at *
  by_cases hzero : ct = 0
  · subst hzero
    rfl
  · have hmask : ∀ k, (ct &&& (2 ^ k - 1) = 0) = (ct % 2 ^ k = 0) := fun k => by
      rw [Nat.and_two_pow_sub_one_eq_mod]
    have hlevel : ∀ k, (ct >>> k) &&& (2 ^ 6 - 1) = ct / 2 ^ k % 2 ^ 6 := fun k => by
      rw [Nat.and_two_pow_sub_one_eq_mod, Nat.shiftRight_eq_div_pow]
    have h8 := hmask 8
    have h14 := hmask 14
    have h20 := hmask 20
    have h26 := hmask 26
    have l8 := hlevel 8
    have l14 := hlevel 14
    have l20 := hlevel 20
    have l26 := hlevel 26
    simp only [shift_level, timeNear, timeNearShift, timeLevelMask, timeLevel, timeLevelShift, ← Nat.shiftRight_add]
    norm_num only [Nat.shiftLeft_eq] at *
    simp only [h8, h14, h20, h26, l8, l14, l20, l26, moved]
    norm_num only
    rw [if_neg hzero]
    by_cases c8 : ct % 256 = 0
    · by_cases i8 : ct / 256 % 64 = 0
      · by_cases i14 : ct / 16384 % 64 = 0
        · by_cases i20 : ct / 1048576 % 64 = 0
          · have c14 : ct % 16384 = 0 := by omega
            have c20 : ct % 1048576 = 0 := by omega
            have c26 : ct % 67108864 = 0 := by omega
            have i26 : ct / 67108864 % 64 ≠ 0 := by omega
            simp [c8, i8, i14, i20, c14, c20, c26, i26]
          · have c14 : ct % 16384 = 0 := by omega
            have c20 : ct % 1048576 = 0 := by omega
            simp [c8, i8, i14, i20, c14, c20]
        · have c14 : ct % 16384 = 0 := by omega
          simp [c8, i8, i14, c14]
      · simp [c8, i8]
    · simp [c8]

/-- **`timer_shift` moves the list whose timers change place**, and leaves the
others where they are. -/
theorem place_succ (h : Ahead t e) (hct : ct = (t + 1) % 2 ^ 32) :
    (∃ level idx, moved ct = some (level, idx) ∧ place t e = .t level idx ∧ place ct e ≠ .t level idx) ∨
      (∀ level idx, moved ct = some (level, idx) → place t e ≠ .t level idx) ∧ place ct e = place t e := by
  have hd : ∀ {k}, k ≤ 32 → 2 ^ k ∣ 2 ^ 32 := fun hk => Nat.pow_dvd_pow 2 hk
  have hlast : ∀ k, k ≤ 31 → ct % 2 ^ k = 0 → e / 2 ^ k ≠ t / 2 ^ k := fun k hk hmod =>
    block_last h (Nat.two_pow_pos k) (Nat.pow_le_pow_right (by decide) hk) (hd (by omega)) hct
      (Nat.dvd_of_mod_eq_zero hmod)
  have hsame : ∀ k, ct % 2 ^ k ≠ 0 → ct / 2 ^ k = t / 2 ^ k := fun k hmod =>
    block_same h.now hct fun hdvd => hmod (Nat.mod_eq_zero_of_dvd hdvd)
  have he := h.lt
  have hlt : ct < 2 ^ 32 := by
    rw [hct]
    exact Nat.mod_lt _ (by decide)
  clear hct h
  by_cases c8 : ct % 2 ^ 8 = 0
  · have e8 := hlast 8 (by decide) c8
    by_cases c14 : ct % 2 ^ 14 = 0
    · have e14 := hlast 14 (by decide) c14
      by_cases c20 : ct % 2 ^ 20 = 0
      · have e20 := hlast 20 (by decide) c20
        by_cases c26 : ct % 2 ^ 26 = 0
        · -- Even the last level goes on.
          have e26 := hlast 26 (by decide) c26
          have hm : moved ct = some (3, ct / 2 ^ 26 % 2 ^ 6) := by
            rw [moved, if_neg (by omega), if_neg (by omega), if_neg (by omega), if_neg (by omega)]
          have hp : place t e = .t 3 (e / 2 ^ 26 % 2 ^ 6) := by
            rw [place, if_neg e8, if_neg e14, if_neg e20, if_neg e26]
          by_cases hsame : e / 2 ^ 26 = ct / 2 ^ 26
          · refine .inl ⟨_, _, hm, by rw [hp, hsame], ?_⟩
            unfold place
            split_ifs <;> simp
          · refine .inr ⟨fun level idx heq hpl => ?_, ?_⟩
            · rw [hm] at heq
              obtain ⟨rfl, rfl⟩ := Prod.mk.inj (Option.some.inj heq)
              rw [hp] at hpl
              obtain ⟨-, hidx⟩ := Slot.t.inj hpl
              omega
            · rw [hp, place, if_neg (by omega), if_neg (by omega), if_neg (by omega), if_neg hsame]
        · have s26 := hsame 26 c26
          have hm : moved ct = some (2, ct / 2 ^ 20 % 2 ^ 6) := by
            rw [moved, if_neg (by omega), if_neg (by omega), if_neg (by omega), if_pos (by omega)]
          by_cases hsame : e / 2 ^ 20 = ct / 2 ^ 20
          · refine .inl ⟨_, _, hm, ?_, ?_⟩
            · rw [place, if_neg e8, if_neg e14, if_neg e20, if_pos (by omega), hsame]
            · unfold place
              split_ifs <;> simp
          · refine .inr ⟨fun level idx heq hpl => ?_, ?_⟩
            · rw [hm] at heq
              obtain ⟨rfl, rfl⟩ := Prod.mk.inj (Option.some.inj heq)
              rw [place, if_neg e8, if_neg e14, if_neg e20] at hpl
              split_ifs at hpl with h26
              · obtain ⟨-, hidx⟩ := Slot.t.inj hpl
                omega
              · cases (Slot.t.inj hpl).1
            · rw [place, if_neg (by omega), if_neg (by omega), if_neg hsame, place, if_neg e8, if_neg e14,
                if_neg e20, s26]
      · have s20 := hsame 20 c20
        have s26 := hsame 26 (by omega)
        have hm : moved ct = some (1, ct / 2 ^ 14 % 2 ^ 6) := by
          rw [moved, if_neg (by omega), if_neg (by omega), if_pos (by omega)]
        by_cases hsame : e / 2 ^ 14 = ct / 2 ^ 14
        · refine .inl ⟨_, _, hm, ?_, ?_⟩
          · rw [place, if_neg e8, if_neg e14, if_pos (by omega), hsame]
          · unfold place
            split_ifs <;> simp
        · refine .inr ⟨fun level idx heq hpl => ?_, ?_⟩
          · rw [hm] at heq
            obtain ⟨rfl, rfl⟩ := Prod.mk.inj (Option.some.inj heq)
            rw [place, if_neg e8, if_neg e14] at hpl
            split_ifs at hpl with h20 h26
            · obtain ⟨-, hidx⟩ := Slot.t.inj hpl
              omega
            · cases (Slot.t.inj hpl).1
            · cases (Slot.t.inj hpl).1
          · rw [place, if_neg (by omega), if_neg hsame, place, if_neg e8, if_neg e14, s20, s26]
    · have s14 := hsame 14 c14
      have s20 := hsame 20 (by omega)
      have s26 := hsame 26 (by omega)
      have hm : moved ct = some (0, ct / 2 ^ 8 % 2 ^ 6) := by
        rw [moved, if_neg (by omega), if_pos (by omega)]
      by_cases hsame : e / 2 ^ 8 = ct / 2 ^ 8
      · refine .inl ⟨_, _, hm, ?_, ?_⟩
        · rw [place, if_neg e8, if_pos (by omega), hsame]
        · rw [place, if_pos hsame]
          simp
      · refine .inr ⟨fun level idx heq hpl => ?_, ?_⟩
        · rw [hm] at heq
          obtain ⟨rfl, rfl⟩ := Prod.mk.inj (Option.some.inj heq)
          rw [place, if_neg e8] at hpl
          split_ifs at hpl with h14 h20 h26
          · obtain ⟨-, hidx⟩ := Slot.t.inj hpl
            omega
          · cases (Slot.t.inj hpl).1
          · cases (Slot.t.inj hpl).1
          · cases (Slot.t.inj hpl).1
        · rw [place, if_neg hsame, place, if_neg e8, s14, s20, s26]
  · have hm : moved ct = none := by
      rw [moved, if_pos c8]
    refine .inr ⟨fun level idx heq => ?_, ?_⟩
    · rw [hm] at heq
      cases heq
    · rw [place, place, hsame 8 c8, hsame 14 (by omega), hsame 20 (by omega), hsame 26 (by omega)]

/-! ## The lists -/

/-- **What there is in the lists** is where it belongs, and to come or due. -/
structure Placed (T : Timer) : Prop where
  now : T.time < 2 ^ 32
  lt : ∀ s, ∀ node ∈ T.list s, node.expire < 2 ^ 32
  window : ∀ s, ∀ node ∈ T.list s, (node.expire + 2 ^ 32 - T.time) % 2 ^ 32 < 2 ^ 31
  home : ∀ s, ∀ node ∈ T.list s, place T.time node.expire = s

/-- The timers for a time. -/
def Timer.at (T : Timer) (e : ℕ) : List TimerNode := (T.list (place T.time e)).filter fun node => node.expire = e

theorem link_list (T : Timer) (s : Slot) (node : TimerNode) (s' : Slot) :
    (link T s node).list s' = T.list s' ++ (if s = s' then [node] else []) := by
  by_cases h : s = s'
  · subst h
    simp [link]
  · simp [link, h, Ne.symm h]

theorem foldl_add_node (l : List TimerNode) (T : Timer) : (l.foldl add_node T).time = T.time ∧
    ∀ s, (l.foldl add_node T).list s = T.list s ++ l.filter fun node => place T.time node.expire = s := by
  induction l generalizing T with
  | nil => simp
  | cons node l ih =>
    have hnode : (add_node T node).time = T.time := by
      rw [add_node_eq]
      rfl
    obtain ⟨htime, hlist⟩ := ih (add_node T node)
    refine ⟨htime.trans hnode, fun s => ?_⟩
    rw [List.foldl_cons, hlist, hnode, add_node_eq, link_list, List.filter_cons]
    by_cases h : place T.time node.expire = s
    · simp [h]
    · simp [h]

/-- `move_list` puts what is in a list in its place. -/
theorem move_list_list (T : Timer) (level idx : ℕ) : (move_list T level idx).time = T.time ∧
    ∀ s, (move_list T level idx).list s = (if s = .t level idx then [] else T.list s) ++
      (T.list (.t level idx)).filter fun node => place T.time node.expire = s := by
  obtain ⟨htime, hlist⟩ := foldl_add_node (T.list (.t level idx)) (link_clear T (.t level idx)).2
  refine ⟨htime, fun s => (hlist s).trans ?_⟩
  by_cases h : s = .t level idx
  · simp [link_clear, h]
  · rw [if_neg h]
    exact congrArg (· ++ _) (Function.update_of_ne h ..)

theorem Placed.at_current (h : Placed T) : T.current = place T.time T.time ∧ T.list T.current = T.at T.time := by
  have hcurrent : T.current = place T.time T.time := by
    rw [place, if_pos rfl, Timer.current]
    exact congrArg Slot.near (Nat.and_two_pow_sub_one_eq_mod T.time 8)
  refine ⟨hcurrent, ?_⟩
  rw [Timer.at, ← hcurrent]
  refine (List.filter_eq_self.mpr fun node hnode => decide_eq_true ?_).symm
  have hplace := h.home _ node hnode
  rw [hcurrent, place, place, if_pos rfl] at hplace
  split_ifs at hplace with h8
  have hmod := Slot.near.inj hplace
  omega

/-- The list that is moved. -/
def Timer.moving (T : Timer) : Option Slot := (moved (uint32 (T.time + 1))).map fun m => .t m.1 m.2

theorem timer_shift_list (T : Timer) : ∃ T', timer_shift T = some T' ∧ T'.time = uint32 (T.time + 1) ∧
    ∀ s, T'.list s = (if T.moving = some s then [] else T.list s) ++
      (T.moving.elim [] T.list).filter fun node => place (uint32 (T.time + 1)) node.expire = s := by
  rw [timer_shift_eq, Timer.moving]
  cases moved (uint32 (T.time + 1)) with
  | none => exact ⟨_, rfl, rfl, fun s => by simp⟩
  | some m =>
    obtain ⟨htime, hlist⟩ := move_list_list { T with time := uint32 (T.time + 1) } m.1 m.2
    refine ⟨_, rfl, htime, fun s => (hlist s).trans ?_⟩
    simp only [Option.map_some, Option.some.injEq, Option.elim_some, eq_comm (a := s)]

theorem Placed.filter_list (h : Placed T) (s : Slot) (e : ℕ) :
    ((T.list s).filter fun node => node.expire = e) = if s = place T.time e then T.at e else [] := by
  split
  · rename_i hs
    rw [hs]
    rfl
  · rename_i hs
    refine List.filter_eq_nil_iff.mpr fun node hnode he => hs ?_
    rw [← h.home s node hnode, of_decide_eq_true he]

/-- **Nothing is lost when the time goes on.** -/
theorem Placed.shift (h : Placed T) (hnone : T.list T.current = []) : ∃ T', timer_shift T = some T' ∧ Placed T' ∧
    T'.time = uint32 (T.time + 1) ∧ ∀ e, T'.at e = T.at e := by
  obtain ⟨T', hshift, htime, hlist⟩ := timer_shift_list T
  have hahead : ∀ s, ∀ node ∈ T.list s, Ahead T.time node.expire := by
    intro s node hnode
    refine ⟨h.now, h.lt s node hnode, fun heq => ?_, h.window s node hnode⟩
    obtain ⟨hcurrent, -⟩ := h.at_current
    have hplace := h.home s node hnode
    rw [heq, ← hcurrent] at hplace
    rw [← hplace, hnone] at hnode
    cases hnode
  have hsucc : ∀ e, Ahead T.time e →
      T.moving = some (place T.time e) ∧ place (uint32 (T.time + 1)) e ≠ place T.time e ∨
        T.moving ≠ some (place T.time e) ∧ place (uint32 (T.time + 1)) e = place T.time e := by
    intro e he
    rcases place_succ he (show uint32 (T.time + 1) = _ from rfl) with ⟨level, idx, hm, hp, hne⟩ | ⟨hm, hkeep⟩
    · refine .inl ⟨?_, ?_⟩
      · rw [Timer.moving, hm, hp]
        rfl
      · rw [hp]
        exact hne
    · refine .inr ⟨fun hmoving => ?_, hkeep⟩
      obtain ⟨⟨level, idx⟩, hlevel, heq⟩ := Option.map_eq_some_iff.mp hmoving
      exact hm level idx hlevel heq.symm
  -- Whatever is in a list was in one before, and is where it belongs.
  have hmem : ∀ s, ∀ node ∈ T'.list s, (∃ s', node ∈ T.list s') ∧ place (uint32 (T.time + 1)) node.expire = s := by
    intro s node hnode
    rw [hlist, List.mem_append] at hnode
    rcases hnode with hnode | hnode
    · split at hnode
      · cases hnode
      · rename_i hs
        refine ⟨⟨s, hnode⟩, ?_⟩
        have hhome := h.home s node hnode
        rcases hsucc _ (hahead s node hnode) with ⟨hm, -⟩ | ⟨-, hkeep⟩
        · rw [hhome] at hm
          exact absurd hm hs
        · rw [hkeep, hhome]
    · obtain ⟨hnode, hplace⟩ := List.mem_filter.mp hnode
      refine ⟨?_, of_decide_eq_true hplace⟩
      cases hm : T.moving with
      | none =>
        rw [hm] at hnode
        cases hnode
      | some s' =>
        rw [hm] at hnode
        exact ⟨s', hnode⟩
  refine ⟨T', hshift, ⟨?_, fun s node hnode => ?_, fun s node hnode => ?_, fun s node hnode => ?_⟩, htime, fun e => ?_⟩
  · rw [htime]
    exact Nat.mod_lt _ (by decide)
  · obtain ⟨⟨s', hs'⟩, -⟩ := hmem s node hnode
    exact h.lt s' node hs'
  · obtain ⟨⟨s', hs'⟩, -⟩ := hmem s node hnode
    obtain ⟨hnow, hlt, hne, hwin⟩ := hahead s' node hs'
    rw [htime]
    unfold uint32
    omega
  · rw [htime]
    exact (hmem s node hnode).2
  · have hmoving : ((T.moving.elim [] T.list).filter fun node => node.expire = e) =
        if T.moving = some (place T.time e) then T.at e else [] := by
      cases hm : T.moving with
      | none => simp
      | some s => simpa [eq_comm] using h.filter_list s e
    have hat : T'.at e = (if T.moving = some (place (uint32 (T.time + 1)) e) then [] else
        if place (uint32 (T.time + 1)) e = place T.time e then T.at e else []) ++
          if T.moving = some (place T.time e) then T.at e else [] := by
      rw [Timer.at, htime, hlist, List.filter_append, List.filter_filter, ← hmoving]
      refine congrArg₂ (· ++ ·) ?_ (List.filter_congr fun node _ => ?_)
      · split
        · rfl
        · exact h.filter_list _ e
      · by_cases he : node.expire = e
        · simp [he]
        · simp [he]
    rw [hat]
    by_cases hnil : T.at e = []
    · simp [hnil]
    · obtain ⟨node, hnode⟩ := List.exists_mem_of_ne_nil _ hnil
      obtain ⟨hnode, he⟩ := List.mem_filter.mp hnode
      have hnext := hsucc _ (hahead _ node hnode)
      rw [of_decide_eq_true he] at hnext
      rcases hnext with ⟨hm, hne⟩ | ⟨hm, hkeep⟩
      · rw [if_pos hm, if_neg hne]
        simp
      · rw [hkeep, if_neg hm, if_neg hm, if_pos rfl, List.append_nil]

/-! ## The agenda -/

/-- **The lists are an agenda.** -/
structure Keeps (T : Timer) (a : Agenda TimerEvent) : Prop where
  placed : Placed T
  now : T.time = uint32 a.now
  due : ∀ d, a.now ≤ d → d < a.now + 2 ^ 31 → a.due d = (T.at (uint32 d)).map (·.event)
  others : ∀ d, d < a.now ∨ a.now + 2 ^ 31 ≤ d → a.due d = []

variable {a : Agenda TimerEvent}

theorem at_link (T : Timer) (node : TimerNode) (e : ℕ) :
    (link T (place T.time node.expire) node).at e = T.at e ++ if node.expire = e then [node] else [] := by
  have htime : (link T (place T.time node.expire) node).time = T.time := rfl
  rw [Timer.at, htime, link_list, List.filter_append]
  refine congrArg₂ (· ++ ·) rfl ?_
  by_cases he : node.expire = e
  · simp [he]
  · by_cases hp : place T.time node.expire = place T.time e
    · simp [hp, he]
    · simp [hp, he]

/-- `timer_add` writes it down, -/
theorem Keeps.add (h : Keeps T a) (hn : n < 2 ^ 31) : Keeps (timer_add T event n) (a.set n event) := by
  have hexpire : uint32 (n + T.time) = uint32 (a.now + n) := by
    rw [h.now]
    unfold uint32
    omega
  have hlt : uint32 (n + T.time) < 2 ^ 32 := Nat.mod_lt _ (by decide)
  have hnow := h.placed.now
  have hadd : timer_add T event n = link T (place T.time (uint32 (n + T.time))) ⟨uint32 (n + T.time), event⟩ :=
    add_node_eq T _
  have hmem : ∀ s, ∀ node ∈ (timer_add T event n).list s,
      node ∈ T.list s ∨ node.expire = uint32 (n + T.time) ∧ place T.time (uint32 (n + T.time)) = s := by
    intro s node hnode
    rw [hadd, link_list, List.mem_append] at hnode
    rcases hnode with hnode | hnode
    · exact .inl hnode
    · split at hnode
      · rename_i hs
        rw [List.mem_singleton.mp hnode]
        exact .inr ⟨rfl, hs⟩
      · cases hnode
  refine ⟨⟨?_, ?_, ?_, ?_⟩, ?_, ?_, ?_⟩
  · rw [hadd]
    exact h.placed.now
  · intro s node hnode
    rcases hmem s node hnode with hnode | ⟨he, -⟩
    · exact h.placed.lt s node hnode
    · rw [he]
      exact hlt
  · intro s node hnode
    rw [hadd]
    rcases hmem s node hnode with hnode | ⟨he, -⟩
    · exact h.placed.window s node hnode
    · rw [he]
      change (uint32 (n + T.time) + 2 ^ 32 - T.time) % 2 ^ 32 < 2 ^ 31
      unfold uint32
      omega
  · intro s node hnode
    rw [hadd]
    rcases hmem s node hnode with hnode | ⟨he, hs⟩
    · exact h.placed.home s node hnode
    · rw [he]
      exact hs
  · rw [hadd]
    exact h.now
  · intro d hle hd
    have hle' : a.now ≤ d := hle
    have hd' : d < a.now + 2 ^ 31 := hd
    rw [hadd, at_link T ⟨uint32 (n + T.time), event⟩, List.map_append, ← h.due d hle' hd', Agenda.set_due]
    by_cases heq : d = a.now + n
    · rw [heq, Function.update_self, if_pos hexpire]
      rfl
    · rw [Function.update_of_ne heq, if_neg]
      · simp
      · change uint32 (n + T.time) ≠ uint32 d
        rw [hexpire]
        unfold uint32
        omega
  · intro d hd
    have hd' : d < a.now ∨ a.now + 2 ^ 31 ≤ d := hd
    rw [Agenda.set_due, Function.update_of_ne (by omega)]
    exact h.others d hd'

theorem Keeps.current (h : Keeps T a) : a.due a.now = (T.list T.current).map (·.event) := by
  rw [h.due a.now le_rfl (by omega), h.placed.at_current.2, h.now]

/-- `timer_execute` hands out what is due, -/
theorem Keeps.fire (h : Keeps T a) :
    Keeps (link_clear T T.current).2 { a with due := Function.update a.due a.now [] } := by
  have hsub : ∀ s, ∀ node ∈ (link_clear T T.current).2.list s, node ∈ T.list s := by
    intro s node hnode
    have hnode' : node ∈ Function.update T.list T.current [] s := hnode
    by_cases hs : s = T.current
    · rw [hs, Function.update_self] at hnode'
      cases hnode'
    · rw [Function.update_of_ne hs] at hnode'
      exact hnode'
  have hnow := h.placed.now
  refine ⟨⟨hnow, fun s node hnode => h.placed.lt s node (hsub s node hnode),
    fun s node hnode => h.placed.window s node (hsub s node hnode),
    fun s node hnode => h.placed.home s node (hsub s node hnode)⟩, h.now, fun d hle hd => ?_, fun d hd => ?_⟩
  · have hle' : a.now ≤ d := hle
    have hd' : d < a.now + 2 ^ 31 := hd
    have hat : (link_clear T T.current).2.at (uint32 d) =
        (Function.update T.list T.current [] (place T.time (uint32 d))).filter fun node => node.expire = uint32 d := rfl
    rw [hat]
    change Function.update a.due a.now [] d = _
    by_cases heq : d = a.now
    · subst heq
      rw [Function.update_self, ← h.now, ← h.placed.at_current.1, Function.update_self]
      rfl
    · have hne : uint32 d ≠ T.time := by
        rw [h.now]
        unfold uint32
        omega
      rw [Function.update_of_ne heq, h.due d hle' hd']
      by_cases hs : place T.time (uint32 d) = T.current
      · -- Only what is due now is in the list of now.
        rw [hs, Function.update_self, Timer.at, hs, List.filter_eq_nil_iff.mpr fun node hnode he => hne ?_]
        · rfl
        · rw [h.placed.at_current.2] at hnode
          rw [← of_decide_eq_true he]
          exact of_decide_eq_true (List.mem_filter.mp hnode).2
      · rw [Function.update_of_ne hs]
        rfl
  · have hd' : d < a.now ∨ a.now + 2 ^ 31 ≤ d := hd
    change Function.update a.due a.now [] d = []
    rw [Function.update_of_ne (by omega)]
    exact h.others d hd'

/-- and `timer_shift` goes on. -/
theorem Keeps.tick (h : Keeps T a) (hnone : T.list T.current = []) :
    ∃ T', timer_shift T = some T' ∧ Keeps T' { a with now := a.now + 1 } := by
  obtain ⟨T', hshift, hplaced, htime, hat⟩ := h.placed.shift hnone
  refine ⟨T', hshift, hplaced, ?_, fun d hle hd => ?_, fun d hd => ?_⟩
  · rw [htime, h.now]
    unfold uint32
    simp only
    omega
  · have hle' : a.now + 1 ≤ d := hle
    have hd' : d < a.now + 1 + 2 ^ 31 := hd
    rw [hat]
    rcases Nat.lt_or_ge d (a.now + 2 ^ 31) with hlt | hge
    · exact h.due d (by omega) hlt
    · -- Nothing is set that far ahead.
      have hnil : T.at (uint32 d) = [] := by
        refine List.filter_eq_nil_iff.mpr fun node hnode he => ?_
        have hwin := h.placed.window _ node hnode
        rw [of_decide_eq_true he, h.now] at hwin
        unfold uint32 at hwin
        omega
      rw [hnil]
      exact h.others d (.inr hge)
  · have hd' : d < a.now + 1 ∨ a.now + 1 + 2 ^ 31 ≤ d := hd
    rcases Nat.lt_or_ge d a.now with hlt | hge
    · exact h.others d (.inl hlt)
    · rcases hd' with hlt | hge'
      · have heq : d = a.now := by omega
        subst heq
        rw [show ({ a with now := a.now + 1 } : Agenda TimerEvent).due a.now = a.due a.now from rfl, h.current, hnone]
        rfl
      · exact h.others d (.inr (by omega))

theorem keeps_create : Keeps timer_create_timer Agenda.empty where
  placed := by
    have hnil : ∀ s, ∀ node, node ∉ timer_create_timer.list s := fun s node => List.not_mem_nil
    exact ⟨Nat.two_pow_pos 32, fun s node h => absurd h (hnil s node), fun s node h => absurd h (hnil s node),
      fun s node h => absurd h (hnil s node)⟩
  now := rfl
  due _ _ _ := rfl
  others _ _ := rfl

/-! ## Runs -/

variable {es : List (Agenda.Label TimerEvent)}

/-- **The lists do what the agenda does**, -/
theorem Keeps.forward (h : Keeps T a) (hpath : timer.Path T es T') :
    ∃ b, (Agenda.system (2 ^ 31)).Path a es b ∧ Keeps T' b := by
  induction hpath generalizing a with
  | nil T => exact ⟨a, .nil a, h⟩
  | @cons T T₁ T' e es hstep _ ih =>
    cases e with
    | set n event =>
      obtain ⟨hpos, hn, rfl⟩ := hstep
      obtain ⟨b, hb, hkeeps⟩ := ih (h.add hn)
      exact ⟨b, .cons ⟨hpos, hn, rfl⟩ hb, hkeeps⟩
    | fire events =>
      obtain ⟨hne, hevents, rfl⟩ := hstep
      obtain ⟨b, hb, hkeeps⟩ := ih h.fire
      exact ⟨b, .cons ⟨hne, h.current.trans hevents, rfl⟩ hb, hkeeps⟩
    | tick =>
      obtain ⟨hnone, hshift⟩ := hstep
      obtain ⟨T₂, hshift', hnext⟩ := h.tick hnone
      rw [hshift] at hshift'
      obtain rfl := Option.some.inj hshift'
      obtain ⟨b, hb, hkeeps⟩ := ih hnext
      exact ⟨b, .cons ⟨by rw [h.current, hnone]; rfl, rfl⟩ hb, hkeeps⟩

/-- and all that it does. -/
theorem Keeps.backward {b : Agenda TimerEvent} (h : Keeps T a) (hpath : (Agenda.system (2 ^ 31)).Path a es b) :
    ∃ T', timer.Path T es T' ∧ Keeps T' b := by
  induction hpath generalizing T with
  | nil a => exact ⟨T, .nil T, h⟩
  | @cons a a₁ b e es hstep _ ih =>
    cases e with
    | set n event =>
      obtain ⟨hpos, hn, rfl⟩ := hstep
      obtain ⟨T', hT', hkeeps⟩ := ih (h.add hn)
      exact ⟨T', .cons ⟨hpos, hn, rfl⟩ hT', hkeeps⟩
    | fire events =>
      obtain ⟨hne, hevents, rfl⟩ := hstep
      obtain ⟨T', hT', hkeeps⟩ := ih h.fire
      exact ⟨T', .cons ⟨hne, h.current.symm.trans hevents, rfl⟩ hT', hkeeps⟩
    | tick =>
      obtain ⟨hnone, rfl⟩ := hstep
      rw [h.current] at hnone
      have hnone' := List.map_eq_nil_iff.mp hnone
      obtain ⟨T₂, hshift, hnext⟩ := h.tick hnone'
      obtain ⟨T', hT', hkeeps⟩ := ih hnext
      exact ⟨T', .cons ⟨hnone', hshift⟩ hT', hkeeps⟩

/-- **The timer can do what an agenda can do, and nothing else**: no run of its lists
reads past the levels, and none is stuck. -/
theorem timer_runs (es : List (Agenda.Label TimerEvent)) :
    (∃ T, timer.Path timer_create_timer es T) ↔ ∃ a, (Agenda.system (2 ^ 31)).Path Agenda.empty es a := by
  constructor
  · rintro ⟨T, hT⟩
    obtain ⟨a, ha, -⟩ := keeps_create.forward hT
    exact ⟨a, ha⟩
  · rintro ⟨a, ha⟩
    obtain ⟨T, hT, -⟩ := keeps_create.backward ha
    exact ⟨T, hT⟩

/-- **Every timer fires at its tick**, in the order in which those of a tick were set,
and nothing else fires. -/
theorem timer_punctual (h : timer.Path timer_create_timer es T) :
    (∀ d < Agenda.ticks es, Agenda.fired 0 d es = Agenda.asked 0 d es) ∧
      ∀ d, Agenda.fired 0 d es <+: Agenda.asked 0 d es := by
  obtain ⟨a, ha, -⟩ := keeps_create.forward h
  exact Agenda.fired_eq ha

/-- Two timers are set in turn for the same tick. -/
def twice : List (Agenda.Label TimerEvent) :=
  [.set 2 ⟨1, 1⟩, .tick, .set 1 ⟨2, 1⟩, .tick, .fire [⟨1, 1⟩, ⟨2, 1⟩], .tick]

theorem timer_punctual_twice : ∃ T, timer.Path timer_create_timer twice T ∧
    ∀ d < 3, Agenda.fired 0 d twice = Agenda.asked 0 d twice := by
  have hpath : (Agenda.system (2 ^ 31)).Path Agenda.empty twice _ :=
    .cons ⟨by decide, by decide, rfl⟩ (.cons ⟨rfl, rfl⟩ (.cons ⟨by decide, by decide, rfl⟩ (.cons ⟨rfl, rfl⟩
      (.cons ⟨by decide, rfl, rfl⟩ (.cons ⟨rfl, rfl⟩ (.nil _))))))
  obtain ⟨T, hT, -⟩ := keeps_create.backward hpath
  exact ⟨T, hT, (timer_punctual hT).1⟩

end Skynet

end Athena
