import Mathlib.Data.Int.Order.Basic
import Mathlib.Data.List.Basic
import Mathlib.Tactic.Linarith
/-!
# Experience and levels — model

`updateexp` of `game/user/user.lua` for a player, and `addexp` of
`game/warehouse/warehouse.lua` for a part of a machine, with `updatecollection`, by which
the player gains from the levels of a part. The tables `player_exp` and `machine_exp` have
a row for each level; of the first the totals are kept.
-/

namespace Athena

namespace Exp

/-- `t[i]`. -/
def row {α : Type} (t : List α) (i : ℕ) : Option α :=
  match i with
  | 0 => none
  | i + 1 => t[i]?

/-! ## Players -/

/-- The fields of a row of `user_dc` that are read. -/
structure Userinfo where
  level : ℕ
  exp : ℤ
  deriving DecidableEq

/-- The loop of `updateexp`: `total` is the total of the level `level` and `totals` are
those of the levels after it. -/
def climb (curtotal_exp : ℤ) : ℕ → ℤ → List ℤ → Option (ℕ × ℤ)
  | _, _, [] => none
  | level, total, next :: totals =>
    if curtotal_exp < next then some (level, curtotal_exp - total)
    else climb curtotal_exp (level + 1) next totals

/-- **`updateexp`**, which raises for a level that is not in the table. The total is exact:
with what is gained it is in the 64-bit range. -/
def updateexp (expinfos : List ℤ) (userinfo : Option Userinfo) (exp : ℤ) : Option (Bool × Option Userinfo) :=
  match userinfo with
  | none => some (false, none)
  | some userinfo => do
    let total ← row expinfos userinfo.level
    let curexp := userinfo.exp + exp
    let curtotal_exp := total + curexp
    match climb curtotal_exp userinfo.level total (expinfos.drop userinfo.level) with
    | none => pure (true, some ⟨userinfo.level, curexp⟩)
    | some (level, exp) => pure (true, some ⟨level, exp⟩)

/-! ## Parts of machines -/

/-- A row of `machine_exp`. -/
structure Expinfo where
  EXP_Total : Option ℤ
  Mod_Volume : ℤ

/-- A part, as far as its level goes. -/
structure Perinfo where
  cfgid : ℤ
  lv : ℕ
  exp : ℤ
  volume : ℤ
  deriving DecidableEq

/-- An entry of the collection. -/
structure PartIndex where
  cfgid : ℤ
  maxlv : ℕ
  deriving DecidableEq

/-- **What the services hold**: the player's row, the collection of the part's kind, and
the part's row. -/
structure State where
  user : Option Userinfo
  partindexs : List PartIndex
  equipment : Perinfo
  deriving DecidableEq

/-- **`updatecollection`**: the player gains what the part's levels are worth above the
highest of its kind. For no part is it a third of that: the key is never `weapons`. -/
def updatecollection (player_exp : List ℤ) (expinfos : List Expinfo) (oldlv newlv : ℕ) (cfgid : ℤ)
    (user : Option Userinfo) : List PartIndex → Option (Option Userinfo × List PartIndex)
  | [] => some (user, [])
  | p :: partindexs =>
    if p.cfgid = cfgid ∧ p.maxlv < newlv then do
      let new ← (row expinfos newlv).bind Expinfo.EXP_Total
      let old ← row expinfos (max p.maxlv oldlv)
      let (ok, user) ← updateexp player_exp user (new - old.EXP_Total.getD 0)
      pure (user, if ok then { p with maxlv := newlv } :: partindexs else p :: partindexs)
    else do
      let (user, partindexs) ← updatecollection player_exp expinfos oldlv newlv cfgid user partindexs
      pure (user, p :: partindexs)

/-- The loop of `addexp`, which a row without a total ends. -/
def climbPart (curtotal_exp : ℤ) : ℕ → ℤ → List Expinfo → Option (ℕ × ℤ)
  | _, _, [] => none
  | lv, total, expinfo :: expinfos =>
    match expinfo.EXP_Total with
    | none => none
    | some next =>
      if curtotal_exp < next then some (lv, curtotal_exp - total)
      else climbPart curtotal_exp (lv + 1) next expinfos

/-- 【注意 装备最高等级30级】 -/
def maxlv : ℕ := 30

/-- **`addexp`**: the part it answers, and what the services hold then. It raises for a
level that is not in the table. -/
def addexp (player_exp : List ℤ) (expinfos : List Expinfo) (s : State) (perinfo : Perinfo) (exp : ℤ) :
    Option (Perinfo × State) := do
  let total ← (row expinfos perinfo.lv).bind Expinfo.EXP_Total
  let curtotal_exp := total + (perinfo.exp + exp)
  let (curlv, curexp) :=
    (climbPart curtotal_exp perinfo.lv total (expinfos.drop perinfo.lv)).getD (perinfo.lv, perinfo.exp + exp)
  let (user, partindexs) ←
    updatecollection player_exp expinfos perinfo.lv curlv perinfo.cfgid s.user s.partindexs
  if perinfo.lv ≠ curlv then do
    let lv := min maxlv curlv
    let expinfo ← row expinfos lv
    let equipment := { s.equipment with lv := lv, volume := expinfo.Mod_Volume, exp := curexp }
    pure ({ perinfo with exp := curexp, lv := lv }, ⟨user, partindexs, equipment⟩)
  else pure ({ perinfo with exp := curexp }, ⟨user, partindexs, { s.equipment with exp := curexp }⟩)

end Exp

/-!
## Experience and levels — what a gain comes to

Both loops look for the first level whose total is above the experience, and take the one
before it. Where no total is above they keep the level, whatever it is: a gain that goes
past the total of the last level ends there only if it began there. The level of a part
is cut to 30 beyond that.
-/

namespace Exp

/-- **The level for a total**: the greatest whose own total is not above it, with what is
left of it as experience. -/
structure Level (totals : List ℤ) (curtotal_exp : ℤ) (level : ℕ) (exp : ℤ) : Prop where
  reached : ∃ total, row totals level = some total ∧ total ≤ curtotal_exp ∧ total + exp = curtotal_exp
  greatest : ∀ l total, row totals l = some total → total ≤ curtotal_exp → l ≤ level

variable {totals : List ℤ} {curtotal_exp : ℤ}

/-- **There is one level for a total.** -/
theorem Level.unique {l l' : ℕ} {exp exp' : ℤ} (h : Level totals curtotal_exp l exp)
    (h' : Level totals curtotal_exp l' exp') : l = l' ∧ exp = exp' := by
  obtain ⟨t, ht, hle, hsum⟩ := h.reached
  obtain ⟨t', ht', hle', hsum'⟩ := h'.reached
  have hl : l = l' := le_antisymm (h'.greatest l t ht hle) (h.greatest l' t' ht' hle')
  subst hl
  obtain rfl : t = t' := Option.some_inj.1 (ht.symm.trans ht')
  exact ⟨rfl, by omega⟩

/-! ## The rows -/

/-- A row has its place in the table. -/
theorem row_eq_some {α : Type} {t : List α} {i : ℕ} {a : α} (h : row t i = some a) : 1 ≤ i ∧ i ≤ t.length := by
  cases i with
  | zero => cases h
  | succ i =>
    have := (List.getElem?_eq_some_iff.1 h).1
    omega

theorem exists_row {α : Type} {t : List α} {i : ℕ} (h : 1 ≤ i) (h' : i ≤ t.length) : ∃ a, row t i = some a := by
  obtain ⟨i, rfl⟩ := Nat.exists_eq_add_of_le' h
  exact ⟨_, List.getElem?_eq_getElem h'⟩

/-- Totals grow with the level. -/
theorem row_lt (hT : totals.Pairwise (· < ·)) {i j : ℕ} {a b : ℤ} (hi : row totals i = some a)
    (hj : row totals j = some b) (hij : i < j) : a < b := by
  cases i with
  | zero => cases hi
  | succ i =>
    cases j with
    | zero => cases hj
    | succ j =>
      obtain ⟨hi', rfl⟩ := List.getElem?_eq_some_iff.1 hi
      obtain ⟨hj', rfl⟩ := List.getElem?_eq_some_iff.1 hj
      exact List.pairwise_iff_getElem.1 hT i j hi' hj' (by omega)

theorem row_le (hT : totals.Pairwise (· < ·)) {i j : ℕ} {a b : ℤ} (hi : row totals i = some a)
    (hj : row totals j = some b) (hij : i ≤ j) : a ≤ b := by
  rcases Nat.eq_or_lt_of_le hij with rfl | hlt
  · exact (Option.some_inj.1 (hi.symm.trans hj)).le
  · exact (row_lt hT hi hj hlt).le

/-! ## The loop -/

/-- What it finds is a level of the table, from `level` on. -/
theorem climb_row {level : ℕ} {total : ℤ} {p : ℕ × ℤ} (hrow : row totals level = some total)
    (h : climb curtotal_exp level total (totals.drop level) = some p) :
    level ≤ p.1 ∧ ∃ t next, row totals p.1 = some t ∧ row totals (p.1 + 1) = some next ∧
      curtotal_exp < next ∧ t + p.2 = curtotal_exp ∧ (total ≤ curtotal_exp → t ≤ curtotal_exp) := by
  generalize hrest : totals.drop level = rest at h
  induction rest generalizing level total with
  | nil => cases h
  | cons next rest ih =>
    have hnext : row totals (level + 1) = some next := by
      have := congrArg (·[0]?) hrest
      simpa [row] using this
    have hdrop : totals.drop (level + 1) = rest := by
      rw [← List.drop_drop, hrest, List.drop_one, List.tail_cons]
    rw [climb] at h
    split at h
    · obtain rfl := Option.some_inj.1 h
      exact ⟨le_rfl, total, next, hrow, hnext, ‹_›, by dsimp only; omega, id⟩
    · obtain ⟨hle, t, next', ht, hnext', hlt, hsum, hreached⟩ := ih hnext hdrop h
      exact ⟨by omega, t, next', ht, hnext', hlt, hsum, fun _ => hreached (by omega)⟩

/-- The last total is behind every level but its own. -/
theorem last_mem_drop {level : ℕ} {last : ℤ} (hlast : row totals totals.length = some last)
    (h : level < totals.length) : last ∈ totals.drop level := by
  obtain ⟨n, hn⟩ : ∃ n, totals.length = n + 1 := ⟨totals.length - 1, by omega⟩
  rw [hn] at hlast
  refine List.mem_iff_getElem?.2 ⟨n - level, ?_⟩
  rw [List.getElem?_drop, show level + (n - level) = n by omega]
  exact hlast

/-- Where it finds nothing, no total after `level` is above. -/
theorem climb_eq_none {level : ℕ} {total : ℤ} {rest : List ℤ} (h : climb curtotal_exp level total rest = none) :
    ∀ t ∈ rest, t ≤ curtotal_exp := by
  induction rest generalizing level total with
  | nil => simp
  | cons next rest ih =>
    rw [climb] at h
    split at h
    · cases h
    · rw [List.forall_mem_cons]
      exact ⟨by omega, ih h⟩

/-- The level and the experience after the loop. -/
def climbed (totals : List ℤ) (curtotal_exp : ℤ) (level : ℕ) (total exp : ℤ) : ℕ × ℤ :=
  (climb curtotal_exp level total (totals.drop level)).getD (level, exp)

/-- The climb ends at a row, not below where it began. -/
theorem climbed_row {level : ℕ} {total : ℤ} (hrow : row totals level = some total) (curtotal_exp exp : ℤ) :
    level ≤ (climbed totals curtotal_exp level total exp).1 ∧
      ∃ t, row totals (climbed totals curtotal_exp level total exp).1 = some t := by
  unfold climbed
  cases h : climb curtotal_exp level total (totals.drop level) with
  | none => exact ⟨le_rfl, total, hrow⟩
  | some p =>
    obtain ⟨hle, t, -, ht, -⟩ := climb_row hrow h
    exact ⟨hle, t, ht⟩

/-- **A gain ends below the total of the last level**, or it began at that level. -/
def Short (totals : List ℤ) (curtotal_exp : ℤ) (level : ℕ) : Prop :=
  level = totals.length ∨ ∀ last, row totals totals.length = some last → curtotal_exp < last

/-- A climb that ends before the table does is short of its end. -/
theorem short_of_climb (hT : totals.Pairwise (· < ·)) {level : ℕ} {total : ℤ} {p : ℕ × ℤ}
    (hrow : row totals level = some total)
    (h : climb curtotal_exp level total (totals.drop level) = some p) : Short totals curtotal_exp level := by
  obtain ⟨-, t, next, -, hnext, hlt, -⟩ := climb_row hrow h
  refine .inr fun last hlast => ?_
  have := row_le hT hnext hlast (row_eq_some hnext).2
  omega

/-- A gain that changes the level is short. -/
theorem short_of_climbed (hT : totals.Pairwise (· < ·)) {level : ℕ} {total exp : ℤ}
    (hrow : row totals level = some total)
    (h : (climbed totals curtotal_exp level total exp).1 ≠ level) : Short totals curtotal_exp level := by
  unfold climbed at h
  cases hclimb : climb curtotal_exp level total (totals.drop level) with
  | none =>
    rw [hclimb] at h
    exact absurd rfl h
  | some p => exact short_of_climb hT hrow hclimb

/-- **The loop finds the level for the total exactly for a gain that is short.** -/
theorem climbed_iff (hT : totals.Pairwise (· < ·)) {level : ℕ} {total exp : ℤ}
    (hrow : row totals level = some total) (hexp : 0 ≤ exp) (hcur : total + exp = curtotal_exp) :
    Level totals curtotal_exp (climbed totals curtotal_exp level total exp).1
      (climbed totals curtotal_exp level total exp).2 ↔ Short totals curtotal_exp level := by
  obtain ⟨hlow, hlen⟩ := row_eq_some hrow
  obtain ⟨last, hlast⟩ := exists_row (show 1 ≤ totals.length by omega) le_rfl
  unfold climbed
  cases h : climb curtotal_exp level total (totals.drop level) with
  | none =>
    rw [Option.getD_none]
    by_cases heq : level = totals.length
    · refine iff_of_true ⟨⟨total, hrow, by omega, hcur⟩, fun l t ht _ => ?_⟩ (.inl heq)
      have := (row_eq_some ht).2
      dsimp only
      omega
    · -- The last total is not above, and the level stays before it.
      have hle := climb_eq_none h last (last_mem_drop hlast (by omega))
      refine iff_of_false (fun hlevel => ?_) ?_
      · have := hlevel.greatest _ last hlast hle
        dsimp only at this
        omega
      · rintro (h' | hshort)
        · exact heq h'
        · have := hshort last hlast
          omega
  | some p =>
    obtain ⟨-, t, next, ht, hnext, hlt, hsum, hreached⟩ := climb_row hrow h
    rw [Option.getD_some]
    refine iff_of_true ⟨⟨t, ht, hreached (by omega), hsum⟩, fun l t' ht' hle' => ?_⟩ (short_of_climb hT hrow h)
    by_contra hl
    have := row_le hT hnext ht' (by omega)
    omega

/-- Less falls short too. -/
theorem Short.mono {level level' : ℕ} {cur cur' : ℤ} (h : Short totals cur level) (hle : cur' ≤ cur)
    (hl : level ≤ level') (hlen : level' ≤ totals.length) : Short totals cur' level' := by
  rcases h with h | h
  · exact .inl (by omega)
  · exact .inr fun last hlast => lt_of_le_of_lt hle (h last hlast)

/-- **A short gain may be taken in two parts.** -/
theorem climbed_add (hT : totals.Pairwise (· < ·)) {level : ℕ} {total exp a b : ℤ}
    (hrow : row totals level = some total) (hexp : 0 ≤ exp) (ha : 0 ≤ a) (hb : 0 ≤ b)
    (hshort : Short totals (total + (exp + (a + b))) level) :
    let c := climbed totals (total + (exp + a)) level total (exp + a)
    ∃ total', row totals c.1 = some total' ∧ 0 ≤ c.2 ∧ level ≤ c.1 ∧ total' + c.2 = total + (exp + a) ∧
      climbed totals (total' + (c.2 + b)) c.1 total' (c.2 + b) =
        climbed totals (total + (exp + (a + b))) level total (exp + (a + b)) := by
  intro c
  obtain ⟨hle, total', hrow'⟩ := climbed_row hrow (total + (exp + a)) (exp + a)
  have hlen := (row_eq_some hrow').2
  have hfirst := (climbed_iff hT hrow (show 0 ≤ exp + a by omega) rfl).2
    (hshort.mono (by omega) le_rfl (row_eq_some hrow).2)
  obtain ⟨t, ht, hreached, hsum⟩ := hfirst.reached
  obtain rfl : total' = t := Option.some_inj.1 (hrow'.symm.trans ht)
  have hpos : 0 ≤ c.2 := by
    show 0 ≤ (climbed totals (total + (exp + a)) level total (exp + a)).2
    omega
  refine ⟨total', hrow', hpos, hle, hsum, ?_⟩
  have hcur : total' + (c.2 + b) = total + (exp + (a + b)) := by
    show total' + ((climbed totals (total + (exp + a)) level total (exp + a)).2 + b) = _
    omega
  rw [hcur]
  have hsecond := (climbed_iff hT hrow' (show 0 ≤ c.2 + b by omega) hcur).2 (hshort.mono le_rfl hle hlen)
  have hboth := (climbed_iff hT hrow (show 0 ≤ exp + (a + b) by omega) rfl).2 hshort
  exact Prod.ext (hsecond.unique hboth).1 (hsecond.unique hboth).2

/-! ## Players -/

/-- **`updateexp` is the climb.** -/
theorem updateexp_eq {userinfo : Userinfo} {total : ℤ} (hrow : row totals userinfo.level = some total) (exp : ℤ) :
    let c := climbed totals (total + (userinfo.exp + exp)) userinfo.level total (userinfo.exp + exp)
    updateexp totals (some userinfo) exp = some (true, some ⟨c.1, c.2⟩) := by
  simp only [updateexp, hrow, Option.bind_eq_bind, Option.bind_some, climbed]
  cases climb _ _ _ _ <;> rfl

/-- **A gain of a player is right**: it gives the only level and experience for the total,
and those of its two parts, however it is split. -/
structure UserGains (totals : List ℤ) (userinfo : Userinfo) (total exp : ℤ) : Prop where
  level : ∃ u, updateexp totals (some userinfo) exp = some (true, some u) ∧
    ∀ l e, Level totals (total + (userinfo.exp + exp)) l e ↔ l = u.level ∧ e = u.exp
  adds : ∀ a b, 0 ≤ a → 0 ≤ b → a + b = exp →
    ∃ u₁ u, updateexp totals (some userinfo) a = some (true, some u₁) ∧
      updateexp totals (some u₁) b = some (true, some u) ∧
      updateexp totals (some userinfo) exp = some (true, some u)

/-- **A player gains what is added** exactly where it is short of the last level. -/
theorem userGains_iff (hT : totals.Pairwise (· < ·)) {userinfo : Userinfo} {total exp : ℤ}
    (hrow : row totals userinfo.level = some total) (hexp : 0 ≤ userinfo.exp) (hgain : 0 ≤ exp) :
    UserGains totals userinfo total exp ↔ Short totals (total + (userinfo.exp + exp)) userinfo.level := by
  have hlevel := climbed_iff hT hrow (show 0 ≤ userinfo.exp + exp by omega) rfl
  constructor
  · rintro ⟨⟨u, hu, huniq⟩, -⟩
    rw [updateexp_eq hrow, Option.some_inj, Prod.mk.injEq, Option.some_inj] at hu
    rw [← hlevel, huniq, ← hu.2]
    exact ⟨rfl, rfl⟩
  · intro hshort
    refine ⟨⟨_, updateexp_eq hrow exp, fun l e => ⟨fun h => h.unique (hlevel.2 hshort), ?_⟩⟩, ?_⟩
    · rintro ⟨rfl, rfl⟩
      exact hlevel.2 hshort
    · rintro a b ha hb rfl
      obtain ⟨total', hrow', -, -, -, hadd⟩ := climbed_add hT hrow hexp ha hb hshort
      refine ⟨_, _, updateexp_eq hrow a, updateexp_eq hrow' b, ?_⟩
      rw [updateexp_eq hrow]
      dsimp only
      rw [hadd]

end Exp

end Athena
