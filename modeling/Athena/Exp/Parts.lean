import Athena.Exp.Gain
/-!
# Experience and levels — parts of machines

On a table whose rows all have a total, the loop of `addexp` is that of `updateexp`; what
the player gains meanwhile changes nothing in the part. The cut to 30 is right where no
level beyond is new.
-/

namespace Athena

namespace Exp

variable {player_exp totals : List ℤ} {expinfos : List Expinfo}

/-! ## The table -/

theorem row_map {α β : Type} (f : α → β) (t : List α) (i : ℕ) : row (t.map f) i = (row t i).map f := by
  cases i with
  | zero => rfl
  | succ i => exact List.getElem?_map

/-- A row of the table of parts is one of its totals. -/
theorem row_total (h : expinfos.map Expinfo.EXP_Total = totals.map some) (i : ℕ) :
    (row expinfos i).bind Expinfo.EXP_Total = row totals i := by
  have hmap : (row expinfos i).map Expinfo.EXP_Total = (row totals i).map some := by
    rw [← row_map, ← row_map, h]
  cases hr : row expinfos i with
  | none =>
    rw [hr, Option.map_none, eq_comm, Option.map_eq_none_iff] at hmap
    rw [hmap, Option.bind_none]
  | some expinfo =>
    rw [hr, Option.map_some] at hmap
    obtain ⟨total, ht, heq⟩ := Option.map_eq_some_iff.1 hmap.symm
    rw [ht, Option.bind_some, heq]

/-- **The climb of a part is that over its totals.** -/
theorem climbPart_eq (h : expinfos.map Expinfo.EXP_Total = totals.map some) (curtotal_exp : ℤ) (lv : ℕ) (total : ℤ) :
    climbPart curtotal_exp lv total expinfos = climb curtotal_exp lv total totals := by
  induction expinfos generalizing lv total totals with
  | nil =>
    obtain rfl : totals = [] := List.map_eq_nil_iff.1 h.symm
    rfl
  | cons expinfo expinfos ih =>
    cases totals with
    | nil => simp at h
    | cons next totals =>
      rw [List.map_cons, List.map_cons, List.cons.injEq] at h
      simp only [climbPart, h.1, climb, ih h.2]

/-! ## What the player gains -/

/-- The player's level is one of the table. -/
def Leveled (player_exp : List ℤ) (user : Option Userinfo) : Prop :=
  ∀ u, user = some u → ∃ total, row player_exp u.level = some total

/-- The player has a level before and after. -/
theorem updateexp_ok {user : Option Userinfo} (h : Leveled player_exp user) (exp : ℤ) :
    ∃ ok user', updateexp player_exp user exp = some (ok, user') ∧ Leveled player_exp user' := by
  cases user with
  | none => exact ⟨false, none, rfl, h⟩
  | some u =>
    obtain ⟨total, hrow⟩ := h u rfl
    refine ⟨true, _, updateexp_eq hrow exp, ?_⟩
    rintro u' hu'
    obtain rfl := Option.some_inj.1 hu'
    exact (climbed_row hrow _ _).2

/-- A collection whose levels are in the table is counted. -/
theorem updatecollection_ok (hT : expinfos.map Expinfo.EXP_Total = totals.map some) {oldlv newlv : ℕ}
    (hold : 1 ≤ oldlv) (hle : oldlv ≤ newlv) (hnew : newlv ≤ totals.length) (cfgid : ℤ)
    {user : Option Userinfo} (h : Leveled player_exp user) (partindexs : List PartIndex) :
    ∃ user' partindexs', updatecollection player_exp expinfos oldlv newlv cfgid user partindexs =
      some (user', partindexs') ∧ Leveled player_exp user' := by
  have hlen : expinfos.length = totals.length := by
    simpa using congrArg List.length hT
  induction partindexs with
  | nil => exact ⟨user, [], rfl, h⟩
  | cons p partindexs ih =>
    rw [updatecollection]
    split
    · rename_i hp
      obtain ⟨new, hrow⟩ := exists_row (t := totals) (show 1 ≤ newlv by omega) hnew
      obtain ⟨old, hrow'⟩ := exists_row (t := expinfos) (show 1 ≤ max p.maxlv oldlv by omega) (by omega)
      obtain ⟨ok, user', hu, hleveled⟩ := updateexp_ok h (new - old.EXP_Total.getD 0)
      refine ⟨user', if ok then { p with maxlv := newlv } :: partindexs else p :: partindexs, ?_, hleveled⟩
      simp only [row_total hT, hrow, hrow', hu, Option.bind_eq_bind, Option.bind_some]
      rfl
    · obtain ⟨user', partindexs', hu, hleveled⟩ := ih
      refine ⟨user', p :: partindexs', ?_, hleveled⟩
      simp only [hu, Option.bind_eq_bind, Option.bind_some]
      rfl

/-! ## A gain -/

/-- The part after the loop: a new level is cut to 30. -/
def leveled (perinfo : Perinfo) (c : ℕ × ℤ) : Perinfo :=
  { perinfo with lv := if perinfo.lv = c.1 then perinfo.lv else min maxlv c.1, exp := c.2 }

/-- The row of the part is given what the part has. -/
def Stored (s s' : State) (perinfo p : Perinfo) : Prop :=
  s'.equipment.exp = p.exp ∧ (s.equipment.lv = perinfo.lv → s'.equipment.lv = p.lv)

/-- **`addexp` is the climb of the part.** -/
theorem addexp_eq (hT : expinfos.map Expinfo.EXP_Total = totals.map some) {s : State} {perinfo : Perinfo} {total : ℤ}
    (hrow : row totals perinfo.lv = some total) (hs : Leveled player_exp s.user) (exp : ℤ) :
    let c := climbed totals (total + (perinfo.exp + exp)) perinfo.lv total (perinfo.exp + exp)
    ∃ s', addexp player_exp expinfos s perinfo exp = some (leveled perinfo c, s') ∧
      Leveled player_exp s'.user ∧ Stored s s' perinfo (leveled perinfo c) := by
  intro c
  obtain ⟨hle, t, hrow'⟩ : perinfo.lv ≤ c.1 ∧ ∃ t, row totals c.1 = some t := climbed_row hrow _ _
  obtain ⟨hlow, -⟩ := row_eq_some hrow
  obtain ⟨-, hhigh⟩ := row_eq_some hrow'
  have hlen : expinfos.length = totals.length := by
    simpa using congrArg List.length hT
  have hdrop : (expinfos.drop perinfo.lv).map Expinfo.EXP_Total = (totals.drop perinfo.lv).map some := by
    rw [List.map_drop, hT, List.map_drop]
  obtain ⟨user', partindexs', hu, hleveled⟩ :=
    updatecollection_ok hT hlow hle hhigh perinfo.cfgid hs s.partindexs
  have hc : (climbPart (total + (perinfo.exp + exp)) perinfo.lv total (expinfos.drop perinfo.lv)).getD
      (perinfo.lv, perinfo.exp + exp) = c := by
    rw [climbPart_eq hdrop]
    rfl
  by_cases hlv : perinfo.lv = c.1
  · refine ⟨⟨user', partindexs', { s.equipment with exp := c.2 }⟩, ?_, hleveled, rfl, fun h => ?_⟩
    · simp only [addexp, row_total hT, hrow, Option.bind_eq_bind, Option.bind_some, hc, hu]
      rw [if_neg (not_not.2 hlv), leveled, if_pos hlv]
      rfl
    · rw [leveled, if_pos hlv, ← h]
  · obtain ⟨expinfo, hexpinfo⟩ := exists_row (t := expinfos) (i := min maxlv c.1)
      (by simp only [maxlv]; omega) (by omega)
    refine ⟨⟨user', partindexs', { s.equipment with lv := min maxlv c.1, volume := expinfo.Mod_Volume, exp := c.2 }⟩,
      ?_, hleveled, rfl, fun _ => ?_⟩
    · simp only [addexp, row_total hT, hrow, Option.bind_eq_bind, Option.bind_some, hc, hu, hexpinfo]
      rw [if_pos hlv, leveled, if_neg hlv]
      rfl
    · rw [leveled, if_neg hlv]

/-- **A gain of a part is right**: it gives the only level and experience for the total,
which are stored, and those of its two parts, however it is split. -/
structure PartGains (player_exp : List ℤ) (expinfos : List Expinfo) (totals : List ℤ) (s : State)
    (perinfo : Perinfo) (total exp : ℤ) : Prop where
  level : ∃ p s', addexp player_exp expinfos s perinfo exp = some (p, s') ∧ Stored s s' perinfo p ∧
    ∀ l e, Level totals (total + (perinfo.exp + exp)) l e ↔ l = p.lv ∧ e = p.exp
  adds : ∀ a b, 0 ≤ a → 0 ≤ b → a + b = exp →
    ∃ p₁ s₁ p s₂ s', addexp player_exp expinfos s perinfo a = some (p₁, s₁) ∧
      addexp player_exp expinfos s₁ p₁ b = some (p, s₂) ∧
      addexp player_exp expinfos s perinfo exp = some (p, s')

/-- No level beyond 30 is new. -/
def Uncut (totals : List ℤ) (curtotal_exp : ℤ) (lv : ℕ) : Prop :=
  ∀ l total, maxlv < l → lv < l → row totals l = some total → curtotal_exp < total

/-- Less is not cut either. -/
theorem Uncut.mono {lv lv' : ℕ} {cur cur' : ℤ} (h : Uncut totals cur lv) (hle : cur' ≤ cur) (hlv : lv ≤ lv') :
    Uncut totals cur' lv' :=
  fun l total hl hl' hrow => lt_of_le_of_lt hle (h l total hl (by omega) hrow)

/-- Then nothing is cut. -/
theorem Uncut.leveled_lv {perinfo : Perinfo} {c : ℕ × ℤ} {cur : ℤ} (h : Uncut totals cur perinfo.lv)
    (hc : Level totals cur c.1 c.2) (hle : perinfo.lv ≤ c.1) :
    leveled perinfo c = { perinfo with lv := c.1, exp := c.2 } := by
  obtain ⟨t, ht, hreached, -⟩ := hc.reached
  unfold leveled
  split
  · rename_i heq
    rw [heq]
  · have hmax : c.1 ≤ maxlv := by
      by_contra hmax
      have := h c.1 t (by omega) (by omega) ht
      omega
    rw [min_eq_right hmax]

/-- **A part gains what is added** exactly where it is not cut. -/
theorem partGains_iff (hT : totals.Pairwise (· < ·)) (hrows : expinfos.map Expinfo.EXP_Total = totals.map some)
    {s : State} {perinfo : Perinfo} {total exp : ℤ} (hrow : row totals perinfo.lv = some total)
    (hexp : 0 ≤ perinfo.exp) (hgain : 0 ≤ exp) (hs : Leveled player_exp s.user) :
    PartGains player_exp expinfos totals s perinfo total exp ↔
      Short totals (total + (perinfo.exp + exp)) perinfo.lv ∧
        Uncut totals (total + (perinfo.exp + exp)) perinfo.lv := by
  have hlevel := climbed_iff hT hrow (show 0 ≤ perinfo.exp + exp by omega) rfl
  obtain ⟨s', hadd, -, hstored⟩ := addexp_eq hrows hrow hs exp
  have hle := (climbed_row hrow (total + (perinfo.exp + exp)) (perinfo.exp + exp)).1
  constructor
  · rintro ⟨⟨p, s'', hp, -, huniq⟩, -⟩
    rw [hadd, Option.some_inj, Prod.mk.injEq] at hp
    have hlv := (huniq p.lv p.exp).2 ⟨rfl, rfl⟩
    rw [← hp.1] at hlv
    have hshort : Short totals (total + (perinfo.exp + exp)) perinfo.lv := by
      by_cases hsame : perinfo.lv = (climbed totals (total + (perinfo.exp + exp)) perinfo.lv total (perinfo.exp + exp)).1
      · rw [leveled, if_pos hsame] at hlv
        refine hlevel.1 ?_
        rw [← hsame]
        exact hlv
      · exact short_of_climbed hT hrow (Ne.symm hsame)
    refine ⟨hshort, fun l t hmax hl ht => ?_⟩
    by_contra hreached
    have hgreat := hlv.greatest l t ht (not_lt.1 hreached)
    simp only [leveled] at hgreat
    split at hgreat <;> omega
  · rintro ⟨hshort, huncut⟩
    have hc := hlevel.2 hshort
    have hp := huncut.leveled_lv hc hle
    refine ⟨⟨_, s', hadd, hstored, fun l e => ?_⟩, ?_⟩
    · rw [hp]
      refine ⟨fun h => h.unique hc, ?_⟩
      rintro ⟨rfl, rfl⟩
      exact hc
    · rintro a b ha hb rfl
      obtain ⟨total', hrow', hpos, hle', hsum, hsame⟩ := climbed_add hT hrow hexp ha hb hshort
      obtain ⟨s₁, hadd₁, hs₁, -⟩ := addexp_eq hrows hrow hs a
      have hfirst := (climbed_iff hT hrow (show 0 ≤ perinfo.exp + a by omega) rfl).2
        (hshort.mono (by omega) le_rfl (row_eq_some hrow).2)
      rw [(huncut.mono (by omega) le_rfl).leveled_lv hfirst hle'] at hadd₁
      have hrow₁ : row totals ({ perinfo with
          lv := (climbed totals (total + (perinfo.exp + a)) perinfo.lv total (perinfo.exp + a)).1
          exp := (climbed totals (total + (perinfo.exp + a)) perinfo.lv total (perinfo.exp + a)).2 } : Perinfo).lv =
          some total' := hrow'
      obtain ⟨s₂, hadd₂, -⟩ := addexp_eq hrows hrow₁ hs₁ b
      refine ⟨_, s₁, _, s₂, s', hadd₁, hadd₂, ?_⟩
      rw [hadd, hp]
      have hsecond := hsame ▸ hc
      rw [(huncut.mono (by omega) hle').leveled_lv hsecond (climbed_row hrow' _ _).1, hsame]

/-- **Gains are right exactly where they are short, and for parts where no level beyond 30
is new.** -/
theorem gains_iff {totals : List ℤ} (hT : totals.Pairwise (· < ·)) {exp : ℤ} (hgain : 0 ≤ exp) :
    (∀ userinfo total, row totals userinfo.level = some total → 0 ≤ userinfo.exp →
      (UserGains totals userinfo total exp ↔ Short totals (total + (userinfo.exp + exp)) userinfo.level)) ∧
    ∀ player_exp expinfos s perinfo total, expinfos.map Expinfo.EXP_Total = totals.map some →
      Leveled player_exp s.user → row totals perinfo.lv = some total → 0 ≤ perinfo.exp →
      (PartGains player_exp expinfos totals s perinfo total exp ↔
        Short totals (total + (perinfo.exp + exp)) perinfo.lv ∧
          Uncut totals (total + (perinfo.exp + exp)) perinfo.lv) :=
  ⟨fun _ _ hrow hexp => userGains_iff hT hrow hexp hgain,
    fun _ _ _ _ _ hrows hs hrow hexp => partGains_iff hT hrows hrow hexp hgain hs⟩

/-- From the first level to the second of three. -/
theorem gains_second : UserGains [0, 10, 30] ⟨1, 0⟩ 0 25 ∧
    PartGains [0] [⟨some 0, 2⟩, ⟨some 10, 4⟩, ⟨some 30, 6⟩] [0, 10, 30] ⟨none, [], ⟨1, 1, 0, 2⟩⟩ ⟨1, 1, 0, 2⟩ 0 25 := by
  have hshort : Short [0, 10, 30] 25 1 := by
    refine .inr fun last hlast => ?_
    obtain rfl : 30 = last := Option.some_inj.1 hlast
    decide
  refine ⟨((gains_iff (by decide) (by decide)).1 ⟨1, 0⟩ 0 rfl le_rfl).2 hshort,
    ((gains_iff (by decide) (by decide)).2 [0] _ _ _ 0 rfl (fun u hu => by cases hu) rfl le_rfl).2
      ⟨hshort, fun l t hl _ ht => ?_⟩⟩
  have := (row_eq_some ht).2
  simp only [maxlv, List.length_cons, List.length_nil] at hl this
  omega

/-- A gain that reaches the last level just so. -/
theorem not_gains_last : ¬UserGains [0, 10] ⟨1, 0⟩ 0 10 := by
  rintro ⟨⟨u, hu, huniq⟩, -⟩
  obtain rfl : (⟨1, 10⟩ : Userinfo) = u := by
    have h := (Prod.mk.injEq .. ▸ Option.some_inj.1 hu).2
    exact Option.some_inj.1 h
  have hlast : Level [0, 10] (0 + (0 + 10)) 2 0 :=
    ⟨⟨10, rfl, by decide, by decide⟩, fun l t ht _ => (row_eq_some ht).2⟩
  exact absurd ((huniq 2 0).1 hlast).1 (by decide)

end Exp

end Athena
