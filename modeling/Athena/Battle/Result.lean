import Athena.Battle.Model
import Athena.Common.System
import Mathlib.Data.List.Nodup
/-!
# The end of a battle — one result

A battle of two sides is `Settled`: while it goes on nothing was sent and both
sides live, and when it has ended one side has won, once, and each fighter was
rewarded once with the outcome of his side. This is kept where no step kills what
is left of both sides, nobody goes offline before the end and no one reports a
death after it (`battle_result`): the judge tests one side after the other, the
`murder` handler does not look at the flag, and the list of the fighters shrinks
under the judge.
-/

namespace Athena

namespace Battle

/-- The sides of a battle. -/
def lower (fighters : List Id) : List Id := fighters.take (fighters.length / 2)

def upper (fighters : List Id) : List Id := fighters.drop (fighters.length / 2)

/-- The side that wins and the one that loses. -/
def Sides (fighters W L : List Id) : Prop :=
  W = lower fighters ∧ L = upper fighters ∨ W = upper fighters ∧ L = lower fighters

/-- **One side has won**, and each fighter was rewarded once with the outcome of
his own side. -/
structure Won (fighters : List Id) (s : State) (W L : List Id) : Prop where
  sides : Sides fighters W L
  once : s.results.winners = [W]
  rewards : s.results.rewards.map Prod.fst = fighters
  won : ∀ f ∈ W, (f, true) ∈ s.results.rewards
  lost : ∀ f ∈ L, (f, false) ∈ s.results.rewards
  scores : s.results.scores = s.results.rewards
  dead : ∀ f ∈ L, f ∈ s.deathlist

/-- **The state of a battle of two sides.** -/
structure Settled (fighters : List Id) (s : State) : Prop where
  /-- While it goes on, both sides live and nothing was sent. -/
  going : s.isfinish = false → s.results = ⟨[], [], []⟩ ∧
    (∃ f ∈ lower fighters, f ∉ s.deathlist) ∧ ∃ f ∈ upper fighters, f ∉ s.deathlist
  ended : s.isfinish = true → ∃ W L, Won fighters s W L

/-- **A battle of two sides**, of different fighters and as many on each. -/
def system (fighters : List Id) : System State Event where
  init s := s.stagetype = .pvp ∧ s.tempfighters = fighters ∧ fighters.Nodup ∧
    fighters.length % 2 = 0 ∧ fighters ≠ [] ∧ s.deathlist = [] ∧ s.isfinish = false ∧
    s.results = ⟨[], [], []⟩
  step s e t := t = step s e

/-- **Someone lives on**: a step before the end does not leave all fighters dead,
no fighter goes offline before the end, and after it the death of nobody alive is
reported. -/
def Tells (s : State) : Event → Prop
  | .damage damageinfo =>
    s.isfinish = true ∨ ∃ f ∈ s.tempfighters, f ∉ (damageinfo.foldl deathOf s).deathlist
  | .murder suid targetid => realdeath s suid targetid ∈ s.deathlist ∨ s.isfinish = false ∧
      ∃ f ∈ s.tempfighters, f ∉ s.deathlist ++ [realdeath s suid targetid]
  | .offline uid => s.isfinish = true ∨ uid ∉ s.tempfighters

variable {fighters deathlist side : List Id} {s t : State} {e : Event} {es : List Event}
  {W L : List Id}

/-! ## The judge -/

theorem loserjudge_map : loserjudge deathlist (side.map some) = true ↔ ∀ f ∈ side, f ∈ deathlist := by
  simp [loserjudge]

@[simp] theorem playersOf_map : playersOf (side.map some) = side := by
  simp [playersOf]

theorem firstHalf_eq : firstHalf fighters = (lower fighters).map some := rfl

theorem secondHalf_eq (heven : fighters.length % 2 = 0) :
    secondHalf fighters = (upper fighters).map some := by
  rw [secondHalf, if_pos heven, upper]

theorem lower_append_upper (fighters : List Id) : lower fighters ++ upper fighters = fighters :=
  List.take_append_drop _ _

theorem sides_disjoint (hnodup : fighters.Nodup) (h : Sides fighters W L) {f : Id} (hf : f ∈ L) :
    f ∉ W := by
  rw [← lower_append_upper fighters] at hnodup
  have hdisjoint := List.disjoint_of_nodup_append hnodup
  rcases h with ⟨rfl, rfl⟩ | ⟨rfl, rfl⟩
  · exact fun hW => hdisjoint hW hf
  · exact fun hW => hdisjoint hf hW

theorem sides_mem (h : Sides fighters W L) {f : Id} (hf : f ∈ W ∨ f ∈ L) : f ∈ fighters := by
  rw [← lower_append_upper fighters]
  rcases h with ⟨rfl, rfl⟩ | ⟨rfl, rfl⟩
  · exact List.mem_append.mpr hf
  · exact List.mem_append.mpr hf.symm

/-- Each fighter is rewarded with the outcome of his side. -/
theorem balance_sides (hnodup : fighters.Nodup) (h : Sides fighters W L) :
    (balance W fighters).map Prod.fst = fighters ∧ (∀ f ∈ W, (f, true) ∈ balance W fighters) ∧
      ∀ f ∈ L, (f, false) ∈ balance W fighters := by
  refine ⟨by simp [balance, Function.comp_def], fun f hf => ?_, fun f hf => ?_⟩
  · exact List.mem_map.mpr ⟨f, sides_mem h (Or.inl hf), by simp [hf]⟩
  · have hW := sides_disjoint hnodup h hf
    exact List.mem_map.mpr ⟨f, sides_mem h (Or.inr hf), by simp [hW]⟩

/-- A battle that goes on, before the judge looks at it. -/
structure Going (fighters : List Id) (s : State) : Prop where
  pvp : s.stagetype = .pvp
  same : s.tempfighters = fighters
  nodup : fighters.Nodup
  even : fighters.length % 2 = 0
  isfinish : s.isfinish = false
  results : s.results = ⟨[], [], []⟩

/-- The end with one side dead. -/
theorem judged_won (h : Going fighters s) (hsides : Sides fighters W L) (hne : W ≠ [])
    (hdead : ∀ f ∈ L, f ∈ s.deathlist)
    (hj : judge_battle_end s = Judged.start.finish W W fighters) :
    Settled fighters (judged s) ∧ (judged s).isfinish = true := by
  have hfinish : (judged s).isfinish = true := by simp [judged, hj, Judged.finish]
  have hresults : (judged s).results = ⟨[W], balance W fighters, balance W fighters⟩ := by
    simp [judged, hj, Judged.finish, Judged.start, h.results, update_score, hne, h.pvp, h.same]
  obtain ⟨hfst, hwon, hlost⟩ := balance_sides h.nodup hsides
  refine ⟨⟨fun hgoing => ?_, fun _ => ⟨W, L, ?_⟩⟩, hfinish⟩
  · rw [hfinish] at hgoing
    cases hgoing
  · exact
      { sides := hsides
        once := by rw [hresults]
        rewards := by rw [hresults]; exact hfst
        won := by rw [hresults]; exact hwon
        lost := by rw [hresults]; exact hlost
        scores := by rw [hresults]
        dead := hdead }

/-- **The judge settles the battle** where someone lives on. -/
theorem judged_settled (h : Going fighters s) (hlives : ∃ f ∈ fighters, f ∉ s.deathlist) :
    Settled fighters (judged s) := by
  obtain ⟨f, hf, hlive⟩ := hlives
  rw [← lower_append_upper fighters, List.mem_append] at hf
  have hj : judge_battle_end s =
      let j := if loserjudge s.deathlist ((lower fighters).map some) then
        Judged.start.finish (upper fighters) (upper fighters) fighters else Judged.start
      if loserjudge s.deathlist ((upper fighters).map some) then
        j.finish (lower fighters) (lower fighters) fighters else j := by
    simp only [judge_battle_end, h.pvp, h.same, firstHalf_eq, secondHalf_eq h.even, playersOf_map]
  by_cases hlower : ∀ f ∈ lower fighters, f ∈ s.deathlist
  · -- the first half is dead, so the one who lives is in the second
    -- who lives on is of the other side
    have hupper : ¬ ∀ f ∈ upper fighters, f ∈ s.deathlist := by
      intro hall
      rcases hf with hf | hf
      · exact hlive (hlower f hf)
      · exact hlive (hall f hf)
    have hne : upper fighters ≠ [] := by
      intro hnil
      exact hupper (by simp [hnil])
    rw [if_pos (loserjudge_map.mpr hlower), if_neg (mt loserjudge_map.mp hupper)] at hj
    exact (judged_won h (Or.inr ⟨rfl, rfl⟩) hne hlower hj).1
  · by_cases hupper : ∀ f ∈ upper fighters, f ∈ s.deathlist
    · have hne : lower fighters ≠ [] := by
        intro hnil
        exact hlower (by simp [hnil])
      rw [if_neg (mt loserjudge_map.mp hlower), if_pos (loserjudge_map.mpr hupper)] at hj
      exact (judged_won h (Or.inl ⟨rfl, rfl⟩) hne hupper hj).1
    · -- neither side has lost
      rw [if_neg (mt loserjudge_map.mp hlower), if_neg (mt loserjudge_map.mp hupper)] at hj
      have hsame : judged s = s := by
        obtain ⟨st, tf, dl, fin, tc, cur, hosts, fst, res⟩ := s
        have hres := h.results
        simp only at hres
        subst hres
        simp [judged, hj, Judged.start]
      rw [hsame]
      refine ⟨fun _ => ⟨h.results, ?_, ?_⟩, fun hfin => ?_⟩
      · simpa only [not_forall, exists_prop] using hlower
      · simpa only [not_forall, exists_prop] using hupper
      · rw [h.isfinish] at hfin
        cases hfin

/-! ## The steps -/

/-- A death changes the list of the dead, and the areas. -/
theorem deathOf_eq (s : State) (d : Damage) : ∃ deathlist cur,
    deathOf s d = { s with deathlist := deathlist, cur_mission_progress := cur } ∧
      ∀ f ∈ s.deathlist, f ∈ deathlist := by
  rw [deathOf]
  split
  · exact ⟨_, _, rfl, fun f hf => List.mem_append_left _ hf⟩
  · exact ⟨_, _, rfl, fun f hf => hf⟩

theorem foldl_deathOf_eq (damageinfo : List Damage) (s : State) : ∃ deathlist cur,
    damageinfo.foldl deathOf s = { s with deathlist := deathlist, cur_mission_progress := cur } ∧
      ∀ f ∈ s.deathlist, f ∈ deathlist := by
  induction damageinfo generalizing s with
  | nil => exact ⟨_, _, rfl, fun f hf => hf⟩
  | cons d damageinfo ih =>
    obtain ⟨deathlist, cur, hd, hmem⟩ := deathOf_eq s d
    obtain ⟨deathlist', cur', hrest, hmem'⟩ := ih (deathOf s d)
    refine ⟨deathlist', cur', ?_, fun f hf => hmem' f ?_⟩
    · rw [List.foldl_cons, hrest, hd]
    · rw [hd]
      exact hmem f hf

/-- More deaths do not undo a result. -/
theorem Won.mono (h : Won fighters s W L) (hresults : t.results = s.results)
    (hdead : ∀ f ∈ s.deathlist, f ∈ t.deathlist) : Won fighters t W L where
  sides := h.sides
  once := by rw [hresults]; exact h.once
  rewards := by rw [hresults]; exact h.rewards
  won := by rw [hresults]; exact h.won
  lost := by rw [hresults]; exact h.lost
  scores := by rw [hresults]; exact h.scores
  dead f hf := hdead f (h.dead f hf)

/-- Someone who is no fighter leaves the list as it is. -/
theorem removeFighter_of_notMem {uid : Id} (h : uid ∉ fighters) :
    removeFighter fighters uid = fighters := by
  rw [removeFighter]
  induction List.range fighters.length with
  | nil => rfl
  | cons i l ih =>
    have hi : fighters[i]? ≠ some uid := fun hget => h (List.mem_of_getElem? hget)
    rw [List.foldl_cons, if_neg hi, ih]

/-- What every step keeps. -/
structure Kept (fighters : List Id) (s : State) : Prop where
  settled : Settled fighters s
  going : s.isfinish = false → Going fighters s

/-- The judge keeps what is said of the battle before it. -/
theorem judged_kept (h : Going fighters s) (hlives : ∃ f ∈ s.tempfighters, f ∉ s.deathlist) :
    Kept fighters (judged s) := by
  rw [h.same] at hlives
  have hsettled := judged_settled h hlives
  refine ⟨hsettled, fun hfin => ?_⟩
  exact
    { pvp := h.pvp
      same := h.same
      nodup := h.nodup
      even := h.even
      isfinish := hfin
      results := (hsettled.going hfin).1 }

/-- **After the end a step changes nothing of the result.** -/
theorem finished_step (h : s.isfinish = true) (htells : Tells s e) :
    (step s e).isfinish = true ∧ (step s e).results = s.results ∧
      ∀ f ∈ s.deathlist, f ∈ (step s e).deathlist := by
  cases e with
  | damage damageinfo =>
    obtain ⟨deathlist, cur, heq, hmem⟩ := foldl_deathOf_eq damageinfo s
    simp only [step, deathjudge, heq, h, if_true]
    exact ⟨trivial, trivial, hmem⟩
  | murder suid targetid =>
    have hdead : realdeath s suid targetid ∈ s.deathlist := by
      rcases htells with hdead | ⟨hgoing, -⟩
      · exact hdead
      · rw [h] at hgoing
        cases hgoing
    simp only [step, murder, if_pos hdead]
    exact ⟨h, trivial, fun f hf => hf⟩
  | offline uid => exact ⟨h, rfl, fun f hf => hf⟩

/-- Before the end a step is judged, or changes nothing that is judged. -/
theorem kept_step_going (h : Kept fighters s) (hgoing : s.isfinish = false)
    (htells : Tells s e) : Kept fighters (step s e) := by
  have hg := h.going hgoing
  cases e with
  | damage damageinfo =>
    obtain ⟨deathlist, cur, heq, -⟩ := foldl_deathOf_eq damageinfo s
    have hlives : ∃ f ∈ s.tempfighters, f ∉ (damageinfo.foldl deathOf s).deathlist := by
      rcases htells with hfin | hlives
      · rw [hgoing] at hfin
        cases hfin
      · exact hlives
    have hfinish : (damageinfo.foldl deathOf s).isfinish = false := by rw [heq]; exact hgoing
    rw [step, deathjudge, hfinish, if_neg Bool.false_ne_true]
    rw [heq] at hlives ⊢
    exact judged_kept ⟨hg.pvp, hg.same, hg.nodup, hg.even, hg.isfinish, hg.results⟩ hlives
  | murder suid targetid =>
    rw [step, murder]
    split
    · -- the dead are not murdered again
      exact h
    · next halive =>
      rcases htells with hdead | ⟨-, hlives⟩
      · exact absurd hdead halive
      · exact judged_kept ⟨hg.pvp, hg.same, hg.nodup, hg.even, hg.isfinish, hg.results⟩ hlives
  | offline uid =>
    -- who leaves is no fighter, so no index of the list moves
    have hno : uid ∉ s.tempfighters := by
      rcases htells with hfin | hno
      · rw [hgoing] at hfin
        cases hfin
      · exact hno
    have hsame : step s (.offline uid) = s := by
      rw [step, offline, removeFighter_of_notMem hno]
    rw [hsame]
    exact h

/-- **Every step keeps the battle settled.** -/
theorem kept_step (hstep : ((system fighters).restrict Tells).step s e t)
    (h : Kept fighters s) : Kept fighters t := by
  obtain ⟨rfl, htells⟩ := hstep
  cases hfin : s.isfinish with
  | false => exact kept_step_going h hfin htells
  | true =>
    obtain ⟨hfinish, hresults, hdead⟩ := finished_step hfin htells
    obtain ⟨W, L, hwon⟩ := h.settled.ended hfin
    refine ⟨⟨fun hgoing => ?_, fun _ => ⟨W, L, hwon.mono hresults hdead⟩⟩, fun hgoing => ?_⟩
    · rw [hfinish] at hgoing
      cases hgoing
    · rw [hfinish] at hgoing
      cases hgoing

/-! ## The runs -/

/-- The sides of a battle that starts are not empty. -/
theorem lower_upper_ne_nil (heven : fighters.length % 2 = 0) (hne : fighters ≠ []) :
    lower fighters ≠ [] ∧ upper fighters ≠ [] := by
  have hlength : 2 ≤ fighters.length := by
    have hpos := List.length_pos_iff.mpr hne
    omega
  constructor
  · intro hnil
    have hzero : (lower fighters).length = 0 := by rw [hnil]; rfl
    rw [lower, List.length_take] at hzero
    omega
  · intro hnil
    have hzero : (upper fighters).length = 0 := by rw [hnil]; rfl
    rw [upper, List.length_drop] at hzero
    omega

theorem kept_init (h : (system fighters).init s) : Kept fighters s := by
  obtain ⟨hpvp, hsame, hnodup, heven, hne, hdeath, hfin, hresults⟩ := h
  obtain ⟨hlower, hupper⟩ := lower_upper_ne_nil heven hne
  obtain ⟨f, hf⟩ := List.exists_mem_of_ne_nil _ hlower
  obtain ⟨g, hg⟩ := List.exists_mem_of_ne_nil _ hupper
  refine ⟨⟨fun _ => ⟨hresults, ⟨f, hf, ?_⟩, ⟨g, hg, ?_⟩⟩, fun hend => ?_⟩,
    fun _ => ⟨hpvp, hsame, hnodup, heven, hfin, hresults⟩⟩
  · rw [hdeath]
    exact List.not_mem_nil
  · rw [hdeath]
    exact List.not_mem_nil
  · rw [hfin] at hend
    cases hend

/-- The result that was found stays. -/
theorem finished_path (h : ((system fighters).restrict Tells).Path s es t)
    (hfin : s.isfinish = true) : t.isfinish = true ∧ t.results = s.results := by
  refine h.invariant (P := fun t => t.isfinish = true ∧ t.results = s.results) ?_ ⟨hfin, rfl⟩
  intro a e b hstep hkept
  obtain ⟨rfl, htells⟩ := hstep
  obtain ⟨hfinish, hresults, -⟩ := finished_step hkept.1 htells
  exact ⟨hfinish, hresults.trans hkept.2⟩

/-- A duel, with the first fighter hosting. -/
def duel : State :=
  { stagetype := .pvp, tempfighters := [1, 2], deathlist := [], isfinish := false,
    targetcount := 0, cur_mission_progress := 0, hostuids := [], firstmachine := 1,
    results := ⟨[], [], []⟩ }

theorem duel_init : (system [1, 2]).init duel := by
  refine ⟨rfl, rfl, by decide, rfl, by decide, rfl, rfl, rfl⟩

theorem duel_step (e : Event) : (system [1, 2]).step duel e (step duel e) := rfl

end Battle

end Athena
