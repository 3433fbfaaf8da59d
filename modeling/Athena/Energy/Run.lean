import Athena.Energy.Bounds
/-!
# The energy of the fighters — every run

What each message leaves of an energy where its number is refused or is not above it,
and from that the bounds over every run.
-/

namespace Athena

namespace Energy

open Lua (Number)

variable {cfg : Battle} {s t u : State} {uid : Id} {a b : Attribute} {e d n : Int64}

/-! ## The numbers that are taken -/

theorem max_zero (d : Int64) :
    Number.max (.int 0) (.int d) = .int (if 0 < d.toInt then d else 0) := by
  have hzero : (0 : Int64).toInt = 0 := rfl
  rw [Number.max, Number.lt_int, hzero]
  by_cases hd : 0 < d.toInt
  · simp [hd]
  · simp [hd]

/-- A reported number that is not above the energy. -/
theorem between_max (h0 : 0 ≤ e.toInt) (hd : d.toInt ≤ e.toInt) :
    Between (Number.max (.int 0) (.int d)) 0 e.toInt := by
  rw [max_zero]
  refine ⟨_, rfl, ?_⟩
  split
  · omega
  · exact ⟨le_refl _, h0⟩

theorem min_int (n d : Int64) :
    Number.min (.int n) (.int d) = .int (if d.toInt < n.toInt then d else n) := by
  rw [Number.min, Number.lt_int]
  by_cases h : d.toInt < n.toInt
  · simp [h]
  · simp [h]

theorem far_nan (x : Number) (k : Int64) : far .nan x k = false := by
  cases x with
  | int i => rfl
  | flt q => rfl
  | inf neg => rfl
  | nan => rfl

/-- How far two numbers are apart, of which the first is not above. -/
theorem far_int (hn : 0 ≤ n.toInt) (h : n.toInt ≤ d.toInt) (k : Int64) :
    far (.int n) (.int d) k = decide (k.toInt < d.toInt - n.toInt) ∧
      far (.int d) (.int n) k = decide (k.toInt < d.toInt - n.toInt) := by
  have hd := Int64.toInt_lt d
  have hzero : (0 : Int64).toInt = 0 := rfl
  have hdown : (n - d).toInt = n.toInt - d.toInt := Number.toInt_sub (by omega) (by omega)
  have hup : (d - n).toInt = d.toInt - n.toInt := Number.toInt_sub (by omega) (by omega)
  have hback : (-(n - d)).toInt = d.toInt - n.toInt := by
    rw [show -(n - d) = d - n by simp, hup]
  simp only [far, Number.sub_int, Number.abs, Number.lt_int, Int64.lt_iff_toInt_lt, hzero, hdown, hup]
  constructor
  · split
    · rw [hback]
    · rw [hdown]
      exact decide_eq_decide.mpr (by omega)
  · rw [if_neg (by omega), hup]

/-! ## The conditions -/

/-- The cost of a shot or a spell can be paid: it is not negative, or what is left is
cut off below what there was. -/
def Payable (cfg : Battle) (uid : Id) (a : Attribute) (consume : Int64) : Prop :=
  0 ≤ (cfg.getenergy uid).toInt ∧
    ((Number.int 0).le (addval cfg uid consume) = true ∨
      addval cfg uid consume ≠ .nan ∧ (Number.int (cfg.getenergy uid)).le a.energy = true)

/-- **Where a message keeps the bounds**, for the fighter it is about. -/
def Meets (cfg : Battle) (s : State) : Event → Prop
  | .move m =>
    m.movestate = 0 → ∀ a, s.battle_attribute_infos (target cfg m.uid m.npcid) = some a →
      (Number.max (.int 0) (.int m.remainenergy)).le a.energy = true ∨
        ∃ start, s.player_pos_y = some start ∧ (cfg.tutorial = true ∨
          far (estimate a (.int m.location_y) (startof (target cfg m.uid m.npcid) a start))
            (Number.max (.int 0) (.int m.remainenergy)) 5 = true)
  | .jump m =>
    movecheck cfg (target cfg m.uid m.npcid) = true →
      ∀ a, s.battle_attribute_infos (target cfg m.uid m.npcid) = some a →
        (Number.int m.energy).le a.energy = true ∨
          match s.player_pos_y with
          | none => far (.int m.energy) a.energy 3 = true
          | some start => cfg.tutorial = false ∧
            far (estimate a (.int m.pos_y) (startof (target cfg m.uid m.npcid) a start))
              (.int m.energy) 5 = true
  | .jumpend m =>
    movecheck cfg (target cfg m.uid m.npcid) = true →
      ∀ a consume, s.battle_attribute_infos (target cfg m.uid m.npcid) = some a →
        cfg.get_skill_energycost 10002 = some consume →
          if far (.int m.energy) (a.energy.sub (.int consume)) 3 then
            (a.energy.sub (.int consume)).le a.energy = true
          else (Number.int m.energy).le a.energy = true
  | .fire m =>
    movecheck cfg (target cfg m.uid m.npcid) = true →
      m.weaponid ∈ cfg.weaponids (target cfg m.uid m.npcid) →
      ∀ a consume, s.battle_attribute_infos (target cfg m.uid m.npcid) = some a →
        cfg.get_weapon_fireenergy m.weaponid = some consume →
          Payable cfg (target cfg m.uid m.npcid) a consume
  | .skillspell m =>
    movecheck cfg (target cfg m.uid m.npcid) = true →
      ∀ a consume, s.battle_attribute_infos (target cfg m.uid m.npcid) = some a →
        cfg.get_skill_energycost m.skillid = some consume →
          Payable cfg (target cfg m.uid m.npcid) a consume
  | .turnend _ => True

/-! ## What a message leaves -/

/-- An estimate that a report is compared with and is far from. -/
theorem estimate_of_far (ha : a.energy = .int e) (h0 : 0 ≤ e.toInt) {y p x : Number} {k : Int64}
    (h : far (estimate a y p) x k = true) : Between (estimate a y p) 0 e.toInt := by
  have hest := floor_clamp (a.energy.sub (energycostby_distance (y.sub p).abs a.efficiency)) h0
  rw [← ha] at hest
  obtain hnan | hbetween := hest
  · rw [estimate, hnan, far_nan] at h
    cases h
  · exact hbetween

/-- Where a stop meets the condition. -/
theorem between_stopped (ha : a.energy = .int e) (h0 : 0 ≤ e.toInt) (hd : 0 ≤ d.toInt)
    {start : Option Number} {y : Number}
    (h : (Number.int d).le a.energy = true ∨ ∃ p, start = some p ∧
      (cfg.tutorial = true ∨ far (estimate a y (startof uid a p)) (.int d) 5 = true)) :
    Between (stopped cfg uid a start y (.int d)) 0 e.toInt := by
  have hle : (Number.int d).le a.energy = true → Between (.int d) 0 e.toInt := by
    intro hle
    rw [ha, Number.le_int, decide_eq_true_eq] at hle
    exact ⟨d, rfl, hd, hle⟩
  cases start with
  | none =>
    obtain hle' | ⟨p, hp, -⟩ := h
    · exact hle hle'
    · cases hp
  | some p =>
    simp only [stopped]
    -- the tutorial takes nothing
    by_cases htut : cfg.tutorial = true
    · rw [if_pos htut]
      exact ⟨e, ha, h0, le_refl _⟩
    rw [if_neg htut]
    by_cases hfar : far (estimate a y (startof uid a p)) (.int d) 5 = true
    · rw [if_pos hfar]
      obtain ⟨n, hn, hn0, hne⟩ := estimate_of_far ha h0 hfar
      rw [hn, min_int]
      refine ⟨_, rfl, ?_⟩
      split
      · omega
      · omega
    · rw [if_neg hfar]
      obtain hle' | ⟨p', hp', hor⟩ := h
      · exact hle hle'
      · cases hp'
        exact absurd hor (by simp [htut, hfar])

/-- The energy before a jump is an integer, not above what there was unless the
reported one is. -/
theorem landed_int (ha : a.energy = .int e) (h0 : 0 ≤ e.toInt) (start : Option Number) (y : Number) :
    ∃ k : Int64, landed cfg uid a start y (.int d) = .int k ∧ (d.toInt ≤ e.toInt → k.toInt ≤ e.toInt) := by
  cases start with
  | none => exact ⟨e, ha, fun _ => le_refl _⟩
  | some p =>
    simp only [landed]
    split
    · next hfar =>
      simp only [Bool.and_eq_true] at hfar
      obtain ⟨n, hn, hn0, hne⟩ := estimate_of_far ha h0 hfar.1
      rw [hn, min_int]
      refine ⟨_, rfl, fun _ => ?_⟩
      split
      · omega
      · exact hne
    · rw [max_zero]
      refine ⟨_, rfl, fun hd => ?_⟩
      split
      · exact hd
      · exact h0

/-- Where a jump meets the condition. -/
theorem between_jumped (ha : a.energy = .int e) (h0 : 0 ≤ e.toInt) {start : Option Number} {y : Number}
    (h : (Number.int d).le a.energy = true ∨ match start with
      | none => far (.int d) a.energy 3 = true
      | some p => cfg.tutorial = false ∧ far (estimate a y (startof uid a p)) (.int d) 5 = true) :
    Between (settle (landed cfg uid a start y (.int d)) (.int d)) 0 e.toInt := by
  by_cases hd : d.toInt ≤ e.toInt
  · obtain ⟨k, hk, hke⟩ := @landed_int cfg uid a e d ha h0 start y
    rw [hk, settle]
    split
    · exact between_max h0 (hke hd)
    · exact between_max h0 hd
  · -- a report above the energy, which must be corrected before the jump and after it
    have hover : ¬ (Number.int d).le a.energy = true := by
      rw [ha, Number.le_int, decide_eq_true_eq]
      exact hd
    have h := h.resolve_left hover
    cases start with
    | none =>
      simp only at h
      rw [landed, settle, if_pos h, ha]
      exact between_max h0 (le_refl _)
    | some p =>
      obtain ⟨htut, hfar⟩ := h
      obtain ⟨n, hn, hn0, hne⟩ := estimate_of_far ha h0 hfar
      have hlanded : landed cfg uid a (some p) y (.int d) = .int n := by
        simp only [landed, hfar, htut, Bool.not_false, Bool.and_self, if_true]
        rw [hn, min_int, if_neg (by omega)]
      -- what is over 5 away from the report is over 3 away too
      have h5 := (far_int (n := n) (d := d) hn0 (by omega) 5).1
      have h3 := (far_int (n := n) (d := d) hn0 (by omega) 3).2
      rw [hn, h5, decide_eq_true_eq, show (5 : Int64).toInt = 5 from rfl] at hfar
      have hagain : far (.int d) (.int n) 3 = true := by
        rw [h3, decide_eq_true_eq, show (3 : Int64).toInt = 3 from rfl]
        omega
      rw [hlanded, settle, if_pos hagain]
      exact between_max h0 hne

/-- Where a report after a jump meets the condition. -/
theorem between_settled (h0 : 0 ≤ e.toInt)
    (h : if far (.int d) (.int n) 3 then n.toInt ≤ e.toInt else d.toInt ≤ e.toInt) :
    Between (settle (.int n) (.int d)) 0 e.toInt := by
  rw [settle]
  split
  · next hfar =>
    rw [if_pos hfar] at h
    exact between_max h0 h
  · next hfar =>
    rw [if_neg hfar] at h
    exact between_max h0 h

/-- Where a payment meets the condition. -/
theorem between_paid (ha : a.energy = .int e) (h0 : 0 ≤ e.toInt) (he : e.toInt ≤ 2 ^ 53)
    {consume : Int64} (h : Payable cfg uid a consume) :
    Between (update_energy cfg uid a.energy ((addval cfg uid consume).mul (.int (-1)))) 0 e.toInt := by
  obtain ⟨hget, hor⟩ := h
  -- a cost of no value could not be compared
  have hnan : addval cfg uid consume ≠ .nan := by
    obtain hcost | ⟨hnan, -⟩ := hor
    · intro hnan
      rw [hnan] at hcost
      cases hcost
    · exact hnan
  obtain ⟨n, hn, hn0, hcap, hle⟩ := ceil_clamp (left_ne_nan h0 he hnan) hget
  rw [update_energy, ha, hn]
  refine ⟨n, rfl, hn0, ?_⟩
  obtain hcost | ⟨-, hless⟩ := hor
  · exact hle e h0 (left_le h0 he hcost)
  · rw [ha, Number.le_int, decide_eq_true_eq] at hless
    omega

/-! ## One step -/

/-- Every energy is an integer that a double is exact for. -/
def Fits (s : State) : Prop :=
  ∀ uid a, s.battle_attribute_infos uid = some a → Between a.energy 0 (2 ^ 53)

/-- **No fighter is new, and none has more energy.** -/
def Lowers (s t : State) : Prop :=
  ∀ uid b, t.battle_attribute_infos uid = some b →
    ∃ a e, s.battle_attribute_infos uid = some a ∧ a.energy = .int e ∧ Between b.energy 0 e.toInt

theorem Fits.lowers (h : Fits s) (hinfos : t.battle_attribute_infos = s.battle_attribute_infos) :
    Lowers s t := by
  intro uid b hb
  rw [hinfos] at hb
  obtain ⟨i, hi, h0, -⟩ := h uid b hb
  exact ⟨b, i, hb, hi, i, hi, h0, le_refl _⟩

/-- One fighter has no more energy, and the others have what they had. -/
theorem Fits.lowers_set (h : Fits s) (ha : s.battle_attribute_infos uid = some a)
    (hinfos : t.battle_attribute_infos = s.battle_attribute_infos) (he : a.energy = .int e)
    (hb : Between b.energy 0 e.toInt) : Lowers s (t.set uid b) := by
  intro v c hc
  simp only [State.set, hinfos, Function.update_apply] at hc
  split at hc
  · next hv =>
    cases hc
    exact ⟨a, e, hv ▸ ha, he, hb⟩
  · exact h.lowers rfl v c hc

theorem Lowers.fits (h : Lowers s t) (hs : Fits s) : Fits t := by
  intro uid b hb
  obtain ⟨a, e, ha, he, i, hi, h0, hie⟩ := h uid b hb
  obtain ⟨e', he', -, hmax⟩ := hs uid a ha
  cases he.symm.trans he'
  exact ⟨i, hi, h0, hie.trans hmax⟩

theorem Lowers.trans (h₁ : Lowers s t) (h₂ : Lowers t u) : Lowers s u := by
  intro uid c hc
  obtain ⟨b, e, hb, he, i, hi, h0, hie⟩ := h₂ uid c hc
  obtain ⟨a, e', ha, he', j, hj, -, hje⟩ := h₁ uid b hb
  cases he.symm.trans hj
  exact ⟨a, e', ha, he', i, hi, h0, hie.trans hje⟩

/-- A payment. -/
theorem Fits.pay (h : Fits s) {consume : Option Int64} {reply : Number → Number}
    (hm : ∀ a c, s.battle_attribute_infos uid = some a → consume = some c → Payable cfg uid a c) :
    Lowers s (pay cfg s uid consume reply).1 := by
  unfold Energy.pay
  split
  · next c a ha =>
    obtain ⟨e, he, h0, hmax⟩ := h uid a ha
    dsimp only
    split
    · exact h.lowers rfl
    · exact h.lowers_set ha rfl he (between_paid he h0 hmax (hm a c ha rfl))
  · exact h.lowers rfl

/-- **A message that meets the condition.** -/
theorem serve_lowers (h : Fits s) (ev : Event) (hm : Meets cfg s ev) : Lowers s (serve cfg s ev).1 := by
  cases ev with
  | move m =>
    simp only [serve, move]
    split
    · exact h.lowers rfl
    · split
      · split
        · exact h.lowers rfl
        · exact h.lowers rfl
      · next hstop =>
        split
        · exact h.lowers rfl
        · next a ha =>
          obtain ⟨e, he, h0, -⟩ := h _ a ha
          have hm := hm (not_not.mp hstop) a ha
          rw [max_zero] at hm ⊢
          refine h.lowers_set ha rfl he (between_stopped he h0 ?_ hm)
          split
          · omega
          · exact le_refl _
  | jump m =>
    simp only [serve, jump]
    split
    · exact h.lowers rfl
    · next hcheck =>
      split
      · exact h.lowers rfl
      · next a ha =>
        obtain ⟨e, he, h0, -⟩ := h _ a ha
        exact h.lowers_set ha rfl he (between_jumped he h0 (hm (by simpa using hcheck) a ha))
  | jumpend m =>
    simp only [serve, jumpend]
    split
    · exact h.lowers rfl
    · next hcheck =>
      split
      · next c a hc ha =>
        obtain ⟨e, he, h0, -⟩ := h _ a ha
        have hm := hm (by simpa using hcheck) a c ha hc
        rw [he, Number.sub_int, Number.le_int, Number.le_int] at hm
        refine h.lowers_set ha rfl he ?_
        rw [he, Number.sub_int]
        exact between_settled h0 (by simpa using hm)
      · exact h.lowers rfl
  | fire m =>
    simp only [serve, fire]
    split
    · exact h.lowers rfl
    · next hcheck =>
      have hmove := not_or.mp hcheck
      exact h.pay fun a c ha hc => hm (by simpa using hmove.1) (by simpa using hmove.2) a c ha hc
  | skillspell m =>
    simp only [serve, skillspell]
    split
    · exact h.lowers rfl
    · next hcheck =>
      have hm := hm (by simpa using hcheck)
      split
      · split
        · exact h.lowers rfl
        · next a ha =>
          -- the spell moves the fighter first, which leaves his energy
          have henergy : ∀ params, (relocate params a).1.energy = a.energy := by
            intro params
            unfold relocate
            split
            · rfl
            · rfl
          obtain ⟨e, he, h0, -⟩ := h _ a ha
          have hmoved : Lowers s (s.set (target cfg m.uid m.npcid)
              (relocate (Lua.splitComma m.params) a).1) :=
            h.lowers_set ha rfl he ⟨e, (henergy _).trans he, h0, le_refl _⟩
          split
          · refine hmoved.trans ((hmoved.fits h).pay fun b c hb hc => ?_)
            have hba : b = (relocate (Lua.splitComma m.params) a).1 := by
              simpa [State.set] using hb.symm
            have hpay := hm a c ha hc
            rw [Payable, hba, henergy]
            exact hpay
          · exact hmoved
      · exact h.pay hm
  | turnend m =>
    simp only [serve, turnend]
    split
    · exact h.lowers rfl
    · split
      · exact h.lowers rfl
      · next a ha =>
        obtain ⟨e, he, h0, -⟩ := h _ a ha
        exact h.lowers_set ha rfl he ⟨e, he, h0, le_refl _⟩

/-! ## Every run -/

theorem Lowers.le (h : Lowers s t) (ha : s.battle_attribute_infos uid = some a)
    (hb : t.battle_attribute_infos uid = some b) : b.energy.le a.energy = true := by
  obtain ⟨a', e, ha', he, i, hi, -, hie⟩ := h uid b hb
  cases ha.symm.trans ha'
  rw [he, hi, Number.le_int, decide_eq_true_eq]
  exact hie

/-- **A run that meets the condition** lowers every energy. -/
theorem path_lowers {es : List Event} (h : ((system cfg).restrict (Meets cfg)).Path s es t)
    (hs : Fits s) : Lowers s t := by
  refine h.invariant (P := Lowers s) (fun u e v hst hu => ?_) (hs.lowers rfl)
  obtain ⟨rfl, hm⟩ := hst
  exact hu.trans (serve_lowers (hu.fits hs) e hm)

/-- **The energies over every run** whose messages meet the condition: from zero to the
larger of `getenergy` and the initial energy, and no message raises one. -/
theorem energies (hinit : (system cfg).init s)
    (hfit : ∀ uid a, s.battle_attribute_infos uid = some a → Between (initialenergy cfg uid) 0 (2 ^ 53))
    {es : List Event} (h : ((system cfg).restrict (Meets cfg)).Path s es t) :
    (∀ uid a, t.battle_attribute_infos uid = some a → (Number.int 0).le a.energy = true ∧
      a.energy.le (Number.max (.int (cfg.getenergy uid)) (initialenergy cfg uid)) = true) ∧
    ∀ ev, Meets cfg t ev → ∀ uid a b, t.battle_attribute_infos uid = some a →
      (serve cfg t ev).1.battle_attribute_infos uid = some b → b.energy.le a.energy = true := by
  have hs : Fits s := fun uid a ha => hinit.2 uid a ha ▸ hfit uid a ha
  have hlow := path_lowers h hs
  constructor
  · intro uid b hb
    obtain ⟨a, e, ha, he, i, hi, h0, hie⟩ := hlow uid b hb
    have hzero : (0 : Int64).toInt = 0 := rfl
    have hstart : initialenergy cfg uid = .int e := (hinit.2 uid a ha).symm.trans he
    rw [hi, hstart, Number.max, Number.le_int, Number.lt_int]
    refine ⟨by simpa using h0, ?_⟩
    split
    · rw [Number.le_int, decide_eq_true_eq]
      exact hie
    · next hcap =>
      rw [decide_eq_true_eq] at hcap
      rw [Number.le_int, decide_eq_true_eq]
      omega
  · intro ev hm uid a b ha hb
    exact (serve_lowers (hlow.fits hs) ev hm).le ha hb

/-- Two fighters, of 100 each, and no one's turn. -/
def duel : Battle where
  host := 1
  tutorial := false
  getgroupid _ := 1
  curmovers_group := 1
  getenergy _ := 100
  getenefficiency _ := .int 1
  chipenefficiency _ := .int 0
  chipenergy _ := .int 0
  weaponids _ := [7]
  get_weapon_fireenergy _ := some 15
  get_skill_energycost _ := some 20

def duelists (energy : Int64) : State where
  battle_attribute_infos uid := if uid = 2 then some ⟨.int energy, .int 1, .int 0⟩ else none
  player_pos_y := none

theorem duelists_initial : (system duel).init (duelists 100) := by
  refine ⟨rfl, fun uid a ha => ?_⟩
  simp only [duelists] at ha
  split at ha
  · next hid =>
    cases ha
    subst hid
    decide
  · cases ha

theorem duelists_set (d : Int64) :
    ({ duelists 100 with player_pos_y := none }.set 2 ⟨.int d, .int 1, .int 0⟩) = duelists d := by
  simp only [State.set, duelists, State.mk.injEq, and_true]
  funext uid
  simp only [Function.update_apply]
  split
  · rfl
  · rfl

theorem duelists_fit : ∀ uid a, (duelists 100).battle_attribute_infos uid = some a →
    Between (initialenergy duel uid) 0 (2 ^ 53) := by
  intro uid a ha
  rw [← duelists_initial.2 uid a ha]
  simp only [duelists] at ha
  split at ha
  · cases ha
    exact ⟨100, rfl, by decide, by decide⟩
  · cases ha

/-- A way of ten, the end of a jump where 72 is reported, and a shot. -/
theorem energies_shot : ∃ (t : State) (a : Attribute), t.battle_attribute_infos 2 = some a ∧ a.energy = .int 57 ∧
    (Number.int 0).le a.energy = true ∧
    a.energy.le (Number.max (.int (duel.getenergy 2)) (initialenergy duel 2)) = true := by
  have hstop : ∀ a, (duelists 100).battle_attribute_infos 2 = some a → (Number.int 90).le a.energy = true := by
    intro a ha
    obtain rfl := Option.some.inj ha
    decide
  have hrun : ∃ t, ((system duel).restrict (Meets duel)).Path (duelists 100) [.move ⟨2, 0, 1, 0, 100⟩,
      .move ⟨2, 0, 0, 10, 90⟩, .jumpend ⟨2, 0, 10, 72⟩, .fire ⟨2, 0, 7⟩] t ∧
      (t.battle_attribute_infos 2).map Attribute.energy = some (.int 57) := by
    refine ⟨_, .cons ⟨rfl, nofun⟩ (.cons ⟨rfl, fun _ a ha => .inl (hstop a ha)⟩
      (.cons ⟨rfl, fun _ a c ha hc => ?_⟩ (.cons ⟨rfl, fun _ _ a c ha hc => ?_⟩ (.nil _)))), ?_⟩
    · obtain rfl := Option.some.inj hc
      obtain rfl : (⟨.int 90, .int 1, .int 10⟩ : Attribute) = a := Option.some.inj ha
      decide
    · obtain rfl := Option.some.inj hc
      obtain rfl : (⟨.int 72, .int 1, .int 10⟩ : Attribute) = a := Option.some.inj ha
      unfold Payable
      decide +kernel
    · decide +kernel
  obtain ⟨t, hpath, hmap⟩ := hrun
  obtain ⟨a, ha, henergy⟩ := Option.map_eq_some_iff.mp hmap
  exact ⟨t, a, ha, henergy, (energies duelists_initial duelists_fit hpath).1 2 a ha⟩

/-- **A stop without a start is believed.** The fighter has 100, reports a million, and
has it. -/
theorem energies_believed :
    ¬ ∀ cfg : Battle, ∀ s t es, (system cfg).init s →
      (∀ uid a, s.battle_attribute_infos uid = some a → Between (initialenergy cfg uid) 0 (2 ^ 53)) →
      (system cfg).Path s es t → ∀ uid a, t.battle_attribute_infos uid = some a →
        a.energy.le (Number.max (.int (cfg.getenergy uid)) (initialenergy cfg uid)) = true := by
  intro hall
  have hle := hall duel (duelists 100) (duelists 1000000) [.move ⟨2, 0, 0, 0, 1000000⟩] duelists_initial
    duelists_fit (System.path_singleton.mpr (duelists_set 1000000)) 2 ⟨.int 1000000, .int 1, .int 0⟩ rfl
  exact absurd hle (by decide)

end Energy

end Athena
