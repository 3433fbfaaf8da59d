import Athena.Scan.Receive
/-!
# Blueprints — every run

Every request that goes right keeps the invariant and conserves the copies, so
over a run of such requests the lists are sound and no copy is lost or made.
`addspeed` writes back the list it has read before the casting came to its end,
and so the copies of that casting are there twice.
-/

namespace Athena

namespace Scan

open Lua (Str)
open Queue (Row Award BpReward PropReward EquipReward)

variable {cfg : Config} {s t : State} {e : Event}

/-- **A casting for a positive number.** -/
theorem Inv.casting {cfgid : Option Str} {number : Option ℤ} {name : Option Str} (hi : Inv cfg s)
    (hclear : Clear cfg s (.casting cfgid number name)) :
    Inv cfg (casting cfg s cfgid number name).1 ∧
      Conserves cfg s (.casting cfgid number name) (casting cfg s cfgid number name).1 := by
  rcases casting_cases cfg s cfgid number name with
    hq | ⟨bpid, l, key, d, info, u, rfl, hl, hd, hid, hle, hcastable, hq, hstate⟩
  · exact ⟨hi.quiet hq, hq.conserves fun _ => rfl⟩
  · have hpos : 0 < number.getD 1 := hclear hcastable
    have hrow : Cast cfg u (castrow cfg u.now bpid info) :=
      ⟨rfl, rfl, rfl, le_rfl, hcastable.known⟩
    obtain ⟨hinv, htotal⟩ := (hi.quiet hq).cast (hq.blueprint.trans hl) hd hpos hle hrow hid.symm
    rw [hstate]
    refine ⟨hinv, fun id => ?_⟩
    obtain ⟨v, hv⟩ : ∃ v, u.cast (castrow cfg u.now bpid info)
        (casted u (castrow cfg u.now bpid info) key (number.getD 1) l) = v := ⟨_, rfl⟩
    have hawards : v.awards = s.awards := by
      rw [← hv, ← hq.awards]
      rfl
    rw [hv] at htotal ⊢
    rw [htotal, consumed_eq_zero fun a ha => by rwa [hawards], State.total, State.total, hq.lists]
    simp only [added, finished]
    omega

/-- **Every request that goes right** keeps the invariant and conserves the
copies. -/
theorem Inv.step (hi : Inv cfg s) (hclear : Clear cfg s e) :
    Inv cfg (step cfg s e).1 ∧ Conserves cfg s e (step cfg s e).1 := by
  cases e with
  | tick =>
    have hq : Quiet s { s with now := s.now + 1 } :=
      ⟨rfl, rfl, rfl, rfl, rfl, rfl, by simp, rfl, le_rfl⟩
    exact ⟨hi.quiet hq, hq.conserves fun _ => rfl⟩
  | addblueprint bpid number name => exact hi.addblueprint hclear
  | casting cfgid number name => exact hi.casting hclear
  | addspeed bqid time propid => exact hi.addspeed hclear
  | completed bqid => exact hi.completed bqid
  | cancelcasting bqid => exact hi.cancelcasting hclear
  | receivescan awardid =>
    have hstate : (Scan.step cfg s (.receivescan awardid)).1 = s := hi.receivescan awardid
    rw [hstate]
    exact ⟨hi, (Quiet.refl s).conserves fun _ => rfl⟩
  | receivecasting awardid => exact hi.receivecasting hclear
  | receiveallcast =>
    have hq : Quiet s (Scan.step cfg s .receiveallcast).1 := hi.receiveallcast hclear
    exact ⟨hi.quiet hq, hq.conserves fun _ => rfl⟩

theorem inv_reachable (h : ((system cfg).restrict (Clear cfg)).Reachable s) : Inv cfg s :=
  System.Reachable.invariant (T := (system cfg).restrict (Clear cfg)) (fun _ hs => Start.inv hs)
    (fun s e t hst hi => by
      have heq : t = (Scan.step cfg s e).1 := hst.1
      rw [heq]
      exact (hi.step hst.2).1) h

/-- One blueprint, which is cast in a minute. -/
def onecast : Config where
  uid := 7
  blueprint := fun _ => some ⟨[], 60⟩
  part := fun _ _ => true
  material := fun _ => true
  machinecfg := fun _ => true

/-- A chassis. -/
def chassis : Str := ['B', '1', '0', '0', '0', '0', '1']

/-- A player with two of them. -/
def hastwo : State where
  now := 100
  blueprint := some ⟨[], [⟨chassis, 2, none, none, none, none, none⟩], [], []⟩
  materials := fun _ => 0
  rows := fun _ => none
  bqid := 0
  ingcasting := []
  endcasting := []
  ingscan := []
  endscan := []
  maxcasting := 1
  awards := fun _ => none
  awardid := 0
  machines := 0
  given := []

theorem start_hastwo : Start hastwo where
  newblueprint := by simp [hastwo, State.lists]
  blueprintinfo := by simp [hastwo, State.lists]
  blueprinting := rfl
  blueprintend := rfl
  rows _ := rfl
  awards _ := rfl
  ingcasting := rfl
  endcasting := rfl
  endscan := rfl

/-- Where a run from a state leads. -/
def after (cfg : Config) (s : State) (es : List Event) : State :=
  es.foldl (fun s e => (step cfg s e).1) s

theorem path_after (es : List Event) : (system cfg).Path s es (after cfg s es) := by
  induction es generalizing s with
  | nil => exact .nil s
  | cons e es ih => exact .cons rfl ih

/-- One of them is cast, and it comes to its end. -/
def castone : List Event := [.casting (some chassis) (some 1) none, .completed 1]

theorem clear_received :
    Clear onecast (after onecast hastwo castone) (.receivecasting (some 1)) := by
  have hone : ∀ d ∈ (after onecast hastwo castone).lists.blueprintend, d.awardid = some 1 →
      d.number = 1 := by decide +kernel
  exact fun _ => hone

/-- One of them is cast, and is sped up by the minute it takes. -/
def spedone : List Event :=
  [.casting (some chassis) (some 1) none, .addspeed (some 1) (some 1) (some 0)]

end Scan

end Athena
