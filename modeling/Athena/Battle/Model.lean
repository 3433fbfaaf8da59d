import Mathlib.Data.List.Basic
import Mathlib.Data.Int.Notation
import Mathlib.Data.Nat.Notation
import Mathlib.Data.Rat.Defs
/-!
# The end of a battle — model

`battledatahandler.lua` judges whether a battle has ended, from the fighters, of
whom the first half fights the second, and from the deaths so far. The battle
service calls it after a damage and after a `murder`, and keeps the flag that the
battle has ended. What is sent and queued is read as a record: the winners of each
judged end, a reward for a fighter with the outcome, and the score of a fighter.

An npc has a negative id.
-/

namespace Athena

namespace Battle

/-- A player or an npc. -/
abbrev Id := ℤ

/-- `teammatchdefine.missiontype`, as far as it is judged. -/
inductive MissionType
  | pvp
  | annihilate
  | tutorial
  | excavate
  | other
  deriving DecidableEq

/-- What was done at the ends that were judged. -/
structure Results where
  /-- The winners of `battleproxy_winner`, for each end. -/
  winners : List (List Id)
  /-- `sendbattle_reward`: a fighter and whether he won. -/
  rewards : List (Id × Bool)
  /-- `update_score`: a fighter and whether he won. -/
  scores : List (Id × Bool)

/-- The memory of a battle service. -/
structure State where
  stagetype : MissionType
  tempfighters : List Id
  deathlist : List Id
  isfinish : Bool
  targetcount : ℕ
  cur_mission_progress : ℕ
  /-- The host of each area that triggers. -/
  hostuids : List Id
  /-- The first of `battle_machine_infos`. -/
  firstmachine : Id
  results : Results

/-! ## The judge -/

/-- `tempfighters[i]` for `i = 1, #tempfighters / 2`. -/
def firstHalf (tempfighters : List Id) : List (Option Id) :=
  (tempfighters.take (tempfighters.length / 2)).map some

/-- `tempfighters[i]` for `i = #tempfighters / 2 + 1, #tempfighters`. The index
counts from a fraction when the number is odd, and finds nothing. -/
def secondHalf (tempfighters : List Id) : List (Option Id) :=
  if tempfighters.length % 2 = 0 then (tempfighters.drop (tempfighters.length / 2)).map some
  else List.replicate (tempfighters.length / 2) none

/-- `loserjudge`: all of a side have died. `table.find` gives 0 for a fighter who is not there,
and this is not nil. -/
def loserjudge (deathlist : List Id) (side : List (Option Id)) : Bool :=
  side.all fun f => match f with
    | some f => decide (f ∈ deathlist)
    | none => true

/-- The players of a side, as they are inserted one by one. -/
def playersOf (side : List (Option Id)) : List Id := side.filterMap id

/-- `balance_reward` for each fighter. -/
def balance (winners tempfighters : List Id) : List (Id × Bool) :=
  tempfighters.map fun f => (f, decide (f ∈ winners))

/-- What the judge returns, and what it has sent: the winners and the rewards. -/
structure Judged where
  isfinish : Bool
  winidarr : List Id
  winners : List (List Id)
  rewards : List (Id × Bool)

/-- An end with some winners. -/
def Judged.finish (j : Judged) (winidarr winners tempfighters : List Id) : Judged where
  isfinish := true
  winidarr := winidarr
  winners := j.winners ++ [winners]
  rewards := j.rewards ++ balance winners tempfighters

def Judged.start : Judged := ⟨false, [], [], []⟩

/-- **`judge_battle_end`.** -/
def judge_battle_end (s : State) : Judged :=
  let fighters := s.tempfighters
  match s.stagetype with
  | .pvp =>
    let j := if loserjudge s.deathlist (firstHalf fighters) then
      Judged.start.finish (playersOf (secondHalf fighters)) (playersOf (secondHalf fighters)) fighters
      else Judged.start
    if loserjudge s.deathlist (secondHalf fighters) then
      j.finish (playersOf (firstHalf fighters)) (playersOf (firstHalf fighters)) fighters
    else j
  | .annihilate | .tutorial =>
    if s.targetcount ≤ (s.deathlist.filter fun d => d < 0).length then
      Judged.start.finish fighters fighters fighters
    else if loserjudge s.deathlist (fighters.map some) then Judged.start.finish [] [-1] fighters
    else Judged.start
  | .excavate =>
    if s.targetcount ≤ s.cur_mission_progress then Judged.start.finish [] fighters fighters
    else if loserjudge s.deathlist (fighters.map some) then Judged.start.finish [] [-1] fighters
    else Judged.start
  | .other => Judged.start

/-- `update_score`, which does nothing without winners. Scores are those of the
ladder, of battles between players. -/
def update_score (s : State) (winidarr : List Id) : List (Id × Bool) :=
  if winidarr.isEmpty ∨ s.stagetype ≠ .pvp then [] else balance winidarr s.tempfighters

/-- The judge, and what its callers do when the battle has ended. -/
def judged (s : State) : State :=
  let j := judge_battle_end s
  { s with
    isfinish := j.isfinish || s.isfinish
    results :=
      { winners := s.results.winners ++ j.winners
        rewards := s.results.rewards ++ j.rewards
        scores := s.results.scores ++ if j.isfinish then update_score s j.winidarr else [] } }

/-! ## The handlers -/

/-- A death, with the areas it takes away. -/
def die (s : State) (id : Id) : State :=
  { s with
    deathlist := s.deathlist ++ [id]
    cur_mission_progress := s.cur_mission_progress + s.hostuids.count id }

/-- What a damage leaves of someone. -/
structure Damage where
  playerid : Id
  hp : ℚ

/-- One entry of the loop of `deathjudge`. -/
def deathOf (s : State) (d : Damage) : State :=
  if d.hp < 1 / 100 ∧ d.playerid ∉ s.deathlist then die s d.playerid else s

/-- **`deathjudge`**: it asks the judge when the battle has not ended. -/
def deathjudge (s : State) (damageinfo : List Damage) : State :=
  let s := damageinfo.foldl deathOf s
  if s.isfinish then s else judged s

/-- Whose death a `murder` reports: an npc's only when the first player says so. -/
def realdeath (s : State) (suid targetid : Id) : Id :=
  if s.firstmachine ≠ suid ∨ 0 ≤ targetid then suid else targetid

/-- **`response.murder`**: it asks the judge always. -/
def murder (s : State) (suid targetid : Id) : State :=
  if realdeath s suid targetid ∈ s.deathlist then s
  else judged (die s (realdeath s suid targetid))

/-- `for i = 1, #tempfighters do if tempfighters[i] == uid then table.remove(tempfighters, i)`. -/
def removeFighter (tempfighters : List Id) (uid : Id) : List Id :=
  (List.range tempfighters.length).foldl
    (fun l i => if l[i]? = some uid then l.eraseIdx i else l) tempfighters

/-- **`response.offline`.** -/
def offline (s : State) (uid : Id) : State :=
  { s with tempfighters := removeFighter s.tempfighters uid }

/-- What a battle receives. -/
inductive Event
  | damage (damageinfo : List Damage)
  | murder (suid targetid : Id)
  | offline (uid : Id)

def step (s : State) : Event → State
  | .damage damageinfo => deathjudge s damageinfo
  | .murder suid targetid => murder s suid targetid
  | .offline uid => offline s uid

end Battle

end Athena
