import Athena.Common.System
import Athena.Lua.Arith
import Athena.Lua.Value
/-!
# The energy of the fighters — model

The handlers of `game/battle/battlesvr.lua` that read or write the energy of a
fighter: `move`, `jump`, `jumpend`, `fire`, `skillspell` and `turnend`. A message
carries all its numbers, which the client chooses. Of the attributes of a fighter
those that these handlers read are kept, and of a position its `y`; `player_pos_y` is
the one place where the last mover started.

What is sent and returned is read as the energy in it. A handler that raises leaves
what it wrote before.
-/

namespace Athena

namespace Energy

open Lua (Number Str)

abbrev Id := ℤ

/-- `math.clamp` of `global/luaext.lua`. -/
def clamp (v minValue maxValue : Number) : Number :=
  if v.lt minValue then minValue else if maxValue.lt v then maxValue else v

/-! ## The battle -/

/-- **What a battle fixes.** `curmovers_group` is not written after its first value. -/
structure Battle where
  /-- `battle_machine_infos[1].playerid`, who also sends for the npcs. -/
  host : Id
  /-- `stagetype == teammatchdefine.missiontype.tutorial`. -/
  tutorial : Bool
  /-- `0` for who has no group. -/
  getgroupid : Id → ℤ
  curmovers_group : ℤ
  getenergy : Id → Int64
  getenefficiency : Id → Number
  /-- `playerchipattr[uid].enefficiency or 0`. -/
  chipenefficiency : Id → Number
  /-- `machineattris.energy or 0` of the chips. -/
  chipenergy : Id → Number
  /-- The ids among `getweapons(uid)`. -/
  weaponids : Id → List ℤ
  /-- `Power_Consume` of a weapon and of a skill that the tables have. -/
  get_weapon_fireenergy : ℤ → Option Int64
  get_skill_energycost : ℤ → Option Int64

/-- Of an entry of `battle_attribute_infos`. -/
structure Attribute where
  energy : Number
  efficiency : Number
  pos_y : Number

/-- **The memory of the service.** -/
structure State where
  battle_attribute_infos : Id → Option Attribute
  player_pos_y : Option Number

inductive Answer
  /-- The call returned early, or raised. -/
  | none
  /-- `eEC_err_param`. -/
  | err_param
  /-- What was sent to the fighters, with this energy. -/
  | sent (remainenergy : Number)

variable (cfg : Battle)

/-- The fighter a message is about: the host's messages may be an npc's. -/
def target (uid npcid : Id) : Id := if uid = cfg.host ∧ npcid < 0 then npcid else uid

def movecheck (uid : Id) : Bool :=
  cfg.getgroupid uid ≠ 0 && cfg.curmovers_group = cfg.getgroupid uid

def State.set (s : State) (uid : Id) (a : Attribute) : State :=
  { s with battle_attribute_infos := Function.update s.battle_attribute_infos uid (some a) }

/-! ## The costs -/

def energycostby_distance (distance efficiency : Number) : Number := distance.abs.mul efficiency

/-- **The server's estimate** after a way: the energy less the cost of the way, within
what there was. -/
def estimate (a : Attribute) (y pos_y : Number) : Number :=
  (clamp (a.energy.sub (energycostby_distance (y.sub pos_y).abs a.efficiency)) (.int 0) a.energy).floor

/-- `math.abs(energy - reported) > tolerance`. -/
def far (energy reported : Number) (tolerance : Int64) : Bool :=
  (Number.int tolerance).lt (energy.sub reported).abs

/-- Where a fighter started from: an npc from its position. -/
def startof (uid : Id) (a : Attribute) (player_pos_y : Number) : Number :=
  if uid ≤ 0 then a.pos_y else player_pos_y

/-- What a shot or a spell costs a fighter. -/
def addval (uid : Id) (consume : Int64) : Number :=
  ((Number.int consume).mul (cfg.getenefficiency uid)).mul
    ((Number.int 1).div ((Number.int 1).add (cfg.chipenefficiency uid)))

/-- `update_energy`. -/
def update_energy (uid : Id) (energy addval : Number) : Number :=
  (clamp (energy.add addval) (.int 0) (.int (cfg.getenergy uid))).ceil

/-! ## The handlers -/

structure Move where
  uid : Id
  npcid : Id
  movestate : ℤ
  location_y : Int64
  remainenergy : Int64

/-- What the energy becomes when a fighter stops. -/
def stopped (uid : Id) (a : Attribute) (player_pos_y : Option Number) (y remainenergy : Number) : Number :=
  match player_pos_y with
  | none => remainenergy
  | some start =>
    if cfg.tutorial then a.energy
    else
      let energy := estimate a y (startof uid a start)
      if far energy remainenergy 5 then energy.min remainenergy else remainenergy

/-- **`move`.** A stop, `movestate` 0, is not asked who moves. -/
def move (s : State) (m : Move) : State × Answer :=
  let uid := target cfg m.uid m.npcid
  if movecheck cfg uid = false ∧ m.movestate ≠ 0 then (s, .none)
  else
    let remainenergy := Number.max (.int 0) (.int m.remainenergy)
    if m.movestate ≠ 0 then
      (if 0 < uid then { s with player_pos_y := some (.int m.location_y) } else s, .sent remainenergy)
    else
      match s.battle_attribute_infos uid with
      | none => (s, .none)
      | some a =>
        let energy := stopped cfg uid a s.player_pos_y (.int m.location_y) remainenergy
        ({ s with player_pos_y := none }.set uid { a with energy := energy, pos_y := .int m.location_y },
          .sent energy)

structure Jump where
  uid : Id
  npcid : Id
  pos_y : Int64
  energy : Int64

/-- The energy before a jump, which ends a way that was begun. -/
def landed (uid : Id) (a : Attribute) (player_pos_y : Option Number) (y reported : Number) : Number :=
  match player_pos_y with
  | none => a.energy
  | some start =>
    let energy := estimate a y (startof uid a start)
    if far energy reported 5 && !cfg.tutorial then energy.min reported
    else Number.max (.int 0) reported

/-- The server's energy, or the reported one where it is within 3. -/
def settle (energy reported : Number) : Number :=
  Number.max (.int 0) (if far reported energy 3 then energy else reported)

/-- **`jump`.** -/
def jump (s : State) (m : Jump) : State × Answer :=
  let uid := target cfg m.uid m.npcid
  if movecheck cfg uid = false then (s, .none)
  else
    match s.battle_attribute_infos uid with
    | none => (s, .none)
    | some a =>
      let energy := settle (landed cfg uid a s.player_pos_y (.int m.pos_y) (.int m.energy)) (.int m.energy)
      ({ s with player_pos_y := none }.set uid { a with energy := energy }, .sent energy)

/-- **`jumpend`.** The cost of a jump is that of the skill 10002. -/
def jumpend (s : State) (m : Jump) : State × Answer :=
  let uid := target cfg m.uid m.npcid
  if movecheck cfg uid = false then (s, .none)
  else
    match cfg.get_skill_energycost 10002, s.battle_attribute_infos uid with
    | some consume, some a =>
      let energy := settle (a.energy.sub (.int consume)) (.int m.energy)
      ({ s with player_pos_y := some (.int m.pos_y) }.set uid { a with energy := energy }, .sent energy)
    | _, _ => (s, .none)

structure Fire where
  uid : Id
  npcid : Id
  weaponid : ℤ

/-- The test and the payment that a shot and a spell end with. -/
def pay (s : State) (uid : Id) (consume : Option Int64) (reply : Number → Number) : State × Answer :=
  match consume, s.battle_attribute_infos uid with
  | some consume, some a =>
    let addval := addval cfg uid consume
    if a.energy.lt addval then (s, .err_param)
    else
      let energy := update_energy cfg uid a.energy (addval.mul (.int (-1)))
      (s.set uid { a with energy := energy }, .sent (reply energy))
  | _, _ => (s, .none)

/-- **`fire`**, without the speed of the shell. -/
def fire (s : State) (m : Fire) : State × Answer :=
  let uid := target cfg m.uid m.npcid
  if movecheck cfg uid = false ∨ m.weaponid ∉ cfg.weaponids uid then (s, .none)
  else pay cfg s uid (cfg.get_weapon_fireenergy m.weaponid) id

structure Spell where
  uid : Id
  npcid : Id
  skillid : ℤ
  params : Str

/-- `math.floor(params[i])`, of a text. -/
def coordinate (params : List Str) (i : ℕ) : Option Number :=
  (params[i]?.bind Lua.tonumber).map fun n => n.float.floor

/-- A spell that moves the fighter, and whether it went on to its cost. -/
def relocate (params : List Str) (a : Attribute) : Attribute × Bool :=
  match coordinate params 0, coordinate params 1 with
  | some _, some y => ({ a with pos_y := y }, (coordinate params 2).isSome)
  | _, _ => (a, false)

/-- **`skillspell`**, with an `npcid`. -/
def skillspell (s : State) (m : Spell) : State × Answer :=
  let uid := target cfg m.uid m.npcid
  if movecheck cfg uid = false then (s, .none)
  else if m.skillid = 10002 ∨ m.skillid = 10001 then
    match s.battle_attribute_infos uid with
    | none => (s, .none)
    | some a =>
      let (a, went) := relocate (Lua.splitComma m.params) a
      if went then
        pay cfg (s.set uid a) uid (cfg.get_skill_energycost m.skillid) (Number.max (.int 0))
      else (s.set uid a, .none)
  else pay cfg s uid (cfg.get_skill_energycost m.skillid) (Number.max (.int 0))

structure Turn where
  uid : Id
  npcid : Id
  location_y : Int64
  remainenergy : Int64

/-- **`turnend`**, without the marks of the turn. The energy it sends is what the sender
reports, within his bounds. -/
def turnend (s : State) (m : Turn) : State × Answer :=
  let uid := target cfg m.uid m.npcid
  if movecheck cfg uid = false ∧ cfg.getgroupid uid ≠ 0 then (s, .none)
  else
    match s.battle_attribute_infos uid with
    | none => (s, .none)
    | some a => (s.set uid { a with pos_y := .int m.location_y },
        .sent (clamp (.int m.remainenergy) (.int 0) (.int (cfg.getenergy m.uid))))

/-! ## Runs -/

inductive Event
  | move (m : Move)
  | jump (m : Jump)
  | jumpend (m : Jump)
  | fire (m : Fire)
  | skillspell (m : Spell)
  | turnend (m : Turn)

def serve (s : State) : Event → State × Answer
  | .move m => move cfg s m
  | .jump m => jump cfg s m
  | .jumpend m => jumpend cfg s m
  | .fire m => fire cfg s m
  | .skillspell m => skillspell cfg s m
  | .turnend m => turnend cfg s m

/-- An npc begins with the energy of its body, a player with that of his machine and
his chips. -/
def initialenergy (uid : Id) : Number :=
  if uid < 0 then .int (cfg.getenergy uid)
  else ((Number.int (cfg.getenergy uid)).mul ((cfg.chipenergy uid).add (.int 1))).ceil

/-- **The runs of the service**, under any messages. -/
def system : System State Event where
  init s := s.player_pos_y = none ∧
    ∀ uid a, s.battle_attribute_infos uid = some a → a.energy = initialenergy cfg uid
  step s e t := (serve cfg s e).1 = t

end Energy

end Athena
