import Athena.Common.System
import Athena.Lua.Arith
/-!
# The buffs of a battle — model

`game/battle/battlebuffhandler.lua`: one list for all the fighters of a battle. A
weapon or an area adds a buff to a fighter, by the stacking rule of the buff's
type; a round looks for the entries whose turn has come, lets the battle settle
them, and takes a jump from each. Positions count from 0 here.

An entry also carries what the code does not keep and the statements count: the
jumps granted to it and the times it was settled. The entries that ran out are
recorded as they were when `onsettledbuff` removed them.
-/

namespace Athena

namespace Buff

open Lua (Number)

/-! ## The table -/

def battlebufftype.unoverlay : ℤ := 1

def battlebufftype.extend : ℤ := 2

def battlebufftype.overlaymult : ℤ := 3

def battlebufftype.overlaysingle : ℤ := 4

def battlebufftype.switch : ℤ := 5

/-- A row of the table `buff`, as far as it is read here. -/
structure Row where
  BUFF_Type : ℤ
  Round_Speed : ℤ
  During : ℤ
  Stack_Max : ℤ

abbrev Table := ℤ → Option Row

/-- `math.floor(getbuffduring(buffid) * getroundspeed(buffid) / 10000)`. -/
def Row.jumps (row : Row) : ℤ := row.During * row.Round_Speed / 10000

/-- `10000 / getroundspeed(buffid)`, a division of doubles. -/
def Row.roundlong (row : Row) : Number :=
  if row.Round_Speed = 0 then .inf false else Lua.toDouble (10000 / row.Round_Speed)

/-! ## The list -/

/-- **An entry.** The last two fields are counts for the statements. -/
structure BuffInfo where
  curturnlong : Number
  buffid : ℤ
  level : ℤ
  caster : ℤ
  recver : ℤ
  jumpnum : ℤ
  granted : ℤ
  settled : ℤ

/-- `battleproxy_buffactive`, which goes to every player of the battle. -/
structure BuffMsg where
  playerid : ℤ
  buffid : ℤ
  isactive : Bool
  level : ℤ

/-- **The memory of the handler**, what it sent, and the entries that ran out. -/
structure State where
  battlebuffinfos : List BuffInfo
  sent : List BuffMsg
  expired : List BuffInfo

/-- Before a battle. -/
def initial : State := ⟨[], [], []⟩

def BuffInfo.same (buffid recver : ℤ) (b : BuffInfo) : Bool :=
  b.buffid = buffid && b.recver = recver

/-- The first position of a buff of a fighter. -/
def getbuffinfo (s : State) (buffid recver : ℤ) : Option ℕ :=
  s.battlebuffinfos.findIdx? (BuffInfo.same buffid recver)

/-- A buff that the table does not have raises, here and below. -/
def newbuffinfo (cfg : Table) (curturnlong : Number) (buffid caster recver : ℤ) : Option BuffInfo :=
  (cfg buffid).map fun row => ⟨curturnlong, buffid, 1, caster, recver, row.jumps, row.jumps, 0⟩

def getoverlaymult_level (s : State) (buffid recver : ℤ) : ℤ :=
  s.battlebuffinfos.countP (BuffInfo.same buffid recver)

def buffsync (s : State) (playerid buffid : ℤ) (isactive : Bool) (level : ℤ) : State :=
  { s with sent := s.sent ++ [⟨playerid, buffid, isactive, level⟩] }

/-- `table.insert(battlebuffinfos, buffinfo)`. -/
def State.insert (s : State) (b : BuffInfo) : State :=
  { s with battlebuffinfos := s.battlebuffinfos ++ [b] }

/-- A write to the entry at a position. -/
def State.modify (s : State) (i : ℕ) (f : BuffInfo → BuffInfo) : State :=
  { s with battlebuffinfos := s.battlebuffinfos.modify i f }

/-! ## Settling -/

/-- The positions of the entries that a round settles. -/
def get_damaging_buff (s : State) (curturnlong : Number) : List ℕ :=
  (s.battlebuffinfos.zipIdx.filter fun p => p.1.curturnlong.lt curturnlong).map Prod.snd

/-- What settling does to an entry: one jump less, and a turn later. -/
def BuffInfo.settle (row : Row) (b : BuffInfo) : BuffInfo :=
  { b with
    jumpnum := b.jumpnum - 1
    curturnlong := b.curturnlong.add row.roundlong
    settled := b.settled + 1 }

/-- A turn of the first loop. -/
def settle (cfg : Table) (s : State) (i : ℕ) : Option State := do
  let b ← s.battlebuffinfos[i]?
  let row ← cfg b.buffid
  pure (s.modify i (BuffInfo.settle row))

/-- What is sent when an entry runs out: the layers that are left of a buff whose
layers count apart. -/
def syncexpired (s : State) (row : Row) (b : BuffInfo) : State :=
  if row.BUFF_Type ≠ battlebufftype.overlaymult then buffsync s b.recver b.buffid false 0
  else
    let bufflevel := getoverlaymult_level s b.buffid b.recver
    if bufflevel ≤ 1 then buffsync s b.recver b.buffid false 0
    else buffsync s b.recver b.buffid true (bufflevel - 1)

/-- **The second loop**, over the positions below `i` from the last one down. -/
def sweep (cfg : Table) : ℕ → State → Option State
  | 0, s => some s
  | i + 1, s => do
    let b ← s.battlebuffinfos[i]?
    if b.jumpnum ≤ 0 then
      let row ← cfg b.buffid
      let s := syncexpired s row b
      sweep cfg i { s with
        battlebuffinfos := s.battlebuffinfos.eraseIdx i
        expired := s.expired ++ [b] }
    else sweep cfg i s

/-- **`onsettledbuff`.** -/
def onsettledbuff (cfg : Table) (s : State) (damagingbuff_indexs : List ℕ) : Option State :=
  if damagingbuff_indexs = [] then some s
  else do
    let s ← damagingbuff_indexs.foldlM (settle cfg) s
    sweep cfg s.battlebuffinfos.length s

/-! ## Adding and deleting -/

def delbuffinfo (s : State) (buffid recver : ℤ) : State :=
  match getbuffinfo s buffid recver with
  | some i => { s with battlebuffinfos := s.battlebuffinfos.eraseIdx i }
  | none => s

/-- More jumps for an entry. -/
def BuffInfo.extend (row : Row) (b : BuffInfo) : BuffInfo :=
  { b with jumpnum := b.jumpnum + row.jumps, granted := b.granted + row.jumps }

/-- More jumps and, below the limit, one level more. -/
def BuffInfo.overlay (row : Row) (b : BuffInfo) : BuffInfo :=
  { b.extend row with level := if b.level < row.Stack_Max then b.level + 1 else b.level }

/-- **`addbuffinfo`.** Each lookup of the table is of the same buff, and the first
comes before any write. -/
def addbuffinfo (cfg : Table) (s : State) (curturnlong : Number) (buffid caster recver : ℤ) :
    Option State :=
  match getbuffinfo s buffid recver with
  | none => do
    let buffinfo ← newbuffinfo cfg curturnlong buffid caster recver
    pure (buffsync (s.insert buffinfo) recver buffid true 1)
  | some buffindex => do
    let row ← cfg buffid
    if row.BUFF_Type = battlebufftype.unoverlay then pure s
    else if row.BUFF_Type = battlebufftype.extend then
      pure (s.modify buffindex (BuffInfo.extend row))
    else if row.BUFF_Type = battlebufftype.overlaymult then
      if row.Stack_Max ≤ getoverlaymult_level s buffid recver then pure s
      else do
        let buffinfo ← newbuffinfo cfg curturnlong buffid caster recver
        let s := s.insert buffinfo
        pure (buffsync s recver buffid true (getoverlaymult_level s buffid recver))
    else if row.BUFF_Type = battlebufftype.overlaysingle then do
      let s := s.modify buffindex (BuffInfo.overlay row)
      let buffinfo ← s.battlebuffinfos[buffindex]?
      pure (buffsync s recver buffid true buffinfo.level)
    else if row.BUFF_Type = battlebufftype.switch then
      pure (buffsync (delbuffinfo s buffid recver) recver buffid false 0)
    else pure s

/-! ## Runs -/

inductive Event
  | add (curturnlong : Number) (buffid caster recver : ℤ)
  | del (buffid recver : ℤ)
  /-- `get_damaging_buff`, and `onsettledbuff` of what it returns. -/
  | round (curturnlong : Number)

/-- One call, where it returns. An addition that raises leaves the state. -/
def step (cfg : Table) (s : State) : Event → Option State
  | .add curturnlong buffid caster recver =>
    some ((addbuffinfo cfg s curturnlong buffid caster recver).getD s)
  | .del buffid recver => some (delbuffinfo s buffid recver)
  | .round curturnlong => onsettledbuff cfg s (get_damaging_buff s curturnlong)

/-- **The runs of the handler**, from the empty list. -/
def system (cfg : Table) : System State Event where
  init s := s = initial
  step s e t := step cfg s e = some t

end Buff

end Athena
