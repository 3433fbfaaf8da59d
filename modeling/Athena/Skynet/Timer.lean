import Athena.Common.Agenda
import Mathlib.Algebra.Group.Nat.Defs
/-!
# Timers — model

`skynet-src/skynet_timer.c`. A timer is in a list: of the next 256 times each has
its own, and those behind are in four levels of lists, a list of a level for as many
times as the level below has in all. When the time comes to the first of a list of a
level, `timer_shift` puts what is in it in its place anew. The time has 32 bits and
goes round.

All of it is under one lock. `timer_execute` takes the list of the time there is as
often as it finds something in it, and lets the lock go to send it; when it finds
nothing, `timer_shift` follows. A linked list is a list here.
-/

namespace Athena

namespace Skynet

/-- `TIME_NEAR_SHIFT`. -/
def timeNearShift : ℕ := 8

/-- `TIME_NEAR`. -/
def timeNear : ℕ := 1 <<< timeNearShift

/-- `TIME_LEVEL_SHIFT`. -/
def timeLevelShift : ℕ := 6

/-- `TIME_LEVEL`. -/
def timeLevel : ℕ := 1 <<< timeLevelShift

/-- `TIME_NEAR_MASK`. -/
def timeNearMask : ℕ := timeNear - 1

/-- `TIME_LEVEL_MASK`. -/
def timeLevelMask : ℕ := timeLevel - 1

/-- `uint32_t`. -/
def uint32 (n : ℕ) : ℕ := n % 2 ^ 32

/-- `struct timer_event`. -/
structure TimerEvent where
  handle : ℕ
  session : ℤ
  deriving DecidableEq

/-- `struct timer_node`, with its event. -/
structure TimerNode where
  expire : ℕ
  event : TimerEvent
  deriving DecidableEq

/-- A list of `T->near` or of `T->t`. -/
inductive Slot
  | near (i : ℕ)
  | t (level i : ℕ)
  deriving DecidableEq

/-- **`struct timer`.** -/
structure Timer where
  list : Slot → List TimerNode
  time : ℕ

/-- `link_clear`. -/
def link_clear (T : Timer) (s : Slot) : List TimerNode × Timer :=
  (T.list s, { T with list := Function.update T.list s [] })

/-- `link`. -/
def link (T : Timer) (s : Slot) (node : TimerNode) : Timer :=
  { T with list := Function.update T.list s (T.list s ++ [node]) }

/-- The loop of `add_node` over the levels, of which `n` are left. -/
def add_level (time current_time : ℕ) : ℕ → ℕ → ℕ → ℕ
  | 0, i, _ => i
  | n + 1, i, mask =>
    if (time ||| (mask - 1)) = (current_time ||| (mask - 1)) then i
    else add_level time current_time n (i + 1) (uint32 (mask <<< timeLevelShift))

/-- **`add_node`.** -/
def add_node (T : Timer) (node : TimerNode) : Timer :=
  let time := node.expire
  let current_time := T.time
  if (time ||| timeNearMask) = (current_time ||| timeNearMask) then link T (.near (time &&& timeNearMask)) node
  else
    let i := add_level time current_time 3 0 (timeNear <<< timeLevelShift)
    link T (.t i ((time >>> (timeNearShift + i * timeLevelShift)) &&& timeLevelMask)) node

/-- **`timer_add`.** -/
def timer_add (T : Timer) (event : TimerEvent) (time : ℕ) : Timer :=
  add_node T ⟨uint32 (time + T.time), event⟩

/-- **`move_list`.** -/
def move_list (T : Timer) (level idx : ℕ) : Timer :=
  let (current, T) := link_clear T (.t level idx)
  current.foldl add_node T

/-- The loop of `timer_shift` over the levels, of which `n` are left; behind the last
it reads past `T->t`. -/
def shift_level (T : Timer) (ct : ℕ) : ℕ → ℕ → ℕ → ℕ → Option Timer
  | 0, _, _, _ => none
  | n + 1, i, mask, time =>
    if ct &&& (mask - 1) = 0 then
      let idx := time &&& timeLevelMask
      if idx ≠ 0 then some (move_list T i idx)
      else shift_level T ct n (i + 1) (mask <<< timeLevelShift) (time >>> timeLevelShift)
    else some T

/-- **`timer_shift`.** -/
def timer_shift (T : Timer) : Option Timer :=
  let ct := uint32 (T.time + 1)
  let T := { T with time := ct }
  if ct = 0 then some (move_list T 3 0) else shift_level T ct 4 0 timeNear (ct >>> timeNearShift)

/-- The list `timer_execute` looks at. -/
def Timer.current (T : Timer) : Slot := .near (T.time &&& timeNearMask)

/-- `timer_create_timer`. -/
def timer_create_timer : Timer := ⟨fun _ => [], 0⟩

/-- **The timer**, under every interleaving of those that set timers with the thread
that calls `timer_update`. The `time` of `skynet_timeout` is an `int`, and is not set
when it is not positive. -/
def timer : System Timer (Agenda.Label TimerEvent) where
  init T := T = timer_create_timer
  step T e T' :=
    match e with
    | .set n event => 0 < n ∧ n < 2 ^ 31 ∧ T' = timer_add T event n
    | .fire events => events ≠ [] ∧ (link_clear T T.current).1.map (·.event) = events ∧
        T' = (link_clear T T.current).2
    | .tick => T.list T.current = [] ∧ timer_shift T = some T'

end Skynet

end Athena
