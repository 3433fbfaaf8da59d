import Athena.Common.System
import Athena.Common.Chain
import Mathlib.Algebra.Group.Int.Defs
/-!
# The asynchronous logger — model

`lualib-src/lua-log.c`. Any thread appends a line to the current buffer
under the mutex; a full buffer is put on the list `buffers` and a spare
one takes its place. The worker takes the list and the current buffer
over, writes them to the file outside the mutex and recycles two of
them.

Buffers live in a heap. An access through `NULL` or a freed pointer, a
failed `assert` and a copy past the end of a buffer are halts of the
thread, so that their absence can be stated. `size` is the length of
`data`. The mutex-protected sections are single steps: `append`, and for
the worker the part up to `pthread_cond_timedwait` and the part after
it. What the worker does outside the mutex is on its own data and is cut
at every `fwrite`.

A clock reading is a day, counted from some fixed one; `mday` is the day
of the month of it. `fopen` succeeds, so the handle is a file, named by
the day and the index in its name.

Some fields are there to be spoken of: what was appended, what was
written and where, the number of takeovers, the bytes written since the
last `rollfile`, and the days `rollfile` went past index `0`.
-/

namespace Athena

namespace Log

abbrev Bytes := List UInt8

abbrev Ptr := ℕ

abbrev Day := ℕ

/-- `ONE_MB`, an `int`. -/
def oneMb : Int32 := 1024 * 1024

/-- `LOG_MAX`, above the length of a line. -/
def logMax : ℕ := 4 * 1024

/-- `LOG_BUFFER_SIZE`. -/
def logBufferSize : ℕ := 4 * 1024 * 1024

/-- `struct buffer`. -/
structure Buffer where
  next : Option Ptr
  data : Bytes

/-- A buffer from `calloc`, or cleared by `memset`. -/
def Buffer.zero : Buffer := ⟨none, []⟩

/-- `struct buffer_list`. -/
structure BufferList where
  head : Option Ptr
  tail : Option Ptr
  size : ℕ

def BufferList.empty : BufferList := ⟨none, none, 0⟩

/-- A log file: the day and the index in its name. -/
structure File where
  day : Day
  index : ℕ
deriving DecidableEq

/-- Where the worker stands. -/
inductive Pc
  /-- Before the first `rollfile`. -/
  | start
  /-- At `while (inst.running)`. -/
  | test
  /-- Inside the loop, before `pthread_mutex_lock`. -/
  | lock
  /-- Inside `pthread_cond_timedwait`. -/
  | wait
  /-- After `pthread_mutex_unlock`. -/
  | taken
  /-- In the `for` loop over `buffers_to_write`. -/
  | write (node : Option Ptr)
  /-- Returned. -/
  | done
deriving DecidableEq

/-- One `fwrite`: the takeover it belongs to, the file and the bytes. -/
structure Entry where
  round : ℕ
  file : File
  data : Bytes

/-- The part of `inst` that only the worker uses, and the clock. -/
structure Output where
  handle : Option File
  rollsize : Int32
  writtenBytes : ℕ
  rollMday : ℕ
  today : Day
  written : List Entry
  sinceRoll : ℕ
  pastZero : List Day

/-- **The state**: `inst`, the heap and the locals of the worker. -/
structure State where
  out : Output
  currBuffer : Ptr
  nextBuffer : Option Ptr
  buffers : BufferList
  running : Bool
  mem : Ptr → Option Buffer
  /-- The next address `calloc` returns. -/
  fresh : Ptr
  pc : Pc
  newBuffer1 : Option Ptr
  newBuffer2 : Option Ptr
  buffersToWrite : BufferList
  appended : Bytes
  round : ℕ

/-- Why a thread takes no step. -/
inductive Halt
  | assertion
  | segv
  | overflow
  /-- `rollfile` does not return. -/
  | hang
  /-- The worker has returned. -/
  | returned
deriving DecidableEq

/-- `assert`. -/
def assert (c : Bool) : Except Halt Unit := if c then .ok () else .error .assertion

/-- A read through a pointer. -/
def load (s : State) (p : Option Ptr) : Except Halt Buffer :=
  match p.bind s.mem with
  | some b => .ok b
  | none => .error .segv

/-- A write through a pointer that was read. -/
def store (s : State) (p : Ptr) (b : Buffer) : State :=
  { s with mem := Function.update s.mem p (some b) }

def calloc (s : State) : State × Ptr :=
  ({ store s s.fresh .zero with fresh := s.fresh + 1 }, s.fresh)

/-! ## Appending -/

/-- `memcpy` to the end of the current buffer, and its new size. -/
def copyLine (s : State) (line : Bytes) : Except Halt State := do
  let b ← load s s.currBuffer
  if logBufferSize < b.data.length + line.length then .error .overflow
  else .ok (store s s.currBuffer { b with data := b.data ++ line })

/-- The current buffer goes to the end of `buffers`. -/
def enqueue (s : State) : Except Halt State :=
  match s.buffers.head with
  | none => do
    assert s.buffers.tail.isNone
    .ok { s with buffers := ⟨some s.currBuffer, some s.currBuffer, s.buffers.size + 1⟩ }
  | some h => do
    let b ← load s s.buffers.tail
    let s := store s (s.buffers.tail.getD 0) { b with next := some s.currBuffer }
    .ok { s with buffers := ⟨some h, some s.currBuffer, s.buffers.size + 1⟩ }

/-- The spare buffer, or a new one when it is in use. -/
def spare (s : State) : State × Ptr :=
  match s.nextBuffer with
  | some n => ({ s with nextBuffer := none }, n)
  | none => calloc s

/-- The spare becomes the current buffer and the old one points to it. -/
def replaceCurr (s : State) : Except Halt State := do
  let (s, n) := spare s
  let b ← load s s.currBuffer
  let s := store s s.currBuffer { b with next := some n }
  .ok { s with currBuffer := n }

/-- **`append`.** -/
def append (s : State) (line : Bytes) : Except Halt State := do
  let b ← load s s.currBuffer
  let s ←
    if b.data.length + line.length < logBufferSize then copyLine s line
    else do
      let s ← enqueue s
      let t ← load s s.buffers.tail
      assert t.next.isNone
      let s ← replaceCurr s
      copyLine s line
  .ok { s with appended := s.appended ++ line }

/-! ## Rolling -/

/-- An `int` as a `size_t`. -/
def sizeT (n : Int32) : ℕ := (n.toInt % 2 ^ 64).toNat

/-- The loop of `rollfile` from an index on: the file it stays with and
the byte count. `names i` is the day read for the name with index `i`. -/
def rollLoop (rollsize : Int32) (names : ℕ → Day) : ℕ → ℕ → ℕ → Option (File × ℕ)
  | 0, _, _ => none
  | fuel + 1, writtenBytes, index =>
    if sizeT rollsize ≤ writtenBytes then rollLoop rollsize names fuel 0 (index + 1)
    else some (⟨names index, index⟩, writtenBytes)

/-- The readings of the clock during one step of the worker, and the text
of the time in the notice. -/
structure Clock where
  now : Day
  names : ℕ → Day
  stamp : Day
  timebuf : Bytes

/-- **`rollfile`.** The byte count is `0` from the second turn of its
loop on, so a third turn is the second again (`rollLoop_eq_none`). -/
def rollfile (mday : Day → ℕ) (c : Clock) (o : Output) : Except Halt Output :=
  match rollLoop o.rollsize c.names 2 o.writtenBytes 0 with
  | none => .error .hang
  | some (file, writtenBytes) =>
    .ok { o with
      handle := some file
      writtenBytes := writtenBytes
      rollMday := mday c.stamp
      today := c.stamp
      sinceRoll := 0
      pastZero := if file.index = 0 then o.pastZero else file.day :: o.pastZero }

/-- The roll after the wait, if the day of the month changed. -/
def dayRoll (mday : Day → ℕ) (c : Clock) (o : Output) : Except Halt Output :=
  let o := { o with today := c.now }
  if o.rollMday ≠ mday c.now then rollfile mday c o else .ok o

/-- The roll after the writes, if the file has grown too large. -/
def sizeRoll (mday : Day → ℕ) (c : Clock) (o : Output) : Except Halt Output :=
  let o := { o with today := c.now }
  if sizeT o.rollsize < o.writtenBytes then rollfile mday c o else .ok o

/-- One `fwrite`, if there is a file. -/
def fwrite (round : ℕ) (data : Bytes) (o : Output) : Output :=
  match o.handle with
  | none => o
  | some file =>
    { o with
      written := o.written ++ [⟨round, file, data⟩]
      writtenBytes := o.writtenBytes + data.length
      sinceRoll := o.sinceRoll + data.length }

/-! ## The worker -/

/-- The current buffer joins `buffers`, all of them are handed to the
worker, and the spares go to the front. -/
def take (s : State) : State :=
  let head := s.buffers.head.getD s.currBuffer
  let s := { s with
    buffersToWrite := ⟨some head, some s.currBuffer, s.buffers.size + 1⟩
    buffers := .empty
    currBuffer := s.newBuffer1.getD 0
    newBuffer1 := none
    pc := .taken
    round := s.round + 1 }
  match s.nextBuffer with
  | some _ => s
  | none => { s with nextBuffer := s.newBuffer2, newBuffer2 := none }

/-- The section after the wait. -/
def wake (mday : Day → ℕ) (c : Clock) (s : State) : Except Halt State := do
  let o ← dayRoll mday c s.out
  .ok (take { s with out := o })

/-- A text as bytes. -/
def ascii (s : String) : Bytes := s.toList.map fun c => UInt8.ofNat c.toNat

/-- The notice, cut by `snprintf` to `256` bytes with the final zero. -/
def notice (timebuf : Bytes) (dropped : ℕ) : Bytes :=
  (ascii "Dropped log messages at " ++ timebuf ++ ascii ", " ++ ascii (toString dropped) ++
    ascii " larger buffers\n").take 255

/-- The loop that frees a chain, for at most `n` cells. -/
def freeChain : ℕ → State → Option Ptr → Except Halt State
  | _, s, none => .ok s
  | 0, _, some _ => .error .hang
  | n + 1, s, some p => do
    let b ← load s p
    freeChain n { s with mem := Function.update s.mem p none } b.next

/-- The branch for more than `25` buffers: one notice, and all but the
first two are freed. -/
def dropExcess (c : Clock) (s : State) : Except Halt State := do
  let s ← append s (notice c.timebuf (s.buffersToWrite.size - 2))
  let h ← load s s.buffersToWrite.head
  let newTail ← load s h.next
  let s ← freeChain s.fresh s newTail.next
  let s := store s (h.next.getD 0) { newTail with next := none }
  .ok { s with buffersToWrite := ⟨s.buffersToWrite.head, h.next, 2⟩ }

/-- A buffer is popped off `buffers_to_write` and cleared. -/
def recycle (s : State) : Except Halt (State × Ptr) := do
  assert (0 < s.buffersToWrite.size)
  let b ← load s s.buffersToWrite.head
  let p := s.buffersToWrite.head.getD 0
  let s := store s p .zero
  .ok ({ s with buffersToWrite := ⟨b.next, s.buffersToWrite.tail, s.buffersToWrite.size - 1⟩ }, p)

/-- The end of an iteration: the spares of the worker are refilled and
the other buffers freed. -/
def refill (s : State) : Except Halt State := do
  let s ←
    match s.newBuffer1 with
    | some _ => .ok s
    | none => do
      let (s, p) ← recycle s
      .ok { s with newBuffer1 := some p }
  let s ←
    match s.newBuffer2 with
    | some _ => .ok s
    | none => do
      let (s, p) ← recycle s
      .ok { s with newBuffer2 := some p }
  let s ← freeChain s.fresh s s.buffersToWrite.head
  .ok { s with buffersToWrite := .empty, pc := .test }

/-- One turn of the `for` loop. -/
def writeNode (s : State) (p : Ptr) : Except Halt State := do
  let b ← load s p
  .ok { s with out := fwrite s.round b.data s.out, pc := .write b.next }

/-- **One step of `worker_func`.** -/
def worker (mday : Day → ℕ) (s : State) (c : Clock) : Except Halt State :=
  match s.pc with
  | .start => do
    let o ← rollfile mday c s.out
    let (s, p) := calloc { s with out := o }
    let (s, q) := calloc s
    .ok { s with newBuffer1 := some p, newBuffer2 := some q, pc := .test }
  | .test => .ok { s with pc := if s.running then .lock else .done }
  | .lock => do
    assert s.buffersToWrite.head.isNone
    let b1 ← load s s.newBuffer1
    assert b1.data.isEmpty
    let b2 ← load s s.newBuffer2
    assert b2.data.isEmpty
    match s.buffers.head with
    | none => .ok { s with pc := .wait }
    | some _ => wake mday c s
  | .wait => wake mday c s
  | .taken => do
    assert (0 < s.buffersToWrite.size)
    let s ← if 25 < s.buffersToWrite.size then dropExcess c s else .ok s
    .ok { s with pc := .write s.buffersToWrite.head }
  | .write (some p) => writeNode s p
  | .write none => do
    let o ← sizeRoll mday c s.out
    refill { s with out := o }
  | .done => .error .returned

/-! ## The system -/

/-- The `rollsize` of `linit`: the argument as an `int`, in megabytes,
with the product of two `int`s wrapped to an `int`. -/
def rollsizeOf (arg : Int64) : Int32 :=
  if 0 < arg.toInt32 then arg.toInt32 * oneMb else 1024 * oneMb

/-- The state after `linit`. -/
def initial (arg : Int64) (today : Day) : State where
  out := ⟨none, rollsizeOf arg, 0, 0, today, [], 0, []⟩
  currBuffer := 0
  nextBuffer := some 1
  buffers := .empty
  running := true
  mem := fun p => if p < 2 then some .zero else none
  fresh := 2
  pc := .start
  newBuffer1 := none
  newBuffer2 := none
  buffersToWrite := .empty
  appended := []
  round := 0

/-- The events: a line appended by some thread, `running = 0` in
`log_exit`, and a step of the worker. -/
inductive Event
  | append (line : Bytes)
  | exit
  | worker (c : Clock)

/-- The clock does not run backwards. -/
def Clock.Forward (c : Clock) (today : Day) : Prop :=
  today ≤ c.now ∧ (∀ i, c.now ≤ c.names i) ∧ Monotone c.names ∧ ∀ i, c.names i ≤ c.stamp

/-- What an event makes of a state. -/
def step (mday : Day → ℕ) (s : State) : Event → Except Halt State
  | .append line => append s line
  | .exit => .ok { s with running := false }
  | .worker c => worker mday s c

/-- What may happen: a line shorter than `LOG_MAX`, and any reading of
the clock that is not earlier than the last. -/
def Admissible (s : State) : Event → Prop
  | .append line => line.length < logMax
  | .exit => True
  | .worker c => c.Forward s.out.today

/-- **The logger**, under every interleaving of appends with the steps of
its worker. -/
def system (mday : Day → ℕ) (arg : Int64) : System State Event where
  init s := ∃ today, s = initial arg today
  step s e t := Admissible s e ∧ step mday s e = .ok t

end Log

end Athena
