import Athena.Common.Chain
import Athena.Common.Ring
import Athena.Common.System
/-!
# Services and their message queues — model

`skynet-src/skynet_mq.c`, with what `skynet_server.c` does to contexts and queues.
A service is a context and its queue. Any thread sends to a handle: it grabs the
context, pushes the message and lets the context go. A queue with messages is on
the global queue, or a worker has it and hands its messages to the callback one
after the other. A context goes with its last reference, and leaves its queue
marked for the worker that finds it next to drop.

What runs under a lock is one step, and so is an atomic count: a state says of
every thread where between two of them it stands (`Pc`). A callback sends, starts
and kills services through threads of its own here, so nothing is assumed of the
order in which it does so, and it may return at any time. A read through a freed
pointer and a failed `assert` are halts. `skynet_handle_register` and
`skynet_mq_create` are one step: what sends to the handle, or kills it, between the two
is left out. A context and its queue have the same address, each in its own heap.

`sent`, `handled` and `dropped` are there to be spoken of: what was pushed to a
queue, what a worker took out of it in its turn, for the callback or to free it where
there is none, and what left it with an error for its source.
-/

namespace Athena

namespace Skynet

abbrev Ptr := ℕ

/-- `struct skynet_message`. -/
structure Message where
  source : ℕ
  session : ℤ
  data : Ptr
  sz : ℕ
  deriving DecidableEq

/-- `struct message_queue`, but for its `next`. -/
structure MessageQueue where
  handle : ℕ
  ring : Ring Message
  release : Bool
  inGlobal : Bool
  overload : ℕ
  overloadThreshold : ℕ

/-- `struct skynet_context`. -/
structure Context where
  handle : ℕ
  queue : Ptr
  ref : ℤ
  init : Bool
  /-- Whether there is a callback. -/
  cb : Bool

/-- `MQ_OVERLOAD`. -/
def mqOverload : ℕ := 1024

/-- `DEFAULT_QUEUE_SIZE`. -/
def defaultQueueSize : ℕ := 64

/-- What a thread does after `skynet_context_release`. -/
inductive Next
  | idle
  /-- It returns the queue to `thread_worker`. -/
  | held (q : Ptr)
  /-- `skynet_context_new`, after `init`, -/
  | launch (q : Ptr)
  /-- after an `init` that failed, -/
  | fail (q : Ptr) (handle : ℕ)
  /-- and after `skynet_handle_retire`. -/
  | orphan (q : Ptr)
  deriving DecidableEq

/-- **Where a thread stands.** -/
inductive Pc
  | idle
  /-- A worker has a queue, -/
  | held (q : Ptr)
  /-- whose handle is nobody's; before `skynet_mq_release`. -/
  | orphan (q : Ptr)
  /-- In `_drop_queue`. -/
  | dropping (q : Ptr)
  /-- It has grabbed the context; before `skynet_mq_pop`, at turn `i` of `n`. -/
  | granted (q c : Ptr) (i n : ℕ)
  | popped (q c : Ptr) (i n : ℕ)
  /-- In the callback. -/
  | handling (q c : Ptr) (i n : ℕ)
  /-- After the loop, -/
  | spent (q c : Ptr)
  /-- with another queue from the global queue. -/
  | swapping (q c nq : Ptr)
  /-- In `skynet_context_push`, with the context grabbed. -/
  | pushing (c : Ptr) (m : Message)
  /-- Before `ATOM_DEC`, -/
  | releasing (c : Ptr) (k : Next)
  /-- and after it, where the count is zero. -/
  | marking (c : Ptr) (k : Next)
  /-- In `skynet_context_new`: in the `init` of the module, -/
  | initing (c q : Ptr)
  /-- before `ctx->init = true`, -/
  | launching (c q : Ptr)
  /-- before `skynet_globalmq_push`, with what it returns, -/
  | enqueuing (q : Ptr) (ret : Option Ptr)
  /-- before the line of the log, for which it reads what it returns, -/
  | logging (ret : Ptr)
  /-- and before `skynet_handle_retire`. -/
  | retiring (q : Ptr) (handle : ℕ)
  deriving DecidableEq

/-- Where a thread goes on when the context is still there, -/
def Next.after (c : Ptr) : Next → Pc
  | .idle => .idle
  | .held q => .held q
  | .launch q => .launching c q
  | .fail q handle => .retiring q handle
  | .orphan q => .orphan q

/-- and when it is gone. -/
def Next.gone : Next → Pc
  | .idle => .idle
  | .held q => .held q
  | .launch q => .enqueuing q none
  | .fail q handle => .retiring q handle
  | .orphan q => .orphan q

variable (T : Type)

/-- **The state of a node.** -/
structure State where
  /-- `Q->head` and `Q->tail`. -/
  head : Option Ptr
  tail : Option Ptr
  queues : Ptr → Option MessageQueue
  /-- The `next` of each queue. -/
  next : Ptr → Option Ptr
  contexts : Ptr → Option Context
  /-- The context `skynet_handle_register` has put under a handle. -/
  slot : ℕ → Option Ptr
  /-- The next address. -/
  fresh : Ptr
  pc : T → Pc
  sent : Ptr → List Message
  handled : Ptr → List Message
  dropped : Ptr → List Message

/-- Why there is no step. -/
inductive Halt
  | assertion
  | segv
  /-- The thread does something else. -/
  | busy
  deriving DecidableEq

/-- What begins in a thread that is idle, the result of `init`, what a module does in its
`init` or its callback, and the next step of a thread. -/
inductive Event
  | dispatch (t : T)
  | send (t : T) (handle : ℕ) (m : Message)
  | retire (t : T) (handle : ℕ)
  | create (t : T) (handle : ℕ)
  | inited (t : T) (ok : Bool)
  | callback (t : T) (cb : Bool)
  | step (t : T)

variable {T}

/-- `assert`. -/
def assert (b : Bool) : Except Halt Unit := if b then .ok () else .error .assertion

/-- A read through a pointer to a queue, -/
def State.queue (s : State T) (q : Ptr) : Except Halt MessageQueue :=
  match s.queues q with
  | some mq => .ok mq
  | none => .error .segv

/-- and to a context. -/
def State.context (s : State T) (c : Ptr) : Except Halt Context :=
  match s.contexts c with
  | some x => .ok x
  | none => .error .segv

def State.setqueue (s : State T) (q : Ptr) (mq : MessageQueue) : State T :=
  { s with queues := Function.update s.queues q (some mq) }

def State.setcontext (s : State T) (c : Ptr) (x : Context) : State T :=
  { s with contexts := Function.update s.contexts c (some x) }

/-! ## Queues -/

/-- **`skynet_globalmq_push`.** -/
def globalmq_push (s : State T) (q : Ptr) : Except Halt (State T) := do
  let _ ← s.queue q
  assert (s.next q).isNone
  match s.tail with
  | some p =>
    let _ ← s.queue p
    .ok { s with next := Function.update s.next p (some q), tail := some q }
  | none => .ok { s with head := some q, tail := some q }

/-- **`skynet_globalmq_pop`.** -/
def globalmq_pop (s : State T) : Except Halt (Option Ptr × State T) :=
  match s.head with
  | none => .ok (none, s)
  | some p => do
    let _ ← s.queue p
    let t := { s with head := s.next p, next := Function.update s.next p none }
    match s.next p with
    | some _ => .ok (some p, t)
    | none =>
      assert (s.tail = some p)
      .ok (some p, { t with tail := none })

/-- `skynet_mq_create`; what is in the cells is of no matter. -/
def mq_create (handle : ℕ) : MessageQueue where
  handle := handle
  ring := .empty defaultQueueSize (by decide) fun _ => ⟨0, 0, 0, 0⟩
  release := false
  inGlobal := true
  overload := 0
  overloadThreshold := mqOverload

/-- The loop over `overload_threshold`, which is doubled, for a number of turns. -/
def overloaded (length : ℕ) : ℕ → ℕ × ℕ → ℕ × ℕ
  | 0, o => o
  | n + 1, o => if o.2 < length then overloaded length n (length, o.2 * 2) else o

/-- **`skynet_mq_pop`.** -/
def mq_pop (q : MessageQueue) : Option Message × MessageQueue :=
  match q.ring.pop with
  | none => (none, { q with overloadThreshold := mqOverload, inGlobal := false })
  | some (m, ring) =>
    let o := overloaded ring.length ring.length (q.overload, q.overloadThreshold)
    (some m, { q with ring := ring, overload := o.1, overloadThreshold := o.2 })

/-- **`skynet_mq_push`.** -/
def mq_push (s : State T) (q : Ptr) (m : Message) : Except Halt (State T) := do
  let mq ← s.queue q
  let mq := { mq with ring := mq.ring.push m mq.ring.cap mq.ring.cap_pos }
  let s := { s with sent := Function.update s.sent q (s.sent q ++ [m]) }
  if mq.inGlobal then .ok (s.setqueue q mq)
  else globalmq_push (s.setqueue q { mq with inGlobal := true }) q

/-- **`skynet_mq_mark_release`.** -/
def mq_mark_release (s : State T) (q : Ptr) : Except Halt (State T) := do
  let mq ← s.queue q
  assert !mq.release
  let s := s.setqueue q { mq with release := true }
  if mq.inGlobal then .ok s else globalmq_push s q

/-! ## Handles -/

/-- **`skynet_handle_grab`.** -/
def grab (s : State T) (handle : ℕ) : Except Halt (Option Ptr × State T) :=
  match s.slot handle with
  | none => .ok (none, s)
  | some c => do
    let x ← s.context c
    if x.handle = handle then .ok (some c, s.setcontext c { x with ref := x.ref + 1 })
    else .ok (none, s)

variable [DecidableEq T] (weight : T → Option ℕ)

def State.goto (s : State T) (t : T) (pc : Pc) : State T := { s with pc := Function.update s.pc t pc }

/-- **`skynet_handle_retire`**, up to its `skynet_context_release`. -/
def retire (s : State T) (t : T) (handle : ℕ) (k : Next) : Except Halt (State T) :=
  match s.slot handle with
  | none => .ok (s.goto t k.gone)
  | some c => do
    let x ← s.context c
    if x.handle = handle then
      .ok ({ s with slot := Function.update s.slot handle none }.goto t (.releasing c k))
    else .ok (s.goto t k.gone)

/-- **`skynet_context_new`**, up to `init`. -/
def create (s : State T) (t : T) (handle : ℕ) : State T :=
  { s with
      queues := Function.update s.queues s.fresh (some (mq_create handle))
      contexts := Function.update s.contexts s.fresh (some ⟨handle, s.fresh, 2, false, false⟩)
      slot := Function.update s.slot handle (some s.fresh)
      fresh := s.fresh + 1 }.goto t (.initing s.fresh s.fresh)

/-! ## Threads -/

/-- The turns of the loop of `skynet_context_message_dispatch`, counted at the first. -/
def turns (w : Option ℕ) (length i n : ℕ) : ℕ :=
  if i = 0 then
    match w with
    | none => n
    | some w => length >>> w
  else n

/-- The end of a turn. -/
def again (q c : Ptr) (i n : ℕ) : Pc := if i + 1 < n then .granted q c (i + 1) n else .spent q c

/-- **The next step of a thread.** -/
def run (s : State T) (t : T) : Except Halt (State T) :=
  match s.pc t with
  | .idle => .error .busy
  | .held q => do
    let mq ← s.queue q
    match ← grab s mq.handle with
    | (none, s) => .ok (s.goto t (.orphan q))
    | (some c, s) => .ok (s.goto t (.granted q c 0 1))
  | .orphan q => do
    let mq ← s.queue q
    if mq.release then .ok (s.goto t (.dropping q))
    else
      let s ← globalmq_push s q
      .ok (s.goto t .idle)
  | .dropping q => do
    let mq ← s.queue q
    match mq_pop mq with
    | (some m, mq) =>
      .ok { s.setqueue q mq with dropped := Function.update s.dropped q (s.dropped q ++ [m]) }
    | (none, _) =>
      assert (s.next q).isNone
      .ok ({ s with queues := Function.update s.queues q none }.goto t .idle)
  | .granted q c i n => do
    let mq ← s.queue q
    match mq_pop mq with
    | (none, mq) => .ok ((s.setqueue q mq).goto t (.releasing c .idle))
    | (some m, mq) =>
      .ok ({ s.setqueue q mq with handled := Function.update s.handled q (s.handled q ++ [m]) }.goto t
        (.popped q c i n))
  | .popped q c i n => do
    let mq ← s.queue q
    let x ← s.context c
    let n := turns (weight t) mq.ring.length i n
    let s := s.setqueue q { mq with overload := 0 }
    if x.cb then
      assert x.init
      .ok (s.goto t (.handling q c i n))
    else
      -- the message is freed
      .ok (s.goto t (again q c i n))
  | .handling q c i n => .ok (s.goto t (again q c i n))
  | .spent q c => do
    let x ← s.context c
    assert (x.queue = q)
    match ← globalmq_pop s with
    | (none, s) => .ok (s.goto t (.releasing c (.held q)))
    | (some nq, s) => .ok (s.goto t (.swapping q c nq))
  | .swapping q c nq => do
    let s ← globalmq_push s q
    .ok (s.goto t (.releasing c (.held nq)))
  | .pushing c m => do
    let x ← s.context c
    let s ← mq_push s x.queue m
    .ok (s.goto t (.releasing c .idle))
  | .releasing c k => do
    let x ← s.context c
    let s := s.setcontext c { x with ref := x.ref - 1 }
    if x.ref - 1 = 0 then .ok (s.goto t (.marking c k)) else .ok (s.goto t (k.after c))
  | .marking c k => do
    let x ← s.context c
    let s ← mq_mark_release s x.queue
    .ok ({ s with contexts := Function.update s.contexts c none }.goto t k.gone)
  | .initing _ _ => .error .busy
  | .launching c q => do
    let x ← s.context c
    .ok ((s.setcontext c { x with init := true }).goto t (.enqueuing q (some c)))
  | .enqueuing q ret => do
    let s ← globalmq_push s q
    .ok (s.goto t (ret.elim .idle .logging))
  | .logging ret => do
    let _ ← s.context ret
    .ok (s.goto t .idle)
  | .retiring q handle => retire s t handle (.orphan q)

/-- **One step.** -/
def step (s : State T) : Event T → Except Halt (State T)
  | .dispatch t =>
    if s.pc t = .idle then do
      match ← globalmq_pop s with
      | (none, s) => .ok s
      | (some q, s) => .ok (s.goto t (.held q))
    else .error .busy
  | .send t handle m =>
    if s.pc t = .idle then do
      match ← grab s handle with
      | (none, s) => .ok s
      | (some c, s) => .ok (s.goto t (.pushing c m))
    else .error .busy
  | .retire t handle => if s.pc t = .idle then retire s t handle .idle else .error .busy
  | .create t handle =>
    if s.pc t = .idle ∧ s.slot handle = none then .ok (create s t handle) else .error .busy
  | .inited t ok =>
    match s.pc t with
    | .initing c q => do
      let x ← s.context c
      .ok (s.goto t (.releasing c (if ok then .launch q else .fail q x.handle)))
    | _ => .error .busy
  | .callback t cb =>
    match s.pc t with
    | .initing c _ | .handling _ c _ _ => do
      let x ← s.context c
      .ok (s.setcontext c { x with cb := cb })
    | _ => .error .busy
  | .step t => run weight s t

/-- The state after `skynet_mq_init`. -/
def initial : State T where
  head := none
  tail := none
  queues _ := none
  next _ := none
  contexts _ := none
  slot _ := none
  fresh := 0
  pc _ := .idle
  sent _ := []
  handled _ := []
  dropped _ := []

/-- **A node**, under every interleaving of its threads. -/
def node : System (State T) (Event T) where
  init s := s = initial
  step s e t := step weight s e = .ok t

end Skynet

end Athena
