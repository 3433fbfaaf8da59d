import Athena.Common.System
import Athena.Skynet.Netpack
/-!
# Packets of a gate

`lualib/snax/gateserver.lua` with `dispatch_message` of `skynet.lua` under it. A message
of the socket thread goes through `netpack.filter`; one packet goes to `dispatch_msg`, and
`"more"` to `dispatch_queue`, which forks itself before it dispatches: where
`handler.message` blocks or raises, the fork goes on with the queue. A loop that has
blocked goes on when it is resumed, with the queue that it began with.

Whatever the handlers do, a message leaves the queue empty, and the packets are dispatched
in the order of the streams, none twice (`gateserver_order`, `gateserver_drains`). So what a
client writes with `netpack.pack` is what `handler.message` gets (`gateserver_delivers`).
-/

namespace Athena

namespace Skynet

namespace Gateserver

open Netpack (Pack Queue filter_data_ close_uncomplete pop framing)

/-- How `handler.message` leaves the coroutine that calls it. -/
inductive Outcome
  | returns
  | raises
  | blocks
  deriving DecidableEq

/-- **What the service does**: it waits for a message, begins `dispatch_queue`, is in the
loop there, or a coroutine has stopped, and others may run. -/
inductive Control
  | idle
  | starts
  | loops
  | settles
  deriving DecidableEq

/-- What `dispatch_msg` does with a packet. -/
inductive Out
  | message (p : Pack)
  | drop (p : Pack)

structure State where
  queue : Queue
  connection : ℕ → Option Bool
  control : Control
  /-- How often `dispatch_queue` is in `fork_queue`. -/
  forks : ℕ
  /-- The calls of `dispatch_queue` that have blocked: before the loop, or in the loop over a
  queue of some size, where a larger queue is another. -/
  blocked : List (Option ℕ)
  log : List Out

inductive Event
  /-- `SKYNET_SOCKET_TYPE_DATA` with a byte and those after it. -/
  | data (fd : ℕ) (b : UInt8) (bytes : List UInt8)
  /-- `SKYNET_SOCKET_TYPE_CLOSE` and `SKYNET_SOCKET_TYPE_ERROR`, in `netpack.filter`. -/
  | close (fd : ℕ)
  /-- `connection[fd]` is written by `MSG.open`, `closeclient` or `close_fd`. -/
  | connection (fd : ℕ) (c : Option Bool)
  /-- The coroutine goes on to its next `handler.message`, or the next coroutine begins. -/
  | run (o : Outcome)
  /-- A call of `dispatch_queue` that has blocked is resumed. -/
  | wake (i : ℕ) (o : Outcome)
  deriving DecidableEq

/-- **`dispatch_msg`.** A packet of a closed connection is dropped. -/
def dispatch_msg (p : Pack) (s : State) : State :=
  { s with log := s.log ++ [if s.connection p.id = some true then .message p else .drop p] }

/-- The coroutine after `dispatch_msg` of a packet, before the loop or in it. -/
def after (p : Pack) (loop : Option ℕ) (o : Outcome) (s : State) : State :=
  if s.connection p.id = some true then
    match o with
    | .returns => { s with control := .loops }
    | .raises => { s with control := .settles }
    | .blocks => { s with control := .settles, blocked := s.blocked ++ [loop] }
  else { s with control := .loops }

/-- `dispatch` of the protocol, with what `netpack.filter` makes of some bytes. -/
def data (fd : ℕ) (b : UInt8) (bytes : List UInt8) (s : State) : State :=
  match filter_data_ s.queue fd b bytes with
  | (q, .none) => { s with queue := q }
  | (q, .data fd buffer) => { dispatch_msg ⟨fd, buffer⟩ { s with queue := q } with control := .settles }
  | (q, .more) => { s with queue := q, control := .starts }

/-- **`dispatch_queue`**, the loop in it, and the loop of `dispatch_message` over the forks. -/
def run (o : Outcome) (s : State) : State :=
  match s.control with
  | .idle => s
  | .starts =>
    match pop s.queue with
    | none => { s with control := .settles }
    | some (p, q) => after p none o (dispatch_msg p { s with queue := q, forks := s.forks + 1 })
  | .loops =>
    match pop s.queue with
    | none => { s with control := .settles }
    | some (p, q) => after p (some q.queue.cap) o (dispatch_msg p { s with queue := q })
  | .settles => if s.forks = 0 then { s with control := .idle } else { s with control := .starts, forks := s.forks - 1 }

/-- `dispatch_queue` goes on with the packets of its queue, and finds none in a queue that
has been copied into a larger one. -/
def wake (i : ℕ) (o : Outcome) (s : State) : State :=
  match s.blocked[i]?, o with
  | none, _ => s
  | some _, .blocks => s
  | some _, .raises => { s with blocked := s.blocked.eraseIdx i, control := .settles }
  | some none, .returns => { s with blocked := s.blocked.eraseIdx i, control := .loops }
  | some (some cap), .returns =>
    if cap = s.queue.queue.cap then { s with blocked := s.blocked.eraseIdx i, control := .loops }
    else { s with blocked := s.blocked.eraseIdx i, control := .settles }

def next (s : State) : Event → State
  | .data fd b bytes => data fd b bytes s
  | .close fd => { s with queue := close_uncomplete s.queue fd }
  | .connection fd c => { s with connection := Function.update s.connection fd c }
  | .run o => run o s
  | .wake i o => wake i o s

/-- When it can happen: a message is taken when all coroutines of the last have stopped,
and one that has blocked is resumed when no other coroutine runs. -/
def Enabled (s : State) : Event → Prop
  | .data _ _ _ => s.control = .idle
  | .close _ => s.control = .idle
  | .connection _ _ => True
  | .run _ => True
  | .wake _ _ => s.control = .idle ∨ s.control = .settles

def initial : State := ⟨Netpack.get_queue, fun _ => none, .idle, 0, [], []⟩

/-- **A gate.** -/
def gateserver : System State Event where
  init s := s = initial
  step s e t := Enabled s e ∧ next s e = t

/-! ## What the streams say -/

/-- **The streams of the connections**: what is left of each, and all packets that were whole. -/
structure Streams where
  rest : ℕ → List UInt8
  packs : List Pack

def Streams.hear (t : Streams) : Event → Streams
  | .data fd b bytes =>
    { rest := Function.update t.rest fd (framing.decode (t.rest fd ++ b :: bytes)).2
      packs := t.packs ++ (framing.decode (t.rest fd ++ b :: bytes)).1.map (Pack.mk fd) }
  | .close fd => { t with rest := Function.update t.rest fd [] }
  | _ => t

def heard (es : List Event) : Streams := es.foldl Streams.hear ⟨fun _ => [], []⟩

/-- The packet of an entry of the log. -/
def Out.pack : Out → Pack
  | .message p => p
  | .drop p => p

/-- **The gate keeps up** with the streams: what has been dispatched and what is in the
queue is what was whole, and unless `dispatch_queue` begins, one is forked or the queue is empty. -/
structure Keeps (t : Streams) (s : State) : Prop where
  good : Netpack.Good s.queue
  rest : ∀ fd, s.queue.rest fd = t.rest fd
  packs : s.log.map Out.pack ++ s.queue.queue.toList = t.packs
  idle : s.control = .idle → s.forks = 0
  forked : s.control ≠ .starts → 0 < s.forks ∨ s.queue.queue.toList = []

variable {s t : State} {r : Streams} {es : List Event}

theorem keeps_initial : Keeps (heard []) initial := by
  have hempty : initial.queue.queue.toList = [] := by
    rw [initial, Netpack.get_queue]
    exact Ring.toList_empty
  exact ⟨Netpack.good_get_queue, fun fd => rfl, hempty, fun _ => rfl, fun _ => .inr hempty⟩

/-- At rest everything has been dispatched. -/
theorem Keeps.empty (h : Keeps r s) (hidle : s.control = .idle) : s.queue.queue.toList = [] := by
  obtain hforks | hempty := h.forked (by rw [hidle]; exact nofun)
  · rw [h.idle hidle] at hforks
    exact absurd hforks (Nat.lt_irrefl 0)
  · exact hempty

theorem map_dispatch_msg (p : Pack) (s : State) : (dispatch_msg p s).log.map Out.pack = s.log.map Out.pack ++ [p] := by
  rw [dispatch_msg]
  dsimp only
  rw [List.map_append]
  split
  next => rfl
  next => rfl

/-- **A message of some bytes.** -/
theorem Keeps.data (h : Keeps r s) (hidle : s.control = .idle) (fd : ℕ) (b : UInt8) (bytes : List UInt8) :
    Keeps (r.hear (.data fd b bytes)) (data fd b bytes s) := by
  have hempty := h.empty hidle
  have hforks := h.idle hidle
  have hpacks := h.packs
  rw [hempty, List.append_nil] at hpacks
  obtain ⟨hgood, hrest, hqueue, hkept⟩ := Netpack.filter_data_filters h.good fd b bytes
  rw [h.rest, hempty, List.nil_append] at hqueue
  have hrests (fd' : ℕ) : (filter_data_ s.queue fd b bytes).1.rest fd' = (r.hear (.data fd b bytes)).rest fd' := by
    rw [hrest, h.rest, h.rest]
    exact (Function.update_apply ..).symm
  have hheard : (r.hear (.data fd b bytes)).packs =
      s.log.map Out.pack ++ ((filter_data_ s.queue fd b bytes).1.queue.toList ++ (filter_data_ s.queue fd b bytes).2.packs) := by
    rw [hqueue, hpacks]
    rfl
  rw [Gateserver.data]
  generalize filter_data_ s.queue fd b bytes = result at *
  obtain ⟨q, result⟩ := result
  dsimp only at hgood hrests hheard hkept
  cases result with
  | none =>
    have hnil : q.queue.toList = [] := by rw [hkept nofun, hempty]
    refine ⟨hgood, hrests, ?_, fun _ => hforks, fun _ => .inr hnil⟩
    rw [hheard]
    exact congrArg _ (List.append_nil _).symm
  | data fd' buffer =>
    have hnil : q.queue.toList = [] := by rw [hkept nofun, hempty]
    refine ⟨hgood, hrests, ?_, nofun, fun _ => .inr hnil⟩
    have hlog := map_dispatch_msg ⟨fd', buffer⟩ { s with queue := q }
    change (dispatch_msg ⟨fd', buffer⟩ { s with queue := q }).log.map Out.pack ++ q.queue.toList = _
    rw [hlog, hheard, hnil, List.append_nil]
    rfl
  | more =>
    refine ⟨hgood, hrests, ?_, nofun, fun hne => absurd rfl hne⟩
    rw [hheard]
    exact congrArg _ (List.append_nil _).symm

/-- A packet of the queue is dispatched. -/
theorem Keeps.dispatch {p : Pack} {q : Queue} (h : Keeps r s) (hpop : pop s.queue = some (p, q)) (forks : ℕ)
    (hforks : 0 < forks) (loop : Option ℕ) (o : Outcome) :
    Keeps r (after p loop o (dispatch_msg p { s with queue := q, forks := forks })) := by
  obtain ⟨hqueue, hhash⟩ := Netpack.pop_some hpop
  have hpacks := h.packs
  have hlog := map_dispatch_msg p { s with queue := q, forks := forks }
  rw [hqueue, List.append_cons] at hpacks
  have hgood : Netpack.Good q := by
    refine ⟨?_, ?_⟩
    · rw [hhash]
      exact h.good.distinct
    · rw [hhash]
      exact h.good.short
  have hrest (fd : ℕ) : q.rest fd = r.rest fd := by
    rw [← h.rest, Queue.rest, hhash, Queue.rest]
  have hkeeps (control : Control) (blocked : List (Option ℕ)) (hidle : control ≠ .idle) : Keeps r
      { dispatch_msg p { s with queue := q, forks := forks } with control := control, blocked := blocked } := by
    refine ⟨hgood, hrest, ?_, fun h => absurd h hidle, fun _ => .inl hforks⟩
    change (dispatch_msg p { s with queue := q, forks := forks }).log.map Out.pack ++ q.queue.toList = _
    rw [hlog]
    exact hpacks
  unfold after
  split
  next =>
    cases o with
    | returns => exact hkeeps .loops _ (by simp)
    | raises => exact hkeeps .settles _ (by simp)
    | blocks => exact hkeeps .settles _ (by simp)
  next => exact hkeeps .loops _ (by simp)

/-- The queue is empty, and `dispatch_queue` ends. -/
theorem Keeps.ends (h : Keeps r s) (hpop : pop s.queue = none) : Keeps r { s with control := .settles } :=
  ⟨h.good, h.rest, h.packs, nofun, fun _ => .inr (Netpack.pop_none hpop)⟩

/-- **The coroutine goes on.** -/
theorem Keeps.run (h : Keeps r s) (o : Outcome) : Keeps r (run o s) := by
  rw [Gateserver.run]
  split
  next => exact h
  next =>
    match hpop : pop s.queue with
    | none => exact h.ends hpop
    | some (p, q) => exact h.dispatch hpop _ (Nat.succ_pos _) none o
  next hcontrol =>
    match hpop : pop s.queue with
    | none => exact h.ends hpop
    | some (p, q) =>
      obtain hforks | hempty := h.forked (by rw [hcontrol]; exact nofun)
      · exact h.dispatch hpop s.forks hforks _ o
      · have hqueue := (Netpack.pop_some hpop).1
        rw [hempty] at hqueue
        cases hqueue
  next hcontrol =>
    by_cases hforks : s.forks = 0
    · rw [if_pos hforks]
      refine ⟨h.good, h.rest, h.packs, fun _ => hforks, fun _ => ?_⟩
      obtain hpos | hempty := h.forked (by rw [hcontrol]; exact nofun)
      · exact absurd hforks (Nat.ne_of_gt hpos)
      · exact .inr hempty
    · rw [if_neg hforks]
      exact ⟨h.good, h.rest, h.packs, nofun, fun hne => absurd rfl hne⟩

/-- **A coroutine is resumed.** -/
theorem Keeps.wake (h : Keeps r s) (hcontrol : s.control = .idle ∨ s.control = .settles) (i : ℕ) (o : Outcome) :
    Keeps r (wake i o s) := by
  have hforked : 0 < s.forks ∨ s.queue.queue.toList = [] := by
    refine h.forked ?_
    obtain hidle | hsettles := hcontrol
    · rw [hidle]
      exact nofun
    · rw [hsettles]
      exact nofun
  have hkeeps (control : Control) (blocked : List (Option ℕ)) (hidle : control ≠ .idle) :
      Keeps r { s with control := control, blocked := blocked } :=
    ⟨h.good, h.rest, h.packs, fun h => absurd h hidle, fun _ => hforked⟩
  unfold Gateserver.wake
  split
  next => exact h
  next => exact h
  next => exact hkeeps .settles _ nofun
  next => exact hkeeps .loops _ nofun
  next =>
    split
    next => exact hkeeps .loops _ nofun
    next => exact hkeeps .settles _ nofun

theorem Keeps.next (h : Keeps r s) {e : Event} (he : Enabled s e) : Keeps (r.hear e) (next s e) := by
  cases e with
  | data fd b bytes => exact h.data he fd b bytes
  | close fd =>
    obtain ⟨hgood, hrest, hqueue⟩ := Netpack.close_uncomplete_rest h.good fd
    refine ⟨hgood, ?_, ?_, h.idle, ?_⟩
    · intro fd'
      rw [Gateserver.next]
      dsimp only
      rw [hrest, h.rest]
      exact (Function.update_apply ..).symm
    · rw [Gateserver.next]
      dsimp only
      rw [hqueue]
      exact h.packs
    · rw [Gateserver.next]
      dsimp only
      rw [hqueue]
      exact h.forked
  | connection fd c => exact ⟨h.good, h.rest, h.packs, h.idle, h.forked⟩
  | run o => exact h.run o
  | wake i o => exact h.wake he i o

theorem keeps_path (h : gateserver.Path initial es s) : Keeps (heard es) s := by
  refine h.invariant_history (P := fun es s => Keeps (heard es) s) (l := []) ?_ keeps_initial
  rintro fs s e t ⟨he, rfl⟩ hs
  have hheard : heard (fs ++ [e]) = (heard fs).hear e := List.foldl_append
  rw [hheard]
  exact hs.next he

/-- The coroutines of a message, one turn after the other. -/
def runs (os : List Outcome) (s : State) : State := os.foldl (fun s o => run o s) s

theorem path_runs (os : List Outcome) (s : State) : gateserver.Path s (os.map .run) (runs os s) := by
  induction os generalizing s with
  | nil => exact .nil s
  | cons o os ih => exact .cons ⟨trivial, rfl⟩ (ih (run o s))

/-- The first byte of a packet of one connection, and three packets of another with the first
byte of a fourth. -/
def pieces : List Event :=
  [.connection 7 (some true), .connection 8 (some true), .data 7 0 [], .data 8 0 [1, 65, 0, 1, 66, 0, 1, 67, 0]]

def pieced : State := pieces.foldl next initial

theorem pieces_path : gateserver.Path initial pieces pieced :=
  .cons ⟨trivial, rfl⟩ (.cons ⟨trivial, rfl⟩ (.cons ⟨rfl, rfl⟩ (.cons ⟨rfl, rfl⟩ (.nil _))))

/-- The first handler blocks and the second raises. -/
def turns : List Outcome :=
  [.blocks, .returns, .raises, .returns, .returns, .returns, .returns, .returns, .returns, .returns, .returns]

/-- The rest of both packets, and the first handler goes on. -/
def rest : List Event := [.data 7 1 [69], .run .returns, .wake 0 .returns, .run .returns, .run .returns, .data 8 1 [68],
  .run .returns]

def whole : List Event := pieces ++ turns.map .run ++ rest

def ended : State := rest.foldl next (runs turns pieced)

theorem whole_path : gateserver.Path initial whole ended := by
  refine (pieces_path.trans (path_runs turns pieced)).trans ?_
  refine .cons ⟨?_, rfl⟩ (.cons ⟨trivial, rfl⟩ (.cons ⟨.inl ?_, rfl⟩ (.cons ⟨trivial, rfl⟩ (.cons ⟨trivial, rfl⟩
    (.cons ⟨?_, rfl⟩ (.cons ⟨trivial, rfl⟩ (.nil _)))))))
  · exact (by decide +kernel : (runs turns pieced).control = .idle)
  · decide +kernel
  · exact (by decide +kernel : ((rest.take 5).foldl next (runs turns pieced)).control = .idle)

/-- **Nothing is lost, doubled or overtaken**: in every run, what has been dispatched and
then what is in the queue are the packets of the streams, in order; at rest, the queue is
empty. -/
theorem gateserver_order (h : gateserver.Path initial es s) :
    s.log.map Out.pack ++ s.queue.queue.toList = (heard es).packs ∧ (∀ fd, s.queue.rest fd = (heard es).rest fd) ∧
      (s.control = .idle → s.log.map Out.pack = (heard es).packs) := by
  have hkeeps := keeps_path h
  refine ⟨hkeeps.packs, hkeeps.rest, ?_⟩
  intro hidle
  have hpacks := hkeeps.packs
  rw [hkeeps.empty hidle, List.append_nil] at hpacks
  exact hpacks

/-- Two connections, a handler that blocks and one that raises. -/
theorem gateserver_order_whole : ended.control = .idle ∧
    ended.log.map Out.pack = [⟨8, [65]⟩, ⟨8, [66]⟩, ⟨8, [67]⟩, ⟨7, [69]⟩, ⟨8, [68]⟩] := by
  obtain ⟨-, -, hidle⟩ := gateserver_order whole_path
  have hcontrol : ended.control = .idle := by decide +kernel
  exact ⟨hcontrol, (hidle hcontrol).trans (by decide +kernel)⟩

/-! ## How a message ends -/

/-- How much there is to do. -/
def State.left (s : State) : ℕ :=
  3 * s.queue.queue.toList.length + 2 * s.forks +
    match s.control with
    | .idle => 0
    | .settles => 1
    | .starts => 2
    | .loops => 2

theorem left_after (p : Pack) (loop : Option ℕ) (o : Outcome) (s : State) :
    (after p loop o s).left ≤ 3 * s.queue.queue.toList.length + 2 * s.forks + 2 := by
  unfold after
  split
  next =>
    cases o with
    | returns => exact Nat.le_refl _
    | raises => exact Nat.le_succ _
    | blocks => exact Nat.le_succ _
  next => exact Nat.le_refl _

/-- **Every turn leaves less to do**, whatever the handler does. -/
theorem left_run (o : Outcome) (h : s.control ≠ .idle) : (run o s).left < s.left := by
  have hdispatch {p : Pack} {q : Queue} (hpop : pop s.queue = some (p, q)) (forks : ℕ) (loop : Option ℕ) :
      (after p loop o (dispatch_msg p { s with queue := q, forks := forks })).left + 3 ≤
        3 * s.queue.queue.toList.length + 2 * forks + 2 := by
    have hafter := left_after p loop o (dispatch_msg p { s with queue := q, forks := forks })
    have hlength := congrArg List.length (Netpack.pop_some hpop).1
    rw [List.length_cons] at hlength
    change _ ≤ 3 * q.queue.toList.length + 2 * forks + 2 at hafter
    omega
  rw [run]
  split
  next hcontrol => exact absurd hcontrol h
  next hcontrol =>
    match hpop : pop s.queue with
    | none =>
      simp only [State.left, hcontrol]
      omega
    | some (p, q) =>
      have hle := hdispatch hpop (s.forks + 1) none
      simp only [State.left, hcontrol] at hle ⊢
      omega
  next hcontrol =>
    match hpop : pop s.queue with
    | none =>
      simp only [State.left, hcontrol]
      omega
    | some (p, q) =>
      have hle := hdispatch hpop s.forks (some q.queue.cap)
      simp only [State.left, hcontrol] at hle ⊢
      omega
  next hcontrol =>
    by_cases hforks : s.forks = 0
    · simp only [State.left, hcontrol, if_pos hforks]
      omega
    · simp only [State.left, hcontrol, if_neg hforks]
      omega

theorem run_idle (o : Outcome) (h : s.control = .idle) : run o s = s := by
  rw [run]
  split
  next => rfl
  next hcontrol => rw [h] at hcontrol; cases hcontrol
  next hcontrol => rw [h] at hcontrol; cases hcontrol
  next hcontrol => rw [h] at hcontrol; cases hcontrol

theorem runs_idle {os : List Outcome} (h : s.control = .idle ∨ s.left ≤ os.length) : (runs os s).control = .idle := by
  induction os generalizing s with
  | nil =>
    obtain hidle | hle := h
    · exact hidle
    · by_contra hne
      have hless := left_run .returns (s := s) hne
      rw [List.length_nil] at hle
      omega
  | cons o os ih =>
    by_cases hidle : s.control = .idle
    · have hkept : (run o s).control = .idle := by
        rw [run_idle o hidle]
        exact hidle
      exact ih (.inl hkept)
    · have hle := h.resolve_left hidle
      have hless := left_run o hidle
      rw [List.length_cons] at hle
      exact ih (.inr (Nat.le_of_lt_succ (Nat.lt_of_lt_of_le hless hle)))

theorem Keeps.runs (h : Keeps r s) (os : List Outcome) : Keeps r (runs os s) := by
  induction os generalizing s with
  | nil => exact h
  | cons o os ih => exact ih (h.run o)

/-- **A message always ends**, whatever its handlers do, and then all packets have been
dispatched. -/
theorem gateserver_drains (h : gateserver.Path initial es s) (os : List Outcome) (hlong : s.left ≤ os.length) :
    (runs os s).control = .idle ∧ (runs os s).log.map Out.pack = (heard es).packs := by
  have hidle := runs_idle (.inr hlong)
  have hkeeps := (keeps_path h).runs os
  have hpacks := hkeeps.packs
  rw [hkeeps.empty hidle, List.append_nil] at hpacks
  exact ⟨hidle, hpacks⟩

/-- Three packets in the queue, with a handler that blocks and one that raises. -/
theorem gateserver_drains_pieces : pieced.log = [] ∧
    pieced.queue.queue.toList = [⟨8, [65]⟩, ⟨8, [66]⟩, ⟨8, [67]⟩] ∧ (runs turns pieced).control = .idle ∧
    (runs turns pieced).blocked = [none] ∧
    (runs turns pieced).log.map Out.pack = [⟨8, [65]⟩, ⟨8, [66]⟩, ⟨8, [67]⟩] := by
  obtain ⟨hidle, hlog⟩ := gateserver_drains pieces_path turns (by decide +kernel)
  exact ⟨rfl, by decide +kernel, hidle, by decide +kernel, hlog.trans (by decide +kernel)⟩

/-! ## What a client sends -/

/-- All bytes of a connection. -/
def received (fd : ℕ) : List Event → List UInt8
  | [] => []
  | .data fd' b bytes :: es => if fd' = fd then b :: bytes ++ received fd es else received fd es
  | _ :: es => received fd es

/-- The packets of a connection. -/
def packsOf (fd : ℕ) (l : List Pack) : List (List UInt8) := (l.filter fun p => p.id = fd).map Pack.buffer

theorem packsOf_append (fd : ℕ) (l l' : List Pack) : packsOf fd (l ++ l') = packsOf fd l ++ packsOf fd l' := by
  rw [packsOf, packsOf, packsOf, List.filter_append, List.map_append]

theorem packsOf_map (fd fd' : ℕ) (l : List (List UInt8)) :
    packsOf fd (l.map (Pack.mk fd')) = if fd' = fd then l else [] := by
  induction l with
  | nil => split <;> rfl
  | cons text l ih =>
    by_cases hfd : fd' = fd
    · rw [if_pos hfd] at ih ⊢
      rw [packsOf, List.map_cons, List.filter_cons_of_pos (by simpa using hfd), List.map_cons]
      exact congrArg _ ih
    · rw [if_neg hfd] at ih ⊢
      rw [packsOf, List.map_cons, List.filter_cons_of_neg (by simpa using hfd)]
      exact ih

/-- **The stream of an open connection** is all its bytes, however they came. -/
theorem hear_stream {fd : ℕ} (hclose : .close fd ∉ es) (t : Streams) (hrest : framing.next (t.rest fd) = none) :
    packsOf fd (es.foldl Streams.hear t).packs =
        packsOf fd t.packs ++ (framing.decode (t.rest fd ++ received fd es)).1 ∧
      (es.foldl Streams.hear t).rest fd = (framing.decode (t.rest fd ++ received fd es)).2 := by
  induction es generalizing t with
  | nil =>
    rw [received, List.append_nil, Framing.decode_none hrest, List.append_nil]
    exact ⟨rfl, rfl⟩
  | cons e es ih =>
    have hne : e ≠ .close fd := fun h => hclose (h ▸ List.mem_cons_self)
    have hes : .close fd ∉ es := fun h => hclose (List.mem_cons_of_mem _ h)
    have hskip {u : Streams} (hpacks : packsOf fd u.packs = packsOf fd t.packs) (hsame : u.rest fd = t.rest fd) :
        packsOf fd (es.foldl Streams.hear u).packs =
            packsOf fd t.packs ++ (framing.decode (t.rest fd ++ received fd es)).1 ∧
          (es.foldl Streams.hear u).rest fd = (framing.decode (t.rest fd ++ received fd es)).2 := by
      have hrun := ih hes u (by rw [hsame]; exact hrest)
      rw [hpacks, hsame] at hrun
      exact hrun
    cases e with
    | data fd' b bytes =>
      by_cases hfd : fd' = fd
      · subst hfd
        have hbytes : received fd' (.data fd' b bytes :: es) = b :: bytes ++ received fd' es := by
          rw [received, if_pos rfl]
        have hnow : (t.hear (.data fd' b bytes)).rest fd' = (framing.decode (t.rest fd' ++ b :: bytes)).2 :=
          Function.update_self ..
        have hrun := ih hes (t.hear (.data fd' b bytes)) (by rw [hnow]; exact Framing.next_decode _)
        have hmore : packsOf fd' (t.hear (.data fd' b bytes)).packs =
            packsOf fd' t.packs ++ (framing.decode (t.rest fd' ++ b :: bytes)).1 := by
          rw [Streams.hear, packsOf_append, packsOf_map, if_pos rfl]
        rw [hnow, hmore] at hrun
        rw [hbytes, ← List.append_assoc, Framing.decode_append, ← List.append_assoc]
        exact hrun
      · have hbytes : received fd (.data fd' b bytes :: es) = received fd es := by rw [received, if_neg hfd]
        rw [hbytes]
        refine hskip ?_ (Function.update_of_ne (Ne.symm hfd) ..)
        rw [Streams.hear, packsOf_append, packsOf_map, if_neg hfd, List.append_nil]
    | close fd' =>
      have hfd : fd ≠ fd' := fun h => hne (h ▸ rfl)
      exact hskip rfl (Function.update_of_ne hfd ..)
    | connection fd' c => exact hskip rfl rfl
    | run o => exact hskip rfl rfl
    | wake i o => exact hskip rfl rfl

/-- **What was packed is dispatched**: when the bytes of a connection that has not been
closed are those of some texts, each packed by `netpack.pack`, in whatever pieces, then at
rest these texts have been dispatched, in order. -/
theorem gateserver_delivers (h : gateserver.Path initial es s) (hidle : s.control = .idle) {fd : ℕ}
    (hclose : .close fd ∉ es) {l : List (List UInt8)} (hl : ∀ text ∈ l, (Netpack.pack text).isSome)
    (hreceived : received fd es = (l.map fun text => (Netpack.pack text).getD []).flatten) :
    packsOf fd (s.log.map Out.pack) = l ∧ s.queue.rest fd = [] := by
  have hkeeps := keeps_path h
  have hpacks := hkeeps.packs
  rw [hkeeps.empty hidle, List.append_nil] at hpacks
  have hnext : ∀ text ∈ l, ∀ r, framing.next ((Netpack.pack text).getD [] ++ r) = some (text, r) := by
    intro text htext r
    obtain ⟨packed, hpacked⟩ := Option.isSome_iff_exists.mp (hl text htext)
    rw [hpacked]
    exact Netpack.next_pack hpacked r
  have hnil : framing.decode [] = ([], []) := Framing.decode_none rfl
  have hdecode := Framing.decode_encode hnext []
  rw [hnil, List.append_nil, List.append_nil] at hdecode
  obtain ⟨hall, hleft⟩ := hear_stream hclose ⟨fun _ => [], []⟩ rfl
  rw [List.nil_append, hreceived, hdecode] at hall hleft
  rw [hpacks, hkeeps.rest]
  exact ⟨hall, hleft⟩

/-- The packets of the second connection. -/
theorem gateserver_delivers_whole :
    packsOf 8 (ended.log.map Out.pack) = [[65], [66], [67], [68]] ∧ ended.queue.rest 8 = [] :=
  gateserver_delivers whole_path (by decide +kernel) (by decide) (by decide) (by decide +kernel)

end Gateserver

end Skynet

end Athena
