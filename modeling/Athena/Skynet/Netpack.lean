import Athena.Common.Buckets
import Athena.Common.Framing
import Athena.Common.Ring
import Mathlib.Algebra.Group.Nat.Defs
/-!
# Packets of a socket

`lua-netpack.c`. A packet is two bytes of length and the bytes themselves. A message of the
socket thread has some bytes of a connection: `filter_data_` finishes the packet that an
earlier message has begun (`uncomplete`), returns the packet when the message ends with
it, and else puts all whole packets into a queue; what is left begins the next.

Whatever the pieces, the packets are those of the whole stream (`filter_data_reads`), each
connection on its own, and `pack` writes what comes out as one packet (`next_pack`).
-/

namespace Athena

namespace Skynet

namespace Netpack

def QUEUESIZE : ℕ := 1024

def HASHSIZE : ℕ := 4096

/-- `struct netpack`. -/
structure Pack where
  id : ℕ
  buffer : List UInt8
  deriving DecidableEq

/-- How much of a packet is there: `read == -1` and the first byte of its length, or its length and
the bytes read. -/
inductive Read
  | header (header : UInt8)
  | body (size : ℕ) (buffer : List UInt8)

/-- `struct uncomplete`. -/
structure Uncomplete where
  id : ℕ
  read : Read

def hash_fd (fd : ℕ) : ℕ := (fd / 2 ^ 24 + fd / 2 ^ 12 + fd) % 2 ^ 32 % HASHSIZE

/-- **`struct queue`.** -/
structure Queue where
  hash : Buckets Uncomplete.id hash_fd
  queue : Ring Pack

/-- What `filter_data_` leaves on the stack of Lua: nothing, a packet, or `"more"`. -/
inductive Result
  | none
  | data (fd : ℕ) (buffer : List UInt8)
  | more

def read_size (a b : UInt8) : ℕ := a.toNat <<< 8 ||| b.toNat

/-- `get_queue`, when there is none. -/
def get_queue : Queue := ⟨.empty, .empty QUEUESIZE (by decide) fun _ => ⟨0, []⟩⟩

def push_data (q : Queue) (fd : ℕ) (buffer : List UInt8) : Queue :=
  { q with queue := q.queue.push ⟨fd, buffer⟩ QUEUESIZE (by decide) }

def save_uncomplete (q : Queue) (fd : ℕ) (read : Read) : Queue := { q with hash := q.hash.put ⟨fd, read⟩ }

def find_uncomplete (q : Queue) (fd : ℕ) : Option (Read × Queue) :=
  (q.hash.take fd).map fun r => (r.1.read, { q with hash := r.2 })

/-- **`push_more`**, which is called with some bytes. -/
def push_more (q : Queue) (fd : ℕ) : List UInt8 → Queue
  | [] => q
  | [a] => save_uncomplete q fd (.header a)
  | a :: b :: buffer =>
    let pack_size := read_size a b
    if buffer.length < pack_size then save_uncomplete q fd (.body pack_size buffer)
    else if 0 < (buffer.drop pack_size).length then
      push_more (push_data q fd (buffer.take pack_size)) fd (buffer.drop pack_size)
    else push_data q fd (buffer.take pack_size)
termination_by buffer => buffer.length
decreasing_by
  rw [List.length_drop, List.length_cons, List.length_cons]
  omega

/-- `filter_data_` with the bytes for a packet that has been begun. -/
def fill (q : Queue) (fd size : ℕ) (read buffer : List UInt8) : Queue × Result :=
  let need := size - read.length
  if buffer.length < need then (save_uncomplete q fd (.body size (read ++ buffer)), .none)
  else if (buffer.drop need).length = 0 then (q, .data fd (read ++ buffer.take need))
  else (push_more (push_data q fd (read ++ buffer.take need)) fd (buffer.drop need), .more)

/-- **`filter_data_`** of a message with a byte `b` and what follows it: a message of the
socket thread is never empty. -/
def filter_data_ (q : Queue) (fd : ℕ) (b : UInt8) (bytes : List UInt8) : Queue × Result :=
  match find_uncomplete q fd with
  | some (.header header, q) => fill q fd (read_size header b) [] bytes
  | some (.body size read, q) => fill q fd size read (b :: bytes)
  | none =>
    match bytes with
    | [] => (save_uncomplete q fd (.header b), .none)
    | c :: buffer =>
      let pack_size := read_size b c
      if buffer.length < pack_size then (save_uncomplete q fd (.body pack_size buffer), .none)
      else if buffer.length = pack_size then (q, .data fd buffer)
      else (push_more (push_data q fd (buffer.take pack_size)) fd (buffer.drop pack_size), .more)

/-- `close_uncomplete`. -/
def close_uncomplete (q : Queue) (fd : ℕ) : Queue :=
  match find_uncomplete q fd with
  | some (_, q) => q
  | none => q

/-- `lpop`. -/
def pop (q : Queue) : Option (Pack × Queue) := q.queue.pop.map fun r => (r.1, { q with queue := r.2 })

/-- `lpack`, which raises when the text is too long. -/
def pack (text : List UInt8) : Option (List UInt8) :=
  if 0x10000 ≤ text.length then none
  else some (UInt8.ofNat (text.length / 256) :: UInt8.ofNat (text.length % 256) :: text)

/-! ## Lengths -/

variable {q : Queue} {fd fd' size : ℕ} {a b : UInt8} {s buffer : List UInt8}

theorem read_size_eq (a b : UInt8) : read_size a b = a.toNat * 256 + b.toNat := by
  rw [read_size, ← Nat.shiftLeft_add_eq_or_of_lt b.toNat_lt, Nat.shiftLeft_eq]

theorem read_size_lt (a b : UInt8) : read_size a b < 65536 := by
  have := a.toNat_lt
  have := b.toNat_lt
  rw [read_size_eq]
  omega

theorem read_size_ofNat (h : size < 65536) : read_size (UInt8.ofNat (size / 256)) (UInt8.ofNat (size % 256)) = size := by
  rw [read_size_eq, UInt8.toNat_ofNat', UInt8.toNat_ofNat']
  omega

theorem ofNat_read_size (a b : UInt8) : UInt8.ofNat (read_size a b / 256) = a ∧ UInt8.ofNat (read_size a b % 256) = b := by
  have := a.toNat_lt
  have := b.toNat_lt
  rw [read_size_eq]
  constructor
  · refine UInt8.toNat_inj.mp ?_
    rw [UInt8.toNat_ofNat']
    omega
  · refine UInt8.toNat_inj.mp ?_
    rw [UInt8.toNat_ofNat']
    omega

/-! ## Streams -/

/-- The first packet of a stream. -/
def next : List UInt8 → Option (List UInt8 × List UInt8)
  | a :: b :: rest =>
    if rest.length < read_size a b then none else some (rest.take (read_size a b), rest.drop (read_size a b))
  | _ => none

/-- **The packets of a stream.** -/
def framing : Framing (List UInt8) UInt8 where
  next := next
  shrinks := by
    intro s p r h
    match s, h with
    | a :: b :: rest, h =>
      rw [next] at h
      split at h
      next => cases h
      next =>
        obtain ⟨rfl, rfl⟩ := Prod.mk.inj (Option.some.inj h)
        rw [List.length_drop, List.length_cons, List.length_cons]
        omega
  stable := by
    intro s p r h t
    match s, h with
    | a :: b :: rest, h =>
      rw [next] at h
      split at h
      next => cases h
      next hle =>
        obtain ⟨rfl, rfl⟩ := Prod.mk.inj (Option.some.inj h)
        have hlong : ¬ (rest ++ t).length < read_size a b := by
          rw [List.length_append]
          omega
        rw [List.cons_append, List.cons_append, next, if_neg hlong, List.take_append_of_le_length (by omega),
          List.drop_append_of_le_length (by omega)]

/-- **`pack` writes one packet.** -/
theorem next_pack {text packed : List UInt8} (h : pack text = some packed) (r : List UInt8) :
    framing.next (packed ++ r) = some (text, r) := by
  rw [pack] at h
  split at h
  next => cases h
  next hlt =>
    obtain rfl := Option.some.inj h
    have hsize := read_size_ofNat (Nat.not_le.mp hlt)
    have hlong : ¬ (text ++ r).length < text.length := by
      rw [List.length_append]
      omega
    change next (_ :: _ :: (text ++ r)) = _
    rw [next, hsize, if_neg hlong, List.take_left, List.drop_left]

/-! ## What is left of a stream -/

/-- The bytes of an uncomplete packet. -/
def Read.bytes : Read → List UInt8
  | .header a => [a]
  | .body size buffer => UInt8.ofNat (size / 256) :: UInt8.ofNat (size % 256) :: buffer

/-- It is uncomplete. -/
def Read.Short : Read → Prop
  | .header _ => True
  | .body size buffer => size < 65536 ∧ buffer.length < size

/-- **What is left** of the stream of a connection. -/
def Queue.rest (q : Queue) (fd : ℕ) : List UInt8 := (q.hash.get fd).elim [] fun uc => uc.read.bytes

/-- **A queue** has at most one uncomplete packet of a connection. -/
structure Good (q : Queue) : Prop where
  distinct : q.hash.Distinct
  short : ∀ fd uc, q.hash.get fd = some uc → uc.read.Short

/-- **The packets of some bytes** of a connection are at the end of the queue, and what is
left of the bytes is kept. -/
structure Reads (q : Queue) (fd : ℕ) (bytes : List UInt8) (q' : Queue) : Prop where
  good : Good q'
  rest : ∀ fd', q'.rest fd' = if fd' = fd then (framing.decode bytes).2 else q.rest fd'
  queue : q'.queue.toList = q.queue.toList ++ (framing.decode bytes).1.map (Pack.mk fd)

theorem next_short {read : Read} (h : read.Short) : framing.next read.bytes = none := by
  cases read with
  | header a => rfl
  | body size buffer =>
    obtain ⟨hsize, hshort⟩ := h
    change next (_ :: _ :: buffer) = none
    rw [next, read_size_ofNat hsize, if_pos hshort]

theorem bytes_body (a b : UInt8) (buffer : List UInt8) :
    (Read.body (read_size a b) buffer).bytes = a :: b :: buffer := by
  rw [Read.bytes, (ofNat_read_size a b).1, (ofNat_read_size a b).2]

theorem good_get_queue : Good get_queue := by
  refine ⟨Buckets.distinct_empty, ?_⟩
  intro fd uc h
  cases h

/-- **What is no whole packet** is kept. -/
theorem Good.save (h : Good q) (hnone : q.hash.get fd = none) (read : Read) (hshort : read.Short) :
    Reads q fd read.bytes (save_uncomplete q fd read) := by
  have hdecode := Framing.decode_none (next_short hshort)
  refine ⟨⟨h.distinct.put hnone, ?_⟩, ?_, ?_⟩
  · intro fd' uc huc
    rw [save_uncomplete, Buckets.get_put] at huc
    split at huc
    next =>
      obtain rfl := Option.some.inj huc
      exact hshort
    next => exact h.short fd' uc huc
  · intro fd'
    rw [Queue.rest, save_uncomplete, Buckets.get_put, hdecode]
    split
    next => rfl
    next => rfl
  · rw [hdecode]
    exact (List.append_nil _).symm

/-- **A whole packet** goes to the queue, and the bytes after it are as if they came next. -/
theorem Reads.push {q' : Queue} {packet after : List UInt8} (hnext : framing.next s = some (packet, after))
    (h : Reads (push_data q fd packet) fd after q') : Reads q fd s q' := by
  have hdecode := Framing.decode_some hnext
  refine ⟨h.good, ?_, ?_⟩
  · intro fd'
    rw [h.rest, hdecode]
    rfl
  · rw [h.queue, hdecode, push_data, Ring.toList_push, List.append_assoc]
    rfl

/-- A queue reads nothing. -/
theorem Good.reads_nil (h : Good q) (hnone : q.hash.get fd = none) : Reads q fd [] q := by
  have hdecode : framing.decode [] = ([], []) := Framing.decode_none rfl
  refine ⟨h, ?_, ?_⟩
  · intro fd'
    rw [hdecode]
    split
    next hfd =>
      rw [hfd, Queue.rest, hnone]
      rfl
    next => rfl
  · rw [hdecode]
    exact (List.append_nil _).symm

theorem Good.push_data (h : Good q) (fd : ℕ) (packet : List UInt8) : Good (push_data q fd packet) :=
  ⟨h.distinct, h.short⟩

/-- The first packet of some bytes. -/
theorem next_cons (h : ¬ buffer.length < read_size a b) :
    framing.next (a :: b :: buffer) = some (buffer.take (read_size a b), buffer.drop (read_size a b)) := by
  change next (a :: b :: buffer) = _
  rw [next, if_neg h]

/-- **`push_more` reads some bytes.** -/
theorem push_more_reads (h : Good q) (hnone : q.hash.get fd = none) (s : List UInt8) :
    Reads q fd s (push_more q fd s) := by
  fun_induction push_more q fd s with
  | case1 q => exact h.reads_nil hnone
  | case2 q a => exact h.save hnone (.header a) trivial
  | case3 q a b buffer pack_size hshort =>
    have hsave := h.save hnone (.body pack_size buffer) ⟨read_size_lt a b, hshort⟩
    rw [bytes_body] at hsave
    exact hsave
  | case4 q a b buffer pack_size hlong hmore ih =>
    exact Reads.push (next_cons hlong) (ih (h.push_data fd _) hnone)
  | case5 q a b buffer pack_size hlong hend =>
    have hdrop : buffer.drop pack_size = [] := List.length_eq_zero_iff.mp (by omega)
    have hpush := h.push_data fd (buffer.take pack_size)
    have hnil : Reads _ fd [] (push_data q fd (buffer.take pack_size)) := hpush.reads_nil hnone
    rw [← hdrop] at hnil
    exact Reads.push (next_cons hlong) hnil

/-! ## A message -/

/-- The packet of a result. -/
def Result.packs : Result → List Pack
  | .none => []
  | .data fd buffer => [⟨fd, buffer⟩]
  | .more => []

/-- **The packets of some bytes** are in the queue or are the result, and what is left of
the bytes is kept. -/
structure Filters (q : Queue) (fd : ℕ) (bytes : List UInt8) (q' : Queue) (r : Result) : Prop where
  good : Good q'
  rest : ∀ fd', q'.rest fd' = if fd' = fd then (framing.decode bytes).2 else q.rest fd'
  queue : q'.queue.toList ++ r.packs = q.queue.toList ++ (framing.decode bytes).1.map (Pack.mk fd)
  kept : r ≠ .more → q'.queue = q.queue

variable {q' : Queue}

theorem Reads.more (h : Reads q fd s q') : Filters q fd s q' .more :=
  ⟨h.good, h.rest, (List.append_nil _).trans h.queue, fun hmore => absurd rfl hmore⟩

theorem Reads.none (h : Reads q fd s q') (hqueue : q'.queue = q.queue) : Filters q fd s q' .none :=
  ⟨h.good, h.rest, (List.append_nil _).trans h.queue, fun _ => hqueue⟩

/-- The bytes are just one packet. -/
theorem Good.data (h : Good q) (hnone : q.hash.get fd = none) (hnext : framing.next s = some (buffer, [])) :
    Filters q fd s q (.data fd buffer) := by
  have hnil : framing.decode [] = ([], []) := Framing.decode_none rfl
  have hdecode := Framing.decode_some hnext
  rw [hnil] at hdecode
  have hrest := (h.reads_nil hnone).rest
  rw [hnil] at hrest
  refine ⟨h, ?_, ?_, fun _ => rfl⟩
  · rw [hdecode]
    exact hrest
  · rw [hdecode]
    rfl

/-- **`fill` finishes a packet** with the bytes after those read. -/
theorem fill_filters (h : Good q) (hnone : q.hash.get fd = none) (read : List UInt8) (hsize : size < 65536)
    (hread : read.length ≤ size) (buffer : List UInt8) :
    Filters q fd ((Read.body size read).bytes ++ buffer) (fill q fd size read buffer).1
      (fill q fd size read buffer).2 := by
  have hbytes : (Read.body size read).bytes ++ buffer = (Read.body size (read ++ buffer)).bytes := rfl
  rw [hbytes]
  by_cases hshort : buffer.length < size - read.length
  · have hsave := h.save hnone (.body size (read ++ buffer)) ⟨hsize, by rw [List.length_append]; omega⟩
    rw [fill, if_pos hshort]
    exact hsave.none rfl
  · have hlong : ¬ (read ++ buffer).length < size := by
      rw [List.length_append]
      omega
    have htake : (read ++ buffer).take size = read ++ buffer.take (size - read.length) := by
      rw [List.take_append, List.take_of_length_le hread]
    have hdrop : (read ++ buffer).drop size = buffer.drop (size - read.length) := by
      rw [List.drop_append, List.drop_eq_nil_of_le hread, List.nil_append]
    have hnext : framing.next (Read.body size (read ++ buffer)).bytes =
        some (read ++ buffer.take (size - read.length), buffer.drop (size - read.length)) := by
      change next (_ :: _ :: (read ++ buffer)) = _
      rw [next, read_size_ofNat hsize, if_neg hlong, htake, hdrop]
    by_cases hend : (buffer.drop (size - read.length)).length = 0
    · rw [fill, if_neg hshort, if_pos hend]
      rw [List.length_eq_zero_iff.mp hend] at hnext
      exact h.data hnone hnext
    · rw [fill, if_neg hshort, if_neg hend]
      exact (Reads.push hnext (push_more_reads (h.push_data fd _) hnone _)).more

/-- What `find_uncomplete` finds, and what it leaves. -/
theorem find_uncomplete_cases (h : Good q) (fd : ℕ) :
    q.hash.get fd = none ∧ q.rest fd = [] ∧ find_uncomplete q fd = none ∨
      ∃ read q', find_uncomplete q fd = some (read, q') ∧ q.rest fd = read.bytes ∧ read.Short ∧ Good q' ∧
        q'.hash.get fd = none ∧ q'.queue = q.queue ∧ ∀ fd', fd' ≠ fd → q'.rest fd' = q.rest fd' := by
  match hget : q.hash.get fd with
  | none =>
    refine .inl ⟨rfl, ?_, ?_⟩
    · rw [Queue.rest, hget]
      rfl
    · rw [find_uncomplete, Buckets.take, hget]
      rfl
  | some uc =>
    refine .inr ⟨uc.read, { q with hash := q.hash.remove fd }, ?_, ?_, h.short fd uc hget, ⟨h.distinct.remove, ?_⟩,
      ?_, rfl, ?_⟩
    · rw [find_uncomplete, Buckets.take, hget]
      rfl
    · rw [Queue.rest, hget]
      rfl
    · intro fd' uc' huc
      rw [Buckets.get_remove h.distinct] at huc
      split at huc
      next => cases huc
      next => exact h.short fd' uc' huc
    · rw [Buckets.get_remove h.distinct, if_pos rfl]
    · intro fd' hne
      rw [Queue.rest, Buckets.get_remove h.distinct, if_neg hne]
      rfl

/-- A packet that begins with the message is finished as if it had begun before. -/
theorem filter_data_fresh {c : UInt8} (h : find_uncomplete q fd = none) :
    filter_data_ q fd b (c :: buffer) = fill q fd (read_size b c) [] buffer := by
  have hdrop : (buffer.drop (read_size b c)).length = 0 ↔ buffer.length ≤ read_size b c := by
    rw [List.length_drop]
    omega
  simp only [filter_data_, h, fill, List.length_nil, Nat.sub_zero, List.nil_append]
  by_cases hshort : buffer.length < read_size b c
  · rw [if_pos hshort, if_pos hshort]
  · rw [if_neg hshort, if_neg hshort]
    by_cases hend : buffer.length = read_size b c
    · rw [if_pos hend, if_pos (hdrop.mpr (Nat.le_of_eq hend)), List.take_of_length_le (Nat.le_of_eq hend)]
    · have hmore : ¬ (buffer.drop (read_size b c)).length = 0 := by
        rw [hdrop]
        omega
      rw [if_neg hend, if_neg hmore]

/-- **A message of some bytes** gives the packets that end in it, with what was left of the
messages before. -/
theorem filter_data_filters (h : Good q) (fd : ℕ) (b : UInt8) (bytes : List UInt8) :
    Filters q fd (q.rest fd ++ b :: bytes) (filter_data_ q fd b bytes).1 (filter_data_ q fd b bytes).2 := by
  obtain ⟨hnone, hrest, hfind⟩ | ⟨read, q', hfind, hrest, hshort, hgood, hnone, hqueue, hothers⟩ :=
    find_uncomplete_cases h fd
  · rw [hrest]
    match bytes with
    | [] =>
      have hstep : filter_data_ q fd b [] = (save_uncomplete q fd (.header b), .none) := by
        simp only [filter_data_, hfind]
      rw [hstep]
      exact (h.save hnone (.header b) trivial).none rfl
    | c :: buffer =>
      have hfill := fill_filters h hnone [] (read_size_lt b c) (Nat.zero_le _) buffer
      rw [bytes_body] at hfill
      rw [filter_data_fresh hfind]
      exact hfill
  · have hmove {s : List UInt8} {r : Queue × Result} (hr : Filters q' fd s r.1 r.2) : Filters q fd s r.1 r.2 := by
      refine ⟨hr.good, ?_, ?_, ?_⟩
      · intro fd'
        rw [hr.rest]
        by_cases hfd : fd' = fd
        · rw [if_pos hfd, if_pos hfd]
        · rw [if_neg hfd, if_neg hfd, hothers fd' hfd]
      · rw [hr.queue, hqueue]
      · intro hmore
        rw [hr.kept hmore, hqueue]
    rw [hrest]
    cases read with
    | header a =>
      have hfill := fill_filters hgood hnone [] (read_size_lt a b) (Nat.zero_le _) bytes
      have hstep : filter_data_ q fd b bytes = fill q' fd (read_size a b) [] bytes := by
        simp only [filter_data_, hfind]
      rw [bytes_body] at hfill
      rw [hstep]
      exact hmove hfill
    | body size read =>
      have hstep : filter_data_ q fd b bytes = fill q' fd size read (b :: bytes) := by
        simp only [filter_data_, hfind]
      rw [hstep]
      exact hmove (fill_filters hgood hnone read hshort.1 (Nat.le_of_lt hshort.2) (b :: bytes))

/-- **`close_uncomplete` forgets** what was left of a connection. -/
theorem close_uncomplete_rest (h : Good q) (fd : ℕ) : Good (close_uncomplete q fd) ∧
    (∀ fd', (close_uncomplete q fd).rest fd' = if fd' = fd then [] else q.rest fd') ∧
      (close_uncomplete q fd).queue = q.queue := by
  obtain ⟨-, hrest, hfind⟩ | ⟨read, q', hfind, hrest, hshort, hgood, hnone, hqueue, hothers⟩ :=
    find_uncomplete_cases h fd
  · have hstep : close_uncomplete q fd = q := by simp only [close_uncomplete, hfind]
    rw [hstep]
    refine ⟨h, ?_, rfl⟩
    intro fd'
    split
    next hfd => rw [hfd, hrest]
    next => rfl
  · have hstep : close_uncomplete q fd = q' := by simp only [close_uncomplete, hfind]
    rw [hstep]
    refine ⟨hgood, ?_, hqueue⟩
    intro fd'
    split
    next hfd =>
      rw [hfd, Queue.rest, hnone]
      rfl
    next hne => exact hothers fd' hne

/-- `pop` finds nothing in an empty queue, -/
theorem pop_none (h : pop q = none) : q.queue.toList = [] := Ring.pop_eq_none.mp (Option.map_eq_none_iff.mp h)

/-- and takes the first packet of another. -/
theorem pop_some {p : Pack} (h : pop q = some (p, q')) : q.queue.toList = p :: q'.queue.toList ∧ q'.hash = q.hash := by
  obtain ⟨r, hr, heq⟩ := Option.map_eq_some_iff.mp h
  obtain ⟨rfl, rfl⟩ := Prod.mk.inj heq
  exact ⟨Ring.pop_eq_some hr, rfl⟩

end Netpack

end Skynet

end Athena
