import Athena.Common.System
import Athena.Crypt.Hmac
import Athena.Gate.Userid
/-!
# A login

A client, `CMD.login` of `client.lua`, and a login slave, `auth` of
`lualib/snax/login_server.lua`, with the bytes between them. Each side writes packets
with two bytes of length in front. The bytes come in pieces of any size: the client
keeps what is no packet yet in `last`; the slave waits in `socket.read` for a number of
bytes, and a buffer that grows over the limit while it does not wait is closed.

`initial`, `step` and `login` are the two as one system; `Setup` has the random bytes and
the token. What each side makes of the texts of the other is said text by text
(`Setup.process_offered`, `Setup.answer_exchanged`).
-/

namespace Athena

namespace Login

namespace Session

open Lua (Str)
open Gate (base64encode base64decode)
open Crypt (Random randomkey dhexchange dhsecret hmac64 desencode desdecode)

/-! ## Packets -/

/-- `string.char(sz >> 8) .. string.char(sz & 0xff) .. text` and
`string.pack(">s2", pack)`, which raise when the text is too long. -/
def package (text : Str) : Option Str :=
  if text.length < 65536 then
    some (Char.ofNat (text.length / 256) :: Char.ofNat (text.length % 256) :: text)
  else none

/-- **`unpack_package`.** -/
def unpack_package : Str → Option (Str × Str)
  | a :: b :: rest =>
    let s := a.toNat * 256 + b.toNat
    if rest.length < s then none else some (rest.take s, rest.drop s)
  | _ => none

/-! ## States -/

/-- Why a side gives up. -/
inductive Failure
  | crypt (e : Crypt.Failure)
  /-- `"Invalid base64 text"`. -/
  | base64
  /-- A recursion without end. -/
  | diverges
  /-- `string.char` or `string.pack`. -/
  | length
  /-- `"error size 0"`. -/
  | size
  /-- `"Invalid client key"`. -/
  | clientKey
  /-- `"challenge failed"`. -/
  | challenge
  /-- `"socket buffer overflow"`. -/
  | overflow
  deriving DecidableEq

/-- What the slave is to read. -/
inductive Stage
  | handshake (challenge : Str)
  | response (challenge secret : Str)
  | token (secret : Str)
  deriving DecidableEq

/-- **Where the slave stands**: it reads `sz` bytes or, before, the two of the length,
and `woken` says that they are there. -/
inductive Slave
  | start
  | reads (stage : Stage) (sz : Option ℕ) (woken : Bool)
  /-- In `auth_handler(token)`. -/
  | authorizes (token secret : Str)
  | fails (e : Failure)
  deriving DecidableEq

/-- **Where the client stands**: in which `read_package`. -/
inductive Client
  | challenge
  | serverkey (challenge : Str)
  | result (secret : Str)
  | fails (e : Failure)

structure State where
  slave : Slave
  client : Client
  /-- The bytes on their way to the slave, -/
  toSlave : Str
  /-- in the buffer of its socket, -/
  buffer : Str
  /-- on their way to the client, -/
  toClient : Str
  /-- and in `last`. -/
  last : Str

/-- `socket.limit(fd, 8 * 1024)`. -/
def limit : ℕ := 8 * 1024

inductive Event
  | slave
  /-- `socket.recv` of the client returns `n` bytes. -/
  | client (n : ℕ)
  /-- `n` bytes come to the slave. -/
  | arrive (n : ℕ)

/-! ## The slave -/

/-- What `dhexchange` and `dhsecret` return, or the failure. -/
def value (r : Except Crypt.Failure (Option Str)) : Except Failure Str :=
  match r with
  | .ok (some s) => .ok s
  | .ok none => .error .diverges
  | .error e => .error (.crypt e)

def decode (text : Str) : Except Failure Str := (base64decode text).elim (.error .base64) .ok

def pack (text : Str) : Except Failure Str := (package text).elim (.error .length) .ok

/-- What a call of `crypt` returns, or the failure. -/
def result {α : Type} (r : Except Crypt.Failure α) : Except Failure α :=
  match r with
  | .ok v => .ok v
  | .error e => .error (.crypt e)

/-- What fails after some bytes have been written. -/
def after {α : Type} (written : Str) (r : Except Failure α) : Except (Str × Failure) α :=
  match r with
  | .ok v => .ok v
  | .error e => .error (written, e)

/-- The next read of the slave: it waits unless the two bytes are there. -/
def Stage.next (stage : Stage) (rest : Str) : Slave := .reads stage none (2 ≤ rest.length)

/-- **What the slave makes of a text**: what it writes, and where it stands then. When it
fails it may have written its key already. -/
def process (serverkey : Str) (stage : Stage) (text rest : Str) : Except (Str × Failure) (Str × Slave) :=
  match stage with
  | .handshake challenge => do
    let clientkey ← after [] (decode text)
    if clientkey.length ≠ 8 then .error ([], .clientKey)
    else
      let exchanged ← after [] (value (dhexchange serverkey))
      let written ← after [] (pack (base64encode exchanged))
      let secret ← after written (value (dhsecret clientkey serverkey))
      .ok (written, (Stage.response challenge secret).next rest)
  | .response challenge secret => do
    let hmac ← after [] (result (hmac64 challenge secret))
    let response ← after [] (decode text)
    if hmac ≠ response then .error ([], .challenge) else .ok ([], (Stage.token secret).next rest)
  | .token secret => do
    let etoken ← after [] (decode text)
    let token ← after [] (result (desdecode secret etoken))
    .ok ([], .authorizes token secret)

/-- What the slave writes before it fails: `"400 Bad Request\n"`. -/
def parting : Failure → Str
  | .challenge => Char.ofNat 0 :: Char.ofNat 16 :: "400 Bad Request\n".toList
  | _ => []

/-- The slave goes on with a text. -/
def proceed (serverkey : Str) (stage : Stage) (s : State) (text rest : Str) : State :=
  match process serverkey stage text rest with
  | .ok (written, slave) => { s with slave := slave, buffer := rest, toClient := s.toClient ++ written }
  | .error (written, e) =>
    { s with slave := .fails e, buffer := rest, toClient := s.toClient ++ (written ++ parting e) }

/-- **A step of the slave**, up to its next read. -/
def slaveStep (challenge serverkey : Str) (s : State) : State :=
  match s.slave with
  | .start =>
    match pack (base64encode challenge) with
    | .ok written =>
      { s with slave := (Stage.handshake challenge).next s.buffer, toClient := s.toClient ++ written }
    | .error e => { s with slave := .fails e }
  | .reads stage none true =>
    match s.buffer with
    | a :: b :: rest =>
      let sz := a.toNat * 256 + b.toNat
      if sz = 0 then { s with slave := .fails .size }
      else { s with slave := .reads stage (some sz) (sz ≤ rest.length), buffer := rest }
    | _ => s
  | .reads stage (some sz) true =>
    proceed serverkey stage s (s.buffer.take sz) (s.buffer.drop sz)
  | _ => s

/-- Bytes come, and wake the slave that waits for them. -/
def arriveStep (n : ℕ) (s : State) : State :=
  let buffer := s.buffer ++ s.toSlave.take n
  let s := { s with buffer := buffer, toSlave := s.toSlave.drop n }
  match s.slave with
  | .reads stage sz false => { s with slave := .reads stage sz (sz.getD 2 ≤ buffer.length) }
  | .authorizes _ _ => s
  | .fails _ => s
  | _ => if limit < buffer.length then { s with slave := .fails .overflow } else s

/-! ## The client -/

/-- **What the client makes of a packet**: what it sends, and where it stands then. -/
def answer (clientkey token : Str) (client : Client) (text : Str) : Except Failure (Str × Client) :=
  match client with
  | .challenge => do
    let challenge ← decode text
    let exchanged ← value (dhexchange clientkey)
    let sent ← pack (base64encode exchanged)
    .ok (sent, .serverkey challenge)
  | .serverkey challenge => do
    let serverkey ← decode text
    let secret ← value (dhsecret serverkey clientkey)
    let hmac ← result (hmac64 challenge secret)
    let sent ← pack (base64encode hmac)
    let etoken ← result (desencode secret token)
    let sent' ← pack (base64encode etoken)
    .ok (sent ++ sent', .result secret)
  | client => .ok ([], client)

/-- The client goes on with a packet. -/
def receive (clientkey token : Str) (s : State) (text rest : Str) : State :=
  match answer clientkey token s.client text with
  | .ok (sent, client) => { s with client := client, last := rest, toSlave := s.toSlave ++ sent }
  | .error e => { s with client := .fails e, last := rest }

/-- **A step of the client**, a turn of `read_package`. -/
def clientStep (clientkey token : Str) (n : ℕ) (s : State) : State :=
  match s.client with
  | .result _ => s
  | .fails _ => s
  | _ =>
    match unpack_package s.last with
    | some (text, rest) => receive clientkey token s text rest
    | none =>
      let r := s.toClient.take n
      let s := { s with toClient := s.toClient.drop n }
      match unpack_package (s.last ++ r) with
      | some (text, rest) => receive clientkey token s text rest
      | none => { s with last := s.last ++ r }

/-! ## The system -/

/-- What `randomkey` returns to the two, and the token of the client. -/
structure Setup where
  challenge : Random
  serverkey : Random
  clientkey : Random
  token : Str

variable (σ : Setup)

def initial : State := ⟨.start, .challenge, [], [], [], []⟩

def step (s : State) : Event → State
  | .slave => slaveStep (randomkey σ.challenge) (randomkey σ.serverkey) s
  | .client n => clientStep (randomkey σ.clientkey) σ.token n s
  | .arrive n => arriveStep n s

/-- **A login**, whatever comes first and in whatever pieces. -/
def login : System State Event where
  init s := s = initial
  step s e t := step σ s e = t

/-! ## Packets and back -/

/-- The bytes of a packet, -/
def frame (text : Str) : Str := Char.ofNat (text.length / 256) :: Char.ofNat (text.length % 256) :: text

/-- and of some. -/
def frames (l : List Str) : Str := (l.map frame).flatten

variable {σ} {text rest buffer : Str} {s t : State} {m : Str} {l : List Str}

theorem length_base64encode (text : Str) : (base64encode text).length = (text.length + 2) / 3 * 4 := by
  fun_induction base64encode text with
  | case1 a b c text v ih =>
    simp only [List.length_cons, ih]
    omega
  | case2 a b v => simp only [List.length_cons, List.length_nil]
  | case3 a => simp only [List.length_cons, List.length_nil]
  | case4 => simp only [List.length_nil]

theorem frame_size {text : Str} (h : text.length < 65536) :
    (Char.ofNat (text.length / 256)).toNat * 256 + (Char.ofNat (text.length % 256)).toNat = text.length := by
  rw [Crypt.toNat_ofNat (by omega), Crypt.toNat_ofNat (by omega)]
  omega

theorem unpack_frame (h : text.length < 65536) : unpack_package (frame text) = some (text, []) := by
  rw [frame, unpack_package]
  simp only [frame_size h]
  rw [if_neg (Nat.lt_irrefl _), List.take_length, List.drop_length]

/-- **What is no packet yet** is not taken for one. -/
theorem unpack_part (h : text.length < 65536) (happ : buffer ++ rest = frame text) (hne : rest ≠ []) :
    unpack_package buffer = none := by
  match buffer, happ with
  | [], _ => rfl
  | [a], _ => rfl
  | a :: b :: p, happ =>
    obtain ⟨rfl, htail⟩ := List.cons.inj happ
    obtain ⟨rfl, rfl⟩ := List.cons.inj htail
    have hlt : p.length < (p.append rest).length := by
      have hlen : (p ++ rest).length = p.length + rest.length := List.length_append
      have hpos := List.length_pos_iff.mpr hne
      change p.length < (p ++ rest).length
      omega
    rw [unpack_package]
    simp only [frame_size h]
    rw [if_pos hlt]

theorem pack_eq (text : Str) (h : text.length < 65536) : pack text = .ok (frame text) := by
  rw [pack, package, if_pos h]
  rfl

theorem decode_eq (h : Crypt.Bytes text) : decode (base64encode text) = .ok text := by
  rw [decode, Gate.base64decode_base64encode h]
  rfl

/-! ## The messages -/

namespace Setup

variable (σ)

/-- The secret of the two. -/
def secret : Str :=
  Crypt.push64 (5 ^ (Crypt.word64 (randomkey σ.serverkey) * Crypt.word64 (randomkey σ.clientkey)) % Crypt.p)

/-- The answer to the challenge. -/
def hmac : Str := Crypt.pushqword (Crypt.hmac (Crypt.read64 (randomkey σ.challenge)) (Crypt.read64 σ.secret))

/-- The packets of the slave, -/
def challenged : Str := base64encode (randomkey σ.challenge)

def exchanged : Str := base64encode (Crypt.push64 (5 ^ Crypt.word64 (randomkey σ.serverkey) % Crypt.p))

/-- and of the client. -/
def offered : Str := base64encode (Crypt.push64 (5 ^ Crypt.word64 (randomkey σ.clientkey) % Crypt.p))

def answered : Str := base64encode σ.hmac

def proved : Str := base64encode (Crypt.encodeBlocks (Crypt.des_main_ks σ.secret) σ.token)

/-- **A token** that the buffer of the slave has room for. -/
structure Fits : Prop where
  bytes : Crypt.Bytes σ.token
  length : σ.token.length < 6128

variable {σ}

theorem length_secret : σ.secret.length = 8 := Crypt.length_push64 _

theorem secret_comm : Crypt.push64
    (5 ^ (Crypt.word64 (randomkey σ.clientkey) * Crypt.word64 (randomkey σ.serverkey)) % Crypt.p) = σ.secret := by
  rw [secret, Nat.mul_comm (Crypt.word64 (randomkey σ.serverkey))]

theorem length_challenged : σ.challenged.length = 12 := by
  rw [challenged, length_base64encode, (Crypt.key_randomkey _).length]

theorem length_exchanged : σ.exchanged.length = 12 := by rw [exchanged, length_base64encode, Crypt.length_push64]

theorem length_offered : σ.offered.length = 12 := by rw [offered, length_base64encode, Crypt.length_push64]

theorem length_answered : σ.answered.length = 12 := by
  rw [answered, hmac, length_base64encode, Crypt.length_pushqword]

theorem length_proved (h : σ.Fits) : 0 < σ.proved.length ∧ σ.proved.length ≤ 8176 := by
  have hks : (Crypt.des_main_ks σ.secret).length % 2 = 0 := by
    rw [Crypt.length_des_main_ks length_secret]
  obtain ⟨body, tail, happ, htail, hlen, hbody, -⟩ := Crypt.decodeBlocks_encodeBlocks hks h.bytes
  have htoken := h.length
  rw [happ, List.length_append] at htoken
  rw [proved, length_base64encode, hlen]
  omega

theorem decode_proved (h : σ.Fits) :
    decode σ.proved = .ok (Crypt.encodeBlocks (Crypt.des_main_ks σ.secret) σ.token) ∧
      result (desdecode σ.secret (Crypt.encodeBlocks (Crypt.des_main_ks σ.secret) σ.token)) = .ok σ.token := by
  refine ⟨decode_eq (Crypt.bytes_encodeBlocks _ _), ?_⟩
  rw [Crypt.desdecode_eq length_secret h.bytes]
  rfl

theorem hmac_eq : result (hmac64 (randomkey σ.challenge) σ.secret) = .ok σ.hmac := by
  have hx : (randomkey σ.challenge).length = 8 := (Crypt.key_randomkey _).length
  rw [hmac64, if_neg (not_not_intro hx), if_neg (not_not_intro length_secret)]
  rfl

theorem value_exchange {x : Str} (hx : Crypt.Key x) :
    value (dhexchange x) = .ok (Crypt.push64 (5 ^ Crypt.word64 x % Crypt.p)) := by
  rw [Crypt.dhexchange_eq hx]
  rfl

/-- **What the slave makes of the key of the client**, -/
theorem process_offered (rest : Str) :
    process (randomkey σ.serverkey) (.handshake (randomkey σ.challenge)) σ.offered rest =
      .ok (frame σ.exchanged, (Stage.response (randomkey σ.challenge) σ.secret).next rest) := by
  have hsecret : value (dhsecret (Crypt.push64 (5 ^ Crypt.word64 (randomkey σ.clientkey) % Crypt.p))
      (randomkey σ.serverkey)) = .ok σ.secret := by
    rw [Crypt.dhsecret_eq _ (Crypt.key_randomkey _), secret_comm]
    rfl
  have hpack : pack (base64encode (Crypt.push64 (5 ^ Crypt.word64 (randomkey σ.serverkey) % Crypt.p))) =
      .ok (frame σ.exchanged) := pack_eq σ.exchanged (by rw [length_exchanged]; decide)
  have hlen : ¬ (Crypt.push64 (5 ^ Crypt.word64 (randomkey σ.clientkey) % Crypt.p)).length ≠ 8 :=
    not_not_intro (Crypt.length_push64 _)
  rw [process, offered, decode_eq (Crypt.bytes_push64 _), value_exchange (Crypt.key_randomkey _)]
  simp only [bind, Except.bind, after]
  rw [if_neg hlen, hpack, hsecret]

/-- of the answer to its challenge, -/
theorem process_response {challenge secret hmac : Str} (serverkey rest : Str) (hbytes : Crypt.Bytes hmac)
    (hresult : result (hmac64 challenge secret) = .ok hmac) :
    process serverkey (.response challenge secret) (base64encode hmac) rest =
      .ok ([], (Stage.token secret).next rest) := by
  have hsame : ¬ hmac ≠ hmac := not_not_intro rfl
  rw [process, hresult, decode_eq hbytes]
  exact if_neg hsame

theorem process_answered (rest : Str) :
    process (randomkey σ.serverkey) (.response (randomkey σ.challenge) σ.secret) σ.answered rest =
      .ok ([], (Stage.token σ.secret).next rest) :=
  process_response _ _ (Crypt.bytes_pushqword _) hmac_eq

/-- and of its token. -/
theorem process_proved (h : σ.Fits) (rest : Str) :
    process (randomkey σ.serverkey) (.token σ.secret) σ.proved rest = .ok ([], .authorizes σ.token σ.secret) := by
  obtain ⟨hdecode, hresult⟩ := decode_proved h
  rw [process, hdecode]
  simp only [bind, Except.bind, after, hresult]

/-- **What the client makes of the challenge**, -/
theorem answer_challenged :
    answer (randomkey σ.clientkey) σ.token .challenge σ.challenged =
      .ok (frame σ.offered, .serverkey (randomkey σ.challenge)) := by
  have hpack : pack (base64encode (Crypt.push64 (5 ^ Crypt.word64 (randomkey σ.clientkey) % Crypt.p))) =
      .ok (frame σ.offered) := pack_eq σ.offered (by rw [length_offered]; decide)
  rw [answer, challenged, decode_eq (Crypt.key_randomkey _).bytes, value_exchange (Crypt.key_randomkey _)]
  simp only [bind, Except.bind, hpack]

/-- and of the key of the slave. -/
theorem answer_exchanged (h : σ.Fits) :
    answer (randomkey σ.clientkey) σ.token (.serverkey (randomkey σ.challenge)) σ.exchanged =
      .ok (frame σ.answered ++ frame σ.proved, .result σ.secret) := by
  have hsecret : value (dhsecret (Crypt.push64 (5 ^ Crypt.word64 (randomkey σ.serverkey) % Crypt.p))
      (randomkey σ.clientkey)) = .ok σ.secret := by
    rw [Crypt.dhsecret_eq _ (Crypt.key_randomkey _)]
    rfl
  have hdes : result (desencode σ.secret σ.token) =
      .ok (Crypt.encodeBlocks (Crypt.des_main_ks σ.secret) σ.token) := by
    rw [Crypt.desencode_eq length_secret]
    rfl
  have hpack : pack (base64encode σ.hmac) = .ok (frame σ.answered) :=
    pack_eq σ.answered (by rw [length_answered]; decide)
  have hpack' : pack (base64encode (Crypt.encodeBlocks (Crypt.des_main_ks σ.secret) σ.token)) = .ok (frame σ.proved) :=
    pack_eq σ.proved (by have := length_proved h; omega)
  rw [answer, exchanged, decode_eq (Crypt.bytes_push64 _)]
  simp only [bind, Except.bind, hsecret, hmac_eq, hpack, hdes, hpack']

end Setup

end Session

end Login

end Athena
