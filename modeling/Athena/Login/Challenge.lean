import Athena.Login.Handshake
/-!
# Whom a slave authorizes

The slave of `Login.Session` before a client that sends any bytes at any time. Whatever
they are, when the slave calls `auth_handler` they begin with three packets: a key, the
answer to its challenge under the secret that the key gives, and a text that decrypts
under that secret to the token (`authorizes_answered`).
-/

namespace Athena

namespace Login

namespace Session

open Lua (Str)
open Crypt (randomkey dhsecret hmac64 desdecode)

/-- What happens to a slave: a step of it, bytes that come, bytes that are sent. -/
inductive Contact
  | slave
  | arrive (n : ℕ)
  | sends (bytes : Str)

variable (σ : Setup)

def contact (s : State) : Contact → State
  | .slave => slaveStep (randomkey σ.challenge) (randomkey σ.serverkey) s
  | .arrive n => arriveStep n s
  | .sends bytes => { s with toSlave := s.toSlave ++ bytes }

/-- **A slave and any client.** -/
def exposed : System State Contact where
  init s := s = initial
  step s e t := contact σ s e = t

/-- All that the client has sent. -/
def received : List Contact → Str
  | [] => []
  | .sends bytes :: es => bytes ++ received es
  | _ :: es => received es

/-- A packet and its text. -/
def Packet (bytes text : Str) : Prop :=
  ∃ a b, bytes = a :: b :: text ∧ text.length = a.toNat * 256 + b.toNat

/-- The packet has a key of eight bytes, which with the key of the slave makes the secret. -/
def Offers (bytes secret : Str) : Prop := ∃ text key, Packet bytes text ∧ decode text = .ok key ∧
  key.length = 8 ∧ value (dhsecret key (randomkey σ.serverkey)) = .ok secret

/-- The packet has the answer to the challenge. -/
def Answers (bytes secret : Str) : Prop := ∃ text hmac, Packet bytes text ∧ decode text = .ok hmac ∧
  result (hmac64 (randomkey σ.challenge) secret) = .ok hmac

/-- The packet has the token. -/
def Proves (bytes secret token : Str) : Prop := ∃ text etoken, Packet bytes text ∧ decode text = .ok etoken ∧
  result (desdecode secret etoken) = .ok token

/-- **What the slave has heard** when it comes to a read. -/
inductive Heard : Stage → Str → Prop
  | handshake : Heard (.handshake (randomkey σ.challenge)) []
  | response {key secret : Str} (hkey : Offers σ key secret) :
      Heard (.response (randomkey σ.challenge) secret) key
  | token {key answer secret : Str} (hkey : Offers σ key secret) (hanswer : Answers σ answer secret) :
      Heard (.token secret) (key ++ answer)

/-- **Where the slave stands** after some bytes. -/
inductive Stands (s : State) : Str → Prop
  | start (hs : s.slave = .start) : Stands s (s.buffer ++ s.toSlave)
  | length {stage : Stage} {woken : Bool} {heard : Str} (hs : s.slave = .reads stage none woken)
      (h : Heard σ stage heard) : Stands s (heard ++ (s.buffer ++ s.toSlave))
  | text {stage : Stage} {woken : Bool} {heard : Str} (a b : Char)
      (hs : s.slave = .reads stage (some (a.toNat * 256 + b.toNat)) woken) (h : Heard σ stage heard)
      (hwoken : woken = true → a.toNat * 256 + b.toNat ≤ s.buffer.length) :
      Stands s (heard ++ a :: b :: (s.buffer ++ s.toSlave))
  | authorizes {token secret heard proof : Str} (hs : s.slave = .authorizes token secret)
      (h : Heard σ (.token secret) heard) (hproof : Proves proof secret token) :
      Stands s (heard ++ proof ++ (s.buffer ++ s.toSlave))
  | fails {e : Failure} {bytes : Str} (hs : s.slave = .fails e) : Stands s bytes

variable {σ} {s t : State} {bytes : Str} {es : List Contact}

theorem received_append (es fs : List Contact) : received (es ++ fs) = received es ++ received fs := by
  induction es with
  | nil => rfl
  | cons e es ih =>
    cases e with
    | sends bytes =>
      rw [List.cons_append, received, received, ih, List.append_assoc]
    | _ => exact ih

theorem bind_eq_ok {α β : Type} {written : Str} {x : Except Failure α} {f : α → Except (Str × Failure) β} {b : β}
    (h : after written x >>= f = .ok b) : ∃ a, x = .ok a ∧ f a = .ok b := by
  cases x with
  | error e => cases h
  | ok a => exact ⟨a, rfl, h⟩

/-- **What a text makes of the slave.** -/
theorem process_heard {stage : Stage} {heard packet text rest written : Str} {slave : Slave}
    (h : Heard σ stage heard) (hpacket : Packet packet text)
    (hprocess : process (randomkey σ.serverkey) stage text rest = .ok (written, slave)) :
    (∃ next, slave = Stage.next next rest ∧ Heard σ next (heard ++ packet)) ∨
      ∃ token secret, slave = .authorizes token secret ∧ Heard σ (.token secret) heard ∧
        Proves packet secret token := by
  cases h with
  | handshake =>
    obtain ⟨key, hdecode, hrest⟩ := bind_eq_ok hprocess
    by_cases hlength : key.length = 8
    · rw [if_neg (not_not_intro hlength)] at hrest
      obtain ⟨exchanged, -, hrest⟩ := bind_eq_ok hrest
      obtain ⟨written, -, hrest⟩ := bind_eq_ok hrest
      obtain ⟨secret, hsecret, hrest⟩ := bind_eq_ok hrest
      obtain ⟨-, rfl⟩ := Prod.mk.inj (Except.ok.inj hrest)
      exact .inl ⟨_, rfl, .response ⟨text, key, hpacket, hdecode, hlength, hsecret⟩⟩
    · rw [if_pos hlength] at hrest
      cases hrest
  | response hkey =>
    obtain ⟨hmac, hresult, hrest⟩ := bind_eq_ok hprocess
    obtain ⟨response, hdecode, hrest⟩ := bind_eq_ok hrest
    by_cases hsame : hmac = response
    · rw [if_neg (not_not_intro hsame)] at hrest
      obtain ⟨-, rfl⟩ := Prod.mk.inj (Except.ok.inj hrest)
      subst hsame
      exact .inl ⟨_, rfl, .token hkey ⟨text, hmac, hpacket, hdecode, hresult⟩⟩
    · rw [if_pos hsame] at hrest
      cases hrest
  | token hkey hanswer =>
    obtain ⟨etoken, hdecode, hrest⟩ := bind_eq_ok hprocess
    obtain ⟨token, hresult, hrest⟩ := bind_eq_ok hrest
    obtain ⟨-, rfl⟩ := Prod.mk.inj (Except.ok.inj hrest)
    exact .inr ⟨token, _, rfl, .token hkey hanswer, text, etoken, hpacket, hdecode, hresult⟩

/-- The slave goes on with the text of a packet. -/
theorem proceed_stands {stage : Stage} {heard packet text : Str} (s : State) (rest : Str) (h : Heard σ stage heard)
    (hpacket : Packet packet text) :
    Stands σ (proceed (randomkey σ.serverkey) stage s text rest) (heard ++ packet ++ (rest ++ s.toSlave)) := by
  rw [proceed]
  cases hprocess : process (randomkey σ.serverkey) stage text rest with
  | error e => exact .fails rfl
  | ok r =>
    obtain ⟨written, slave⟩ := r
    obtain ⟨next, rfl, hnext⟩ | ⟨token, secret, rfl, hheard, hproof⟩ := process_heard h hpacket hprocess
    · exact .length rfl hnext
    · exact .authorizes rfl hheard hproof

/-- **A step of the slave** reads what has been sent. -/
theorem Stands.slave (h : Stands σ s bytes) :
    Stands σ (slaveStep (randomkey σ.challenge) (randomkey σ.serverkey) s) bytes := by
  cases h with
  | start hs =>
    cases hpack : pack (Gate.base64encode (randomkey σ.challenge)) with
    | ok written =>
      simp only [slaveStep, hs, hpack]
      exact .length rfl .handshake
    | error e =>
      simp only [slaveStep, hs, hpack]
      exact .fails rfl
  | @length stage woken heard hs hheard =>
    cases woken with
    | false =>
      rw [slaveStep_waits _ _ hs]
      exact .length hs hheard
    | true =>
      rcases hbuffer : s.buffer with _ | ⟨a, _ | ⟨b, rest⟩⟩
      · have hstep : slaveStep (randomkey σ.challenge) (randomkey σ.serverkey) s = s := by
          simp only [slaveStep, hs, hbuffer]
        rw [hstep, ← hbuffer]
        exact .length hs hheard
      · have hstep : slaveStep (randomkey σ.challenge) (randomkey σ.serverkey) s = s := by
          simp only [slaveStep, hs, hbuffer]
        rw [hstep, ← hbuffer]
        exact .length hs hheard
      · by_cases hzero : a.toNat * 256 + b.toNat = 0
        · simp only [slaveStep, hs, hbuffer, if_pos hzero]
          exact .fails rfl
        · simp only [slaveStep, hs, hbuffer, if_neg hzero]
          exact .text a b rfl hheard of_decide_eq_true
  | @text stage woken heard a b hs hheard hwoken =>
    cases woken with
    | false =>
      rw [slaveStep_waits _ _ hs]
      exact .text a b hs hheard hwoken
    | true =>
      have hle := hwoken rfl
      have hpacket : Packet (a :: b :: s.buffer.take (a.toNat * 256 + b.toNat)) (s.buffer.take (a.toNat * 256 + b.toNat)) :=
        ⟨a, b, rfl, by rw [List.length_take, Nat.min_eq_left hle]⟩
      have hstands := proceed_stands s (s.buffer.drop (a.toNat * 256 + b.toNat)) hheard hpacket
      simp only [slaveStep, hs]
      convert hstands using 1
      simp only [List.append_assoc, List.cons_append]
      rw [← List.append_assoc (s.buffer.take _), List.take_append_drop]
  | authorizes hs hheard hproof =>
    have hstep : slaveStep (randomkey σ.challenge) (randomkey σ.serverkey) s = s := by simp only [slaveStep, hs]
    rw [hstep]
    exact .authorizes hs hheard hproof
  | fails hs =>
    have hstep : slaveStep (randomkey σ.challenge) (randomkey σ.serverkey) s = s := by simp only [slaveStep, hs]
    rw [hstep]
    exact .fails hs

/-- **Bytes that come** are bytes that have been sent. -/
theorem Stands.arrive (h : Stands σ s bytes) (n : ℕ) : Stands σ (arriveStep n s) bytes := by
  have hsplit : s.buffer ++ s.toSlave.take n ++ s.toSlave.drop n = s.buffer ++ s.toSlave := by
    rw [List.append_assoc, List.take_append_drop]
  have hgrow : s.buffer.length ≤ (s.buffer ++ s.toSlave.take n).length := by
    rw [List.length_append]
    omega
  obtain ⟨slave, hstep, rfl | rfl | ⟨stage, sz, hwaits, rfl⟩⟩ := arriveStep_cases n s
  · rw [hstep]
    cases h with
    | start hs =>
      rw [← hsplit]
      exact .start hs
    | length hs hheard =>
      rw [← hsplit]
      exact .length hs hheard
    | text a b hs hheard hwoken =>
      rw [← hsplit]
      exact .text a b hs hheard fun h => (hwoken h).trans hgrow
    | authorizes hs hheard hproof =>
      rw [← hsplit]
      exact .authorizes hs hheard hproof
    | fails hs => exact .fails hs
  · rw [hstep]
    exact .fails rfl
  · rw [hstep]
    cases h with
    | start hs =>
      rw [hwaits] at hs
      cases hs
    | length hs hheard =>
      rw [hwaits] at hs
      obtain ⟨rfl, rfl, -⟩ := Slave.reads.inj hs
      rw [← hsplit]
      exact .length rfl hheard
    | text a b hs hheard hwoken =>
      rw [hwaits] at hs
      obtain ⟨rfl, rfl, -⟩ := Slave.reads.inj hs
      rw [← hsplit]
      exact .text a b rfl hheard of_decide_eq_true
    | authorizes hs =>
      rw [hwaits] at hs
      cases hs
    | fails hs =>
      rw [hwaits] at hs
      cases hs

/-- Bytes that are sent come last. -/
theorem Stands.sends (h : Stands σ s bytes) (more : Str) :
    Stands σ { s with toSlave := s.toSlave ++ more } (bytes ++ more) := by
  cases h with
  | start hs =>
    rw [List.append_assoc]
    exact .start hs
  | length hs hheard =>
    rw [List.append_assoc, List.append_assoc]
    exact .length hs hheard
  | text a b hs hheard hwoken =>
    rw [List.append_assoc, List.cons_append, List.cons_append, List.append_assoc]
    exact .text a b hs hheard hwoken
  | authorizes hs hheard hproof =>
    rw [List.append_assoc, List.append_assoc s.buffer]
    exact .authorizes hs hheard hproof
  | fails hs => exact .fails hs

theorem Stands.path (h : (exposed σ).Path initial es s) : Stands σ s (received es) := by
  refine h.invariant_history (P := fun fs s => Stands σ s (received fs)) (l := []) ?_ (.start rfl)
  rintro fs s e t rfl hs
  rw [received_append]
  cases e with
  | slave =>
    rw [show received [.slave] = [] from rfl, List.append_nil]
    exact hs.slave
  | arrive n =>
    rw [show received [.arrive n] = [] from rfl, List.append_nil]
    exact hs.arrive n
  | sends more =>
    rw [received, received, List.append_nil]
    exact hs.sends more

/-- **Whoever is authorized has answered the challenge**: what it has sent begins with a
key, the answer under the secret of that key, and the token under the same secret. -/
theorem authorizes_answered {token secret : Str} (h : (exposed σ).Path initial es s)
    (hs : s.slave = .authorizes token secret) : ∃ key answer proof rest,
      received es = key ++ answer ++ proof ++ rest ∧ Offers σ key secret ∧ Answers σ answer secret ∧
        Proves proof secret token := by
  have hstands := Stands.path h
  generalize received es = bytes at hstands
  cases hstands with
  | start hstart =>
    rw [hs] at hstart
    cases hstart
  | length hreads =>
    rw [hs] at hreads
    cases hreads
  | text a b hreads =>
    rw [hs] at hreads
    cases hreads
  | authorizes hauthorizes hheard hproof =>
    rw [hs] at hauthorizes
    obtain ⟨rfl, rfl⟩ := Slave.authorizes.inj hauthorizes
    cases hheard with
    | token hkey hanswer => exact ⟨_, _, _, _, rfl, hkey, hanswer, hproof⟩
  | fails hfails =>
    rw [hs] at hfails
    cases hfails

theorem path_sends (σ : Setup) (es : List Contact) (s : State) :
    (exposed σ).Path s es (es.foldl (contact σ) s) := by
  induction es generalizing s with
  | nil => exact .nil s
  | cons e es ih => exact .cons rfl (ih (contact σ s e))

/-- What an honest client sends, all at once, and the steps that take it. -/
def contacts : List Contact :=
  [.slave, .sends (frames [zeros.offered, zeros.answered, zeros.proved]), .arrive 8192, .slave, .slave, .slave, .slave,
    .slave, .slave]

theorem contacts_authorizes :
    (contacts.foldl (contact zeros) initial).slave = .authorizes zeros.token zeros.secret := by decide +kernel

theorem authorizes_answered_zeros : ∃ key answer proof rest,
    received contacts = key ++ answer ++ proof ++ rest ∧ Offers zeros key zeros.secret ∧
      Answers zeros answer zeros.secret ∧ Proves proof zeros.secret zeros.token :=
  authorizes_answered (path_sends zeros contacts initial) contacts_authorizes

end Session

end Login

end Athena
