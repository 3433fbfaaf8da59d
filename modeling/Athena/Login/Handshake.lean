import Athena.Login.Session
/-!
# How a login goes

The bytes of `Login.Session` come in pieces of any size. A client takes a packet when its
last byte has come (`clientStep_eq`); a slave that is to read some texts (`Awaits`) keeps
to them whatever comes (`Awaits.arrive`, `Awaits.slave`). So a login goes through seven
phases (`Phase.Good`): a step keeps the phase or ends it, and every phase but the last can
end.

The two never fail, and when the slave calls `auth_handler`, it is with the token of the
client, and both have one secret (`login_agrees`). That end can be reached from wherever
the login stands (`login_completes`).
-/

namespace Athena

namespace Login

namespace Session

open Lua (Str)
open Gate (base64encode)
open Crypt (randomkey)

variable {σ : Setup} {text rest : Str} {s t : State} {l : List Str}

/-! ## Pieces -/

theorem length_frame (text : Str) : (frame text).length = text.length + 2 := rfl

theorem frames_nil : frames [] = [] := rfl

theorem frames_cons (text : Str) (l : List Str) : frames (text :: l) = frame text ++ frames l := rfl

/-- **The client takes a packet** when the last of its bytes has come, and keeps what has
come of it before. -/
theorem clientStep_eq (clientkey token : Str) (n : ℕ) (hresult : ∀ secret, s.client ≠ .result secret)
    (hfails : ∀ e, s.client ≠ .fails e) (hlength : text.length < 65536) (happ : s.last ++ s.toClient = frame text) :
    clientStep clientkey token n s =
      if s.toClient.length ≤ n then receive clientkey token { s with toClient := [] } text []
      else { s with last := s.last ++ s.toClient.take n, toClient := s.toClient.drop n } := by
  rw [clientStep]
  split
  next secret heq => exact absurd heq (hresult secret)
  next e heq => exact absurd heq (hfails e)
  next =>
    dsimp only
    by_cases hnil : s.toClient = []
    · have hlast : s.last = frame text := by rw [← happ, hnil, List.append_nil]
      have hle : s.toClient.length ≤ n := by
        rw [hnil]
        exact Nat.zero_le n
      have hs : { s with toClient := [] } = s := by rw [← hnil]
      rw [if_pos hle, hs, hlast, unpack_frame hlength]
    · have hsplit : s.last ++ s.toClient.take n ++ s.toClient.drop n = frame text := by
        rw [List.append_assoc, List.take_append_drop, happ]
      rw [unpack_part hlength happ hnil]
      by_cases hn : s.toClient.length ≤ n
      · rw [List.drop_eq_nil_of_le hn, List.append_nil] at hsplit
        rw [if_pos hn, hsplit, unpack_frame hlength, List.drop_eq_nil_of_le hn]
      · have hdrop : s.toClient.drop n ≠ [] := by
          intro hdrop
          exact hn (List.drop_eq_nil_iff.mp hdrop)
        rw [if_neg hn, unpack_part hlength hsplit hdrop]

/-- **Bytes come to the buffer of the slave**, wake it if it waits for no more, and may be
too many for it. -/
theorem arriveStep_cases (n : ℕ) (s : State) : ∃ slave,
    arriveStep n s =
      { s with slave := slave, buffer := s.buffer ++ s.toSlave.take n, toSlave := s.toSlave.drop n } ∧
    (slave = s.slave ∨ slave = .fails .overflow ∨ ∃ stage sz, s.slave = .reads stage sz false ∧
      slave = .reads stage sz (sz.getD 2 ≤ (s.buffer ++ s.toSlave.take n).length)) := by
  rw [arriveStep]
  split
  next stage sz hs => exact ⟨_, rfl, .inr (.inr ⟨stage, sz, hs, rfl⟩)⟩
  next => exact ⟨_, rfl, .inl rfl⟩
  next => exact ⟨_, rfl, .inl rfl⟩
  next =>
    split
    next => exact ⟨_, rfl, .inr (.inl rfl)⟩
    next => exact ⟨_, rfl, .inl rfl⟩

/-- **The slave is to read some texts**: it waits for the length of the first or for the
first itself. -/
inductive Awaits (stage : Stage) (s : State) : List Str → Prop
  | length {l : List Str} (hslave : s.slave = .reads stage none (2 ≤ s.buffer.length))
      (happ : s.buffer ++ s.toSlave = frames l) : Awaits stage s l
  | text {text : Str} {l : List Str}
      (hslave : s.slave = .reads stage (some text.length) (text.length ≤ s.buffer.length))
      (happ : s.buffer ++ s.toSlave = text ++ frames l) : Awaits stage s (text :: l)

section

variable {stage : Stage}

theorem Awaits.reads (h : Awaits stage s l) : ∃ sz woken, s.slave = .reads stage sz woken := by
  cases h with
  | length hs => exact ⟨_, _, hs⟩
  | text hs => exact ⟨_, _, hs⟩

/-- What the slave has not read is no more than the texts and their lengths. -/
theorem Awaits.length_le (h : Awaits stage s l) : s.buffer.length + s.toSlave.length ≤ (frames l).length := by
  cases h with
  | length _ happ => rw [← List.length_append, happ]
  | @text text l _ happ =>
    rw [← List.length_append, happ, frames_cons, List.length_append, List.length_append, length_frame]
    omega

/-- **Bytes that come** are bytes of the texts. -/
theorem Awaits.arrive (h : Awaits stage s l) (hlimit : (frames l).length ≤ limit) (n : ℕ) :
    Awaits stage (arriveStep n s) l := by
  have hle := h.length_le
  have hbuffer : ¬ limit < (s.buffer ++ s.toSlave.take n).length := by
    rw [List.length_append, List.length_take]
    omega
  have hgrow : s.buffer.length ≤ (s.buffer ++ s.toSlave.take n).length := by
    rw [List.length_append]
    omega
  have hslave (sz : Option ℕ) (hs : s.slave = .reads stage sz (sz.getD 2 ≤ s.buffer.length)) :
      arriveStep n s = ⟨.reads stage sz (sz.getD 2 ≤ (s.buffer ++ s.toSlave.take n).length), s.client,
        s.toSlave.drop n, s.buffer ++ s.toSlave.take n, s.toClient, s.last⟩ := by
    by_cases hwoken : sz.getD 2 ≤ s.buffer.length
    · rw [decide_eq_true hwoken] at hs
      rw [decide_eq_true (hwoken.trans hgrow), arriveStep]
      simp only [hs, if_neg hbuffer]
    · rw [decide_eq_false hwoken] at hs
      simp only [arriveStep, hs]
  have hsplit : s.buffer ++ s.toSlave.take n ++ s.toSlave.drop n = s.buffer ++ s.toSlave := by
    rw [List.append_assoc, List.take_append_drop]
  cases h with
  | length hs happ =>
    rw [hslave none hs]
    exact .length rfl (hsplit.trans happ)
  | text hs happ =>
    rw [hslave (some _) hs]
    exact .text rfl (hsplit.trans happ)

variable (challenge serverkey : Str)

theorem slaveStep_waits {sz : Option ℕ} (hs : s.slave = .reads stage sz false) :
    slaveStep challenge serverkey s = s := by
  cases sz with
  | none => simp only [slaveStep, hs]
  | some sz => simp only [slaveStep, hs]

/-- **The slave reads the length** of the first text, -/
theorem slaveStep_length (hs : s.slave = .reads stage none true)
    (hwoken : 2 ≤ s.buffer.length) (happ : s.buffer ++ s.toSlave = frames l)
    (hl : ∀ text ∈ l, text ≠ [] ∧ text.length < 65536) :
    ∃ text l' rest, l = text :: l' ∧ rest ++ s.toSlave = text ++ frames l' ∧ slaveStep challenge serverkey s =
      { s with slave := .reads stage (some text.length) (text.length ≤ rest.length), buffer := rest } := by
  obtain ⟨text, l, rfl⟩ : ∃ text l', l = text :: l' := by
    refine List.exists_cons_of_ne_nil ?_
    rintro rfl
    have hnil := (List.append_eq_nil_iff.mp happ).1
    rw [hnil] at hwoken
    exact absurd hwoken (by decide)
  obtain ⟨hne, hlength⟩ := hl text List.mem_cons_self
  match hbuffer : s.buffer with
  | [] =>
    rw [hbuffer] at hwoken
    exact absurd hwoken (by decide)
  | [a] =>
    rw [hbuffer] at hwoken
    exact absurd hwoken (Nat.lt_irrefl 1)
  | a :: b :: rest =>
    rw [hbuffer, frames_cons] at happ
    obtain ⟨rfl, htail⟩ := List.cons.inj happ
    obtain ⟨rfl, hrest⟩ := List.cons.inj htail
    have hzero : text.length ≠ 0 := fun hzero => hne (List.eq_nil_of_length_eq_zero hzero)
    refine ⟨text, l, rest, rfl, hrest, ?_⟩
    simp only [slaveStep, hs, hbuffer, frame_size hlength, if_neg hzero]

/-- and the text. -/
theorem slaveStep_text (hs : s.slave = .reads stage (some text.length) true)
    (hwoken : text.length ≤ s.buffer.length) (happ : s.buffer ++ s.toSlave = text ++ frames l) :
    ∃ rest, rest ++ s.toSlave = frames l ∧
      slaveStep challenge serverkey s = proceed serverkey stage s text rest := by
  have htext : s.buffer.take text.length = text := by
    have htake := congrArg (List.take text.length) happ
    rwa [List.take_append_of_le_length hwoken, List.take_left] at htake
  have hrest : s.buffer.drop text.length ++ s.toSlave = frames l := by
    have hdrop := congrArg (List.drop text.length) happ
    rwa [List.drop_append_of_le_length hwoken, List.drop_left] at hdrop
  refine ⟨s.buffer.drop text.length, hrest, ?_⟩
  simp only [slaveStep, hs, htext]

/-- **A step of the slave** leaves it before the same texts, or takes the first. -/
theorem Awaits.slave (h : Awaits stage s l)
    (hl : ∀ text ∈ l, text ≠ [] ∧ text.length < 65536) :
    (∃ slave buffer, slaveStep challenge serverkey s = { s with slave := slave, buffer := buffer } ∧
        Awaits stage { s with slave := slave, buffer := buffer } l) ∨
      ∃ text l' rest, l = text :: l' ∧ rest ++ s.toSlave = frames l' ∧
        slaveStep challenge serverkey s = proceed serverkey stage s text rest := by
  cases h with
  | length hs happ =>
    left
    by_cases hwoken : 2 ≤ s.buffer.length
    · rw [decide_eq_true hwoken] at hs
      obtain ⟨text, l, rest, rfl, hrest, hstep⟩ := slaveStep_length challenge serverkey hs hwoken happ hl
      exact ⟨_, _, hstep, .text rfl hrest⟩
    · have hwaits := hs
      rw [decide_eq_false hwoken] at hwaits
      exact ⟨s.slave, s.buffer, slaveStep_waits challenge serverkey hwaits, .length hs happ⟩
  | @text text l hs happ =>
    by_cases hwoken : text.length ≤ s.buffer.length
    · rw [decide_eq_true hwoken] at hs
      obtain ⟨rest, hrest, hstep⟩ := slaveStep_text challenge serverkey hs hwoken happ
      exact .inr ⟨text, l, rest, rfl, hrest, hstep⟩
    · have hwaits := hs
      rw [decide_eq_false hwoken] at hwaits
      exact .inl ⟨s.slave, s.buffer, slaveStep_waits challenge serverkey hwaits, .text hs happ⟩

/-- **With all bytes there**, one step or two take the first text. -/
theorem Awaits.takes (h : Awaits stage s (text :: l)) (hall : s.toSlave = [])
    (hl : ∀ text' ∈ text :: l, text' ≠ [] ∧ text'.length < 65536) :
    slaveStep challenge serverkey s = proceed serverkey stage s text (frames l) ∨
      slaveStep challenge serverkey (slaveStep challenge serverkey s) = proceed serverkey stage s text (frames l) := by
  have htake (s : State) (hall : s.toSlave = [])
      (hs : s.slave = .reads stage (some text.length) (text.length ≤ s.buffer.length))
      (happ : s.buffer ++ s.toSlave = text ++ frames l) :
      slaveStep challenge serverkey s = proceed serverkey stage s text (frames l) := by
    have hwoken : text.length ≤ s.buffer.length := by
      rw [hall, List.append_nil] at happ
      rw [happ, List.length_append]
      omega
    rw [decide_eq_true hwoken] at hs
    obtain ⟨rest, hrest, hstep⟩ := slaveStep_text challenge serverkey hs hwoken happ
    rw [hall, List.append_nil] at hrest
    rw [hstep, hrest]
  cases h with
  | length hs happ =>
    right
    have hwoken : 2 ≤ s.buffer.length := by
      rw [hall, List.append_nil] at happ
      rw [happ, frames_cons, List.length_append, length_frame]
      omega
    rw [decide_eq_true hwoken] at hs
    obtain ⟨text', l', rest, heq, hrest, hstep⟩ :=
      slaveStep_length challenge serverkey hs hwoken happ hl
    obtain ⟨rfl, rfl⟩ := List.cons.inj heq
    let next : State := { s with slave := .reads stage (some text.length) (text.length ≤ rest.length), buffer := rest }
    rw [hstep, htake next hall rfl hrest]
    rfl
  | text hs happ => exact .inl (htake s hall hs happ)

end

/-! ## Phases -/

/-- **How far the two have come.** -/
inductive Phase
  | opening | challenged | offered | exchanged | answered | proved | authorizing

namespace Phase

variable (σ)

/-- Where the client stands, -/
def client : Phase → Client
  | opening | challenged => .challenge
  | offered | exchanged => .serverkey (randomkey σ.challenge)
  | answered | proved | authorizing => .result σ.secret

/-- the packets it has not taken, -/
def toClient : Phase → List Str
  | challenged => [σ.challenged]
  | exchanged => [σ.exchanged]
  | _ => []

/-- what the slave reads, -/
def stage : Phase → Option Stage
  | opening | authorizing => none
  | challenged | offered => some (.handshake (randomkey σ.challenge))
  | exchanged | answered => some (.response (randomkey σ.challenge) σ.secret)
  | proved => some (.token σ.secret)

/-- and the packets that it has not taken. -/
def toSlave : Phase → List Str
  | offered => [σ.offered]
  | answered => [σ.answered, σ.proved]
  | proved => [σ.proved]
  | _ => []

/-- **Where the slave stands.** -/
inductive Reads (s : State) : Phase → Prop
  | opening (hslave : s.slave = .start) (hbuffer : s.buffer = []) (hto : s.toSlave = []) : Reads s opening
  | awaits {ph : Phase} {stage : Stage} (hstage : ph.stage σ = some stage)
      (h : Awaits stage s (ph.toSlave σ)) : Reads s ph
  | authorizing (hslave : s.slave = .authorizes σ.token σ.secret) (hbuffer : s.buffer = [])
      (hto : s.toSlave = []) : Reads s authorizing

/-- **The state of the two** and of the bytes between them. -/
structure Good (ph : Phase) (s : State) : Prop where
  client : s.client = ph.client σ
  toClient : s.last ++ s.toClient = frames (ph.toClient σ)
  slave : Reads σ s ph

variable {σ} {ph : Phase}

theorem good_initial : Good σ opening initial := ⟨rfl, rfl, .opening rfl rfl rfl⟩

theorem texts_toSlave (h : σ.Fits) (ph : Phase) : ∀ text ∈ ph.toSlave σ, text ≠ [] ∧ text.length < 65536 := by
  have hne {text : Str} (hlength : 0 < text.length) : text ≠ [] := List.ne_nil_of_length_pos hlength
  have hoffered := σ.length_offered
  have hanswered := σ.length_answered
  have hproved := Setup.length_proved h
  intro text htext
  cases ph with
  | offered =>
    obtain rfl := List.mem_singleton.mp htext
    exact ⟨hne (by omega), by omega⟩
  | answered =>
    obtain rfl | htext := List.mem_cons.mp htext
    · exact ⟨hne (by omega), by omega⟩
    · obtain rfl := List.mem_singleton.mp htext
      exact ⟨hne (by omega), by omega⟩
  | proved =>
    obtain rfl := List.mem_singleton.mp htext
    exact ⟨hne (by omega), by omega⟩
  | _ => exact absurd htext List.not_mem_nil

theorem length_toSlave (h : σ.Fits) (ph : Phase) : (frames (ph.toSlave σ)).length ≤ limit := by
  have hoffered := σ.length_offered
  have hanswered := σ.length_answered
  have hproved := Setup.length_proved h
  cases ph with
  | offered =>
    simp only [toSlave, frames_cons, frames_nil, List.length_append, length_frame, List.length_nil, limit]
    omega
  | answered =>
    simp only [toSlave, frames_cons, frames_nil, List.length_append, length_frame, List.length_nil, limit]
    omega
  | proved =>
    simp only [toSlave, frames_cons, frames_nil, List.length_append, length_frame, List.length_nil, limit]
    omega
  | _ => exact Nat.zero_le limit

/-- **Bytes for the slave** change nothing else. -/
theorem Good.arrive (h : Good σ ph s) (hfits : σ.Fits) (n : ℕ) : Good σ ph (arriveStep n s) := by
  obtain ⟨hclient, hcoming, hslave⟩ := h
  have hrest : (arriveStep n s).client = s.client ∧ (arriveStep n s).last = s.last ∧
      (arriveStep n s).toClient = s.toClient := by
    obtain ⟨slave, hstep, -⟩ := arriveStep_cases n s
    rw [hstep]
    exact ⟨rfl, rfl, rfl⟩
  refine ⟨hrest.1.trans hclient, ?_, ?_⟩
  · rw [hrest.2.1, hrest.2.2, hcoming]
  · cases hslave with
    | opening hs hbuffer hto =>
      have hnil : s.buffer ++ s.toSlave.take n = [] := by rw [hbuffer, hto, List.take_nil, List.nil_append]
      have hlimit : ¬ limit < (s.buffer ++ s.toSlave.take n).length := by
        rw [hnil]
        exact Nat.not_lt_zero limit
      have hstep : arriveStep n s =
          { s with buffer := s.buffer ++ s.toSlave.take n, toSlave := s.toSlave.drop n } := by
        simp only [arriveStep, hs, if_neg hlimit]
      rw [hstep]
      refine .opening hs hnil ?_
      rw [hto]
      exact List.drop_nil
    | awaits hstage hawaits => exact .awaits hstage (hawaits.arrive (length_toSlave hfits ph) n)
    | authorizing hs hbuffer hto =>
      have hstep : arriveStep n s =
          { s with buffer := s.buffer ++ s.toSlave.take n, toSlave := s.toSlave.drop n } := by
        simp only [arriveStep, hs]
      rw [hstep]
      refine .authorizing hs ?_ ?_
      · rw [hbuffer, hto, List.take_nil, List.nil_append]
      · rw [hto]
        exact List.drop_nil

/-- The phase after. -/
def next : Phase → Phase
  | opening => challenged
  | challenged => offered
  | offered => exchanged
  | exchanged => answered
  | answered => proved
  | proved | authorizing => authorizing

/-- **The slave sends the challenge.** -/
theorem Good.opens (h : Good σ opening s) :
    Good σ challenged (slaveStep (randomkey σ.challenge) (randomkey σ.serverkey) s) := by
  obtain ⟨hclient, hcoming, hslave⟩ := h
  have hpack : pack (base64encode (randomkey σ.challenge)) = .ok (frame σ.challenged) :=
    pack_eq σ.challenged (by rw [Setup.length_challenged]; decide)
  cases hslave with
  | awaits hstage h => cases hstage
  | opening hs hbuffer hto =>
    simp only [slaveStep, hs, hpack]
    refine ⟨hclient, ?_, .awaits rfl (.length rfl ?_)⟩
    · rw [← List.append_assoc, hcoming]
      exact (List.append_nil _).symm
    · rw [hbuffer, hto]
      rfl

/-- **The slave takes a packet.** -/
theorem Good.proceeds (h : Good σ ph s) (hfits : σ.Fits) {stage : Stage} (hstage : ph.stage σ = some stage)
    (htext : ph.toSlave σ = text :: l) (hrest : rest ++ s.toSlave = frames l) :
    Good σ ph.next (proceed (randomkey σ.serverkey) stage s text rest) := by
  obtain ⟨hclient, hcoming, -⟩ := h
  cases ph with
  | offered =>
    obtain rfl := Option.some.inj hstage
    obtain ⟨rfl, rfl⟩ := List.cons.inj htext
    rw [proceed, Setup.process_offered]
    refine ⟨hclient, ?_, .awaits rfl (.length rfl hrest)⟩
    rw [← List.append_assoc, hcoming]
    exact (List.append_nil _).symm
  | answered =>
    obtain rfl := Option.some.inj hstage
    obtain ⟨rfl, rfl⟩ := List.cons.inj htext
    rw [proceed, Setup.process_answered]
    dsimp only
    refine ⟨hclient, ?_, .awaits rfl (.length rfl hrest)⟩
    rw [List.append_nil]
    exact hcoming
  | proved =>
    obtain rfl := Option.some.inj hstage
    obtain ⟨rfl, rfl⟩ := List.cons.inj htext
    obtain ⟨hbuffer, hto⟩ := List.append_eq_nil_iff.mp hrest
    rw [proceed, Setup.process_proved hfits]
    dsimp only
    refine ⟨hclient, ?_, .authorizing rfl hbuffer hto⟩
    rw [List.append_nil]
    exact hcoming
  | _ => cases htext

/-- Packets to the slave come after those on their way. -/
theorem Awaits.sent {stage : Stage} {l' : List Str} (h : Awaits stage s l) (hslave : t.slave = s.slave)
    (hbuffer : t.buffer = s.buffer) (hto : t.toSlave = s.toSlave ++ frames l') : Awaits stage t (l ++ l') := by
  have hframes (l : List Str) : frames l ++ frames l' = frames (l ++ l') := by
    rw [frames, frames, frames, List.map_append, List.flatten_append]
  cases h with
  | length hs happ =>
    refine .length ?_ ?_
    · rw [hslave, hs, hbuffer]
    · rw [hbuffer, hto, ← List.append_assoc, happ, hframes]
  | text hs happ =>
    refine .text ?_ ?_
    · rw [hslave, hs, hbuffer]
    · rw [hbuffer, hto, ← List.append_assoc, happ, List.append_assoc, hframes]
      rfl

/-- **The client takes a packet.** -/
theorem Good.receives (h : Good σ ph s) (hfits : σ.Fits) (htext : ph.toClient σ = [text]) :
    Good σ ph.next (receive (randomkey σ.clientkey) σ.token { s with toClient := [] } text []) := by
  obtain ⟨hclient, -, hslave⟩ := h
  cases ph with
  | challenged =>
    obtain rfl := List.singleton_inj.mp htext
    have hanswer : answer (randomkey σ.clientkey) σ.token s.client σ.challenged =
        .ok (frame σ.offered, .serverkey (randomkey σ.challenge)) := by rw [hclient]; exact Setup.answer_challenged
    rw [receive, hanswer]
    cases hslave with
    | awaits hstage hawaits =>
      refine ⟨rfl, rfl, .awaits hstage (Awaits.sent hawaits rfl rfl ?_)⟩
      rw [frames_cons, frames_nil, List.append_nil]
  | exchanged =>
    obtain rfl := List.singleton_inj.mp htext
    have hanswer : answer (randomkey σ.clientkey) σ.token s.client σ.exchanged =
        .ok (frame σ.answered ++ frame σ.proved, .result σ.secret) := by
      rw [hclient]
      exact Setup.answer_exchanged hfits
    rw [receive, hanswer]
    cases hslave with
    | awaits hstage hawaits =>
      refine ⟨rfl, rfl, .awaits hstage (Awaits.sent hawaits rfl rfl ?_)⟩
      rw [frames_cons, frames_cons, frames_nil, List.append_nil]
  | _ => cases htext

/-- What the client keeps is nothing to the slave. -/
theorem Reads.keep (h : Reads σ s ph) (hslave : t.slave = s.slave) (hbuffer : t.buffer = s.buffer)
    (hto : t.toSlave = s.toSlave) : Reads σ t ph := by
  cases h with
  | opening hs hb ht => exact .opening (hslave.trans hs) (hbuffer.trans hb) (hto.trans ht)
  | awaits hstage hawaits =>
    have hsame : t.toSlave = s.toSlave ++ frames [] := by rw [hto, frames_nil, List.append_nil]
    have hsent := Awaits.sent hawaits hslave hbuffer hsame
    rw [List.append_nil] at hsent
    exact .awaits hstage hsent
  | authorizing hs hb ht => exact .authorizing (hslave.trans hs) (hbuffer.trans hb) (hto.trans ht)

/-- Whether a packet is on its way to the client. -/
theorem toClient_cases (ph : Phase) : ph.toClient σ = [] ∨ (∃ text, ph.toClient σ = [text] ∧ text.length < 65536) ∧
    (∀ secret, ph.client σ ≠ .result secret) ∧ ∀ e, ph.client σ ≠ .fails e := by
  cases ph with
  | challenged =>
    refine .inr ⟨⟨_, rfl, ?_⟩, nofun, nofun⟩
    rw [Setup.length_challenged]
    decide
  | exchanged =>
    refine .inr ⟨⟨_, rfl, ?_⟩, nofun, nofun⟩
    rw [Setup.length_exchanged]
    decide
  | _ => exact .inl rfl

theorem clientStep_idle {clientkey token : Str} (n : ℕ) (hlast : s.last = []) (hto : s.toClient = []) :
    clientStep clientkey token n s = s := by
  obtain ⟨slave, client, toSlave, buffer, toClient, last⟩ := s
  obtain rfl : last = [] := hlast
  obtain rfl : toClient = [] := hto
  cases client with
  | challenge => simp only [clientStep, unpack_package, List.take_nil, List.append_nil, List.drop_nil]
  | serverkey c => simp only [clientStep, unpack_package, List.take_nil, List.append_nil, List.drop_nil]
  | result c => rfl
  | fails e => rfl

/-- **A step of the client** keeps the phase or ends it. -/
theorem Good.client_step (h : Good σ ph s) (hfits : σ.Fits) (n : ℕ) :
    let t := clientStep (randomkey σ.clientkey) σ.token n s
    Good σ ph t ∨ Good σ ph.next t := by
  obtain hnil | ⟨⟨text, htext, hlength⟩, hresult, hfails⟩ := toClient_cases (σ := σ) ph
  · have happ := h.toClient
    rw [hnil] at happ
    obtain ⟨hlast, hto⟩ := List.append_eq_nil_iff.mp happ
    left
    rw [clientStep_idle n hlast hto]
    exact h
  · have happ := h.toClient
    rw [htext, frames_cons, frames_nil, List.append_nil] at happ
    rw [← h.client] at hresult hfails
    rw [clientStep_eq _ _ n hresult hfails hlength happ]
    split
    · exact .inr (h.receives hfits htext)
    · refine .inl ⟨h.client, ?_, h.slave.keep rfl rfl rfl⟩
      rw [List.append_assoc, List.take_append_drop]
      exact h.toClient

/-- **A step of the slave** keeps the phase or ends it. -/
theorem Good.slave_step (h : Good σ ph s) (hfits : σ.Fits) :
    let t := slaveStep (randomkey σ.challenge) (randomkey σ.serverkey) s
    Good σ ph t ∨ Good σ ph.next t := by
  have hgood := h
  obtain ⟨hclient, hcoming, hslave⟩ := h
  cases hslave with
  | opening hs hbuffer hto => exact .inr hgood.opens
  | awaits hstage hawaits =>
    obtain ⟨slave, buffer, hstep, hkeep⟩ | ⟨text, l, rest, htext, hrest, hstep⟩ :=
      hawaits.slave (randomkey σ.challenge) (randomkey σ.serverkey) (texts_toSlave hfits ph)
    · rw [hstep]
      exact .inl ⟨hclient, hcoming, .awaits hstage hkeep⟩
    · rw [hstep]
      exact .inr (hgood.proceeds hfits hstage htext hrest)
  | authorizing hs hbuffer hto =>
    have hstep : slaveStep (randomkey σ.challenge) (randomkey σ.serverkey) s = s := by simp only [slaveStep, hs]
    rw [hstep]
    exact .inl hgood

theorem Good.step (h : Good σ ph s) (hfits : σ.Fits) (e : Event) :
    Good σ ph (step σ s e) ∨ Good σ ph.next (step σ s e) := by
  cases e with
  | slave => exact h.slave_step hfits
  | client n => exact h.client_step hfits n
  | arrive n => exact .inl (h.arrive hfits n)

/-- **Every phase but the last ends.** -/
theorem Good.moves (h : Good σ ph s) (hfits : σ.Fits) (hne : ph ≠ authorizing) :
    ∃ es t, (login σ).Path s es t ∧ Good σ ph.next t := by
  have hgood := h
  obtain ⟨hclient, hcoming, hslave⟩ := h
  cases hslave with
  | opening hs hbuffer hto => exact ⟨[.slave], _, .cons rfl (.nil _), hgood.opens⟩
  | authorizing hs hbuffer hto => exact absurd rfl hne
  | awaits hstage hawaits =>
    obtain hnil | ⟨⟨text, htext, hlength⟩, hresult, hfails⟩ := toClient_cases (σ := σ) ph
    · have hto : ∃ text l, ph.toSlave σ = text :: l := by
        cases ph with
        | offered => exact ⟨_, _, rfl⟩
        | answered => exact ⟨_, _, rfl⟩
        | proved => exact ⟨_, _, rfl⟩
        | opening => cases hstage
        | authorizing => cases hstage
        | challenged => cases hnil
        | exchanged => cases hnil
      obtain ⟨text, l, htext⟩ := hto
      let m := arriveStep s.toSlave.length s
      have hall : m.toSlave = [] := by
        obtain ⟨slave, hstep, -⟩ := arriveStep_cases s.toSlave.length s
        simp only [m, hstep, List.drop_length]
      have hm : Good σ ph m := hgood.arrive hfits _
      have htexts := texts_toSlave hfits ph
      have hmawaits := hawaits.arrive (length_toSlave hfits ph) s.toSlave.length
      rw [htext] at htexts hmawaits
      have hrest : frames l ++ m.toSlave = frames l := by rw [hall, List.append_nil]
      have hproceeds := hm.proceeds hfits hstage htext hrest
      obtain hone | htwo := hmawaits.takes (randomkey σ.challenge) (randomkey σ.serverkey) hall htexts
      · rw [← hone] at hproceeds
        exact ⟨[.arrive s.toSlave.length, .slave], _, .cons rfl (.cons rfl (.nil _)), hproceeds⟩
      · rw [← htwo] at hproceeds
        exact ⟨[.arrive s.toSlave.length, .slave, .slave], _, .cons rfl (.cons rfl (.cons rfl (.nil _))), hproceeds⟩
    · have happ := hcoming
      rw [htext, frames_cons, frames_nil, List.append_nil] at happ
      rw [← hclient] at hresult hfails
      have hreceives := hgood.receives hfits htext
      have hstep := clientStep_eq (randomkey σ.clientkey) σ.token s.toClient.length hresult hfails hlength happ
      rw [if_pos le_rfl] at hstep
      rw [← hstep] at hreceives
      exact ⟨[.client s.toClient.length], _, .cons rfl (.nil _), hreceives⟩

/-- How many phases are left. -/
def left : Phase → ℕ
  | opening => 6
  | challenged => 5
  | offered => 4
  | exchanged => 3
  | answered => 2
  | proved => 1
  | authorizing => 0

theorem Good.completes (h : Good σ ph s) (hfits : σ.Fits) :
    ∃ es t, (login σ).Path s es t ∧ Good σ authorizing t := by
  induction hleft : ph.left generalizing ph s with
  | zero =>
    cases ph with
    | authorizing => exact ⟨[], s, .nil s, h⟩
    | _ => cases hleft
  | succ n ih =>
    have hne : ph ≠ authorizing := by
      rintro rfl
      cases hleft
    have hnext : ph.next.left = n := by
      cases ph with
      | authorizing => cases hleft
      | _ => exact Nat.succ.inj hleft
    obtain ⟨es, t, hpath, hgood⟩ := h.moves hfits hne
    obtain ⟨fs, u, hpath', hend⟩ := ih hgood hnext
    exact ⟨es ++ fs, u, hpath.trans hpath', hend⟩

end Phase

theorem reachable_good (h : σ.Fits) (hs : (login σ).Reachable s) : ∃ ph, Phase.Good σ ph s := by
  refine hs.invariant (P := fun s => ∃ ph, Phase.Good σ ph s) ?_ ?_
  · rintro s rfl
    exact ⟨.opening, Phase.good_initial⟩
  · rintro s e t rfl ⟨ph, hgood⟩
    obtain hkeep | hnext := hgood.step h e
    · exact ⟨ph, hkeep⟩
    · exact ⟨ph.next, hnext⟩

/-- **The two never fail**, and when the slave calls `auth_handler` it is with the token
of the client, which then has the secret of the slave. -/
theorem login_agrees (h : σ.Fits) (hs : (login σ).Reachable s) : (∀ e, s.slave ≠ .fails e) ∧
    (∀ e, s.client ≠ .fails e) ∧
      ∀ token secret, s.slave = .authorizes token secret → token = σ.token ∧ s.client = .result secret := by
  obtain ⟨ph, hclient, hto, hslave⟩ := reachable_good h hs
  refine ⟨?_, ?_, ?_⟩
  · intro e he
    cases hslave with
    | opening hs => rw [he] at hs; cases hs
    | awaits _ hawaits =>
      obtain ⟨sz, woken, hs⟩ := hawaits.reads
      rw [he] at hs
      cases hs
    | authorizing hs => rw [he] at hs; cases hs
  · intro e he
    rw [he] at hclient
    cases ph with
    | _ => cases hclient
  · intro token secret htoken
    cases hslave with
    | opening hs => rw [htoken] at hs; cases hs
    | awaits _ hawaits =>
      obtain ⟨sz, woken, hs⟩ := hawaits.reads
      rw [htoken] at hs
      cases hs
    | authorizing hs =>
      rw [htoken] at hs
      obtain ⟨rfl, rfl⟩ := Slave.authorizes.inj hs
      exact ⟨rfl, hclient⟩

/-- Random bytes of zero, and the token of a game, an account and a channel. -/
def zeros : Setup := ⟨fun _ => 0, fun _ => 0, fun _ => 0, "game:athena:1".toList⟩

theorem zeros_fits : zeros.Fits := ⟨by decide, by decide⟩

theorem path_steps (es : List Event) (s : State) : (login σ).Path s es (es.foldl (step σ) s) := by
  induction es generalizing s with
  | nil => exact .nil s
  | cons e es ih => exact .cons rfl (ih (step σ s e))

/-- A login whose packets come in pieces. -/
def exchange : List Event :=
  [.slave, .client 5, .client 9, .arrive 1, .slave, .arrive 20, .slave, .slave, .client 1, .client 99, .arrive 20,
    .slave, .slave, .arrive 99, .slave, .slave]

/-- **It ends in `auth_handler`** with the token and one secret. -/
theorem login_agrees_zeros : (login zeros).Path initial exchange (exchange.foldl (step zeros) initial) ∧
    (exchange.foldl (step zeros) initial).slave = .authorizes zeros.token zeros.secret ∧
    (exchange.foldl (step zeros) initial).client = .result zeros.secret := by
  have hpath := path_steps (σ := zeros) exchange initial
  have hslave : (exchange.foldl (step zeros) initial).slave = .authorizes zeros.token zeros.secret := by
    decide +kernel
  obtain ⟨-, -, hclient⟩ := login_agrees zeros_fits ⟨initial, exchange, rfl, hpath⟩
  exact ⟨hpath, hslave, (hclient _ _ hslave).2⟩

/-- **A login can always end**, wherever it stands. -/
theorem login_completes (h : σ.Fits) (hs : (login σ).Reachable s) : ∃ es t, (login σ).Path s es t ∧
    t.slave = .authorizes σ.token σ.secret ∧ t.client = .result σ.secret := by
  obtain ⟨ph, hgood⟩ := reachable_good h hs
  obtain ⟨es, t, hpath, hclient, -, hslave⟩ := hgood.completes h
  refine ⟨es, t, hpath, ?_, hclient⟩
  cases hslave with
  | awaits hstage => cases hstage
  | authorizing hs => exact hs

theorem login_completes_zeros : ∃ es t, (login zeros).Path initial es t ∧
    t.slave = .authorizes zeros.token zeros.secret ∧ t.client = .result zeros.secret :=
  login_completes zeros_fits (.of_init rfl)

end Session

end Login

end Athena
