import Athena.Common.System
import Athena.Entity.Model
import Athena.Lua.Split
/-!
# Accounts — tokens

A client of the login server sends five fields with colons between them,
and `auth_handler` of `login/logind.lua` takes them apart again with
`string.split`. `match_name_password` says which names and passwords may
be registered. The punctuation that it admits has the colon in it, so a
name or a password that it admits is not always read back (`parse_iff`).
-/

namespace Athena

namespace Account

open Lua

/-! ## The rule -/

/-- `[%a%d]`, of the C locale. -/
def alnum (c : Char) : Bool :=
  (48 ≤ c.toNat && c.toNat ≤ 57) || (65 ≤ c.toNat && c.toNat ≤ 90) || (97 ≤ c.toNat && c.toNat ≤ 122)

/-- `%p`. -/
def punct (c : Char) : Bool :=
  (33 ≤ c.toNat && c.toNat ≤ 47) || (58 ≤ c.toNat && c.toNat ≤ 64) ||
    (91 ≤ c.toNat && c.toNat ≤ 96) || (123 ≤ c.toNat && c.toNat ≤ 126)

/-- **`match_name_password`.** -/
def match_name_password (param : Str) : Bool :=
  (Pattern.find [⟨alnum, .plus, false⟩] param).isSome &&
    (8 ≤ param.length && param.length ≤ 16) &&
    !(Pattern.find [⟨fun c => !(alnum c || punct c), .plus, false⟩] param).isSome

/-- **The rule**: eight to sixteen letters, digits and punctuation marks, and
not punctuation only. -/
theorem match_name_password_iff (param : Str) : match_name_password param = true ↔
    (∃ c ∈ param, alnum c = true) ∧ (8 ≤ param.length ∧ param.length ≤ 16) ∧
      ∀ c ∈ param, alnum c = true ∨ punct c = true := by
  simp only [match_name_password, Pattern.find_plus_isSome, Bool.and_eq_true, decide_eq_true_eq,
    List.any_eq_true, Bool.not_eq_true', List.any_eq_false, and_assoc]
  refine and_congr_right fun _ => and_congr_right fun _ => and_congr_right fun _ => ?_
  exact forall_congr' fun c => forall_congr' fun _ => by cases alnum c <;> simp

/-! ## The fields -/

/-- A number that `%d` writes. -/
def integral : Number → Bool
  | .int _ => true
  | .flt q => q.den = 1 && (-2 ^ 63 ≤ q.num && q.num < 2 ^ 63)
  | _ => false

/-- **What a client asks for.** -/
structure Request where
  server : Str
  token : Str
  password : Str
  sdkid : Number
  /-- `"Login"`, or else a registration. -/
  param : Str
  deriving DecidableEq

/-- The first lines of `auth_handler`, where it raises unless there are five
fields and `%d` writes the fourth. -/
def parse (args : Str) : Option Request :=
  match stringSplit (some args) (some ':') with
  | [server, token, password, sdkid, param] =>
    match tonumber sdkid with
    | some sdkid => if integral sdkid then some ⟨server, token, password, sdkid, param⟩ else none
    | none => none
  | _ => none

/-- What a client sends. -/
def joined (server token password : Str) (sdkid : Int64) (param : Str) : Str :=
  [':'].intercalate [server, token, password, tostring (.int sdkid), param]

/-! ## Reading them back -/

theorem isSpace_of_admitted {c : Char} (h : alnum c = true ∨ punct c = true) : isSpace c = false := by
  have hne : 33 ≤ c.toNat := by
    simp only [alnum, punct, Bool.or_eq_true, Bool.and_eq_true, decide_eq_true_eq] at h
    omega
  have hspace : c ≠ ' ' := by
    rintro rfl
    exact absurd hne (by decide)
  simp only [isSpace, hspace, decide_false, Bool.false_or, Bool.and_eq_false_iff, decide_eq_false_iff_not]
  omega

/-- A name or password that is admitted is a field unless it has a colon. -/
theorem between_of_admitted {s : Str} (h : match_name_password s = true) :
    Between ':' s ↔ ':' ∉ s := by
  obtain ⟨⟨c, hc, -⟩, -, hall⟩ := (match_name_password_iff s).mp h
  constructor
  · exact fun hs hcolon => (hs.2 ':' hcolon).1 rfl
  · refine fun hs => ⟨List.ne_nil_of_mem hc, fun d hd => ⟨?_, isSpace_of_admitted (hall d hd)⟩⟩
    rintro rfl
    exact hs hd

/-- The text of an integer has no colon. -/
theorem between_tostring (i : Int64) : Between ':' (tostring (.int i)) := by
  refine ⟨(field_tostring i).1, fun c hc => ⟨?_, ((field_tostring i).2 c hc).2⟩⟩
  rintro rfl
  exact absurd (isNumeral_tostring (.int i) ':' hc) (by decide)

/-- **The five fields come back** exactly where the server name and the mode
are texts between colons and the name and the password have no colon. -/
theorem parse_iff {server token password : Str} (sdkid : Int64) {param : Str}
    (htoken : match_name_password token = true) (hpassword : match_name_password password = true) :
    parse (joined server token password sdkid param) =
      some ⟨server, token, password, .int sdkid, param⟩ ↔
    Between ':' server ∧ ':' ∉ token ∧ ':' ∉ password ∧ Between ':' param := by
  rw [← between_of_admitted htoken, ← between_of_admitted hpassword]
  constructor
  · intro h
    unfold parse at h
    split at h
    · rename_i server' token' password' sdkid' param' hfields
      rw [stringSplit_eq] at hfields
      have hmem : ∀ f ∈ [server', token', password', sdkid', param'], Between ':' f := fun f hf =>
        between_of_mem_fieldsOf (hfields ▸ hf)
      split at h
      · split_ifs at h
        obtain ⟨rfl, rfl, rfl, -, rfl⟩ : server' = server ∧ token' = token ∧ password' = password ∧
            _ = Number.int sdkid ∧ param' = param := by
          simpa using h
        exact ⟨hmem _ (by simp), hmem _ (by simp), hmem _ (by simp), hmem _ (by simp)⟩
      · cases h
    · cases h
  · rintro ⟨hs, ht, hp, hm⟩
    have hfields : stringSplit (some (joined server token password sdkid param)) (some ':') =
        [server, token, password, tostring (.int sdkid), param] := by
      rw [stringSplit_eq]
      refine fieldsOf_intercalate (by decide) ?_
      simp only [List.mem_cons, List.not_mem_nil, or_false, forall_eq_or_imp, forall_eq]
      exact ⟨hs, ht, hp, between_tostring sdkid, hm⟩
    simp only [parse, hfields, tonumber_tostring_int]
    rfl

end Account

/-!
## Accounts — model

The login slaves run `auth_handler`, in a coroutine for each client, and
ask `accountdc` for the table `d_account`, which is in its memory by
`sdkid:pid`. `auth` waits for the answers of `get`, `get_nextid` and
`add`, and `add` itself waits for `dbmgr`; so a step is what runs between
two of these. A restart empties redis, fills it from MySQL and loads the
table into memory again.

What was registered is recorded beside the data; nothing reads it.
-/

namespace Account

open Lua
open Entity (Data Op idField)
open Store (Env Keyed uidValue)

/-! ## The table -/

def account : Str := "d_account".toList
def sdkidField : Str := "sdkid".toList
def pidField : Str := "pid".toList
def passwordField : Str := "password".toList

/-- The entry of `login/main.lua`. -/
def accountConfig : Store.Config := ⟨account, "sdkid,pid".toList, some idField⟩

/-- **What the login server is started with.** -/
structure LoginEnv where
  env : Env
  config_eq : env.configs .common account = some accountConfig
  pk_eq : (env.schema account).pk = idField
  id_number : (env.schema account).fields idField = some .number
  sdkid_number : (env.schema account).fields sdkidField = some .number
  pid_text : (env.schema account).fields pidField ≠ some .number
  password_text : (env.schema account).fields passwordField ≠ some .number

/-! ## Authentication -/

/-- What `auth_handler` does: it raises, or returns a result, the server and
the uid. -/
inductive Answer
  | raised
  | returned (result : ℕ) (server : Str) (uid : Value)
  deriving DecidableEq

/-- `auth` once it has the account: it returns, or goes on to `register`. -/
inductive Decision
  | uid (uid : Option Value)
  | register

/-- `"Login"`. -/
def login : Str := "Login".toList

/-- `tostring` of a value or a nil. -/
def shown : Option Value → Str
  | none => "nil".toList
  | some v => v.wire

/-- **`auth`**, from the answer of `get` on. -/
def auth (r : Request) (account : Row) : Decision :=
  if r.param = login then
    if account.entries = [] then .uid none
    else if shown (account.lookup passwordField) ≠ r.password then .uid (some (uidValue 0))
    else .uid (account.lookup idField)
  else if account.entries = [] then
    if !(match_name_password r.token || match_name_password r.password) then .uid (some (uidValue 0))
    else .register
  else .uid none

/-- The end of `auth_handler`. -/
def answer (server : Str) : Option Value → Answer
  | none => .raised
  | some uid => .returned (if uid.asKey = uidValue 0 then 0 else 1) server uid

/-- The `row` of `register`. -/
def register (r : Request) (uid : Int64) : Row :=
  ((((∅ : Row).insert sdkidField (.num r.sdkid)).insert passwordField (.str r.password)).insert
    pidField (.str r.token)).insert idField (uidValue uid)

/-! ## The state -/

/-- **Where a coroutine of `auth_handler` stands.** -/
inductive Phase
  | absent
  /-- In `account_dc.req.get`. -/
  | asking (r : Request)
  /-- In `account_dc.req.get_nextid`. -/
  | numbering (r : Request)
  /-- In `account_dc.req.add`, which has not begun. -/
  | adding (r : Request) (uid : Int64)
  /-- In `account_dc.req.add`, where `dbmgr` has answered. -/
  | storing (r : Request) (uid : Int64) (ret : Bool) (row : Row)
  | answered (a : Answer)
  deriving DecidableEq

/-- What a registration has returned a uid for. -/
structure Registered where
  token : Str
  password : Str
  sdkid : Number
  uid : Int64
  deriving DecidableEq

structure State where
  data : Data
  up : Bool
  phase : ℕ → Phase
  registered : List Registered

/-- Moves a coroutine to a phase. -/
def State.goto (s : State) (c : ℕ) (p : Phase) : State :=
  { s with phase := Function.update s.phase c p }

/-- What happens next; `c` names the coroutine. -/
inductive Event
  | call (c : ℕ) (args : Str)
  | get (c : ℕ)
  | get_nextid (c : ℕ)
  | add (c : ℕ)
  | store (c : ℕ)
  | restart

/-- The coroutine that goes on. -/
def Event.coroutine : Event → Option ℕ
  | .call c _ | .get c | .get_nextid c | .add c | .store c => some c
  | .restart => none

/-! ## The steps -/

/-- The key of an account. -/
def keyText (sdkid : Number) (token : Str) : Str := tostring sdkid ++ ':' :: token

/-- `account_dc.req.get` and what follows it. -/
def afterGet (recordset : Keyed) (r : Request) : Phase :=
  match Entity.Common.get recordset [.num r.sdkid, .str r.token] with
  | .error _ => .answered .raised
  | .ok account =>
    match auth r account with
    | .uid uid => .answered (answer r.server uid)
    | .register => .numbering r

/-- What follows `account_dc.req.get_nextid`. -/
def afterNextid (r : Request) : Except Fault (Option Value) → Phase
  | .ok (some (.num (.int uid))) => if uid < 1 then .answered .raised else .adding r uid
  | _ => .answered .raised

/-- What follows the first half of `account_dc.req.add`. -/
def afterAdd (r : Request) (uid : Int64) : Except Fault (Option (Bool × Row)) → Phase
  | .ok (some (ret, row)) => .storing r uid ret row
  | _ => .answered .raised

variable (L : LoginEnv)

/-- `load_maxkey_impl`, whose `max(pk)` is of the last row in their order. -/
def load_maxkey : Store.Call Unit := do
  let s ← Act.get
  let pk := (L.env.schema account).pk
  match (Store.select L.env accountConfig none s).getLast?.bind fun row => row.lookup pk with
  | some maxkey => do
    let _ ← Store.doRedis L.env (.set (account ++ ':' :: pk) maxkey) none
    pure ()
  | none => pure ()

/-- The start of the services: `redispool` flushes its connections, `dbmgr`
loads the table, and so does `accountdc`. -/
def start : Op Unit := do
  Act.modify fun d => ⟨⟨fun _ => ∅, d.services.mysql⟩, ∅⟩
  let _ ← Entity.call (Store.loadDataImpl L.env accountConfig none)
  Entity.call (load_maxkey L)
  Entity.Common.load L.env account

/-- **A step.** -/
def step (s : State) : Event → Option State
  | .call c args =>
    match s.up, s.phase c with
    | true, .absent => some (s.goto c (match parse args with
      | some r => .asking r
      | none => .answered .raised))
    | _, _ => none
  | .get c =>
    match s.phase c with
    | .asking r => some (s.goto c (afterGet s.data.recordset r))
    | _ => none
  | .get_nextid c =>
    match s.phase c with
    | .numbering r =>
      let (uid, d) := Entity.call (Entity.getNextId account idField L.env) s.data
      some ({ s with data := d }.goto c (afterNextid r uid))
    | _ => none
  | .add c =>
    match s.phase c with
    | .adding r uid =>
      let (ret, d) := Entity.Common.addRow L.env account (register r uid) false s.data
      some ({ s with data := d }.goto c (afterAdd r uid ret))
    | _ => none
  | .store c =>
    match s.phase c with
    | .storing r uid ret row =>
      match Entity.Common.keepRow L.env account ret row s.data with
      | (.ok (), d) => some ({ s with
          data := d
          registered := ⟨r.token, r.password, r.sdkid, uid⟩ :: s.registered }.goto c
            (.answered (answer r.server (some (uidValue uid)))))
      | (.error _, d) => some ({ s with data := d }.goto c (.answered .raised))
    | _ => none
  | .restart =>
    match start L s.data with
    | (.ok (), d) => some ⟨d, true, fun _ => .absent, s.registered⟩
    | (.error _, d) => some ⟨d, false, fun _ => .absent, s.registered⟩

/-! ## What a step does -/

variable {L} {s t : State} {c : ℕ} {args : Str}

theorem afterNextid_cases (r : Request) (x : Except Fault (Option Value)) :
    (∃ uid, 1 ≤ uid ∧ afterNextid r x = .adding r uid) ∨ afterNextid r x = .answered .raised := by
  unfold afterNextid
  split
  · split_ifs with hlt
    · exact Or.inr rfl
    · exact Or.inl ⟨_, Int64.not_lt.mp hlt, rfl⟩
  · exact Or.inr rfl

theorem afterAdd_cases (r : Request) (uid : Int64) (x : Except Fault (Option (Bool × Row))) :
    (∃ ret row, x = .ok (some (ret, row)) ∧ afterAdd r uid x = .storing r uid ret row) ∨
      afterAdd r uid x = .answered .raised := by
  unfold afterAdd
  split
  · exact Or.inl ⟨_, _, rfl, rfl⟩
  · exact Or.inr rfl

theorem step_call : step L s (.call c args) = some t ↔ s.up = true ∧ s.phase c = .absent ∧
    t = s.goto c (match parse args with
      | some r => .asking r
      | none => .answered .raised) := by
  simp only [step]
  split
  · rename_i hup hc
    simp [hup, hc, eq_comm]
  · rename_i hno
    simp only [reduceCtorEq, false_iff]
    rintro ⟨hup, hc, -⟩
    exact hno hup hc

theorem step_get : step L s (.get c) = some t ↔
    ∃ r, s.phase c = .asking r ∧ t = s.goto c (afterGet s.data.recordset r) := by
  simp only [step]
  cases s.phase c <;> simp [eq_comm]

theorem step_get_nextid : step L s (.get_nextid c) = some t ↔ ∃ r, s.phase c = .numbering r ∧
    t = { s with data := (Entity.call (Entity.getNextId account idField L.env) s.data).2 }.goto c
      (afterNextid r (Entity.call (Entity.getNextId account idField L.env) s.data).1) := by
  simp only [step]
  cases s.phase c <;> simp [eq_comm]

theorem step_add : step L s (.add c) = some t ↔ ∃ r uid, s.phase c = .adding r uid ∧
    t = { s with data := (Entity.Common.addRow L.env account (register r uid) false s.data).2 }.goto c
      (afterAdd r uid (Entity.Common.addRow L.env account (register r uid) false s.data).1) := by
  simp only [step]
  cases s.phase c <;> simp [eq_comm]

theorem step_store : step L s (.store c) = some t ↔ ∃ r uid ret row d,
    s.phase c = .storing r uid ret row ∧
      (Entity.Common.keepRow L.env account ret row s.data = (.ok (), d) ∧
          t = { s with
            data := d
            registered := ⟨r.token, r.password, r.sdkid, uid⟩ :: s.registered }.goto c
              (.answered (answer r.server (some (uidValue uid)))) ∨
        ∃ fault, Entity.Common.keepRow L.env account ret row s.data = (.error fault, d) ∧
          t = { s with data := d }.goto c (.answered .raised)) := by
  simp only [step]
  cases s.phase c with
  | storing r uid ret row =>
    simp only [Phase.storing.injEq]
    split
    · rename_i d hkeep
      constructor
      · intro h
        exact ⟨r, uid, ret, row, d, ⟨rfl, rfl, rfl, rfl⟩, Or.inl ⟨hkeep, (Option.some.inj h).symm⟩⟩
      · rintro ⟨r', uid', ret', row', d', ⟨rfl, rfl, rfl, rfl⟩, ⟨hkeep', rfl⟩ | ⟨fault, hkeep', -⟩⟩
        · obtain rfl := (Prod.mk.inj (hkeep.symm.trans hkeep')).2
          rfl
        · exact absurd (hkeep.symm.trans hkeep') (by simp)
    · rename_i fault d hkeep
      constructor
      · intro h
        exact ⟨r, uid, ret, row, d, ⟨rfl, rfl, rfl, rfl⟩, Or.inr ⟨fault, hkeep, (Option.some.inj h).symm⟩⟩
      · rintro ⟨r', uid', ret', row', d', ⟨rfl, rfl, rfl, rfl⟩, ⟨hkeep', -⟩ | ⟨fault', hkeep', rfl⟩⟩
        · exact absurd (hkeep.symm.trans hkeep') (by simp)
        · obtain rfl := (Prod.mk.inj (hkeep.symm.trans hkeep')).2
          rfl
  | _ => simp

theorem step_restart : step L s .restart = some t ↔ ∃ d,
    (start L s.data = (.ok (), d) ∧ t = ⟨d, true, fun _ => .absent, s.registered⟩) ∨
      ∃ fault, start L s.data = (.error fault, d) ∧ t = ⟨d, false, fun _ => .absent, s.registered⟩ := by
  simp only [step]
  split
  · rename_i d hstart
    simp [hstart, eq_comm]
  · rename_i fault d hstart
    simp [hstart, eq_comm]

variable (L)

/-- **The login server**, from before its first start, with any rows in
MySQL. -/
def system : System State Event where
  init s := s.up = false ∧ s.data.recordset = ∅ ∧ (∀ c, s.phase c = .absent) ∧ s.registered = []
  step s e t := step L s e = some t

/-- The state that a list of events leads to. -/
def run (s : State) (es : List Event) : Option State := es.foldlM (step L) s

end Account

end Athena
