import Athena.Common.System
import Athena.Lua.Value
import Athena.Store.Codec
/-!
# Names of roles — model

`changename` and `roleinit` of `game/user/user.lua`, over `userdc.lua`, which has the
table `d_user` twice: `entUser`, the rows of the players that are loaded, and
`entUserCustom`, all rows as they were when the service started. Of a row the name is
kept. Behind them a row is a hash in redis, on the connection of its player, and a row
in MySQL, whose name is a unique key. A name is read from redis through `isnumber`, and
from MySQL as it is.

The connections of redis are one where `redis_maxinst` is 1. Then the hashes that the
start of the services and an `add` leave are those of the players; otherwise they are on
another connection.
-/

namespace Athena

namespace Rolename

open Lua (Str Value)

/-- The id of an account, which is not 0. -/
abbrev Uid := Int64

/-- The answers of `changename`. -/
inductive Code
  | err_param
  | role_not_exists
  | role_name_repetition
  | used_name
  | role_name_sensitive
  | role_name_macth
  | role_name_length
  | db_error
  | success
  deriving DecidableEq

/-- **What the services are started with.** -/
structure Env where
  /-- `redis_maxinst` is 1. -/
  shared : Bool
  /-- A word of `sensitive_word` is found in the name. -/
  sensitive : Str → Bool
  /-- The unique key of `d_user` admits the name for the row, among the others. -/
  admits : (Uid → Option Str) → Uid → Str → Bool

/-- **The rows of `d_user`**, by their names. A row in memory or in redis may have
none. -/
structure State where
  /-- The recordset of `entUser`. -/
  recordset : Uid → Option (Option Value)
  /-- The hashes on the players' connections. -/
  redis : Uid → Option (Option Str)
  mysql : Uid → Option Str
  /-- The names in the recordset of `entUserCustom`. -/
  custom : List (Option Value)

/-! ## The entity -/

/-- `get_user_single`: the row in redis, or else the row in MySQL, which goes to redis. -/
def fetch (s : State) (uid : Uid) : Option (Option Value) × State :=
  match s.redis uid with
  | some name => (some (name.bind Store.isnumber), s)
  | none =>
    match s.mysql uid with
    | some name => (some (some (.str name)),
        { s with redis := Function.update s.redis uid (some (some name)) })
    | none => (none, s)

/-- `UserSingleEntity:get`, which keeps the row that it read. -/
def get (s : State) (uid : Uid) : Option (Option Value) × State :=
  match s.recordset uid with
  | some name => (some name, s)
  | none =>
    match fetch s uid with
    | (some name, s) => (some name, { s with recordset := Function.update s.recordset uid (some name) })
    | (none, s) => (none, s)

/-- `UserSingleEntity:load`. -/
def load (s : State) (uid : Uid) : State := (get s uid).2

/-- `UserSingleEntity:unload`. -/
def unload (s : State) (uid : Uid) : State :=
  { s with recordset := Function.update s.recordset uid none }

/-- `setValue(uid, "name", name)`. What MySQL does not admit it does not write. -/
def setname (E : Env) (s : State) (uid : Uid) (name : Str) : Bool × State :=
  match s.recordset uid with
  | none => (false, s)
  | some _ => (true,
    { s with
      recordset := Function.update s.recordset uid (some (some (.str name)))
      redis := Function.update s.redis uid (some (some name))
      mysql := if (s.mysql uid).isSome ∧ E.admits s.mysql uid name then
          Function.update s.mysql uid (some name) else s.mysql })

/-- `setValue` of another field: a hash that was not there has no name then. -/
def setfield (s : State) (uid : Uid) : State :=
  match s.recordset uid with
  | none => s
  | some _ => { s with redis := Function.update s.redis uid (some (s.redis uid).join) }

/-- `UserSingleEntity:add`. -/
def add (E : Env) (s : State) (uid : Uid) (name : Str) : State :=
  match s.recordset uid with
  | some _ => s
  | none =>
    { s with
      recordset := Function.update s.recordset uid (some (some (.str name)))
      redis := if E.shared then Function.update s.redis uid (some (some name)) else s.redis
      mysql := if (s.mysql uid).isNone ∧ E.admits s.mysql uid name then
          Function.update s.mysql uid (some name) else s.mysql }

/-- **`check_rolename_exists`.** -/
def check_rolename_exists (s : State) (name : Str) : Bool := s.custom.any (· = some (.str name))

/-! ## The text of a name -/

/-- How many bytes `utf8len` takes for one character. -/
def lead (c : Char) : ℕ :=
  if 0xfc ≤ c.toNat then 6 else if 0xf8 ≤ c.toNat then 5 else if 0xf0 ≤ c.toNat then 4
  else if 0xe0 ≤ c.toNat then 3 else if 0xc0 ≤ c.toNat then 2 else 1

/-- `string.utf8len`, for a number of turns. A character that is cut off makes it read
past the text, which raises. -/
def utf8lenLoop : ℕ → Str → Option ℕ
  | _, [] => some 0
  | 0, _ => none
  | n + 1, c :: s =>
    if s.length + 1 < lead c then none else (utf8lenLoop n ((c :: s).drop (lead c))).map (· + 1)

def utf8len (s : Str) : Option ℕ := utf8lenLoop s.length s

/-- The three bytes of a Chinese character that is kept. -/
def chinese (c : Char) (s : Str) : Bool :=
  match s with
  | c1 :: c2 :: _ =>
    let c := c.toNat
    let c1 := c1.toNat
    let c2 := c2.toNat
    let a1 := if c = 228 then 184 else 128
    let a2 := if c = 233 then 190 else 191
    let a4 := if c = 233 then (if c1 ≠ 190 then 191 else 165) else 191
    228 ≤ c && c ≤ 233 && a1 ≤ c1 && c1 ≤ a2 && 128 ≤ c2 && c2 ≤ a4
  | _ => false

/-- `string.filterspecchars`, for a number of turns. The bytes 254 and 255 stop it. -/
def filterspecchars : ℕ → Str → Option Str
  | _, [] => some []
  | 0, _ => none
  | n + 1, c :: s =>
    if c.toNat < 192 then
      (filterspecchars n s).map fun ss => if c.isAlphanum then c :: ss else ss
    else if c.toNat < 224 then filterspecchars n (s.drop 1)
    else if c.toNat < 240 then
      (filterspecchars n (s.drop 2)).map fun ss => if chinese c s then c :: s.take 2 ++ ss else ss
    else if c.toNat < 248 then filterspecchars n (s.drop 3)
    else if c.toNat < 252 then filterspecchars n (s.drop 4)
    else if c.toNat < 254 then filterspecchars n (s.drop 5)
    else none

/-- `name_match`: a code, or none where the name is well formed. -/
def name_match (E : Env) (name : Str) : Option (Option Code) :=
  if E.sensitive name then some (some .role_name_sensitive)
  else do
    let newname ← filterspecchars name.length name
    let old ← utf8len name
    let new ← utf8len newname
    pure (if old ≠ new then some .role_name_macth else none)

/-! ## The requests -/

/-- The code before the length is looked at. -/
def checked (E : Env) (s : State) (row : Option (Option Value)) (name : Str) : Option (Option Code) :=
  match row with
  | none => some (some .role_not_exists)
  | some old =>
    if old = some (.str name) then some (some .role_name_repetition)
    else if check_rolename_exists s name then some (some .used_name)
    else name_match E name

/-- **`changename`.** It answers nothing where it raises. -/
def changename (E : Env) (s : State) (uid : Uid) (name : Option Str) : Option Code × State :=
  match name with
  | none => (some .err_param, s)
  | some name =>
    let (row, s) := get s uid
    match checked E s row name, utf8len name with
    | some code, some len =>
      if len < 3 ∨ 7 < len then (some .role_name_length, s)
      else
        match code with
        | some code => (some code, s)
        | none =>
          match setname E s uid name with
          | (true, s) => (some .success, s)
          | (false, s) => (some .db_error, s)
    | _, _ => (none, s)

/-- `"游客"..tostring(uid)`, in bytes. -/
def visitor (uid : Uid) : Str :=
  [0xe6, 0xb8, 0xb8, 0xe5, 0xae, 0xa2].map Char.ofNat ++ Lua.tostring (.int uid)

/-- **`roleinit`**: the name of a new role, or the time of a login. -/
def roleinit (E : Env) (s : State) (uid : Uid) : State :=
  if uid = 1 then s
  else
    match get s uid with
    | (some _, s) => setfield s uid
    | (none, s) => add E s uid (visitor uid)

/-! ## Runs -/

inductive Event
  | load (uid : Uid)
  | unload (uid : Uid)
  | changename (uid : Uid) (name : Option Str)
  | roleinit (uid : Uid)

def serve (E : Env) (s : State) : Event → Option Code × State
  | .load uid => (none, load s uid)
  | .unload uid => (none, unload s uid)
  | .changename uid name => changename E s uid name
  | .roleinit uid => (none, roleinit E s uid)

/-- **The services have started**: no player is loaded, redis has no other names than
MySQL, where they are unique, and `entUserCustom` has what redis gives for them. -/
structure Started (s : State) : Prop where
  recordset : ∀ uid, s.recordset uid = none
  redis : ∀ uid name, s.redis uid = some name → ∃ text, name = some text ∧ s.mysql uid = some text
  unique : ∀ u v name, s.mysql u = some name → s.mysql v = some name → u = v
  custom : ∀ name, name ∈ s.custom ↔ ∃ uid text, s.mysql uid = some text ∧ Store.isnumber text = name

/-- **The runs of the service**, one request at a time. -/
def system (E : Env) : System State Event where
  init := Started
  step s e t := (serve E s e).2 = t

end Rolename

/-!
## Names of roles — what the filter keeps

`utf8len` and `filterspecchars` read a name in bytes, each with its own table of first
bytes. On a text of UTF-8 each takes one code point a turn, so one counts them and the
other keeps those that are regular.
-/

namespace Rolename

open Lua (Str encode utf8 utf8_cases toNat_ofNat_byte)

/-- 规范字符: a digit, a letter, or one of the ideographs U+4E00 to U+9FA5. -/
def regular (c : Char) : Bool :=
  (48 ≤ c.toNat && c.toNat ≤ 57) || (65 ≤ c.toNat && c.toNat ≤ 90) ||
    (97 ≤ c.toNat && c.toNat ≤ 122) || (0x4E00 ≤ c.toNat && c.toNat ≤ 0x9FA5)

/-! ## The length -/

/-- The first byte tells how many there are. -/
theorem utf8lenLoop_utf8 (n : ℕ) (c : Char) (s : Str) :
    utf8lenLoop (n + 1) (utf8 c ++ s) = (utf8lenLoop n s).map (· + 1) := by
  rcases utf8_cases c with ⟨h, he⟩ | ⟨h, h', he⟩ | ⟨h, h', he⟩ | ⟨h, h', he⟩
  · have hl : lead c = 1 := by
      simp only [lead]
      grind
    simp [he, utf8lenLoop, hl]
  · have hl : lead (Char.ofNat (c.toNat / 64 + 192)) = 2 := by
      simp only [lead, toNat_ofNat_byte (show c.toNat / 64 + 192 < 256 by omega)]
      grind
    simp [he, utf8lenLoop, hl]
  · have hl : lead (Char.ofNat (c.toNat / 4096 + 224)) = 3 := by
      simp only [lead, toNat_ofNat_byte (show c.toNat / 4096 + 224 < 256 by omega)]
      grind
    simp [he, utf8lenLoop, hl]
  · have hl : lead (Char.ofNat (c.toNat / 262144 + 240)) = 4 := by
      simp only [lead, toNat_ofNat_byte (show c.toNat / 262144 + 240 < 256 by omega)]
      grind
    simp [he, utf8lenLoop, hl]

theorem length_utf8_pos (c : Char) : 0 < (utf8 c).length := by
  rcases utf8_cases c with ⟨-, he⟩ | ⟨-, -, he⟩ | ⟨-, -, he⟩ | ⟨-, -, he⟩ <;> simp [he]

theorem utf8lenLoop_encode (cs : List Char) (n : ℕ) (hn : (encode cs).length ≤ n) :
    utf8lenLoop n (encode cs) = some cs.length := by
  induction cs generalizing n with
  | nil => cases n <;> rfl
  | cons c cs ih =>
    have hc := length_utf8_pos c
    rw [Lua.encode_cons, List.length_append] at hn
    obtain ⟨m, rfl⟩ : ∃ m, n = m + 1 := ⟨n - 1, by omega⟩
    rw [Lua.encode_cons, utf8lenLoop_utf8, ih m (by omega)]
    rfl

/-- **`utf8len` counts the code points.** -/
theorem utf8len_encode (cs : List Char) : utf8len (encode cs) = some cs.length :=
  utf8lenLoop_encode cs _ le_rfl

/-! ## The filter -/

/-- The bounds of the second and the third byte are those of U+4E00 and U+9FA5. -/
theorem chinese_iff {n : ℕ} (h : 2048 ≤ n) (h' : n < 65536) (s : Str) :
    chinese (Char.ofNat (n / 4096 + 224))
      (Char.ofNat (n / 64 % 64 + 128) :: Char.ofNat (n % 64 + 128) :: s) = true ↔
    0x4E00 ≤ n ∧ n ≤ 0x9FA5 := by
  simp only [chinese, toNat_ofNat_byte (show n / 4096 + 224 < 256 by omega),
    toNat_ofNat_byte (show n / 64 % 64 + 128 < 256 by omega),
    toNat_ofNat_byte (show n % 64 + 128 < 256 by omega), Bool.and_eq_true, decide_eq_true_eq]
  by_cases h4 : n / 4096 + 224 = 228
  · rw [if_pos h4, if_neg (by omega), if_neg (by omega)]
    omega
  by_cases h9 : n / 4096 + 224 = 233
  · rw [if_neg h4, if_pos h9, if_pos h9]
    split <;> omega
  · rw [if_neg h4, if_neg h9, if_neg h9]
    omega

/-- One turn of the filter on a code point. -/
theorem filterspecchars_utf8 (n : ℕ) (c : Char) (s : Str) :
    filterspecchars (n + 1) (utf8 c ++ s) =
      (filterspecchars n s).map fun ss => if regular c then utf8 c ++ ss else ss := by
  rcases utf8_cases c with ⟨h, he⟩ | ⟨h, h', he⟩ | ⟨h, h', he⟩ | ⟨h, h', he⟩
  · have hr : c.isAlphanum = regular c := by
      rw [Bool.eq_iff_iff]
      delta Char.isAlphanum Char.isAlpha Char.isUpper Char.isLower Char.isDigit
      simp only [regular, UInt32.le_iff_toNat_le, Bool.or_eq_true, Bool.and_eq_true, decide_eq_true_eq,
        ge_iff_le]
      simp
      omega
    have h1 : c.toNat < 192 := by omega
    simp [he, filterspecchars, hr, h1]
  · have hb := toNat_ofNat_byte (show c.toNat / 64 + 192 < 256 by omega)
    have hr : regular c = false := by
      simp only [regular]
      grind
    have h1 : ¬c.toNat / 64 + 192 < 192 := by omega
    have h2 : c.toNat / 64 + 192 < 224 := by omega
    simp only [he, List.cons_append, List.nil_append, filterspecchars, hb, if_neg h1, if_pos h2, hr,
      List.drop_succ_cons, List.drop_zero, Bool.false_eq_true, if_false, Option.map_id_fun', id]
  · have hb := toNat_ofNat_byte (show c.toNat / 4096 + 224 < 256 by omega)
    have hr : regular c = chinese (Char.ofNat (c.toNat / 4096 + 224))
        (Char.ofNat (c.toNat / 64 % 64 + 128) :: Char.ofNat (c.toNat % 64 + 128) :: s) := by
      rw [Bool.eq_iff_iff, chinese_iff h h']
      simp only [regular]
      grind
    have h1 : ¬c.toNat / 4096 + 224 < 192 := by omega
    have h2 : ¬c.toNat / 4096 + 224 < 224 := by omega
    have h3 : c.toNat / 4096 + 224 < 240 := by omega
    simp only [he, List.cons_append, List.nil_append, filterspecchars, hb, if_neg h1, if_neg h2, if_pos h3, hr,
      List.drop_succ_cons, List.drop_zero, List.take_succ_cons, List.take_zero]
  · have hb := toNat_ofNat_byte (show c.toNat / 262144 + 240 < 256 by omega)
    have hr : regular c = false := by
      simp only [regular]
      grind
    have h1 : ¬c.toNat / 262144 + 240 < 192 := by omega
    have h2 : ¬c.toNat / 262144 + 240 < 224 := by omega
    have h3 : ¬c.toNat / 262144 + 240 < 240 := by omega
    have h4 : c.toNat / 262144 + 240 < 248 := by omega
    simp only [he, List.cons_append, List.nil_append, filterspecchars, hb, if_neg h1, if_neg h2, if_neg h3,
      if_pos h4, hr, List.drop_succ_cons, List.drop_zero, Bool.false_eq_true, if_false, Option.map_id_fun', id]

theorem filterspecchars_encode (cs : List Char) (n : ℕ) (hn : (encode cs).length ≤ n) :
    filterspecchars n (encode cs) = some (encode (cs.filter regular)) := by
  induction cs generalizing n with
  | nil => cases n <;> rfl
  | cons c cs ih =>
    have hc := length_utf8_pos c
    rw [Lua.encode_cons, List.length_append] at hn
    obtain ⟨m, rfl⟩ : ∃ m, n = m + 1 := ⟨n - 1, by omega⟩
    rw [Lua.encode_cons, filterspecchars_utf8, ih m (by omega), Option.map_some, List.filter_cons]
    split <;> rfl

/-- What is left is as long only where nothing was taken out. -/
theorem length_filter_regular (cs : List Char) :
    cs.length = (cs.filter regular).length ↔ ∀ c ∈ cs, regular c = true := by
  rw [eq_comm, List.length_filter_eq_length_iff]

/-- **The filter of names.** On a text of UTF-8, `utf8len` gives the number of its code
points and `filterspecchars` the text of those that are regular; so `name_match` accepts
what has no sensitive word exactly where all of them are. -/
theorem name_match_encode (E : Env) (cs : List Char) :
    utf8len (encode cs) = some cs.length ∧
    filterspecchars (encode cs).length (encode cs) = some (encode (cs.filter regular)) ∧
    (utf8len (encode cs) = utf8len (encode (cs.filter regular)) ↔ ∀ c ∈ cs, regular c = true) ∧
    name_match E (encode cs) = some (if E.sensitive (encode cs) then some .role_name_sensitive
      else if cs.all regular then none else some .role_name_macth) := by
  have hlen := length_filter_regular cs
  have hfilter := filterspecchars_encode cs _ le_rfl
  refine ⟨utf8len_encode cs, hfilter, ?_, ?_⟩
  · rw [utf8len_encode, utf8len_encode, Option.some_inj]
    exact hlen
  · unfold name_match
    split
    · rfl
    · simp only [hfilter, utf8len_encode, Option.bind_eq_bind, Option.bind_some, Option.pure_def, ne_eq, hlen,
        List.all_eq_true]
      split <;> simp_all

end Rolename

end Athena
