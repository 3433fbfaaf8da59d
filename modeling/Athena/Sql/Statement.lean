import Athena.Sql.Lexer
/-!
# Data statements

The statements a program sends to change one row: `insert into t(…)
values(…)`, `update t set … where c=v` and `delete from t where c=v`. A
statement is what a text says: its names, and its literals with what each
stands for. `read` takes a text to its statement, and `read_eq_some` says
that a text reads as a statement where its tokens are the statement's.
-/

namespace Athena

namespace Sql

/-- **A literal**: the contents of a quoted one, or a bare word. -/
inductive Literal
  | text (s : Str)
  | bare (a : Str)
  deriving DecidableEq

/-- **A statement.** -/
inductive Statement
  | insert (table : Str) (columns : List Str) (values : List Literal)
  /-- The assignments, and the column and the value the rows have. -/
  | update (table : Str) (assigns : List (Str × Literal)) (column : Str) (value : Literal)
  | delete (table : Str) (column : Str) (value : Literal)
  deriving DecidableEq

def kwInsert : Str := "insert".toList
def kwInto : Str := "into".toList
def kwValues : Str := "values".toList
def kwUpdate : Str := "update".toList
def kwSet : Str := "set".toList
def kwWhere : Str := "where".toList
def kwDelete : Str := "delete".toList
def kwFrom : Str := "from".toList

/-! ## Parsing -/

/-- Names between commas, up to the closing parenthesis. -/
def parseNames : List Token → Option (List Str × List Token)
  | .word a :: .punct c :: ts =>
    if c = ')' then some ([a], ts)
    else if c = ',' then (parseNames ts).map fun x => (a :: x.1, x.2)
    else none
  | _ => none

def literal? : Token → Option Literal
  | .quoted s => some (.text s)
  | .word a => some (.bare a)
  | .punct _ => none

/-- Literals between commas, up to the closing parenthesis. -/
def parseLiterals : List Token → Option (List Literal × List Token)
  | tok :: .punct c :: ts =>
    match literal? tok with
    | none => none
    | some l =>
      if c = ')' then some ([l], ts)
      else if c = ',' then (parseLiterals ts).map fun x => (l :: x.1, x.2)
      else none
  | _ => none

/-- Assignments between commas, up to `where`. -/
def parseAssigns : List Token → Option (List (Str × Literal) × List Token)
  | .word a :: .punct e :: tok :: next :: ts =>
    match literal? tok with
    | none => none
    | some l =>
      if e ≠ '=' then none
      else if next = .word kwWhere then some ([(a, l)], ts)
      else if next = .punct ',' then (parseAssigns ts).map fun x => ((a, l) :: x.1, x.2)
      else none
  | _ => none

/-- `column=value` at the end. -/
def parseWhere : List Token → Option (Str × Literal)
  | [.word a, .punct e, tok] => if e = '=' then (literal? tok).map fun l => (a, l) else none
  | _ => none

/-- The statement of a stream. -/
def parse : List Token → Option Statement
  | .word k :: .word a :: .word b :: ts =>
    if k = kwUpdate ∧ b = kwSet then
      match parseAssigns ts with
      | some (assigns, ts) => (parseWhere ts).map fun x => .update a assigns x.1 x.2
      | none => none
    else if k = kwDelete ∧ a = kwFrom then
      match ts with
      | .word w :: ts => if w = kwWhere then (parseWhere ts).map fun x => .delete b x.1 x.2 else none
      | _ => none
    else if k = kwInsert ∧ a = kwInto then
      match ts with
      | .punct p :: ts =>
        match parseNames ts with
        | some (columns, .word v :: .punct q :: ts) =>
          match parseLiterals ts with
          | some (values, []) =>
            if p = '(' ∧ v = kwValues ∧ q = '(' then some (.insert b columns values) else none
          | _ => none
        | _ => none
      | _ => none
    else none
  | _ => none

/-- **What a text says**, if it is one statement of these. -/
def read (sql : Str) : Option Statement := ((lex sql).map join).bind parse

/-! ## The tokens of a statement -/

namespace Literal

def token : Literal → Token
  | text s => .quoted s
  | bare a => .word a

end Literal

/-- A literal is read back from its token, -/
@[simp] theorem literal?_token (l : Literal) : literal? l.token = some l := by
  cases l <;> rfl

/-- and its token is no other. -/
theorem token_of_literal? {tok : Token} {l : Literal} (h : literal? tok = some l) :
    tok = l.token := by
  cases tok <;> simp_all [literal?] <;> subst h <;> rfl

/-- The tokens of a list in parentheses, after the opening one. -/
def closed : List Token → List Token
  | [] => [.punct ')']
  | [tok] => [tok, .punct ')']
  | tok :: toks => tok :: .punct ',' :: closed toks

/-- The tokens of the assignments and the `where` behind them. -/
def assigned : List (Str × Literal) → List Token
  | [] => [.word kwWhere]
  | [(a, l)] => [.word a, .punct '=', l.token, .word kwWhere]
  | (a, l) :: assigns => .word a :: .punct '=' :: l.token :: .punct ',' :: assigned assigns

namespace Statement

/-- The tokens a statement is written with. -/
def tokens : Statement → List Token
  | insert t columns values =>
    [.word kwInsert, .word kwInto, .word t, .punct '('] ++ closed (columns.map Token.word) ++
      [.word kwValues, .punct '('] ++ closed (values.map Literal.token)
  | update t assigns c v =>
    [.word kwUpdate, .word t, .word kwSet] ++ assigned assigns ++ [.word c, .punct '=', v.token]
  | delete t c v =>
    [.word kwDelete, .word kwFrom, .word t, .word kwWhere, .word c, .punct '=', v.token]

/-- A statement that can be written: its lists are not empty. -/
def Proper : Statement → Prop
  | insert _ columns values => columns ≠ [] ∧ values ≠ []
  | update _ assigns _ _ => assigns ≠ []
  | delete _ _ _ => True

end Statement

/-- **A list of names is read back**, -/
theorem parseNames_closed {as : List Str} (h : as ≠ []) (ts : List Token) :
    parseNames (closed (as.map Token.word) ++ ts) = some (as, ts) := by
  induction as with
  | nil => exact absurd rfl h
  | cons a as ih =>
    cases as with
    | nil => simp [closed, parseNames]
    | cons b as =>
      have := ih (by simp)
      simp only [List.map_cons] at this
      simp [closed, parseNames, this]

/-- and so is one of literals, -/
theorem parseLiterals_closed {ls : List Literal} (h : ls ≠ []) (ts : List Token) :
    parseLiterals (closed (ls.map Literal.token) ++ ts) = some (ls, ts) := by
  induction ls with
  | nil => exact absurd rfl h
  | cons l ls ih =>
    cases ls with
    | nil => simp [closed, parseLiterals]
    | cons m ls =>
      have := ih (by simp)
      simp only [List.map_cons] at this
      simp [closed, parseLiterals, this]

/-- and one of assignments. -/
theorem parseAssigns_assigned {as : List (Str × Literal)} (h : as ≠ []) (ts : List Token) :
    parseAssigns (assigned as ++ ts) = some (as, ts) := by
  induction as with
  | nil => exact absurd rfl h
  | cons a as ih =>
    obtain ⟨c, l⟩ := a
    cases as with
    | nil => simp [assigned, parseAssigns]
    | cons b as => simp [assigned, parseAssigns, ih (by simp)]

/-- **A statement parses from its own tokens.** -/
theorem parse_tokens {st : Statement} (h : st.Proper) : parse st.tokens = some st := by
  cases st with
  | insert t columns values =>
    have hnames := parseNames_closed h.1 ([.word kwValues, .punct '('] ++ closed (values.map Literal.token))
    have hvals := parseLiterals_closed h.2 []
    simp only [List.append_nil] at hvals
    simp only [Statement.tokens, List.append_assoc, List.cons_append, List.nil_append] at hnames ⊢
    simp [parse, hnames, hvals, show kwInsert ≠ kwUpdate by decide, show kwInsert ≠ kwDelete by decide]
  | update t assigns c v =>
    have hassigns := parseAssigns_assigned h [.word c, .punct '=', v.token]
    simp only [Statement.tokens, List.cons_append, List.nil_append] at hassigns ⊢
    simp [parse, hassigns, parseWhere]
  | delete t c v =>
    simp [Statement.tokens, parse, parseWhere, show kwDelete ≠ kwUpdate by decide]

/-- What is read as names is written so, -/
theorem closed_of_parseNames {ts rest : List Token} {as : List Str}
    (h : parseNames ts = some (as, rest)) :
    as ≠ [] ∧ ts = closed (as.map Token.word) ++ rest := by
  induction ts using parseNames.induct generalizing as with
  | case1 a ts =>
    obtain ⟨rfl, rfl⟩ : [a] = as ∧ ts = rest := by simpa [parseNames] using h
    exact ⟨by simp, rfl⟩
  | case2 a ts hne ih =>
    obtain ⟨bs, hbs, rfl⟩ : ∃ bs, parseNames ts = some (bs, rest) ∧ a :: bs = as := by
      simpa [parseNames] using h
    obtain ⟨hbne, rfl⟩ := ih hbs
    obtain ⟨b, bs, rfl⟩ := List.exists_cons_of_ne_nil hbne
    exact ⟨by simp, rfl⟩
  | case3 a c ts h1 h2 => simp [parseNames, h1, h2] at h
  | case4 ts hne => simp [parseNames] at h

/-- what is read as literals, -/
theorem closed_of_parseLiterals {ts rest : List Token} {ls : List Literal}
    (h : parseLiterals ts = some (ls, rest)) :
    ls ≠ [] ∧ ts = closed (ls.map Literal.token) ++ rest := by
  induction ts using parseLiterals.induct generalizing ls with
  | case1 tok c ts hl => simp [parseLiterals, hl] at h
  | case2 tok ts l hl =>
    obtain ⟨rfl, rfl⟩ : [l] = ls ∧ ts = rest := by simpa [parseLiterals, hl] using h
    exact ⟨by simp, by rw [token_of_literal? hl]; rfl⟩
  | case3 tok ts l hl hne ih =>
    obtain ⟨ms, hms, rfl⟩ : ∃ ms, parseLiterals ts = some (ms, rest) ∧ l :: ms = ls := by
      simpa [parseLiterals, hl] using h
    obtain ⟨hmne, rfl⟩ := ih hms
    obtain ⟨m, ms, rfl⟩ := List.exists_cons_of_ne_nil hmne
    exact ⟨by simp, by rw [token_of_literal? hl]; rfl⟩
  | case4 tok c ts l hl h1 h2 => simp [parseLiterals, hl, h1, h2] at h
  | case5 ts hne => simp [parseLiterals] at h

/-- and what is read as assignments. -/
theorem assigned_of_parseAssigns {ts rest : List Token} {as : List (Str × Literal)}
    (h : parseAssigns ts = some (as, rest)) : as ≠ [] ∧ ts = assigned as ++ rest := by
  induction ts using parseAssigns.induct generalizing as with
  | case1 a e tok next ts hl => simp [parseAssigns, hl] at h
  | case2 a e tok next ts l hl he => simp [parseAssigns, hl, he] at h
  | case3 a e tok ts l hl he =>
    obtain ⟨rfl, rfl⟩ : [(a, l)] = as ∧ ts = rest := by simpa [parseAssigns, hl, he] using h
    obtain rfl : e = '=' := by simpa using he
    exact ⟨by simp, by rw [token_of_literal? hl]; rfl⟩
  | case4 a e tok ts l hl he hne ih =>
    obtain ⟨bs, hbs, rfl⟩ : ∃ bs, parseAssigns ts = some (bs, rest) ∧ (a, l) :: bs = as := by
      simpa [parseAssigns, hl, he] using h
    obtain rfl : e = '=' := by simpa using he
    obtain ⟨hbne, rfl⟩ := ih hbs
    obtain ⟨b, bs, rfl⟩ := List.exists_cons_of_ne_nil hbne
    exact ⟨by simp, by rw [token_of_literal? hl]; rfl⟩
  | case5 a e tok next ts l hl he h1 h2 => simp [parseAssigns, hl, he, h1, h2] at h
  | case6 ts hne => simp [parseAssigns] at h

/-- A condition is three tokens. -/
theorem tokens_of_parseWhere {ts : List Token} {c : Str} {v : Literal}
    (h : parseWhere ts = some (c, v)) : ts = [.word c, .punct '=', v.token] := by
  unfold parseWhere at h
  split at h
  · split_ifs at h with he
    obtain ⟨l, hl, heq⟩ := Option.map_eq_some_iff.mp h
    obtain ⟨rfl, rfl⟩ := Prod.mk.inj heq
    rw [he, token_of_literal? hl]
  · simp at h

/-- **What parses as a statement is its tokens.** -/
theorem tokens_of_parse {ts : List Token} {st : Statement} (h : parse ts = some st) :
    ts = st.tokens := by
  unfold parse at h
  split at h
  · rename_i k a b ts
    split_ifs at h with hu hd hi
    · obtain ⟨rfl, rfl⟩ := hu
      split at h
      · rename_i assigns rest hassigns
        obtain ⟨-, rfl⟩ := assigned_of_parseAssigns hassigns
        obtain ⟨x, hx, rfl⟩ := Option.map_eq_some_iff.mp h
        rw [tokens_of_parseWhere hx]
        rfl
      · simp at h
    · obtain ⟨rfl, rfl⟩ := hd
      split at h
      · split_ifs at h with hw
        obtain ⟨x, hx, rfl⟩ := Option.map_eq_some_iff.mp h
        rw [tokens_of_parseWhere hx, hw]
        rfl
      · simp at h
    · obtain ⟨rfl, rfl⟩ := hi
      split at h
      · split at h
        · rename_i hnames
          split at h
          · rename_i hvals
            split_ifs at h with hp
            obtain ⟨rfl, rfl, rfl⟩ := hp
            obtain rfl := Option.some.inj h
            rw [(closed_of_parseNames hnames).2, (closed_of_parseLiterals hvals).2]
            simp [Statement.tokens]
          · simp at h
        · simp at h
      · simp at h
  · simp at h

/-- **A text reads as a statement** where its tokens are the
statement's. -/
theorem read_eq_some {sql : Str} {st : Statement} (hst : st.Proper) :
    read sql = some st ↔ (lex sql).map join = some st.tokens := by
  rw [read, Option.bind_eq_some_iff]
  constructor
  · rintro ⟨ts, hts, hparse⟩
    rw [hts, tokens_of_parse hparse]
  · intro h
    exact ⟨_, h, parse_tokens hst⟩

end Sql

end Athena
