import Athena.Store.Model
/-!
# The data services — the statements they write

Both builders put a value between single quotes as it is. So the text of
`CMD.add` and of `CMD.update` reads back as the row exactly where every
string is safe between quotes and every number survives its own text; one
other value is enough for the statement to say something else, or
nothing.
-/

namespace Athena

namespace Store

open Lua
open Sql hiding Str

variable {tb pk : Str} {row : Row}

/-! ## What the statements should say -/

/-- The literal a value is written as. -/
def literalOf : Value → Literal
  | .bool b => .bare (bit b)
  | v => .text v.wire

/-- **What a literal says of a value**: a quoted one is a string, or a
number in digits; a bare `1` or `0` is a boolean. -/
def Stands : Literal → Value → Prop
  | .text s, .str t => s = t
  | .text s, .num n => Lua.tonumber s = some n
  | .bare a, .bool b => a = bit b
  | _, _ => False

/-- The insertion of a row. -/
def insertOf (tb : Str) (row : Row) : Statement :=
  .insert tb (row.entries.map fun e => e.1) (row.entries.map fun e => literalOf e.2)

/-- The update of a row's fields where the primary key is the row's. -/
def updateOf (tb pk : Str) (row : Row) (v : Value) : Statement :=
  .update tb (row.entries.map fun e => (e.1, literalOf e.2)) pk (literalOf v)

/-- **A text that says what a row says.** -/
def Encodes (sql : Str) (st : Statement) (row : Row) : Prop :=
  read sql = some st ∧ ∀ e ∈ row.entries, Stands (literalOf e.2) e.2

/-- **A value that survives**: a string that is safe between quotes, a
number that reads back from its text, or a boolean. -/
def Survives : Value → Prop
  | .str s => safe s = true
  | .num n => Lua.tonumber (tostring n) = some n
  | .bool _ => True

instance : DecidablePred Survives
  | .str s => inferInstanceAs (Decidable (safe s = true))
  | .num n => inferInstanceAs (Decidable (Lua.tonumber (tostring n) = some n))
  | .bool _ => inferInstanceAs (Decidable True)

/-! ## The pieces of the texts -/

/-- The piece of a value. -/
def valuePiece : Value → Piece
  | .bool b => .word (bit b)
  | v => .quoted v.wire

theorem valueText_eq (v : Value) : valueText v = .ok (valuePiece v).text := by
  cases v <;> rfl

theorem token_valuePiece (v : Value) : (valuePiece v).token = some (literalOf v).token := by
  cases v <;> rfl

/-- Pieces between commas, up to the closing parenthesis. -/
def listPieces : List Piece → List Piece
  | [] => [.punct ')']
  | [p] => [p, .punct ')']
  | p :: ps => p :: .punct ',' :: listPieces ps

/-- The assignments of a row's entries. -/
def setPieces : List (Sigma fun _ : Str => Value) → List Piece
  | [] => []
  | [e] => [.word e.1, .punct '=', valuePiece e.2]
  | e :: es => .word e.1 :: .punct '=' :: valuePiece e.2 :: .punct ',' :: setPieces es

def insertPieces (tb : Str) (row : Row) : List Piece :=
  [.word kwInsert, .space, .word kwInto, .space, .word tb, .punct '('] ++
    (listPieces (row.entries.map fun e => .word e.1) ++
      ([.space, .word kwValues, .punct '('] ++ listPieces (row.entries.map fun e => valuePiece e.2)))

/-- ` where pk='a'`. -/
def wherePieces (pk a : Str) : List Piece :=
  [.space, .word kwWhere, .space, .word pk, .punct '=', .quoted a]

def updatePieces (tb pk : Str) (row : Row) (a : Str) : List Piece :=
  [.word kwUpdate, .space, .word tb, .space, .word kwSet, .space] ++
    (setPieces row.entries ++ wherePieces pk a)

/-! ## The builders write them -/

theorem addLists_some (c a : Str) (l : List (Sigma fun _ : Str => Value)) :
    addLists (some c, some a) l = .ok (some (c ++ l.flatMap fun e => ',' :: e.1),
      some (a ++ l.flatMap fun e => ',' :: (valuePiece e.2).text)) := by
  induction l generalizing c a with
  | nil => simp [addLists]
  | cons e l ih =>
    simp only [addLists, valueText_eq, commaAppend]
    exact (ih _ _).trans (by simp)

theorem render_listPieces (p : Piece) (ps : List Piece) :
    render (listPieces (p :: ps)) = p.text ++ (ps.flatMap fun q => ',' :: q.text) ++ [')'] := by
  induction ps generalizing p with
  | nil => simp [listPieces]
  | cons q ps ih =>
    have := ih q
    simp only [listPieces, render_cons, Piece.text] at this ⊢
    simp [this]

/-- The texts of the builders, by their words. -/
theorem insert_into : "insert into ".toList = kwInsert ++ ' ' :: (kwInto ++ [' ']) := by decide

theorem close_values : ") values(".toList = ')' :: ' ' :: (kwValues ++ ['(']) := by decide

theorem update_text : "update ".toList = kwUpdate ++ [' '] := by decide

theorem set_text : " set ".toList = ' ' :: (kwSet ++ [' ']) := by decide

theorem where_text : " where ".toList = ' ' :: (kwWhere ++ [' ']) := by decide

/-- **`CMD.add` writes its pieces**, for every row that is not empty. -/
theorem insertSql_eq (h : row.entries ≠ []) : insertSql tb row = .ok (render (insertPieces tb row)) := by
  obtain ⟨e, l, hl⟩ := List.exists_cons_of_ne_nil h
  have hcols := render_listPieces (.word e.1) (l.map fun e => .word e.1)
  have hvals := render_listPieces (valuePiece e.2) (l.map fun e => valuePiece e.2)
  have hlists : addLists (none, none) row.entries = .ok (some (e.1 ++ l.flatMap fun e => ',' :: e.1),
      some ((valuePiece e.2).text ++ l.flatMap fun e => ',' :: (valuePiece e.2).text)) := by
    rw [hl]
    simp only [addLists, valueText_eq, commaAppend]
    exact addLists_some _ _ _
  rw [insertSql, hlists, insertPieces, hl]
  simp only [List.map_cons, render_append, hcols, hvals]
  simp only [bind, Except.bind, pure, Except.pure, Except.ok.injEq]
  rw [insert_into, close_values]
  simp [render, Piece.text, List.flatMap_map]

theorem setValues_eq (acc : Str) (l : List (Sigma fun _ : Str => Value)) :
    setValues acc l =
      .ok (acc ++ l.flatMap fun e => e.1 ++ '=' :: ((valuePiece e.2).text ++ [','])) := by
  induction l generalizing acc with
  | nil => simp [setValues]
  | cons e l ih =>
    simp only [setValues, valueText_eq]
    exact (ih _).trans (by simp)

theorem render_setPieces (e : Sigma fun _ : Str => Value) (l : List (Sigma fun _ : Str => Value)) :
    render (setPieces (e :: l)) ++ [','] =
      (e :: l).flatMap fun e => e.1 ++ '=' :: ((valuePiece e.2).text ++ [',']) := by
  induction l generalizing e with
  | nil => simp [setPieces, render, Piece.text]
  | cons f l ih =>
    rw [List.flatMap_cons, ← ih f]
    simp [setPieces, Piece.text]

theorem trimComma_append {s : Str} (hhead : s.head? ≠ some ',') (hlast : s.getLast? ≠ some ',')
    (hne : s ≠ []) : trimComma (s ++ [',']) = s := by
  obtain ⟨c, s, rfl⟩ := List.exists_cons_of_ne_nil hne
  have hc : c ≠ ',' := by simpa using hhead
  have hrev : ((c :: s).reverse.dropWhile fun c => c = ',') = (c :: s).reverse := by
    rw [List.getLast?_eq_head?_reverse] at hlast
    cases hr : (c :: s).reverse with
    | nil => simp at hr
    | cons d t =>
      have hd : d ≠ ',' := by simpa [hr] using hlast
      simp [hd]
  rw [trimComma, List.cons_append, List.dropWhile_cons_of_neg (by simpa using hc), ← List.cons_append,
    List.reverse_append, List.reverse_singleton, List.singleton_append,
    List.dropWhile_cons_of_pos (by simp), hrev, List.reverse_reverse]

theorem bit_isWord (b : Bool) : IsWord (bit b) := by
  cases b <;> exact ⟨by simp [bit], by decide⟩

theorem IsWord.head {a : Str} (h : IsWord a) : ∃ c t, a = c :: t ∧ isWordChar c = true := by
  obtain ⟨hne, hall⟩ := h
  cases a with
  | nil => exact absurd rfl hne
  | cons c t => exact ⟨c, t, rfl, by simp at hall; exact hall.1⟩

/-- The text of the assignments begins with a name. -/
theorem head_setPieces {e : Sigma fun _ : Str => Value} {l : List (Sigma fun _ : Str => Value)}
    (h : IsWord e.1) : ∃ c t, render (setPieces (e :: l)) = c :: t ∧ isWordChar c = true := by
  obtain ⟨c, t, hc, hword⟩ := IsWord.head h
  cases l <;> exact ⟨c, _, by simp only [setPieces, render_cons, Piece.text, hc]; rfl, hword⟩

/-- It ends with a value, so its last comma is the builder's. -/
theorem getLast_setPieces (e : Sigma fun _ : Str => Value) (l : List (Sigma fun _ : Str => Value)) :
    (render (setPieces (e :: l))).getLast? ≠ some ',' := by
  induction l generalizing e with
  | nil =>
    obtain ⟨k, v⟩ := e
    have hlast : (valuePiece v).text.getLast? ≠ some ',' ∧ (valuePiece v).text ≠ [] := by
      cases v with
      | bool b => cases b <;> decide
      | _ => simp [valuePiece, Piece.text, Sql.quote, List.getLast?_cons]
    have htext : render (setPieces [⟨k, v⟩]) = (k ++ ['=']) ++ (valuePiece v).text := by
      simp [setPieces, render, Piece.text]
    rw [htext, List.getLast?_append_of_ne_nil _ hlast.2]
    exact hlast.1
  | cons f l ih =>
    have htext : render (setPieces (e :: f :: l)) =
        (e.1 ++ '=' :: ((valuePiece e.2).text ++ [','])) ++ render (setPieces (f :: l)) := by
      simp [setPieces, Piece.text]
    have hne : render (setPieces (f :: l)) ≠ [] := by
      cases l <;> simp [setPieces, Piece.text]
    rw [htext, List.getLast?_append_of_ne_nil _ hne]
    exact ih f

/-- **`CMD.update` writes its pieces**, where the row has its primary key:
the trim takes away the comma the loop has put last, and nothing else. -/
theorem updateSql_eq (hcols : ∀ e ∈ row.entries, IsWord e.1) {a : Str}
    (ha : textOf (row.lookup pk) = .ok a) :
    updateSql tb pk row = .ok (render (updatePieces tb pk row a)) := by
  have hne : row.entries ≠ [] := by
    intro h
    have : row.lookup pk = none := by simp [AList.lookup, h]
    rw [this] at ha
    cases ha
  obtain ⟨e, l, hl⟩ := List.exists_cons_of_ne_nil hne
  obtain ⟨c, t, hc, hword⟩ := head_setPieces (e := e) (l := l) (hcols e (by simp [hl]))
  have htrim := trimComma_append (s := render (setPieces (e :: l)))
    (by rw [hc]; intro h; obtain rfl : c = ',' := by simpa using h
        exact absurd hword (by decide))
    (getLast_setPieces e l) (by rw [hc]; simp)
  rw [updateSql, setValues_eq, hl, List.nil_append, ← render_setPieces]
  simp only [whereSql, ha, bind, Except.bind, pure, Except.pure, htrim, updatePieces, hl,
    render_append, Except.ok.injEq]
  rw [update_text, set_text, where_text]
  simp [render, Piece.text, wherePieces]

/-! ## The pieces are the statements -/

theorem tokens_listPieces {α : Type} {f : α → Piece} {g : α → Token}
    (h : ∀ x, (f x).token = some (g x)) (l : List α) :
    tokens (listPieces (l.map f)) = closed (l.map g) := by
  induction l with
  | nil => rfl
  | cons x l ih =>
    cases l with
    | nil => simp [listPieces, closed, h]
    | cons y l =>
      simp only [List.map_cons] at ih
      simp [listPieces, closed, h, ih]

theorem tokens_insertPieces : tokens (insertPieces tb row) = (insertOf tb row).tokens := by
  rw [insertPieces, tokens_append, tokens_append, tokens_append,
    tokens_listPieces (g := fun e => .word e.1) (fun _ => rfl),
    tokens_listPieces (g := fun e => (literalOf e.2).token) (fun e => token_valuePiece e.2)]
  simp [insertOf, Statement.tokens, Function.comp_def]

theorem tokens_setPieces {l : List (Sigma fun _ : Str => Value)} (h : l ≠ []) (a : Str) :
    tokens (setPieces l ++ wherePieces pk a) =
      assigned (l.map fun e => (e.1, literalOf e.2)) ++ [.word pk, .punct '=', .quoted a] := by
  induction l with
  | nil => exact absurd rfl h
  | cons e l ih =>
    cases l with
    | nil => simp [setPieces, wherePieces, assigned, token_valuePiece]
    | cons f l =>
      have ih := ih (by simp)
      simp only [List.map_cons, tokens_append] at ih
      simp [setPieces, assigned, token_valuePiece, ih]

theorem tokens_updatePieces {v : Value} (h : row.entries ≠ []) (hv : v.text = .ok v.wire) :
    tokens (updatePieces tb pk row v.wire) = (updateOf tb pk row v).tokens := by
  have hlit : (literalOf v).token = .quoted v.wire := by
    cases v with
    | bool b => cases hv
    | _ => rfl
  rw [updatePieces, tokens_append, tokens_setPieces h]
  simp [updateOf, Statement.tokens, hlit]

/-! ## The pieces are told apart -/

theorem separated_words {as : List Str} {qs : List Piece} (has : ∀ a ∈ as, IsWord a)
    (hqs : Separated qs) : Separated (listPieces (as.map Piece.word) ++ qs) := by
  induction as with
  | nil => exact ⟨by decide, hqs⟩
  | cons a as ih =>
    have ha := has a (by simp)
    cases as with
    | nil => exact ⟨ha, by simp [show isWordChar ')' = false by decide], by decide, hqs⟩
    | cons b as =>
      refine ⟨ha, by simp [show isWordChar ',' = false by decide], by decide, ?_⟩
      exact ih fun x hx => has x (by simp [hx])

/-- A value before a character that ends it. -/
theorem separated_value {v : Value} {qs : List Piece} {c : Char} (hc : (render qs).head? = some c)
    (hword : isWordChar c = false) (hquote : c ≠ quote)
    (hnext : ∀ s, (tokens qs).head? ≠ some (.quoted s))
    (hlen : (render qs).length ≤ weight (tokens qs) + 1) (hqs : Separated qs) :
    Separated (valuePiece v :: qs) := by
  cases v with
  | bool b => exact ⟨bit_isWord b, by simp [hc, hword], hqs⟩
  | _ => exact ⟨by simpa [hc] using hquote, hnext, hlen, hqs⟩

theorem weight_value (v : Value) (ts : List Token) :
    (valuePiece v).text.length + weight ts ≤ weight ((literalOf v).token :: ts) := by
  cases v with
  | bool b =>
    simp only [valuePiece, Piece.text, literalOf, Literal.token, weight]
    omega
  | _ => simp [valuePiece, Piece.text, literalOf, Literal.token, weight, Token.width]

theorem length_values (vs : List Value) : (render (listPieces (vs.map valuePiece))).length ≤
    weight (tokens (listPieces (vs.map valuePiece))) := by
  induction vs with
  | nil => simp [listPieces, weight, Token.width]
  | cons v vs ih =>
    cases vs with
    | nil =>
      have := weight_value v [.punct ')']
      simpa [listPieces, token_valuePiece, weight, Token.width] using this
    | cons w vs =>
      have := weight_value v (.punct ',' :: tokens (listPieces ((w :: vs).map valuePiece)))
      simp only [weight, Token.width] at this
      simp only [List.map_cons] at this ih
      simp [listPieces, token_valuePiece]
      omega

theorem separated_values (vs : List Value) : Separated (listPieces (vs.map valuePiece)) := by
  induction vs with
  | nil => exact ⟨by decide, trivial⟩
  | cons v vs ih =>
    cases vs with
    | nil =>
      exact separated_value (c := ')') rfl (by decide) (by decide) (fun s => by simp)
        (by simp [weight, Token.width]) ⟨by decide, trivial⟩
    | cons w vs =>
      have hlen := length_values (w :: vs)
      refine separated_value (c := ',') rfl (by decide) (by decide)
        (fun s => by simp) ?_ ⟨by decide, ih⟩
      simp only [List.map_cons] at hlen
      simp [weight, Token.width]
      omega

theorem separated_insertPieces (htb : IsWord tb) (hcols : ∀ e ∈ row.entries, IsWord e.1) :
    Separated (insertPieces tb row) := by
  have hkw : ∀ k ∈ [kwInsert, kwInto, kwValues], IsWord k := by
    intro k hk
    simp only [List.mem_cons, List.not_mem_nil, or_false] at hk
    rcases hk with rfl | rfl | rfl <;> exact ⟨by decide, by decide⟩
  have hvals := separated_values (row.entries.map fun e => e.2)
  rw [List.map_map] at hvals
  have hrest : Separated ([.space, .word kwValues, .punct '('] ++
      listPieces (row.entries.map fun e => valuePiece e.2)) :=
    ⟨hkw _ (by simp), by simp [show isWordChar '(' = false by decide], by decide, hvals⟩
  have hwords : ∀ a ∈ row.entries.map fun e => e.1, IsWord a := by
    intro a ha
    obtain ⟨e, he, rfl⟩ := List.mem_map.mp ha
    exact hcols e he
  have hnames := separated_words hwords hrest
  rw [List.map_map] at hnames
  have hspace : isWordChar ' ' = false := by decide
  refine ⟨hkw _ (by simp), by simp [hspace], hkw _ (by simp), by simp [hspace],
    htb, by simp [show isWordChar '(' = false by decide], by decide, hnames⟩

theorem separated_wherePieces (hpk : IsWord pk) (a : Str) : Separated (wherePieces pk a) :=
  ⟨⟨by decide, by decide⟩, by simp [show isWordChar ' ' = false by decide], hpk,
    by simp [show isWordChar '=' = false by decide], by decide, by simp,
    fun s => by simp, by simp [weight], trivial⟩

theorem length_setPieces (l : List (Sigma fun _ : Str => Value)) (pk a : Str) :
    (render (setPieces l ++ wherePieces pk a)).length ≤
      weight (tokens (setPieces l ++ wherePieces pk a)) + 1 := by
  have hwhere : (render (wherePieces pk a)).length ≤ weight (tokens (wherePieces pk a)) + 1 := by
    simp [wherePieces, weight, gap, Token.width]
    omega
  induction l with
  | nil => exact hwhere
  | cons e l ih =>
    cases l with
    | nil =>
      have := weight_value e.2 (tokens (wherePieces pk a))
      simp [setPieces, token_valuePiece, weight, gap, Token.width]
      omega
    | cons f l =>
      have := weight_value e.2 (.punct ',' :: tokens (setPieces (f :: l) ++ wherePieces pk a))
      simp only [weight, Token.width, tokens_append, render_append, List.length_append] at this ih
      simp [setPieces, token_valuePiece, weight, gap, Token.width]
      omega

theorem separated_setPieces {l : List (Sigma fun _ : Str => Value)} (hl : ∀ e ∈ l, IsWord e.1)
    (hpk : IsWord pk) (a : Str) : Separated (setPieces l ++ wherePieces pk a) := by
  have hwhere := separated_wherePieces hpk a
  induction l with
  | nil => exact hwhere
  | cons e l ih =>
    have he := hl e (by simp)
    have heq : isWordChar '=' = false := by decide
    cases l with
    | nil =>
      refine ⟨he, by simp [heq], by decide, ?_⟩
      exact separated_value (c := ' ') rfl (by decide) (by decide)
        (fun s => by simp [wherePieces]) (length_setPieces [] pk a) hwhere
    | cons f l =>
      have hlen := length_setPieces (f :: l) pk a
      refine ⟨he, by simp [heq], by decide, ?_⟩
      refine separated_value (c := ',') rfl (by decide) (by decide)
        (fun s => by simp) ?_ ⟨by decide, ih fun x hx => hl x (by simp [hx])⟩
      simp only [render_append, tokens_append, List.length_append] at hlen
      simp [weight, Token.width]
      omega

theorem separated_updatePieces (htb : IsWord tb) (hcols : ∀ e ∈ row.entries, IsWord e.1)
    (hpk : IsWord pk) (a : Str) : Separated (updatePieces tb pk row a) := by
  have hspace : isWordChar ' ' = false := by decide
  refine ⟨⟨by decide, by decide⟩, by simp [hspace], htb, by simp [hspace],
    ⟨by decide, by decide⟩, by simp [hspace], ?_⟩
  exact separated_setPieces hcols hpk a

/-! ## Which rows read back -/

theorem safe_of_forall {s : Str} (h : ∀ c ∈ s, c ≠ quote ∧ c ≠ backslash) : safe s = true := by
  induction s using safe.induct with
  | case1 => rfl
  | case2 c => simpa [safe] using h c (by simp)
  | case3 d s ih => exact absurd rfl (h backslash (by simp)).2
  | case4 c d s hc ih =>
    have hq := (h c (by simp)).1
    simpa [safe, hc, hq] using ih fun x hx => h x (by simp [hx])

/-- A number's text is always safe. -/
theorem safe_tostring (n : Number) : safe (tostring n) = true := by
  refine safe_of_forall fun c hc => ?_
  have := isNumeral_tostring n c hc
  constructor
  · rintro rfl
    exact absurd this (by decide)
  · rintro rfl
    exact absurd this (by decide)

/-- What a value asks of its literal is what reads back. -/
theorem survives_iff (v : Value) :
    Survives v ↔ (∀ s, valuePiece v = .quoted s → safe s = true) ∧ Stands (literalOf v) v := by
  cases v with
  | str s => simp [Survives, valuePiece, Value.wire, literalOf, Stands]
  | num n => simp [Survives, valuePiece, Value.wire, literalOf, Stands, safe_tostring]
  | bool b => simp [Survives, valuePiece, literalOf, Stands]

theorem mem_listPieces {ps : List Piece} {s : Str} :
    .quoted s ∈ listPieces ps ↔ .quoted s ∈ ps := by
  induction ps with
  | nil => simp [listPieces]
  | cons p ps ih =>
    cases ps with
    | nil => simp [listPieces]
    | cons q ps =>
      simp only [listPieces, List.mem_cons, reduceCtorEq, false_or] at ih ⊢
      rw [ih]

theorem mem_setPieces {l : List (Sigma fun _ : Str => Value)} {s : Str} :
    .quoted s ∈ setPieces l ↔ ∃ e ∈ l, valuePiece e.2 = .quoted s := by
  induction l with
  | nil => simp [setPieces]
  | cons e l ih =>
    cases l with
    | nil => simp [setPieces, eq_comm]
    | cons f l =>
      simp only [setPieces, List.mem_cons, reduceCtorEq, false_or, ih, exists_eq_or_imp]
      rw [eq_comm]

theorem mem_insertPieces {s : Str} :
    .quoted s ∈ insertPieces tb row ↔ ∃ e ∈ row.entries, valuePiece e.2 = .quoted s := by
  simp [insertPieces, mem_listPieces]

/-- The condition of an update adds the text of a value of the row. -/
theorem mem_updatePieces {v : Value} (hv : row.lookup pk = some v) (hw : v.text = .ok v.wire)
    {s : Str} : .quoted s ∈ updatePieces tb pk row v.wire ↔
      ∃ e ∈ row.entries, valuePiece e.2 = .quoted s := by
  have hmem : ⟨pk, v⟩ ∈ row.entries := AList.mem_lookup_iff.mp hv
  have hpiece : valuePiece v = .quoted v.wire := by
    cases v with
    | bool b => cases hw
    | _ => rfl
  simp only [updatePieces, wherePieces, List.mem_append, List.mem_cons, mem_setPieces,
    reduceCtorEq, false_or, List.not_mem_nil, or_false, Piece.quoted.injEq]
  constructor
  · rintro (h | rfl)
    · exact h
    · exact ⟨_, hmem, hpiece⟩
  · exact Or.inl

theorem text_eq_wire {v : Value} {a : Str} (h : v.text = .ok a) : a = v.wire := by
  cases v with
  | bool b => cases h
  | _ => exact (Except.ok.inj h).symm

/-- Separated pieces that are a statement say what a row says where every
value of the row survives. -/
theorem encodes_iff {ps : List Piece} {st : Statement} (hst : st.Proper) (hps : Separated ps)
    (htokens : tokens ps = st.tokens)
    (hvals : ∀ s, .quoted s ∈ ps ↔ ∃ e ∈ row.entries, valuePiece e.2 = .quoted s) :
    Encodes (render ps) st row ↔ ∀ e ∈ row.entries, Survives e.2 := by
  rw [Encodes, read_eq_some hst, ← htokens, lex_render_iff hps]
  simp only [hvals, survives_iff]
  constructor
  · rintro ⟨hsafe, hstands⟩ e he
    exact ⟨fun s hs => hsafe s ⟨e, he, hs⟩, hstands e he⟩
  · intro h
    exact ⟨fun s ⟨e, he, hs⟩ => (h e he).1 s hs, fun e he => (h e he).2⟩

/-- **What the two builders encode.** For names that are words: `CMD.add`
hands over a text for every row that is not empty, `CMD.update` for every
row with a primary key that is a number or a string, and either text is
one statement that says what the row says if and only if every value of
the row survives. -/
theorem statements_encode_iff (htb : IsWord tb) (hpk : IsWord pk)
    (hcols : ∀ e ∈ row.entries, IsWord e.1) :
    (row.entries ≠ [] → ∃ sql, insertSql tb row = .ok sql ∧
      (Encodes sql (insertOf tb row) row ↔ ∀ e ∈ row.entries, Survives e.2)) ∧
    ∀ v a, row.lookup pk = some v → v.text = .ok a → ∃ sql, updateSql tb pk row = .ok sql ∧
      (Encodes sql (updateOf tb pk row v) row ↔ ∀ e ∈ row.entries, Survives e.2) := by
  refine ⟨fun hne => ⟨_, insertSql_eq hne, ?_⟩, fun v a hv ha => ?_⟩
  · exact encodes_iff ⟨by simpa using hne, by simpa using hne⟩ (separated_insertPieces htb hcols)
      tokens_insertPieces fun s => mem_insertPieces
  · obtain rfl := text_eq_wire ha
    have hne : row.entries ≠ [] := List.ne_nil_of_mem (AList.mem_lookup_iff.mp hv)
    refine ⟨_, updateSql_eq hcols (by rw [hv]; exact ha), ?_⟩
    have hproper : (updateOf tb pk row v).Proper := by
      simpa [updateOf, Statement.Proper] using hne
    exact encodes_iff hproper (separated_updatePieces htb hcols hpk _) (tokens_updatePieces hne ha)
      fun s => mem_updatePieces hv ha

/-- The row `changedes` updates a user with. -/
def describe (uid : Int64) (des : Str) : Row :=
  ((∅ : Row).insert "id".toList (.num (.int uid))).insert "description".toList (.str des)

/-- A description with a `%` and an escaped `_` is written as it is. -/
theorem statements_encode_iff_plain :
    ∃ sql, updateSql "d_user".toList "id".toList (describe 5 "50% of \\_".toList) = .ok sql ∧
      Encodes sql (updateOf "d_user".toList "id".toList (describe 5 "50% of \\_".toList)
        (.num (.int 5))) (describe 5 "50% of \\_".toList) := by
  obtain ⟨sql, hsql, hiff⟩ := (statements_encode_iff (show IsWord "d_user".toList by decide)
    (show IsWord "id".toList by decide)
    (show ∀ e ∈ (describe 5 "50% of \\_".toList).entries, IsWord e.1 by decide)).2 _ _ rfl rfl
  exact ⟨sql, hsql, hiff.mpr (by decide)⟩

/-- A description that ends its literal assigns a column the row does not
have; one that ends in a backslash leaves no statement at all. -/
theorem description_assigns_gold :
    (∃ sql, updateSql "d_user".toList "id".toList (describe 5 "',gold='999".toList) = .ok sql ∧
      read sql = some (.update "d_user".toList [("description".toList, .text []),
        ("gold".toList, .text "999".toList), ("id".toList, .text "5".toList)] "id".toList
        (.text "5".toList))) ∧
    ∃ sql, updateSql "d_user".toList "id".toList (describe 5 "\\".toList) = .ok sql ∧
      read sql = none := by
  refine ⟨⟨_, rfl, by decide⟩, _, rfl, by decide⟩

end Store

end Athena
