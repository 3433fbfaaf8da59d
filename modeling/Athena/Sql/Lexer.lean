import Mathlib.Data.List.Basic
import Mathlib.Order.Lattice
/-!
# SQL text and its tokens

MySQL's lexical rules, as far as a generated statement meets them: white
space and comments separate tokens, a literal stands between single or
double quotes, where a doubled quote and the backslash escapes stand for
one character, and literals next to each other are one literal.

A generated text is a list of pieces: words, punctuation, and values put
between quotes as they are. `lex_render_iff` says which values survive
that. A value that does not survive makes the text read shorter than it
is, so nothing that follows can make up for it: the weight of the tokens
of a text never exceeds its length.
-/

namespace Athena

namespace Sql

/-- A text, or a part of one: its bytes, each as the character of its code. -/
abbrev Str := List Char

/-- The single quote. -/
def quote : Char := Char.ofNat 39

def backslash : Char := Char.ofNat 92

inductive Token
  /-- An unquoted name, keyword or number. -/
  | word (a : Str)
  /-- A literal, by what stands for it. -/
  | quoted (s : Str)
  | punct (c : Char)
  deriving DecidableEq

/-! ## Literals -/

/-- What a backslash and a character stand for. Only before `%` and `_`
does the backslash stay. -/
def unescape (c : Char) : Str :=
  if c = '0' then [Char.ofNat 0]
  else if c = 'b' then [Char.ofNat 8]
  else if c = 't' then [Char.ofNat 9]
  else if c = 'n' then [Char.ofNat 10]
  else if c = 'r' then [Char.ofNat 13]
  else if c = 'Z' then [Char.ofNat 26]
  else if c = '%' ∨ c = '_' then [backslash, c]
  else [c]

/-- The rest of a literal after its opening quote `q`: what it stands for
and the text behind it. -/
def lexQuoted (q : Char) : Str → Option (Str × Str)
  | [] => none
  | [c] => if c = q then some ([], []) else none
  | c :: d :: t =>
    if c = backslash then (lexQuoted q t).map fun x => (unescape d ++ x.1, x.2)
    else if c = q then
      if d = q then (lexQuoted q t).map fun x => (q :: x.1, x.2) else some ([], d :: t)
    else (lexQuoted q (d :: t)).map fun x => (c :: x.1, x.2)

/-- **A value that stands for itself between single quotes**: no quote,
and no backslash but before `%` or `_`. -/
def safe : Str → Bool
  | [] => true
  | [c] => c ≠ quote && c ≠ backslash
  | c :: d :: s =>
    if c = backslash then (d = '%' || d = '_') && safe s else c ≠ quote && safe (d :: s)

/-- An escape is one character or two. -/
theorem unescape_length_le (c : Char) : (unescape c).length ≤ 2 := by
  unfold unescape
  split_ifs <;> simp

/-- Two stay two for the wild cards alone. -/
theorem unescape_of_length {c : Char} (h : (unescape c).length = 2) :
    unescape c = [backslash, c] ∧ (c = '%' ∨ c = '_') := by
  unfold unescape at h ⊢
  split_ifs at h ⊢ <;> simp_all

/-- **A literal never stands for more than its text**, and it stands for
as much only where it stands for itself. -/
theorem lexQuoted_spec {q : Char} {t w r : Str} (h : lexQuoted q t = some (w, r)) :
    ∃ u, t = u ++ q :: r ∧ w.length ≤ u.length ∧
      (w.length = u.length → w = u ∧ (q = quote → safe u = true)) := by
  induction t using lexQuoted.induct q generalizing w with
  | case1 => simp [lexQuoted] at h
  | case2 => simp [lexQuoted] at h; exact ⟨[], by simp [h, safe]⟩
  | case3 c hc => simp [lexQuoted, hc] at h
  | case4 d t ih =>
    obtain ⟨w', hx, rfl⟩ : ∃ a, lexQuoted q t = some (a, r) ∧ unescape d ++ a = w := by
      simpa [lexQuoted] using h
    obtain ⟨u, rfl, hle, hfull⟩ := ih hx
    have hlen := unescape_length_le d
    refine ⟨backslash :: d :: u, rfl, by simp; omega, fun heq => ?_⟩
    simp only [List.length_append, List.length_cons] at heq
    obtain ⟨hun, hd⟩ := unescape_of_length (c := d) (by omega)
    obtain ⟨rfl, hsafe⟩ := hfull (by omega)
    refine ⟨by rw [hun]; rfl, fun hq => ?_⟩
    simpa [safe, hsafe hq] using hd
  | case5 t hc ih =>
    obtain ⟨w', hx, rfl⟩ : ∃ a, lexQuoted q t = some (a, r) ∧ q :: a = w := by
      simpa [lexQuoted, hc] using h
    obtain ⟨u, rfl, hle, -⟩ := ih hx
    refine ⟨q :: q :: u, rfl, by simp; omega, fun heq => ?_⟩
    simp only [List.length_cons] at heq
    omega
  | case6 d t hd hc =>
    obtain ⟨rfl, rfl⟩ : [] = w ∧ d :: t = r := by simpa [lexQuoted, hc, hd] using h
    exact ⟨[], rfl, by simp, fun _ => ⟨rfl, fun _ => rfl⟩⟩
  | case7 c d t hc hq ih =>
    obtain ⟨w', hx, rfl⟩ : ∃ a, lexQuoted q (d :: t) = some (a, r) ∧ c :: a = w := by
      simpa [lexQuoted, hc, hq] using h
    obtain ⟨u, hu, hle, hfull⟩ := ih hx
    refine ⟨c :: u, by rw [hu]; rfl, by simpa using hle, fun heq => ?_⟩
    obtain ⟨rfl, hsafe⟩ := hfull (by simpa using heq)
    refine ⟨rfl, fun hqq => ?_⟩
    subst hqq
    cases w' with
    | nil => simp [safe, hc, hq]
    | cons e w' => simpa [safe, hc, hq] using hsafe rfl

/-- **A safe value stands for itself.** -/
theorem lexQuoted_safe {s X : Str} (hs : safe s = true) (hX : X.head? ≠ some quote) :
    lexQuoted quote (s ++ quote :: X) = some (s, X) := by
  have hqb : quote ≠ backslash := by decide
  induction s using safe.induct with
  | case1 =>
    cases X with
    | nil => rfl
    | cons d X =>
      have hd : d ≠ quote := by simpa using hX
      simp [lexQuoted, hqb, hd]
  | case2 c =>
    obtain ⟨hq, hb⟩ : c ≠ quote ∧ c ≠ backslash := by simpa [safe] using hs
    cases X with
    | nil => simp [lexQuoted, hq, hb]
    | cons d X =>
      have hd : d ≠ quote := by simpa using hX
      simp [lexQuoted, hq, hb, hqb, hd]
  | case3 d s ih =>
    obtain ⟨hd, hs⟩ : (d = '%' ∨ d = '_') ∧ safe s = true := by simpa [safe] using hs
    have hun : unescape d = [backslash, d] := by rcases hd with rfl | rfl <;> rfl
    simp [lexQuoted, ih hs, hun]
  | case4 c d s hc ih =>
    obtain ⟨hq, hs⟩ : c ≠ quote ∧ safe (d :: s) = true := by simpa [safe, hc] using hs
    simp only [List.cons_append] at ih ⊢
    simp [lexQuoted, hc, hq, ih hs]

/-! ## The token stream -/

/-- White space and the other control characters. -/
def isBlank (c : Char) : Bool := c.toNat ≤ 32

def isWordChar (c : Char) : Bool := c.isAlphanum || c = '_' || c = '$' || 128 ≤ c.toNat

/-- The rest of a comment up to the end of its line. -/
def afterLine (t : Str) : Str := t.dropWhile fun c => c ≠ Char.ofNat 10

/-- The rest of a comment up to its closing mark, which it must have. -/
def afterComment : Str → Option Str
  | '*' :: '/' :: t => some t
  | _ :: t => afterComment t
  | [] => none

/-- The first lexical item of `c :: t`: a token, unless it is skipped,
and the text behind it. A comment the server would execute is refused. -/
def item (c : Char) (t : Str) : Option (Option Token × Str) :=
  if c = quote ∨ c = Char.ofNat 34 then (lexQuoted c t).map fun x => (some (.quoted x.1), x.2)
  else if isBlank c then some (none, t)
  else if c = '#' then some (none, afterLine t)
  else if c = '-' ∧ t.head? = some '-' ∧ t.tail.head?.all isBlank then some (none, afterLine t.tail)
  else if c = '/' ∧ t.head? = some '*' then
    if t.tail.head? = some '!' then none else (afterComment t.tail).map fun r => (none, r)
  else if isWordChar c then
    some (some (.word (c :: t.takeWhile isWordChar)), t.dropWhile isWordChar)
  else some (some (.punct c), t)

/-- The tokens of a text, in a number of items. -/
def lexN : ℕ → Str → Option (List Token)
  | _, [] => some []
  | 0, _ :: _ => none
  | n + 1, c :: t =>
    match item c t with
    | none => none
    | some (tok, r) => (lexN n r).map fun ts => tok.toList ++ ts

/-- **The tokens of a text.** Every item takes a character. -/
def lex (t : Str) : Option (List Token) := lexN t.length t

/-- Literals next to each other are one literal. -/
def join : List Token → List Token
  | [] => []
  | .quoted a :: ts =>
    match join ts with
    | .quoted b :: us => .quoted (a ++ b) :: us
    | us => .quoted a :: us
  | tok :: ts => tok :: join ts

/-- A comment takes characters away. -/
theorem afterComment_length {t r : Str} (h : afterComment t = some r) : r.length ≤ t.length := by
  induction t using afterComment.induct with
  | case1 t =>
    obtain rfl : t = r := by simpa [afterComment] using h
    simp only [List.length_cons]
    omega
  | case2 c t hne ih =>
    rw [afterComment] at h
    · exact (ih h).trans (by simp)
    · exact hne
  | case3 => simp [afterComment] at h

/-- An item leaves no more than there was. -/
theorem item_length {c : Char} {t r : Str} {tok : Option Token} (h : item c t = some (tok, r)) :
    r.length ≤ t.length := by
  unfold item at h
  split_ifs at h
  · obtain ⟨x, hx, heq⟩ := Option.map_eq_some_iff.mp h
    obtain ⟨-, rfl⟩ := Prod.mk.inj heq
    obtain ⟨u, hu, -⟩ := lexQuoted_spec hx
    simp only [hu, List.length_append, List.length_cons]
    omega
  · simp_all
  · obtain ⟨-, rfl⟩ : none = tok ∧ afterLine t = r := by simpa using h
    exact (List.dropWhile_suffix _).length_le
  · obtain ⟨-, rfl⟩ : none = tok ∧ afterLine t.tail = r := by simpa using h
    exact (List.dropWhile_suffix _).length_le.trans (by simp)
  · obtain ⟨r', hr, heq⟩ := Option.map_eq_some_iff.mp h
    obtain ⟨-, rfl⟩ := Prod.mk.inj heq
    exact (afterComment_length hr).trans (by simp)
  · obtain ⟨-, rfl⟩ := Prod.mk.inj (Option.some.inj h)
    exact (List.dropWhile_suffix _).length_le
  · simp_all

/-- More items than characters make no difference. -/
theorem lexN_eq {n : ℕ} {t : Str} (h : t.length ≤ n) : lexN n t = lex t := by
  induction n using Nat.strong_induction_on generalizing t with
  | _ n ih =>
    cases t with
    | nil => cases n <;> rfl
    | cons c t =>
      simp only [List.length_cons] at h
      obtain ⟨m, rfl⟩ : ∃ m, n = m + 1 := ⟨n - 1, by omega⟩
      simp only [lex, List.length_cons, lexN]
      cases hitem : item c t with
      | none => rfl
      | some x =>
        have hlen := item_length hitem
        simp only
        rw [ih m (by omega) (by omega)]
        by_cases hm : t.length = m
        · rw [hm, ih m (by omega) (by omega)]
        · rw [ih t.length (by omega) hlen]

/-- **One item at a time.** -/
theorem lex_cons {c : Char} {t r : Str} {tok : Option Token} (h : item c t = some (tok, r)) :
    lex (c :: t) = (lex r).map fun ts => tok.toList ++ ts := by
  simp only [lex, List.length_cons, lexN, h]
  rw [lexN_eq (item_length h)]
  rfl

/-- **A text that is read** is one item and what is left. -/
theorem lex_cons_eq_some {c : Char} {t : Str} {ts : List Token} (h : lex (c :: t) = some ts) :
    ∃ tok r us, item c t = some (tok, r) ∧ lex r = some us ∧ ts = tok.toList ++ us := by
  cases hitem : item c t with
  | none => simp [lex, lexN, hitem] at h
  | some x =>
    obtain ⟨tok, r⟩ := x
    rw [lex_cons hitem] at h
    obtain ⟨us, hus, rfl⟩ := Option.map_eq_some_iff.mp h
    exact ⟨tok, r, us, rfl, hus, rfl⟩

/-! ## The weight of a stream -/

namespace Token

/-- The characters a token takes at least. -/
def width : Token → ℕ
  | word a => a.length
  | quoted s => s.length + 2
  | punct _ => 1

end Token

/-- One more character is needed where a word comes first after a word. -/
def gap : List Token → ℕ
  | .word _ :: _ => 1
  | _ => 0

/-- **The characters a stream takes at least.** -/
def weight : List Token → ℕ
  | [] => 0
  | .word a :: ts => a.length + gap ts + weight ts
  | tok :: ts => tok.width + weight ts

/-- Two tokens have one blank between them at most. -/
theorem gap_le_one (ts : List Token) : gap ts ≤ 1 := by
  unfold gap
  split <;> simp

/-- **A text is as long as the weight of its tokens**, and longer by one
where it does not begin with a word that its stream begins with. -/
theorem weight_le_length {t : Str} {ts : List Token} (h : lex t = some ts) :
    weight ts ≤ t.length ∧ ((t.head?.all fun c => !isWordChar c) = true →
      weight ts + gap ts ≤ t.length) := by
  induction hn : t.length using Nat.strong_induction_on generalizing t ts with
  | _ n ih =>
    subst hn
    cases t with
    | nil =>
      obtain rfl : [] = ts := by simpa [lex, lexN] using h
      simp [weight, gap]
    | cons c t =>
      obtain ⟨tok, r, us, hitem, hr, rfl⟩ := lex_cons_eq_some h
      have hlen := item_length hitem
      have hih := ih r.length (by simp only [List.length_cons]; omega) hr rfl
      have hgap := gap_le_one us
      -- a skipped item leaves room for the gap
      have hskip : tok = none → weight us + gap us ≤ (c :: t).length := by
        intro _
        simp only [List.length_cons]
        omega
      unfold item at hitem
      split_ifs at hitem
      · obtain ⟨x, hx, heq⟩ := Option.map_eq_some_iff.mp hitem
        obtain ⟨rfl, rfl⟩ := Prod.mk.inj heq
        obtain ⟨u, hu, hle, -⟩ := lexQuoted_spec hx
        have hw : weight (.quoted x.1 :: us) ≤ (c :: t).length := by
          simp only [weight, Token.width, hu, List.length_append, List.length_cons]
          omega
        exact ⟨hw, fun _ => hw⟩
      · obtain ⟨rfl, rfl⟩ := Prod.mk.inj (Option.some.inj hitem)
        exact ⟨(Nat.le_add_right _ _).trans (hskip rfl), fun _ => hskip rfl⟩
      · obtain ⟨rfl, -⟩ := Prod.mk.inj (Option.some.inj hitem)
        exact ⟨(Nat.le_add_right _ _).trans (hskip rfl), fun _ => hskip rfl⟩
      · obtain ⟨rfl, -⟩ := Prod.mk.inj (Option.some.inj hitem)
        exact ⟨(Nat.le_add_right _ _).trans (hskip rfl), fun _ => hskip rfl⟩
      · obtain ⟨x, -, heq⟩ := Option.map_eq_some_iff.mp hitem
        obtain ⟨rfl, -⟩ := Prod.mk.inj heq
        exact ⟨(Nat.le_add_right _ _).trans (hskip rfl), fun _ => hskip rfl⟩
      · -- a word ends before a character that is not of a word
        rename_i hc
        obtain ⟨rfl, rfl⟩ := Prod.mk.inj (Option.some.inj hitem)
        have hend : ((t.dropWhile isWordChar).head?.all fun c => !isWordChar c) = true := by
          have hnot := List.head?_dropWhile_not isWordChar t
          cases hd : (t.dropWhile isWordChar).head? with
          | none => rfl
          | some d => simpa [hd] using hnot
        have hr' := hih.2 hend
        have hsplit := congrArg List.length (List.takeWhile_append_dropWhile (p := isWordChar) (l := t))
        simp only [List.length_append] at hsplit
        refine ⟨?_, fun hno => by simp [hc] at hno⟩
        simp only [Option.toList_some, List.singleton_append, weight, List.length_cons]
        omega
      · obtain ⟨rfl, rfl⟩ := Prod.mk.inj (Option.some.inj hitem)
        have hw : weight (.punct c :: us) ≤ (c :: t).length := by
          simp only [weight, Token.width, List.length_cons]
          omega
        exact ⟨hw, fun _ => hw⟩

/-- Joined literals have lost the quotes between them. -/
theorem weight_join_le (ts : List Token) : gap (join ts) = gap ts ∧ weight (join ts) ≤ weight ts := by
  induction ts with
  | nil => exact ⟨rfl, le_rfl⟩
  | cons tok ts ih =>
    cases tok with
    | word a =>
      refine ⟨rfl, ?_⟩
      simp only [join, weight, ih.1]
      omega
    | punct c => exact ⟨rfl, by simp only [join, weight]; omega⟩
    | quoted a =>
      simp only [join]
      split
      · rename_i b us hj
        have := ih.2
        rw [hj] at this
        simp only [weight, Token.width, List.length_append, gap] at this ⊢
        exact ⟨trivial, by omega⟩
      · refine ⟨rfl, ?_⟩
        simp only [weight]
        omega

/-! ## Generated texts -/

/-- **A piece of a generated text.** -/
inductive Piece
  | word (a : Str)
  | punct (c : Char)
  /-- A value put between single quotes as it is. -/
  | quoted (s : Str)
  | space

namespace Piece

def text : Piece → Str
  | word a => a
  | punct c => [c]
  | quoted s => quote :: (s ++ [quote])
  | space => [' ']

def token : Piece → Option Token
  | word a => some (.word a)
  | punct c => some (.punct c)
  | quoted s => some (.quoted s)
  | space => none

variable {a : Str} {c : Char}

@[simp] theorem text_word : (word a).text = a := rfl
@[simp] theorem text_punct : (punct c).text = [c] := rfl
@[simp] theorem text_quoted : (quoted a).text = quote :: (a ++ [quote]) := rfl
@[simp] theorem text_space : space.text = [' '] := rfl
@[simp] theorem token_word : (word a).token = some (.word a) := rfl
@[simp] theorem token_punct : (punct c).token = some (.punct c) := rfl
@[simp] theorem token_quoted : (quoted a).token = some (.quoted a) := rfl
@[simp] theorem token_space : space.token = none := rfl

end Piece

/-- The text of the pieces. -/
def render (ps : List Piece) : Str := ps.flatMap Piece.text

/-- The tokens the pieces are meant to be. -/
def tokens (ps : List Piece) : List Token := ps.filterMap Piece.token

@[simp] theorem render_nil : render [] = [] := rfl

@[simp] theorem tokens_nil : tokens [] = [] := rfl

/-- The tokens come piece by piece, -/
@[simp] theorem tokens_cons (p : Piece) (ps : List Piece) :
    tokens (p :: ps) = p.token.toList ++ tokens ps := by
  cases p <;> rfl

/-- and so does the text. -/
@[simp] theorem render_cons (p : Piece) (ps : List Piece) : render (p :: ps) = p.text ++ render ps :=
  rfl

@[simp] theorem render_append (ps qs : List Piece) : render (ps ++ qs) = render ps ++ render qs :=
  List.flatMap_append

@[simp] theorem tokens_append (ps qs : List Piece) : tokens (ps ++ qs) = tokens ps ++ tokens qs :=
  List.filterMap_append

/-- A word of a generated text. -/
def IsWord (a : Str) : Prop := a ≠ [] ∧ a.all isWordChar = true

instance : DecidablePred IsWord := fun a => inferInstanceAs (Decidable (a ≠ [] ∧ a.all isWordChar = true))

/-- Punctuation that begins no comment. -/
def isPlain (c : Char) : Bool :=
  !(isBlank c || isWordChar c || c = quote || c = Char.ofNat 34 || c = '#' || c = '-' || c = '/')

/-- **Pieces that are told apart whatever the values are.** A word ends
where its piece does, no literal follows another, and the text behind a
literal has at most one character to spare. -/
def Separated : List Piece → Prop
  | [] => True
  | .word a :: ps =>
    IsWord a ∧ ((render ps).head?.all fun c => !isWordChar c) = true ∧ Separated ps
  | .punct c :: ps => isPlain c = true ∧ Separated ps
  | .space :: ps => Separated ps
  | .quoted _ :: ps =>
    (render ps).head? ≠ some quote ∧ (∀ s, (tokens ps).head? ≠ some (.quoted s)) ∧
      (render ps).length ≤ weight (tokens ps) + 1 ∧ Separated ps

/-- A character of a word begins nothing else. -/
theorem isBlank_of_isWordChar {c : Char} (h : isWordChar c = true) :
    isBlank c = false ∧ c ≠ quote ∧ c ≠ Char.ofNat 34 ∧ c ≠ '#' ∧ c ≠ '-' ∧ c ≠ '/' := by
  refine ⟨?_, ?_, ?_, ?_, ?_, ?_⟩
  · have hblank : ∀ n < 33, isWordChar (Char.ofNat n) = false := by decide
    rw [isBlank, decide_eq_false_iff_not]
    intro hle
    have := hblank c.toNat (by omega)
    rw [Char.ofNat_toNat, h] at this
    cases this
  all_goals
    rintro rfl
    exact absurd h (by decide)

/-- A word goes as far as its characters. -/
theorem item_word {c : Char} {t : Str} (h : isWordChar c = true) :
    item c t = some (some (.word (c :: t.takeWhile isWordChar)), t.dropWhile isWordChar) := by
  obtain ⟨h1, h2, h3, h4, h5, h6⟩ := isBlank_of_isWordChar h
  simp [item, h, h1, h2, h3, h4, h5, h6]

theorem item_space (t : Str) : item ' ' t = some (none, t) := by
  have h : ' ' ≠ quote ∧ ' ' ≠ Char.ofNat 34 ∧ isBlank ' ' = true := by decide
  simp [item, h.1, h.2.1, h.2.2]

/-- A plain character stands for itself. -/
theorem item_plain {c : Char} {t : Str} (h : isPlain c = true) :
    item c t = some (some (.punct c), t) := by
  simp only [isPlain, Bool.not_eq_true', Bool.or_eq_false_iff, decide_eq_false_iff_not] at h
  obtain ⟨⟨⟨⟨⟨⟨h1, h2⟩, h3⟩, h4⟩, h5⟩, h6⟩, h7⟩ := h
  simp [item, h1, h2, h3, h4, h5, h6, h7]

/-- A quoted text goes to its quote. -/
theorem item_quote (t : Str) :
    item quote t = (lexQuoted quote t).map fun x => (some (.quoted x.1), x.2) := by
  simp [item]

/-- **A word is read as one** where no character of a word follows. -/
theorem lex_word {a t : Str} (ha : IsWord a) (ht : (t.head?.all fun c => !isWordChar c) = true) :
    lex (a ++ t) = (lex t).map fun ts => .word a :: ts := by
  obtain ⟨hne, hall⟩ := ha
  cases a with
  | nil => exact absurd rfl hne
  | cons c a =>
    obtain ⟨hc, hall⟩ : isWordChar c = true ∧ ∀ x ∈ a, isWordChar x = true := by simpa using hall
    have htake : (a ++ t).takeWhile isWordChar = a := by
      rw [List.takeWhile_append_of_pos hall]
      cases t with
      | nil => simp
      | cons d t => simp [show isWordChar d = false by simpa using ht]
    have hdrop : (a ++ t).dropWhile isWordChar = t := by
      rw [List.dropWhile_append_of_pos hall]
      cases t with
      | nil => simp
      | cons d t => simp [show isWordChar d = false by simpa using ht]
    rw [List.cons_append, lex_cons (item_word hc), htake, hdrop]
    rfl

/-- What is joined when a value has been read. -/
theorem join_quoted (a : Str) (ts : List Token) :
    join (.quoted a :: ts) = .quoted a :: join ts ∧ (∀ s, (join ts).head? ≠ some (.quoted s)) ∨
      ∃ b us, join ts = .quoted b :: us ∧ join (.quoted a :: ts) = .quoted (a ++ b) :: us := by
  cases hj : join ts with
  | nil => exact Or.inl ⟨by simp [join, hj], by simp⟩
  | cons tok us =>
    cases tok with
    | quoted b => exact Or.inr ⟨b, us, rfl, by simp [join, hj]⟩
    | word b => exact Or.inl ⟨by simp [join, hj], by simp⟩
    | punct c => exact Or.inl ⟨by simp [join, hj], by simp⟩

/-- **A literal that reads as its value.** Where the text behind it has at
most one character to spare, its value is safe and it ends where it was
meant to. -/
theorem safe_of_join {s X : Str} {ts us : List Token} (hX : X.head? ≠ some quote)
    (hlen : X.length ≤ weight us + 1) (h : lex (quote :: (s ++ quote :: X)) = some ts)
    (hj : join ts = .quoted s :: us) : safe s = true ∧ ∃ vs, lex X = some vs ∧ join vs = us := by
  obtain ⟨tok, r, vs, hitem, hr, rfl⟩ := lex_cons_eq_some h
  rw [item_quote] at hitem
  obtain ⟨w, hx, rfl⟩ : ∃ w, lexQuoted quote (s ++ quote :: X) = some (w, r) ∧
      some (.quoted w) = tok := by simpa using hitem
  obtain ⟨u, hu, hle, hfull⟩ := lexQuoted_spec hx
  have hulen := congrArg List.length hu
  have hw := (weight_le_length hr).1.trans' (weight_join_le vs).2
  simp only [List.length_append, List.length_cons] at hulen
  simp only [Option.toList_some, List.singleton_append] at hj
  rcases join_quoted w vs with ⟨hj', -⟩ | ⟨b, us', hb, hj'⟩
  · obtain ⟨hws, rfl⟩ : w = s ∧ join vs = us := by simpa [hj'] using hj
    subst hws
    by_cases hwu : w.length = u.length
    · obtain ⟨rfl, hsafe⟩ := hfull hwu
      obtain ⟨-, hXr⟩ := List.cons.inj (List.append_cancel_left hu)
      exact ⟨hsafe rfl, vs, hXr ▸ hr, rfl⟩
    · -- the text would be one character short, and begin with a quote
      exfalso
      have hone : u.length = (w ++ [quote]).length := by
        simp only [List.length_append, List.length_cons, List.length_nil]
        omega
      cases X with
      | nil =>
        simp only [List.length_nil] at hulen
        omega
      | cons d X =>
        have hu' : (w ++ [quote]) ++ d :: X = u ++ quote :: r := by simpa using hu
        obtain ⟨-, htail⟩ := List.append_inj hu' hone.symm
        exact hX (by simp [(List.cons.inj htail).1])
  · exfalso
    obtain ⟨rfl, rfl⟩ : w ++ b = s ∧ us' = us := by simpa [hj'] using hj
    rw [hb] at hw
    simp only [weight, Token.width, List.length_append] at hw hulen
    omega

/-- Only quoted texts are joined. -/
theorem join_cons_inj {tok : Token} {ts us : List Token} (h : ∀ s, tok ≠ .quoted s) :
    join (tok :: ts) = tok :: us ↔ join ts = us := by
  cases tok with
  | quoted s => exact absurd rfl (h s)
  | word a => simp [join]
  | punct c => simp [join]

/-- **Which generated texts read back.** Separated pieces read as the
tokens they are meant to be if and only if every value is safe. -/
theorem lex_render_iff {ps : List Piece} (h : Separated ps) :
    (lex (render ps)).map join = some (tokens ps) ↔ ∀ s, .quoted s ∈ ps → safe s = true := by
  induction ps with
  | nil => simp [render, tokens, lex, lexN, join]
  | cons p ps ih =>
    cases p with
    | word a =>
      obtain ⟨ha, hend, hps⟩ := h
      rw [render_cons, Piece.text, lex_word ha hend, Option.map_map]
      simp only [List.mem_cons, reduceCtorEq, false_or, ← ih hps, Option.map_eq_some_iff,
        Function.comp_apply]
      exact exists_congr fun ts => and_congr_right fun _ => join_cons_inj (by simp)
    | punct c =>
      obtain ⟨hc, hps⟩ := h
      rw [render_cons, Piece.text, List.singleton_append, lex_cons (item_plain hc), Option.map_map]
      simp only [List.mem_cons, reduceCtorEq, false_or, ← ih hps, Option.map_eq_some_iff,
        Function.comp_apply]
      exact exists_congr fun ts => and_congr_right fun _ => join_cons_inj (by simp)
    | space =>
      rw [render_cons, Piece.text, List.singleton_append, lex_cons (item_space _)]
      rw [show tokens (.space :: ps) = tokens ps from rfl]
      simpa using ih h
    | quoted s =>
      obtain ⟨hquote, hnext, hlen, hps⟩ := h
      have htext : render (.quoted s :: ps) = quote :: (s ++ quote :: render ps) := by
        simp [Piece.text]
      rw [htext]
      constructor
      · intro hread
        obtain ⟨ts, hts, hj⟩ := Option.map_eq_some_iff.mp hread
        obtain ⟨hs, vs, hvs, hjv⟩ := safe_of_join hquote hlen hts hj
        have := (ih hps).mp (Option.map_eq_some_iff.mpr ⟨vs, hvs, hjv⟩)
        intro s' hs'
        rcases List.mem_cons.mp hs' with heq | hs'
        · obtain rfl : s' = s := by simpa using heq
          exact hs
        · exact this s' hs'
      · intro hsafe
        obtain ⟨vs, hvs, hjv⟩ := Option.map_eq_some_iff.mp
          ((ih hps).mpr fun s' hs' => hsafe s' (List.mem_cons_of_mem _ hs'))
        have hq := lexQuoted_safe (hsafe s (by simp)) hquote
        rw [lex_cons ((item_quote _).trans (by rw [hq]; rfl)), hvs]
        rcases join_quoted s vs with ⟨hj, -⟩ | ⟨b, us, hb, -⟩
        · simp [hj, hjv, tokens, Piece.token]
        · exact absurd (by rw [← hjv, hb]; rfl) (hnext b)

end Sql

end Athena
