import Mathlib.Data.Int.Log
import Mathlib.Data.Rat.Floor
import Mathlib.Order.WithBot
/-!
# Lua 5.3 numbers and their texts

A Lua number is a 64-bit integer or a double. `tonumber` reads one from
a string as `luaO_str2num` does — first as an integer (`l_str2int`),
then as a float (`l_str2d`) — and `tostring` prints one as
`luaO_tostring` does, with `"%d"` and `"%.14g"`. A string is a list of
bytes, each carried as the character of its code; the C locale is
assumed, so the decimal point is a dot.

A finite double is carried as the rational it denotes. `toDouble` rounds
to the nearest double, ties to even. Signed zeros are one value, which
is how `==` sees them.
-/

namespace Athena

namespace Lua

/-- A Lua string: its bytes, in order. -/
abbrev Str := List Char

/-- **A Lua number.** -/
inductive Number
  | int (i : Int64)
  /-- A finite double, by its value. -/
  | flt (q : ℚ)
  /-- An infinity; `neg` is its sign. -/
  | inf (neg : Bool)
  | nan
  deriving DecidableEq

namespace Number

/-- Where a number lies on the extended line; `nan` lies nowhere. -/
def ext : Number → Option (WithBot (WithTop ℚ))
  | int i => some ((((i.toInt : ℤ) : ℚ) : WithTop ℚ) : WithBot (WithTop ℚ))
  | flt q => some ((q : WithTop ℚ) : WithBot (WithTop ℚ))
  | inf false => some ((⊤ : WithTop ℚ) : WithBot (WithTop ℚ))
  | inf true => some ⊥
  | nan => none

/-- Lua's `a <= b`, which compares integers and floats by value and is
false at a `nan`. -/
def le (a b : Number) : Bool :=
  match a.ext, b.ext with
  | some x, some y => decide (x ≤ y)
  | _, _ => false

/-- Lua's `a < b`. -/
def lt (a b : Number) : Bool :=
  match a.ext, b.ext with
  | some x, some y => decide (x < y)
  | _, _ => false

end Number

/-! ## Doubles -/

/-- The integer nearest to `q`, ties to even. -/
def roundEven (q : ℚ) : ℤ :=
  let f := ⌊q⌋
  if q - f < 1 / 2 then f else if 1 / 2 < q - f then f + 1 else if f % 2 = 0 then f else f + 1

/-- The double nearest to `q`: 53 bits of mantissa, the least exponent
`-1074`, an infinity from `2 ^ 1024` on. -/
def toDouble (q : ℚ) : Number :=
  if q = 0 then .flt 0
  else
    let e := max (Int.log 2 |q| - 52) (-1074)
    let v := roundEven (|q| / 2 ^ e) * (2 : ℚ) ^ e
    if 2 ^ 1024 ≤ v then .inf (q < 0) else .flt (if q < 0 then -v else v)

/-! ## Reading -/

/-- `isspace` in the C locale. -/
def isSpace (c : Char) : Bool := c = ' ' || (9 ≤ c.toNat && c.toNat ≤ 13)

/-- Both readers skip the spaces around the numeral. -/
def trimSpace (s : Str) : Str := ((s.dropWhile isSpace).reverse.dropWhile isSpace).reverse

/-- An optional sign, and whether it is a minus. -/
def splitSign : Str → Bool × Str
  | '-' :: s => (true, s)
  | '+' :: s => (false, s)
  | s => (false, s)

/-- `luaO_hexavalue`. -/
def hexValue (c : Char) : ℕ :=
  if c.isDigit then c.toNat - 48 else if c.isLower then c.toNat - 87 else c.toNat - 55

/-- `isxdigit`. -/
def isHexDigit (c : Char) : Bool :=
  c.isDigit || ('a' ≤ c && c ≤ 'f') || ('A' ≤ c && c ≤ 'F')

def ofHexDigits (s : Str) : ℕ := s.foldl (fun a c => a * 16 + hexValue c) 0

/-- `l_str2int`. A decimal that does not fit is refused, to be read as a
float; a hexadecimal wraps around. -/
def str2int (s : Str) : Option Number :=
  match splitSign (trimSpace s) with
  | (neg, ds) =>
    match ds with
    | '0' :: 'x' :: hs | '0' :: 'X' :: hs =>
      if hs ≠ [] ∧ hs.all isHexDigit then
        some (.int (Int64.ofInt (if neg then -(ofHexDigits hs : ℤ) else ofHexDigits hs)))
      else none
    | ds =>
      if ds ≠ [] ∧ ds.all Char.isDigit then
        let n := Nat.ofDigitChars 10 ds 0
        if n ≤ 2 ^ 63 - 1 + (if neg then 1 else 0) then
          some (.int (Int64.ofInt (if neg then -(n : ℤ) else n)))
        else none
      else none

/-- The digits before and after an optional dot, and what follows. -/
def splitDot (isD : Char → Bool) (s : Str) : Str × Str × Str :=
  match s.dropWhile isD with
  | '.' :: r => (s.takeWhile isD, r.takeWhile isD, r.dropWhile isD)
  | r => (s.takeWhile isD, [], r)

/-- The exponent part, which must end the numeral. -/
def readExponent (isE : Char → Bool) : Str → Option ℤ
  | [] => some 0
  | c :: r =>
    if isE c then
      match splitSign r with
      | (neg, ds) =>
        if ds ≠ [] ∧ ds.all Char.isDigit then
          some (if neg then -(Nat.ofDigitChars 10 ds 0 : ℤ) else Nat.ofDigitChars 10 ds 0)
        else none
    else none

/-- The unsigned decimal numeral of `strtod`. -/
def readDecimal (s : Str) : Option ℚ :=
  match splitDot Char.isDigit s with
  | (ip, fp, r) =>
    if ip ++ fp = [] then none
    else (readExponent (fun c => c = 'e' || c = 'E') r).map fun (x : ℤ) =>
      (Nat.ofDigitChars 10 (ip ++ fp) 0 : ℚ) * 10 ^ (x - (fp.length : ℤ))

/-- The unsigned hexadecimal numeral of `strtod`, after its `0x`. -/
def readHex (s : Str) : Option ℚ :=
  match splitDot isHexDigit s with
  | (ip, fp, r) =>
    if ip ++ fp = [] then none
    else (readExponent (fun c => c = 'p' || c = 'P') r).map fun (x : ℤ) =>
      (ofHexDigits (ip ++ fp) : ℚ) * 2 ^ (x - 4 * (fp.length : ℤ))

/-- `l_str2d`: `strtod` over the whole string, with `inf` and `nan`
refused by their `n`. -/
def str2d (s : Str) : Option Number :=
  match s.find? fun c => c = '.' || c = 'x' || c = 'X' || c = 'n' || c = 'N' with
  | some 'n' | some 'N' => none
  | _ =>
    match splitSign (trimSpace s) with
    | (neg, body) =>
      (match body with
        | '0' :: 'x' :: hs | '0' :: 'X' :: hs => readHex hs
        | ds => readDecimal ds).map fun v => toDouble (if neg then -v else v)

/-- **`tonumber` of a string.** -/
def tonumber (s : Str) : Option Number := (str2int s).orElse fun _ => str2d s

/-! ## Printing -/

/-- `"%d"`. -/
def intText (i : ℤ) : Str :=
  if i < 0 then '-' :: Nat.toDigits 10 i.natAbs else Nat.toDigits 10 i.natAbs

/-- The fourteen significant digits of a positive `q` and its decimal
exponent. -/
def significant (q : ℚ) : ℕ × ℤ :=
  let x := Int.log 10 q
  let m := (roundEven (q / 10 ^ (x - 13))).toNat
  if m = 10 ^ 14 then (10 ^ 13, x + 1) else (m, x)

/-- `"%.14g"` of a positive number. -/
def gText (q : ℚ) : Str :=
  match significant q with
  | (m, x) =>
    let ds := ((Nat.toDigits 10 m).reverse.dropWhile (· = '0')).reverse
    let point (r : Str) : Str := if r = [] then [] else '.' :: r
    if x < -4 ∨ 14 ≤ x then
      let es := Nat.toDigits 10 x.natAbs
      ds.take 1 ++ point (ds.drop 1) ++ 'e' :: (if x < 0 then '-' else '+') ::
        (if es.length < 2 then '0' :: es else es)
    else if x < 0 then
      '0' :: '.' :: (List.replicate (-x - 1).toNat '0' ++ ds)
    else
      let k := x.toNat + 1
      ds.take k ++ List.replicate (k - ds.length) '0' ++ point (ds.drop k)

/-- `lua_Number2str` with the `.0` of a float that looks like an
integer. -/
def fltText (q : ℚ) : Str :=
  let s := if q = 0 then ['0'] else if q < 0 then '-' :: gText (-q) else gText q
  if s.all fun c => c = '-' || c.isDigit then s ++ ['.', '0'] else s

/-- **`tostring` of a number**, which is also what `..` inserts. -/
def tostring : Number → Str
  | .int i => intText i.toInt
  | .flt q => fltText q
  | .inf false => ['i', 'n', 'f']
  | .inf true => ['-', 'i', 'n', 'f']
  | .nan => ['n', 'a', 'n']

/-! ## The order -/

namespace Number

variable {a b c : Number}

theorem le_iff : a.le b = true ↔ ∃ x y, a.ext = some x ∧ b.ext = some y ∧ x ≤ y := by
  unfold le
  split <;> simp_all

theorem lt_iff : a.lt b = true ↔ ∃ x y, a.ext = some x ∧ b.ext = some y ∧ x < y := by
  unfold lt
  split <;> simp_all

theorem le_refl (h : a.ext.isSome) : a.le a = true := by
  obtain ⟨x, hx⟩ := Option.isSome_iff_exists.mp h
  exact le_iff.mpr ⟨x, x, hx, hx, le_rfl⟩

theorem not_lt_self (a : Number) : ¬ a.lt a = true := by
  intro h
  obtain ⟨x, y, hx, hy, hlt⟩ := lt_iff.mp h
  rw [hx] at hy
  cases hy
  exact lt_irrefl _ hlt

/-- Outside `nan` the order is total: what is not below or at `b` is
above everything `b` is at or above. -/
theorem lt_of_le_of_not_le (hab : a.le b = true) (hc : c.ext.isSome) (hcb : ¬ c.le b = true) :
    a.lt c = true := by
  obtain ⟨x, y, hx, hy, hxy⟩ := le_iff.mp hab
  obtain ⟨z, hz⟩ := Option.isSome_iff_exists.mp hc
  refine lt_iff.mpr ⟨x, z, hx, hz, lt_of_le_of_lt hxy ?_⟩
  by_contra hzy
  exact hcb (le_iff.mpr ⟨z, y, hz, hy, not_lt.mp hzy⟩)

theorem le_of_lt (h : a.lt b = true) : a.le b = true := by
  obtain ⟨x, y, hx, hy, hxy⟩ := lt_iff.mp h
  exact le_iff.mpr ⟨x, y, hx, hy, hxy.le⟩

end Number

theorem toDouble_ext (q : ℚ) : (toDouble q).ext.isSome := by
  unfold toDouble
  split
  · rfl
  · dsimp only
    split
    · cases decide (q < 0) <;> rfl
    · rfl

/-- **`tonumber` never reads a `nan`.** -/
theorem tonumber_ext {s : Str} {n : Number} (h : tonumber s = some n) : n.ext.isSome := by
  unfold tonumber at h
  cases hi : str2int s with
  | some k =>
    rw [hi] at h
    obtain rfl : k = n := Option.some.inj h
    unfold str2int at hi
    dsimp only at hi
    split at hi <;> split_ifs at hi <;> obtain rfl := Option.some.inj hi <;> rfl
  | none =>
    rw [hi] at h
    replace h : str2d s = some n := h
    unfold str2d at h
    split at h
    · simp at h
    · simp at h
    · obtain ⟨v, -, rfl⟩ := Option.map_eq_some_iff.mp h
      exact toDouble_ext _

/-! ## The text of an integer -/

theorem toInt_ofInt_of_nonneg {n : ℤ} (h0 : 0 ≤ n) (h : n < 2 ^ 63) : (Int64.ofInt n).toInt = n :=
  Int64.toInt_ofInt_of_le (by omega) h

theorem trimSpace_eq_self {s : Str} (h : ∀ c ∈ s, isSpace c = false) : trimSpace s = s := by
  have hdrop : ∀ t : Str, (∀ c ∈ t, isSpace c = false) → t.dropWhile isSpace = t := by
    intro t ht
    cases t with
    | nil => rfl
    | cons c t => rw [List.dropWhile_cons_of_neg (by simp [ht c (by simp)])]
  rw [trimSpace, hdrop s h, hdrop _ (fun c hc => h c (by simpa using hc)), List.reverse_reverse]

theorem isSpace_of_isDigit {c : Char} (h : c.isDigit = true) : isSpace c = false := by
  simp only [Char.isDigit, Bool.and_eq_true, decide_eq_true_eq] at h
  have h1 : 48 ≤ c.toNat := h.1
  have hne : c ≠ ' ' := by rintro rfl; exact absurd h1 (by decide)
  simp only [isSpace, hne, decide_false, Bool.false_or, Bool.and_eq_false_iff, decide_eq_false_iff_not]
  omega

theorem toDigits_isDigit (n : ℕ) : ∀ c ∈ Nat.toDigits 10 n, c.isDigit = true :=
  fun _ hc => Nat.isDigit_of_mem_toDigits (by omega) (by omega) hc

/-- Digits carry no sign. -/
theorem splitSign_digits {ds : Str} (h : ∀ c ∈ ds, c.isDigit = true) :
    splitSign ds = (false, ds) := by
  unfold splitSign
  split
  · exact absurd (h '-' (by simp)) (by decide)
  · exact absurd (h '+' (by simp)) (by decide)
  · rfl

/-- `l_str2int` on an optional minus and digits. -/
theorem str2int_digits {s ds : Str} {neg : Bool} (hs : splitSign (trimSpace s) = (neg, ds))
    (hne : ds ≠ []) (hd : ∀ c ∈ ds, c.isDigit = true)
    (hn : Nat.ofDigitChars 10 ds 0 ≤ 2 ^ 63 - 1 + (if neg then 1 else 0)) :
    str2int s = some (.int (Int64.ofInt
      (if neg then -(Nat.ofDigitChars 10 ds 0 : ℤ) else Nat.ofDigitChars 10 ds 0))) := by
  have hall : ds.all Char.isDigit = true := List.all_eq_true.mpr hd
  unfold str2int
  rw [hs]
  dsimp only
  split
  · exact absurd (hd 'x' (by simp)) (by decide)
  · exact absurd (hd 'X' (by simp)) (by decide)
  · rw [if_pos ⟨hne, hall⟩, if_pos hn]

/-- **An integer reads back from its own text.** -/
theorem tonumber_tostring_int (i : Int64) : tonumber (tostring (.int i)) = some (.int i) := by
  have hlo := i.le_toInt
  have hhi := i.toInt_lt
  have hds := toDigits_isDigit i.toInt.natAbs
  have hval : Nat.ofDigitChars 10 (Nat.toDigits 10 i.toInt.natAbs) 0 = i.toInt.natAbs :=
    Nat.ofDigitChars_ten_toDigits
  have hi : str2int (tostring (.int i)) = some (.int i) := by
    simp only [tostring, intText]
    split
    · rename_i hneg
      have htrim : splitSign (trimSpace ('-' :: Nat.toDigits 10 i.toInt.natAbs)) =
          (true, Nat.toDigits 10 i.toInt.natAbs) := by
        rw [trimSpace_eq_self]
        · rfl
        · intro c hc
          rcases List.mem_cons.mp hc with rfl | hc
          · decide
          · exact isSpace_of_isDigit (hds c hc)
      rw [str2int_digits htrim Nat.toDigits_ne_nil hds (by rw [hval]; simp; omega), hval]
      simp only [if_true]
      rw [show -(i.toInt.natAbs : ℤ) = i.toInt by omega, Int64.ofInt_toInt]
    · rename_i hneg
      have htrim : splitSign (trimSpace (Nat.toDigits 10 i.toInt.natAbs)) =
          (false, Nat.toDigits 10 i.toInt.natAbs) := by
        rw [trimSpace_eq_self fun c hc => isSpace_of_isDigit (hds c hc), splitSign_digits hds]
      rw [str2int_digits htrim Nat.toDigits_ne_nil hds (by rw [hval]; simp; omega), hval]
      simp only [Bool.false_eq_true, if_false]
      rw [show (i.toInt.natAbs : ℤ) = i.toInt by omega, Int64.ofInt_toInt]
  rw [tonumber, hi]
  rfl

/-- So distinct naturals have distinct texts. -/
theorem intText_inj {m n : ℕ} (h : intText m = intText n) : m = n := by
  simp only [intText, Int.natAbs_natCast, if_neg (not_lt.mpr (Int.natCast_nonneg _))] at h
  have hm : Nat.ofDigitChars 10 (Nat.toDigits 10 m) 0 = m := Nat.ofDigitChars_ten_toDigits
  rw [h, Nat.ofDigitChars_ten_toDigits] at hm
  exact hm.symm

/-- The characters of a number's text. -/
def isNumeral (c : Char) : Bool :=
  c.isDigit || c ∈ ['-', '+', '.', 'e', 'i', 'n', 'f', 'a']

theorem isNumeral_toDigits (n : ℕ) : ∀ c ∈ Nat.toDigits 10 n, isNumeral c = true := by
  intro c hc
  simp [isNumeral, toDigits_isDigit n c hc]

theorem isNumeral_intText (i : ℤ) : ∀ c ∈ intText i, isNumeral c = true := by
  intro c hc
  unfold intText at hc
  split at hc
  · rcases List.mem_cons.mp hc with rfl | hc
    · decide
    · exact isNumeral_toDigits _ c hc
  · exact isNumeral_toDigits _ c hc

theorem isNumeral_gText (q : ℚ) : ∀ c ∈ gText q, isNumeral c = true := by
  have hds : ∀ m : ℕ, ∀ c ∈ ((Nat.toDigits 10 m).reverse.dropWhile (· = '0')).reverse,
      isNumeral c = true := by
    intro m c hc
    have hc := (List.dropWhile_sublist _).subset (List.mem_reverse.mp hc)
    exact isNumeral_toDigits m c (List.mem_reverse.mp hc)
  intro c hc
  simp only [gText] at hc
  generalize hd : ((Nat.toDigits 10 (significant q).1).reverse.dropWhile (· = '0')).reverse = ds at hc
  have hds : ∀ c ∈ ds, isNumeral c = true := hd ▸ hds _
  have hpoint : ∀ r : Str, (∀ c ∈ r, isNumeral c = true) → ∀ c ∈ (if r = [] then [] else '.' :: r),
      isNumeral c = true := by
    intro r hr c hc
    split at hc
    · simp at hc
    · rcases List.mem_cons.mp hc with rfl | hc
      · decide
      · exact hr c hc
  have htake : ∀ k, ∀ c ∈ ds.take k, isNumeral c = true := fun k c hc => hds c (List.mem_of_mem_take hc)
  have hdrop : ∀ k, ∀ c ∈ ds.drop k, isNumeral c = true := fun k c hc => hds c (List.mem_of_mem_drop hc)
  split at hc
  · simp only [List.mem_append, List.mem_cons] at hc
    rcases hc with (hc | hc) | rfl | rfl | hc
    · exact htake _ c hc
    · exact hpoint _ (hdrop 1) c hc
    · decide
    · split <;> decide
    · split at hc
      · rcases List.mem_cons.mp hc with rfl | hc
        · decide
        · exact isNumeral_toDigits _ c hc
      · exact isNumeral_toDigits _ c hc
  · split at hc
    · simp only [List.mem_append, List.mem_cons, List.mem_replicate] at hc
      rcases hc with rfl | rfl | ⟨-, rfl⟩ | hc
      · decide
      · decide
      · decide
      · exact hds c hc
    · simp only [List.mem_append, List.mem_replicate] at hc
      rcases hc with (hc | ⟨-, rfl⟩) | hc
      · exact htake _ c hc
      · decide
      · exact hpoint _ (hdrop _) c hc

/-- **What a number's text is made of.** -/
theorem isNumeral_tostring (n : Number) : ∀ c ∈ tostring n, isNumeral c = true := by
  cases n with
  | int i => exact isNumeral_intText _
  | nan => exact List.all_eq_true.mp rfl
  | inf neg => cases neg <;> exact List.all_eq_true.mp rfl
  | flt q =>
    have hbody : ∀ c ∈ (if q = 0 then ['0'] else if q < 0 then '-' :: gText (-q) else gText q),
        isNumeral c = true := by
      intro c hc
      split_ifs at hc
      · obtain rfl : c = '0' := by simpa using hc
        decide
      · rcases List.mem_cons.mp hc with rfl | hc
        · decide
        · exact isNumeral_gText _ c hc
      · exact isNumeral_gText _ c hc
    intro c hc
    simp only [tostring, fltText] at hc
    generalize (if q = 0 then ['0'] else if q < 0 then '-' :: gText (-q) else gText q) = body at hc hbody
    split at hc
    · rcases List.mem_append.mp hc with hc | hc
      · exact hbody c hc
      · simp only [List.mem_cons, List.not_mem_nil, or_false] at hc
        rcases hc with rfl | rfl <;> decide
    · exact hbody c hc

/-- So distinct integers have distinct texts. -/
theorem tostring_int_injective {i j : Int64} (h : tostring (.int i) = tostring (.int j)) :
    i = j := by
  have hi := tonumber_tostring_int i
  rw [h, tonumber_tostring_int j] at hi
  simpa using hi.symm

/-! ## Texts that are no numbers -/

theorem mem_dropWhile {p : Char → Bool} {s : Str} {c : Char} (hc : c ∈ s) (hp : p c = false) :
    c ∈ s.dropWhile p := by
  induction s with
  | nil => cases hc
  | cons d s ih =>
    rw [List.dropWhile_cons]
    split
    · rename_i hd
      rcases List.mem_cons.mp hc with rfl | hc
      · rw [hp] at hd
        cases hd
      · exact ih hc
    · exact hc

/-- The spaces around a numeral are all that is skipped. -/
theorem mem_trimSpace {s : Str} {c : Char} (hc : c ∈ s) (hspace : isSpace c = false) :
    c ∈ trimSpace s := by
  rw [trimSpace, List.mem_reverse]
  exact mem_dropWhile (List.mem_reverse.mpr (mem_dropWhile hc hspace)) hspace

/-- A sign is all that is taken before the digits. -/
theorem mem_splitSign {s : Str} {c : Char} (hc : c ∈ s) (hsign : c ≠ '-' ∧ c ≠ '+') :
    c ∈ (splitSign s).2 := by
  unfold splitSign
  split
  · rcases List.mem_cons.mp hc with h | h
    · exact absurd h hsign.1
    · exact h
  · rcases List.mem_cons.mp hc with h | h
    · exact absurd h hsign.2
    · exact h
  · exact hc

/-- A character that no numeral has. -/
structure Foreign (c : Char) : Prop where
  space : isSpace c = false
  sign : c ≠ '-' ∧ c ≠ '+'
  digit : isHexDigit c = false
  mark : c ≠ '.' ∧ c ≠ 'x' ∧ c ≠ 'X' ∧ c ≠ 'p' ∧ c ≠ 'P'

theorem Foreign.not_isDigit {c : Char} (h : Foreign c) : c.isDigit = false := by
  have := h.digit
  simp only [isHexDigit, Bool.or_eq_false_iff] at this
  exact this.1.1

theorem Foreign.not_exponent {c : Char} (h : Foreign c) : c ≠ 'e' ∧ c ≠ 'E' := by
  constructor
  · rintro rfl
    exact absurd h.digit (by decide)
  · rintro rfl
    exact absurd h.digit (by decide)

theorem readExponent_foreign {isE : Char → Bool} {r : Str} {c : Char} (h : Foreign c) (hE : isE c = false)
    (hc : c ∈ r) : readExponent isE r = none := by
  cases r with
  | nil => cases hc
  | cons d r =>
    rw [readExponent]
    split_ifs with hd
    · have hmem : c ∈ r := by
        rcases List.mem_cons.mp hc with rfl | hmem
        · rw [hd] at hE
          cases hE
        · exact hmem
      have hds := mem_splitSign hmem h.sign
      dsimp only
      rw [if_neg]
      rintro ⟨-, hall⟩
      have := List.all_eq_true.mp hall c hds
      rw [h.not_isDigit] at this
      cases this
    · rfl

/-- What a reader leaves of a numeral still has the character. -/
theorem mem_splitDot {isD : Char → Bool} {s : Str} {c : Char} (hD : isD c = false) (hdot : c ≠ '.')
    (hc : c ∈ s) : c ∈ (splitDot isD s).2.2 := by
  have hs := mem_dropWhile hc hD
  unfold splitDot
  split
  · rename_i r hr
    rw [hr] at hs
    rcases List.mem_cons.mp hs with h | h
    · exact absurd h hdot
    · exact mem_dropWhile h hD
  · exact hs

theorem readDecimal_foreign {s : Str} {c : Char} (h : Foreign c) (hc : c ∈ s) :
    readDecimal s = none := by
  have hr := mem_splitDot h.not_isDigit h.mark.1 hc
  have hE : (c = 'e' || c = 'E') = false := by simp [h.not_exponent]
  unfold readDecimal
  dsimp only
  rw [readExponent_foreign h hE hr]
  split <;> rfl

theorem readHex_foreign {s : Str} {c : Char} (h : Foreign c) (hc : c ∈ s) : readHex s = none := by
  have hr := mem_splitDot h.digit h.mark.1 hc
  have hE : (c = 'p' || c = 'P') = false := by simp [h.mark]
  unfold readHex
  dsimp only
  rw [readExponent_foreign h hE hr]
  split <;> rfl

/-- The prefix of a hexadecimal has no foreign character. -/
theorem Foreign.mem_hex {c d : Char} {hs : Str} (h : Foreign c) (hd : d = 'x' ∨ d = 'X')
    (hc : c ∈ '0' :: d :: hs) : c ∈ hs := by
  rcases List.mem_cons.mp hc with rfl | hc
  · exact absurd h.digit (by decide)
  · rcases List.mem_cons.mp hc with rfl | hc
    · rcases hd with rfl | rfl
      · exact absurd rfl h.mark.2.1
      · exact absurd rfl h.mark.2.2.1
    · exact hc

/-- **A text with a foreign character is no number.** -/
theorem tonumber_foreign {s : Str} {c : Char} (h : Foreign c) (hc : c ∈ s) : tonumber s = none := by
  have hbody := mem_splitSign (mem_trimSpace hc h.space) h.sign
  have hall : ∀ {p : Char → Bool} {ds : Str}, p c = false → c ∈ ds → ¬ (ds ≠ [] ∧ ds.all p = true) := by
    rintro p ds hp hmem ⟨-, hds⟩
    have := List.all_eq_true.mp hds c hmem
    rw [hp] at this
    cases this
  have hint : str2int s = none := by
    unfold str2int
    dsimp only
    split
    · rename_i hs heq
      rw [heq] at hbody
      exact if_neg (hall h.digit (h.mem_hex (Or.inl rfl) hbody))
    · rename_i hs heq
      rw [heq] at hbody
      exact if_neg (hall h.digit (h.mem_hex (Or.inr rfl) hbody))
    · exact if_neg (hall h.not_isDigit hbody)
  have hflt : str2d s = none := by
    unfold str2d
    split
    · rfl
    · rfl
    · dsimp only
      rw [Option.map_eq_none_iff]
      split
      · rename_i hs heq
        rw [heq] at hbody
        exact readHex_foreign h (h.mem_hex (Or.inl rfl) hbody)
      · rename_i hs heq
        rw [heq] at hbody
        exact readHex_foreign h (h.mem_hex (Or.inr rfl) hbody)
      · exact readDecimal_foreign h hbody
  rw [tonumber, hint, hflt]
  rfl

theorem foreign_colon : Foreign ':' := by constructor <;> decide

end Lua

end Athena
