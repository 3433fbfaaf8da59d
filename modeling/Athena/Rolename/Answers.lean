import Athena.Common.Loop
import Athena.Rolename.Model
/-!
# Names of roles — which names are answered

Both loops over the bytes of a name step on by a first byte's length and
stop at an exact place. `utf8len` counts down to 0: past 0 it reads from
the front, until it is past the text and compares a nil. `filterspecchars`
has no step for the bytes 254 and 255, and stays there for ever. So a
request answers for every name that is made of whole characters, and for
no other (`answers_iff`).
-/

namespace Athena

namespace Rolename

open Lua (Str)

/-! ## The two loops -/

/-- `string.byte(s, i)`, which is a nil outside of the text. -/
def byte (s : Str) (i : ℤ) : Option Char :=
  let pos := if 0 ≤ i then i else if s.length < -i then 0 else s.length + i + 1
  if 1 ≤ pos then s[(pos - 1).toNat]? else none

/-- A turn of the loop of `utf8len`, over `left` and `cnt`. -/
def utf8lenTurn (input : Str) : ℤ × ℕ → Turn (ℤ × ℕ) ℕ
  | (left, cnt) =>
    if left = 0 then .returns cnt
    else
      match byte input (-left) with
      | none => .raises
      | some tmp => .again (left - lead tmp, cnt + 1)

/-- A turn of the loop of `filterspecchars`, over the text from `k` on and
`ss`. -/
def filterTurn : Str × Str → Turn (Str × Str) Str
  | ([], ss) => .returns ss
  | (c :: s, ss) =>
    if c.toNat < 192 then .again (s, if c.isAlphanum then ss ++ [c] else ss)
    else if c.toNat < 224 then .again (s.drop 1, ss)
    else if c.toNat < 240 then .again (s.drop 2, if chinese c s then ss ++ c :: s.take 2 else ss)
    else if c.toNat < 248 then .again (s.drop 3, ss)
    else if c.toNat < 252 then .again (s.drop 4, ss)
    else if c.toNat < 254 then .again (s.drop 5, ss)
    else .again (c :: s, ss)

/-! ## The other request -/

/-- **`changedes`.** It answers nothing where it raises. -/
def changedes (E : Env) (s : State) (uid : Uid) (des : Str) : Option Code × State :=
  let code := if E.sensitive des then some Code.role_name_sensitive else none
  match utf8len des with
  | none => (none, s)
  | some len =>
    match if len < 0 ∨ 20 < len then some .role_name_length else code with
    | some code => (some code, s)
    | none =>
      match s.recordset uid with
      | some _ => (some .success, setfield s uid)
      | none => (some .db_error, s)

/-! ## Whole characters -/

/-- **A text of whole characters**: each has a first byte below 254 and as
many bytes as this one says. -/
inductive Whole : Str → Prop
  | nil : Whole []
  | cons {c : Char} {tail rest : Str} (hc : c.toNat < 254) (ht : tail.length + 1 = lead c)
      (hrest : Whole rest) : Whole (c :: (tail ++ rest))

theorem lead_pos (c : Char) : 0 < lead c := by
  unfold lead
  split_ifs <;> omega

theorem drop_lead (c : Char) (s : Str) : (c :: s).drop (lead c) = s.drop (lead c - 1) := by
  obtain ⟨n, hn⟩ : ∃ n, lead c = n + 1 := ⟨lead c - 1, by have := lead_pos c; omega⟩
  rw [hn, List.drop_succ_cons, Nat.add_sub_cancel]

/-- What a character is followed by. -/
theorem Whole.of_drop {c : Char} {s : Str} (hc : c.toNat < 254) (hlen : lead c ≤ s.length + 1)
    (h : Whole ((c :: s).drop (lead c))) : Whole (c :: s) := by
  have hpos := lead_pos c
  rw [drop_lead] at h
  have htail : (s.take (lead c - 1)).length + 1 = lead c := by
    rw [List.length_take]
    omega
  have := Whole.cons hc htail h
  rwa [List.take_append_drop] at this

theorem Whole.append {s t : Str} (hs : Whole s) (ht : Whole t) : Whole (s ++ t) := by
  induction hs with
  | nil => exact ht
  | cons hc hlen _ ih =>
    rw [List.cons_append, List.append_assoc]
    exact .cons hc hlen ih

/-! ## The length -/

/-- Where the rest of a text begins. -/
theorem byte_suffix {pre s : Str} {c : Char} : byte (pre ++ c :: s) (-((c :: s).length : ℤ)) = some c := by
  have hlen : ((pre ++ c :: s).length : ℤ) = pre.length + (s.length + 1) := by
    simp
  have h1 : ¬(0 : ℤ) ≤ -((c :: s).length : ℤ) := by
    rw [List.length_cons]
    omega
  have h2 : ¬((pre ++ c :: s).length : ℤ) < - -((c :: s).length : ℤ) := by
    rw [hlen, List.length_cons]
    omega
  have h3 : ((pre ++ c :: s).length : ℤ) + -((c :: s).length : ℤ) + 1 = pre.length + 1 := by
    rw [hlen, List.length_cons]
    omega
  simp only [byte, if_neg h1, if_neg h2, h3]
  rw [if_pos (by omega)]
  simp

/-- Past the text there is no byte. -/
theorem byte_of_lt {s : Str} {i : ℤ} (h : s.length < i) : byte s i = none := by
  simp only [byte, if_pos (show (0 : ℤ) ≤ i by omega), if_pos (show (1 : ℤ) ≤ i by omega)]
  exact List.getElem?_eq_none (by omega)

/-- **Past 0 the loop of `utf8len` raises**: what is left grows below 0 until
it is past the text. -/
theorem raises_of_neg {input : Str} {left : ℤ} {cnt : ℕ} (h : left < 0) :
    Raises (utf8lenTurn input) (left, cnt) := by
  refine raises_of_measure (fun p => p.1 < 0) (fun p => (input.length + 1 + p.1).toNat) ?_ h
  rintro ⟨left, cnt⟩ (hneg : left < 0)
  rw [utf8lenTurn, if_neg (by omega)]
  cases hb : byte input (-left) with
  | none => exact Or.inl rfl
  | some c =>
    have hle : -left ≤ input.length := by
      by_contra hlt
      rw [byte_of_lt (by omega)] at hb
      cases hb
    have hpos := lead_pos c
    refine Or.inr ⟨_, rfl, ?_, ?_⟩
    · dsimp only
      omega
    · dsimp only
      omega

/-- What the loop of `utf8len` does from the rest of a text on. -/
theorem utf8lenTurn_suffix {n : ℕ} {pre s : Str} (hn : s.length ≤ n) (cnt : ℕ) :
    Ends (utf8lenTurn (pre ++ s)) ((s.length : ℤ), cnt) ((utf8lenLoop n s).map (cnt + ·)) := by
  induction n generalizing pre s cnt with
  | zero =>
    obtain rfl := List.eq_nil_of_length_eq_zero (Nat.le_zero.mp hn)
    exact .now rfl
  | succ n ih =>
    cases s with
    | nil => exact .now rfl
    | cons c s =>
      have hpos := lead_pos c
      have hturn : utf8lenTurn (pre ++ c :: s) (((c :: s).length : ℤ), cnt) =
          .again (((c :: s).length : ℤ) - lead c, cnt + 1) := by
        rw [utf8lenTurn, if_neg (by simp only [List.length_cons]; omega), byte_suffix]
      rw [utf8lenLoop]
      split_ifs with hlead
      · -- the character is cut off
        exact .later hturn (raises_of_neg (by simp only [List.length_cons]; omega))
      · have hlen : (((c :: s).drop (lead c)).length : ℤ) = ((c :: s).length : ℤ) - lead c := by
          rw [List.length_drop, List.length_cons]
          omega
        have htext : (pre ++ (c :: s).take (lead c)) ++ (c :: s).drop (lead c) = pre ++ c :: s := by
          rw [List.append_assoc, List.take_append_drop]
        have hshort : ((c :: s).drop (lead c)).length ≤ n := by
          simp only [List.length_drop, List.length_cons] at hn ⊢
          omega
        have hnext := @ih (pre ++ (c :: s).take (lead c)) _ hshort (cnt + 1)
        have hcount : (cnt + ·) ∘ (· + 1) = (cnt + 1 + ·) := by
          funext k
          simp only [Function.comp_apply]
          omega
        rw [htext, hlen] at hnext
        rw [Option.map_map, hcount]
        exact .later hturn hnext

/-- **`utf8len` is its loop**: it returns what the loop returns, and raises
where the loop raises. -/
theorem utf8len_spec (s : Str) : Ends (utf8lenTurn s) ((s.length : ℤ), 0) (utf8len s) := by
  have hloop := @utf8lenTurn_suffix s.length [] s (Nat.le_refl _) 0
  simp only [List.nil_append, Nat.zero_add, Option.map_id_fun', id] at hloop
  exact hloop

/-- The text is counted where its characters are whole. -/
theorem utf8lenLoop_isSome {n : ℕ} {s : Str} (hn : s.length ≤ n) (h : Whole s) :
    (utf8lenLoop n s).isSome := by
  induction h generalizing n with
  | nil => cases n <;> rfl
  | @cons c tail rest hc ht _ ih =>
    obtain ⟨m, rfl⟩ : ∃ m, n = m + 1 := ⟨n - 1, by simp only [List.length_cons] at hn; omega⟩
    simp only [List.length_cons, List.length_append] at hn
    rw [utf8lenLoop, if_neg (by rw [List.length_append]; omega), drop_lead, Option.isSome_map,
      show lead c - 1 = tail.length by omega, List.drop_left]
    exact ih (by omega)

/-! ## The filter -/

/-- What a turn of the filter keeps. -/
def kept (c : Char) (s : Str) : Str :=
  if c.toNat < 192 then if c.isAlphanum then [c] else []
  else if 224 ≤ c.toNat ∧ c.toNat < 240 ∧ chinese c s then c :: s.take 2 else []

/-- **A turn of the filter**, which steps on by the character that `utf8len`
counts. -/
theorem filterTurn_cons (c : Char) (s ss : Str) :
    filterTurn (c :: s, ss) =
      if c.toNat < 254 then .again ((c :: s).drop (lead c), ss ++ kept c s) else .again (c :: s, ss) := by
  rw [drop_lead]
  unfold filterTurn lead kept
  dsimp only
  split_ifs <;> first | omega | simp_all

theorem filterspecchars_succ (n : ℕ) (c : Char) (s : Str) :
    filterspecchars (n + 1) (c :: s) =
      if c.toNat < 254 then (filterspecchars n ((c :: s).drop (lead c))).map (kept c s ++ ·) else none := by
  rw [drop_lead]
  unfold lead kept
  rw [filterspecchars]
  split_ifs <;> first | omega | simp_all

/-- What the loop of the filter does from the rest of a text on: it returns,
or it hangs at a byte that it has no step for. -/
theorem filterTurn_suffix {n : ℕ} {s : Str} (hn : s.length ≤ n) (ss : Str) :
    (∀ r, filterspecchars n s = some r → Returns filterTurn (s, ss) (ss ++ r)) ∧
    (filterspecchars n s = none → Hangs filterTurn (s, ss)) := by
  induction n generalizing s ss with
  | zero =>
    obtain rfl := List.eq_nil_of_length_eq_zero (Nat.le_zero.mp hn)
    refine ⟨fun r hr => ?_, fun h => by cases h⟩
    cases hr
    exact .now (by rw [List.append_nil]; rfl)
  | succ n ih =>
    cases s with
    | nil =>
      refine ⟨fun r hr => ?_, fun h => by cases h⟩
      cases hr
      exact .now (by rw [List.append_nil]; rfl)
    | cons c s =>
      have hpos := lead_pos c
      have hturn := filterTurn_cons c s ss
      rw [filterspecchars_succ]
      split_ifs at hturn ⊢ with hc
      · have hlen : ((c :: s).drop (lead c)).length ≤ n := by
          simp only [List.length_drop, List.length_cons] at hn ⊢
          omega
        obtain ⟨hreturns, hhangs⟩ := ih hlen (ss ++ kept c s)
        refine ⟨fun r hr => ?_, fun hr => ?_⟩
        · obtain ⟨r', hr', rfl⟩ := Option.map_eq_some_iff.mp hr
          have := Returns.later hturn (hreturns r' hr')
          rwa [List.append_assoc] at this
        · exact (hhangs (Option.map_eq_none_iff.mp hr)).later hturn
      · exact ⟨fun r hr => hr.elim, fun _ => hangs_of_same hturn⟩

/-- What the filter keeps of a character is whole. -/
theorem whole_kept (c : Char) (s : Str) : Whole (kept c s) := by
  unfold kept
  split_ifs with h1 h2 h3
  · have hlead : lead c = 1 := by
      unfold lead
      split_ifs <;> omega
    have hone : Whole (c :: ([] ++ [])) := .cons (by omega) (by rw [hlead]; rfl) .nil
    exact hone
  · exact .nil
  · -- the first byte of three
    have hlead : lead c = 3 := by
      unfold lead
      split_ifs <;> omega
    obtain ⟨c1, c2, t, rfl⟩ : ∃ c1 c2 t, s = c1 :: c2 :: t := by
      match s, h3.2.2 with
      | c1 :: c2 :: t, _ => exact ⟨c1, c2, t, rfl⟩
    have hthree : Whole (c :: ([c1, c2] ++ [])) := .cons (by omega) (by rw [hlead]; rfl) .nil
    exact hthree
  · exact .nil

theorem whole_filterspecchars {n : ℕ} {s r : Str} (h : filterspecchars n s = some r) : Whole r := by
  induction n generalizing s r with
  | zero =>
    cases s with
    | nil => cases h; exact .nil
    | cons c s => cases h
  | succ n ih =>
    cases s with
    | nil => cases h; exact .nil
    | cons c s =>
      rw [filterspecchars_succ] at h
      split_ifs at h
      obtain ⟨r', hr', rfl⟩ := Option.map_eq_some_iff.mp h
      exact (whole_kept c s).append (ih hr')

theorem filterspecchars_isSome {n : ℕ} {s : Str} (hn : s.length ≤ n) (h : Whole s) :
    (filterspecchars n s).isSome := by
  induction h generalizing n with
  | nil => cases n <;> rfl
  | @cons c tail rest hc ht _ ih =>
    obtain ⟨m, rfl⟩ : ∃ m, n = m + 1 := ⟨n - 1, by simp only [List.length_cons] at hn; omega⟩
    simp only [List.length_cons, List.length_append] at hn
    rw [filterspecchars_succ, if_pos hc, drop_lead, Option.isSome_map,
      show lead c - 1 = tail.length by omega, List.drop_left]
    exact ih (by omega)

/-- **Where both loops return, the characters are whole.** -/
theorem whole_of_isSome {n m : ℕ} {s : Str} (hlen : (utf8lenLoop n s).isSome)
    (hfilter : (filterspecchars m s).isSome) : Whole s := by
  induction n generalizing s m with
  | zero =>
    cases s with
    | nil => exact .nil
    | cons c s => cases hlen
  | succ n ih =>
    cases s with
    | nil => exact .nil
    | cons c s =>
      cases m with
      | zero => cases hfilter
      | succ m =>
        rw [utf8lenLoop] at hlen
        rw [filterspecchars_succ] at hfilter
        by_cases hlead : s.length + 1 < lead c
        · rw [if_pos hlead] at hlen
          cases hlen
        · by_cases hc : c.toNat < 254
          · rw [if_neg hlead, Option.isSome_map] at hlen
            rw [if_pos hc, Option.isSome_map] at hfilter
            exact .of_drop hc (by omega) (ih hlen hfilter)
          · rw [if_neg hc] at hfilter
            cases hfilter

/-! ## The requests -/

/-- `name_match` answers for a text of whole characters. -/
theorem name_match_isSome (E : Env) {name : Str} (h : Whole name) : (name_match E name).isSome := by
  unfold name_match
  split_ifs
  · rfl
  · obtain ⟨newname, hnew⟩ := Option.isSome_iff_exists.mp (filterspecchars_isSome (Nat.le_refl _) h)
    obtain ⟨old, hold⟩ := Option.isSome_iff_exists.mp (utf8lenLoop_isSome (Nat.le_refl _) h)
    obtain ⟨new, hnewlen⟩ := Option.isSome_iff_exists.mp
      (utf8lenLoop_isSome (Nat.le_refl _) (whole_filterspecchars hnew))
    simp only [utf8len, hnew, hold, hnewlen, Option.bind_eq_bind, Option.bind_some]
    rfl

theorem checked_isSome (E : Env) (s : State) (row : Option (Option Lua.Value)) {name : Str}
    (h : Whole name) : (checked E s row name).isSome := by
  unfold checked
  split
  · rfl
  · split_ifs
    · rfl
    · rfl
    · exact name_match_isSome E h

theorem changename_isSome (E : Env) (s : State) (uid : Uid) {name : Str} (h : Whole name) :
    (changename E s uid (some name)).1.isSome := by
  obtain ⟨code, hcode⟩ := Option.isSome_iff_exists.mp
    (checked_isSome E (get s uid).2 (get s uid).1 h)
  obtain ⟨len, hlen⟩ := Option.isSome_iff_exists.mp (utf8lenLoop_isSome (Nat.le_refl _) h)
  simp only [changename, utf8len, hcode, hlen]
  split_ifs
  · rfl
  · split
    · rfl
    · split <;> rfl

theorem changedes_isSome (E : Env) (s : State) (uid : Uid) {des : Str} (h : Whole des) :
    (changedes E s uid des).1.isSome := by
  obtain ⟨len, hlen⟩ := Option.isSome_iff_exists.mp (utf8lenLoop_isSome (Nat.le_refl _) h)
  simp only [changedes, utf8len, hlen]
  split
  · rfl
  · split <;> rfl

/-- **Which texts are answered.** Both loops return and both requests answer,
whatever the state, exactly for a text of whole characters. -/
theorem answers_iff (text : Str) :
    ((∃ len, Returns (utf8lenTurn text) ((text.length : ℤ), 0) len) ∧
      (∃ ss, Returns filterTurn (text, []) ss) ∧
      (∀ E s uid, (changename E s uid (some text)).1.isSome) ∧
      ∀ E s uid, (changedes E s uid text).1.isSome) ↔ Whole text := by
  have hspec := utf8len_spec text
  have hfilter := filterTurn_suffix (s := text) (Nat.le_refl _) []
  constructor
  · rintro ⟨⟨len, hlen⟩, ⟨ss, hss⟩, -, -⟩
    refine whole_of_isSome (n := text.length) (m := text.length) ?_ ?_
    · cases hl : utf8lenLoop text.length text with
      | some k => rfl
      | none =>
        rw [utf8len, hl] at hspec
        exact absurd hspec hlen.not_raises
    · cases hf : filterspecchars text.length text with
      | some r => rfl
      | none => exact absurd (hfilter.2 hf) hss.not_hangs
  · intro h
    obtain ⟨len, hlen⟩ := Option.isSome_iff_exists.mp (utf8lenLoop_isSome (Nat.le_refl _) h)
    obtain ⟨r, hr⟩ := Option.isSome_iff_exists.mp (filterspecchars_isSome (Nat.le_refl _) h)
    rw [utf8len, hlen] at hspec
    exact ⟨⟨len, hspec⟩, ⟨_, hfilter.1 r hr⟩, fun E s uid => changename_isSome E s uid h,
      fun E s uid => changedes_isSome E s uid h⟩

/-- On the byte 254 the filter hangs, and a name that ends inside of a
character makes `utf8len` raise. -/
theorem names_not_answered :
    Hangs filterTurn ([Char.ofNat 254], []) ∧
      (∀ ss, ¬ Returns filterTurn ([Char.ofNat 254], []) ss) ∧
      Raises (utf8lenTurn ['a', 'b', Char.ofNat 228]) (3, 0) ∧
      (∀ len, ¬ Returns (utf8lenTurn ['a', 'b', Char.ofNat 228]) (3, 0) len) ∧
      (∀ E s uid, (changename E s uid (some ['a', 'b', Char.ofNat 228])).1 = none) ∧
      ∀ E s uid, (changedes E s uid ['a', 'b', Char.ofNat 228]).1 = none := by
  have hhang : Hangs filterTurn ([Char.ofNat 254], []) := hangs_of_same (by rfl)
  have hlen : utf8len ['a', 'b', Char.ofNat 228] = none := by decide
  have hraise : Raises (utf8lenTurn ['a', 'b', Char.ofNat 228]) (3, 0) := by
    have := utf8len_spec ['a', 'b', Char.ofNat 228]
    rwa [hlen] at this
  refine ⟨hhang, fun ss h => h.not_hangs hhang, hraise, fun len h => h.not_raises hraise, ?_, ?_⟩
  · intro E s uid
    simp only [changename, hlen]
    split <;> simp_all
  · intro E s uid
    simp only [changedes, hlen]

end Rolename

end Athena
