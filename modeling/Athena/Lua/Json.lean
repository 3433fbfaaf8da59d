import Athena.Lua.Split
import Athena.Common.Tally
/-!
# `json.encode`, of texts and arrays

A text is encoded between quotes, an array between brackets with commas between its
entries, and an empty table as an object. The text of an array holds more characters
other than commas and white space than its entries do (`ink`), so that it is not what
is left of it when it is split.
-/

namespace Athena

namespace Lua

/-- The quotation mark. -/
def jsonQuote : Char := Char.ofNat 34

def jsonBackslash : Char := Char.ofNat 92

/-- What a character is written as. -/
def escape (c : Char) : Str :=
  if c = jsonQuote ∨ c = jsonBackslash ∨ c = '/' then [jsonBackslash, c]
  else if c.toNat = 8 then [jsonBackslash, 'b']
  else if c.toNat = 9 then [jsonBackslash, 't']
  else if c.toNat = 10 then [jsonBackslash, 'n']
  else if c.toNat = 12 then [jsonBackslash, 'f']
  else if c.toNat = 13 then [jsonBackslash, 'r']
  else if c.toNat < 32 ∨ c.toNat = 127 then
    jsonBackslash :: 'u' :: '0' :: '0' :: [Nat.digitChar (c.toNat / 16), Nat.digitChar (c.toNat % 16)]
  else [c]

/-- **The text of a string.** -/
def jsonString (s : Str) : Str := jsonQuote :: s.flatMap escape ++ [jsonQuote]

/-- **The text of a table** with the texts of its entries. -/
def jsonArray (entries : List Str) : Str :=
  if entries = [] then "\x7b\x7d".toList else '[' :: join entries ++ [']']

/-- A character that a split keeps. -/
def isInk (c : Char) : Bool := c ≠ ',' && !isSpace c

/-- How many characters of a text a split keeps. -/
def ink (s : Str) : ℕ := s.countP isInk

variable {s t f : Str} {fields : List Str} {c : Char}

@[simp] theorem ink_nil : ink [] = 0 := rfl

@[simp] theorem ink_append : ink (s ++ t) = ink s + ink t := List.countP_append

theorem ink_cons : ink (c :: s) = ink [c] + ink s := by
  rw [← ink_append, List.singleton_append]

theorem ink_field (h : Field f) : ink f = f.length := by
  rw [ink, List.countP_eq_length]
  intro c hc
  obtain ⟨hcomma, hspace⟩ := h.2 c hc
  simp [isInk, hcomma, hspace]

/-- The pieces between separators hold all other characters. -/
theorem length_splitOnP (p : Char → Bool) (s : Str) :
    tally List.length (s.splitOnP p) = s.countP fun c => !p c := by
  induction s with
  | nil => rfl
  | cons c s ih =>
    rw [List.splitOnP_cons_eq_if_modifyHead]
    by_cases hc : p c = true
    · rw [if_pos hc, tally_cons, ih, List.countP_cons_of_neg (by simp [hc])]
      simp
    · obtain ⟨g, l, hl⟩ := List.exists_cons_of_ne_nil (List.splitOnP_ne_nil p s)
      rw [hl, tally_cons] at ih
      rw [if_neg hc, hl, List.modifyHead_cons, tally_cons, List.countP_cons_of_pos (by simp [hc]),
        List.length_cons]
      omega

/-- **What a split keeps.** -/
theorem length_splitComma (s : Str) : tally List.length (splitComma s) = ink s := by
  have hempty : ∀ l : List Str, tally List.length (l.filter fun f => f ≠ []) = tally List.length l := by
    intro l
    induction l with
    | nil => rfl
    | cons f l ih =>
      by_cases hf : f = []
      · rw [List.filter_cons_of_neg (by simp [hf]), ih, tally_cons, hf]
        simp
      · rw [List.filter_cons_of_pos (by simp [hf]), tally_cons, tally_cons, ih]
  rw [splitComma, hempty, length_splitOnP, List.countP_filter, ink]
  refine List.countP_congr fun c _ => ?_
  simp [isInk]

/-- **An encoded text has its quotes besides.** -/
theorem ink_jsonString (s : Str) : ink s + 2 ≤ ink (jsonString s) := by
  have hescape : ∀ c, ink [c] ≤ ink (escape c) := by
    intro c
    have hone : ink [c] ≤ 1 := List.countP_le_length
    have hback : ∀ s : Str, 1 ≤ ink (jsonBackslash :: s) := by
      intro s
      rw [ink_cons]
      exact Nat.le_add_right _ _
    unfold escape
    split_ifs
    all_goals first | exact hone.trans (hback _) | exact le_rfl
  have hbody : ink s ≤ ink (s.flatMap escape) := by
    induction s with
    | nil => exact le_rfl
    | cons c s ih =>
      rw [ink_cons, List.flatMap_cons, ink_append]
      exact Nat.add_le_add (hescape c) ih
  have hquote : ink [jsonQuote] = 1 := rfl
  rw [jsonString, ink_append, ink_cons, hquote]
  omega

theorem ink_join (fields : List Str) : ink (join fields) = tally ink fields := by
  induction fields with
  | nil => rfl
  | cons f fields ih =>
    by_cases hne : fields = []
    · subst hne
      simp [join]
    · rw [join, List.intercalate_cons_of_ne_nil hne, ink_append, ink_append, tally_cons, ← ih]
      change ink f + ink [','] + ink (join fields) = _
      have hcomma : ink [','] = 0 := rfl
      omega

/-- **A table is written with its brackets.** -/
theorem ink_jsonArray (entries : List Str) : tally ink entries + 2 ≤ ink (jsonArray entries) := by
  unfold jsonArray
  split
  · rename_i h
    subst h
    exact le_rfl
  · have hopen : ink ['['] = 1 := rfl
    have hclose : ink [']'] = 1 := rfl
    rw [ink_append, ink_cons, ink_join, hopen, hclose]
    omega

end Lua

end Athena
