import Mathlib.Data.List.Basic
import Mathlib.Data.List.TakeWhile
import Mathlib.Tactic.Common
/-!
# Patterns

`string.match` and `string.gsub` of `lstrlib.c`, for patterns that are a
sequence of classes, each taken once, any number of times or at least
once. A repetition takes as much as it can and gives back what the rest
of the pattern needs, so what a pattern finds is not its first reading
in general. It is where a repetition ends at a character that it cannot
take itself (`matchHere_until`).
-/

namespace Athena

namespace Lua

namespace Pattern

/-- How often a class is taken: `c`, `c*` or `c+`. -/
inductive Rep
  | one
  | star
  | plus

/-- A class of a pattern, with its repetition and whether it is captured. -/
structure Item (α : Type*) where
  cls : α → Bool
  rep : Rep
  capture : Bool

end Pattern

/-- **A pattern.** -/
abbrev Pattern (α : Type*) := List (Pattern.Item α)

namespace Pattern

/-- What a match gives: the captures, and the text after it. -/
abbrev Found (α : Type*) := List (List α) × List α

variable {α β : Type*}

/-- The piece an item took, before what the rest of the pattern found. -/
def Item.keep (i : Item α) (piece : List α) (r : Found α) : Found α :=
  if i.capture then (piece :: r.1, r.2) else r

/-- `max_expand`: the most repetitions first, down to `lo` of them. -/
def expand (f : ℕ → Option β) (lo : ℕ) : ℕ → Option β
  | 0 => if lo = 0 then f 0 else none
  | n + 1 =>
    if n + 1 < lo then none
    else
      match f (n + 1) with
      | some r => some r
      | none => expand f lo n

/-- An item of a pattern, before the rest of it. -/
def Item.run (i : Item α) (rest : List α → Option (Found α)) (s : List α) : Option (Found α) :=
  let after := fun n => (rest (s.drop n)).map (i.keep (s.take n))
  match i.rep with
  | .one =>
    match s with
    | c :: _ => if i.cls c then after 1 else none
    | [] => none
  | .star => expand after 0 (s.takeWhile i.cls).length
  | .plus => expand after 1 (s.takeWhile i.cls).length

/-- `match` of `lstrlib.c`, at the head of a text. -/
def matchHere : Pattern α → List α → Option (Found α)
  | [], s => some ([], s)
  | i :: p, s => i.run (matchHere p) s

/-- **`string.match`**: the captures at the first place that matches. -/
def find (p : Pattern α) : List α → Option (List (List α))
  | [] => (matchHere p []).map Prod.fst
  | c :: s =>
    match matchHere p (c :: s) with
    | some r => some r.1
    | none => find p s

/-- What `string.gsub` passes through: a match, or a character outside of
the matches. -/
inductive Part (α : Type*)
  | found (s : List α)
  | passed (c : α)

/-- The loop of `str_gsub`, for a number of turns. `last` is how much text
was left at `lastmatch`. -/
def gsubLoop (p : Pattern α) : ℕ → Option ℕ → List α → List (Part α)
  | 0, _, _ => []
  | n + 1, last, s =>
    let skip := fun _ : Unit =>
      match s with
      | c :: t => .passed c :: gsubLoop p n last t
      | [] => []
    match matchHere p s with
    | some (_, rest) =>
      if last = some rest.length then skip ()
      else .found (s.take (s.length - rest.length)) :: gsubLoop p n (some rest.length) rest
    | none => skip ()

/-- **`string.gsub`**, as the sequence of what it goes through. Each turn
leaves a match or a character behind. -/
def gsub (p : Pattern α) (s : List α) : List (Part α) := gsubLoop p (2 * s.length + 1) none s

/-- The matches, as `string.gsub(s, p, f)` hands them to `f`. -/
def gmatch (p : Pattern α) (s : List α) : List (List α) :=
  (gsub p s).filterMap fun
    | .found t => some t
    | .passed _ => none

/-- `string.gsub(s, p, "")`. -/
def strip (p : Pattern α) (s : List α) : List α :=
  (gsub p s).filterMap fun
    | .found _ => none
    | .passed c => some c

/-! ## Repetitions -/

/-- Where only the most repetitions can succeed. -/
theorem expand_last {f : ℕ → Option β} {lo n : ℕ} (hlo : lo ≤ n) (h : ∀ k < n, f k = none) :
    expand f lo n = f n := by
  have hnone : ∀ k < n, expand f lo k = none := by
    intro k hk
    induction k with
    | zero =>
      rw [expand, h 0 hk]
      split <;> rfl
    | succ k ih =>
      rw [expand, h (k + 1) hk]
      split
      · rfl
      · exact ih (by omega)
  cases n with
  | zero => rw [expand, if_pos (by omega)]
  | succ n =>
    rw [expand, if_neg (by omega)]
    cases hf : f (n + 1) with
    | none => exact hnone n (Nat.lt_succ_self n)
    | some r => rfl

/-- Where the most repetitions succeed. -/
theorem expand_of_some {f : ℕ → Option β} {lo n : ℕ} {r : β} (hlo : lo ≤ n) (h : f n = some r) :
    expand f lo n = some r := by
  cases n with
  | zero => rw [expand, if_pos (by omega), h]
  | succ n => rw [expand, if_neg (by omega), h]

/-- Fewer repetitions than asked for. -/
theorem expand_of_lt {f : ℕ → Option β} {lo n : ℕ} (h : n < lo) : expand f lo n = none := by
  cases n with
  | zero => rw [expand, if_neg (by omega)]
  | succ n => rw [expand, if_pos h]

theorem drop_takeWhile (p : α → Bool) (s : List α) : s.drop (s.takeWhile p).length = s.dropWhile p := by
  induction s with
  | nil => rfl
  | cons c s ih =>
    rw [List.takeWhile_cons, List.dropWhile_cons]
    split
    · exact ih
    · rfl

theorem take_takeWhile (p : α → Bool) (s : List α) : s.take (s.takeWhile p).length = s.takeWhile p := by
  induction s with
  | nil => rfl
  | cons c s ih =>
    rw [List.takeWhile_cons]
    split
    · rw [List.length_cons, List.take_succ_cons, ih]
    · rfl

/-- **A repetition up to a mark** that it cannot take itself: it takes all
there is before the mark. -/
theorem matchHere_until {cls mark : α → Bool} {cap : Bool} {p : Pattern α}
    (h : ∀ c, mark c = true → cls c = false) (s : List α) :
    matchHere (⟨cls, .star, cap⟩ :: ⟨mark, .one, false⟩ :: p) s =
      match s.dropWhile cls with
      | c :: t =>
        if mark c then (matchHere p t).map (Item.keep ⟨cls, .star, cap⟩ (s.takeWhile cls)) else none
      | [] => none := by
  -- fewer repetitions stop before a character of the class, which is no mark
  have hnone : ∀ k < (s.takeWhile cls).length,
      ((matchHere (⟨mark, .one, false⟩ :: p) (s.drop k)).map
        (Item.keep ⟨cls, .star, cap⟩ (s.take k))) = none := by
    intro k hk
    have hlen : k < s.length := Nat.lt_of_lt_of_le hk (List.takeWhile_prefix cls).length_le
    have hget : s[k] = (s.takeWhile cls)[k] := (List.takeWhile_prefix cls).getElem hk |>.symm
    have hcls : cls s[k] = true := by
      rw [hget]
      exact List.mem_takeWhile_imp (List.getElem_mem hk)
    have hmark : mark s[k] ≠ true := fun hm => by
      rw [h _ hm] at hcls
      cases hcls
    rw [List.drop_eq_getElem_cons hlen]
    simp only [matchHere, Item.run, if_neg hmark, Option.map_none]
  rw [matchHere]
  refine (expand_last (Nat.zero_le _) hnone).trans ?_
  rw [drop_takeWhile, take_takeWhile]
  cases s.dropWhile cls with
  | nil => rfl
  | cons c t =>
    simp only [matchHere, Item.run]
    split
    · rw [Option.map_map]
      rfl
    · rfl

/-- A repetition at the end takes all it can. -/
theorem matchHere_star (cls : α → Bool) (cap : Bool) (s : List α) :
    matchHere [⟨cls, .star, cap⟩] s =
      some (if cap then [s.takeWhile cls] else [], s.dropWhile cls) := by
  rw [matchHere]
  refine expand_of_some (Nat.zero_le _) ?_
  simp only [matchHere, Option.map_some, drop_takeWhile, take_takeWhile]
  cases cap <;> rfl

theorem matchHere_plus (cls : α → Bool) (s : List α) :
    matchHere [⟨cls, .plus, false⟩] s =
      if s.takeWhile cls = [] then none else some ([], s.dropWhile cls) := by
  rw [matchHere]
  by_cases hs : s.takeWhile cls = []
  · rw [if_pos hs]
    exact expand_of_lt (by simp [hs])
  · rw [if_neg hs]
    refine expand_of_some (List.length_pos_of_ne_nil hs) ?_
    simp only [matchHere, Option.map_some, drop_takeWhile]
    rfl

/-! ## Searching -/

/-- **A pattern that fails at the head only where it fails everywhere**
is as good as an anchored one. -/
theorem find_eq_matchHere {p : Pattern α}
    (h : ∀ c s, matchHere p (c :: s) = none → matchHere p s = none) (s : List α) :
    find p s = (matchHere p s).map Prod.fst := by
  induction s with
  | nil => rfl
  | cons c s ih =>
    rw [find]
    cases hm : matchHere p (c :: s) with
    | some r => rfl
    | none =>
      dsimp only
      rw [ih, h c s hm]

/-- `string.match(s, "c+")` succeeds where a character is of the class. -/
theorem find_plus_isSome (cls : α → Bool) (s : List α) :
    (find [⟨cls, .plus, false⟩] s).isSome = s.any cls := by
  induction s with
  | nil => rfl
  | cons c s ih =>
    rw [find, matchHere_plus, List.any_cons, List.takeWhile_cons]
    cases hc : cls c with
    | true => rfl
    | false => exact ih

/-! ## Runs of a class -/

variable {cls : α → Bool} {n : ℕ} {last : Option ℕ}

/-- One turn of `gsub`: a run of the class, or a character outside. -/
theorem gsubLoop_plus (c : α) (s : List α) (hlast : ∀ k, last = some k → s.length < k) :
    gsubLoop [⟨cls, .plus, false⟩] (n + 1) last (c :: s) =
      if cls c then
        .found (c :: s.takeWhile cls) ::
          gsubLoop [⟨cls, .plus, false⟩] n (some (s.dropWhile cls).length) (s.dropWhile cls)
      else .passed c :: gsubLoop [⟨cls, .plus, false⟩] n last s := by
  rw [gsubLoop, matchHere_plus, List.takeWhile_cons, List.dropWhile_cons]
  cases hc : cls c with
  | false => rfl
  | true =>
    have hlen := congrArg List.length (List.takeWhile_append_dropWhile (p := cls) (l := s))
    rw [List.length_append] at hlen
    have hne : last ≠ some (s.dropWhile cls).length := fun h => by
      have := hlast _ h
      omega
    have htake : (c :: s).length - (s.dropWhile cls).length = (s.takeWhile cls).length + 1 := by
      rw [List.length_cons]
      omega
    simp only [if_true, if_neg (List.cons_ne_nil _ _), if_neg hne, htake, List.take_succ_cons,
      take_takeWhile]

/-- **What a loop over the runs of a class adds up**, by the runs and by
the characters between them. -/
theorem gsubLoop_runs {P : List α → List (Part α) → Prop} (hnil : P [] [])
    (hrun : ∀ w s l, w ≠ [] → (∀ c ∈ w, cls c = true) → (∀ c t, s = c :: t → cls c = false) →
      P s l → P (w ++ s) (.found w :: l))
    (hpass : ∀ c s l, cls c = false → P s l → P (c :: s) (.passed c :: l)) {s : List α}
    (hn : s.length ≤ n) (hlast : ∀ k, last = some k → s.length ≤ k) :
    P s (gsubLoop [⟨cls, .plus, false⟩] n last s) := by
  induction n generalizing s last with
  | zero =>
    obtain rfl := List.eq_nil_of_length_eq_zero (Nat.le_zero.mp hn)
    exact hnil
  | succ n ih =>
    cases s with
    | nil => exact hnil
    | cons c s =>
      rw [List.length_cons] at hn
      rw [gsubLoop_plus c s fun k hk => hlast k hk]
      cases hc : cls c with
      | false =>
        refine hpass c s _ hc (ih (by omega) fun k hk => ?_)
        exact (Nat.le_succ _).trans (hlast k hk)
      | true =>
        have hsplit := List.takeWhile_append_dropWhile (p := cls) (l := s)
        have hlen : (s.dropWhile cls).length ≤ n := by
          have := congrArg List.length hsplit
          rw [List.length_append] at this
          omega
        have hwhole : c :: s = (c :: s.takeWhile cls) ++ s.dropWhile cls := by
          rw [List.cons_append, hsplit]
        rw [if_pos rfl, hwhole]
        refine hrun _ _ _ (List.cons_ne_nil _ _) ?_ ?_ (ih hlen fun k hk => ?_)
        · intro d hd
          rcases List.mem_cons.mp hd with rfl | hd
          · exact hc
          · exact List.mem_takeWhile_imp hd
        · intro d t hd
          have := List.head?_dropWhile_not cls s
          rw [hd] at this
          simpa using this
        · exact (Option.some.inj hk).le

/-- **`string.gsub(s, "c+", "")`** leaves out the characters of the class. -/
theorem strip_plus (s : List α) : strip [⟨cls, .plus, false⟩] s = s.filter fun c => !cls c := by
  refine gsubLoop_runs (P := fun s l => List.filterMap _ l = s.filter fun c => !cls c) rfl ?_ ?_
    (by omega) (by simp)
  · intro w s l _ hw _ ih
    have hnone : w.filter (fun c => !cls c) = [] :=
      List.filter_eq_nil_iff.mpr fun c hc => by simp [hw c hc]
    rw [List.filter_append, hnone]
    exact ih
  · intro c s l hc ih
    rw [List.filter_cons_of_pos (by simp [hc])]
    exact congrArg _ ih

/-- **The runs of a class** are what stands between the other characters,
where anything does. -/
theorem gmatch_plus (s : List α) : gmatch [⟨cls, .plus, false⟩] s =
    (s.splitOnP fun c => !cls c).filter fun w => !w.isEmpty := by
  refine gsubLoop_runs
    (P := fun s l => List.filterMap _ l = (s.splitOnP fun c => !cls c).filter fun w => !w.isEmpty)
    rfl ?_ ?_ (by omega) (by simp)
  · intro w s l hne hw hs ih
    have hmark : ∀ c ∈ w, (!cls c) = false := fun c hc => by simp [hw c hc]
    have hkeep : ∀ l, (w :: l).filter (fun w => !w.isEmpty) = w :: l.filter fun w => !w.isEmpty :=
      fun l => by simp [hne]
    cases s with
    | nil =>
      rw [List.append_nil, List.splitOnP_eq_singleton hmark, hkeep]
      exact congrArg _ ih
    | cons c s =>
      have hc : (!cls c) = true := by simp [hs c s rfl]
      rw [List.splitOnP_append_cons_of_forall_mem hmark c hc, hkeep]
      refine congrArg _ (ih.trans ?_)
      rw [List.splitOnP_cons_eq_if_modifyHead, if_pos hc]
      rfl
  · intro c s l hc ih
    rw [List.splitOnP_cons_eq_if_modifyHead, if_pos (by simp [hc])]
    exact ih

end Pattern

end Lua

end Athena
