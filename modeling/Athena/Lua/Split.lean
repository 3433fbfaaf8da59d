import Athena.Lua.Pattern
import Athena.Lua.Value
/-!
# `string.join` and `string.split`

A list of fields survives its text: what `join` writes, `splitComma`
reads, as long as no field is empty and none holds a comma or a white
space (`Field`). The text of a number is such a field.
-/

namespace Athena

namespace Lua

/-- `string.join(arr, ",")`, of fields that are texts by now. -/
def join (fields : List Str) : Str := [','].intercalate fields

/-- A text that stands between two commas. -/
def Field (s : Str) : Prop := s ≠ [] ∧ ∀ c ∈ s, c ≠ ',' ∧ isSpace c = false

/-- A text that stands between two marks. -/
def Between (mark : Char) (s : Str) : Prop := s ≠ [] ∧ ∀ c ∈ s, c ≠ mark ∧ isSpace c = false

/-- What stands between the marks of a text, without its white space. -/
def fieldsOf (mark : Char) (s : Str) : List Str :=
  ((s.filter fun c => !isSpace c).splitOnP fun c => c = mark).filter fun f => f ≠ []

theorem mem_intercalate {mark : Char} {fields : List Str} {c : Char}
    (h : c ∈ [mark].intercalate fields) : c = mark ∨ ∃ f ∈ fields, c ∈ f := by
  induction fields with
  | nil => cases h
  | cons f fields ih =>
    by_cases hne : fields = []
    · subst hne
      exact Or.inr ⟨f, by simp, by simpa using h⟩
    · rw [List.intercalate_cons_of_ne_nil hne, List.append_assoc] at h
      rcases List.mem_append.mp h with hf | hr
      · exact Or.inr ⟨f, by simp, hf⟩
      · rcases List.mem_append.mp hr with hc | hr
        · exact Or.inl (by simpa using hc)
        · rcases ih hr with hc | ⟨g, hg, hcg⟩
          · exact Or.inl hc
          · exact Or.inr ⟨g, List.mem_cons_of_mem _ hg, hcg⟩

/-- **The round trip of a list of texts**, through any mark that is no
white space. -/
theorem fieldsOf_intercalate {mark : Char} (hmark : isSpace mark = false) {fields : List Str}
    (h : ∀ f ∈ fields, Between mark f) : fieldsOf mark ([mark].intercalate fields) = fields := by
  have hspace : ([mark].intercalate fields).filter (fun c => !isSpace c) =
      [mark].intercalate fields := by
    rw [List.filter_eq_self]
    intro c hc
    rcases mem_intercalate hc with rfl | ⟨f, hf, hcf⟩
    · simp [hmark]
    · simp [((h f hf).2 c hcf).2]
  have hempty : fields.filter (fun f => f ≠ []) = fields := by
    rw [List.filter_eq_self]
    intro f hf
    simpa using (h f hf).1
  rw [fieldsOf, hspace]
  by_cases hne : fields = []
  · subst hne
    rfl
  · have hsplit : ([mark].intercalate fields).splitOnP (fun c => decide (c = mark)) = fields := by
      have hfree : ∀ f ∈ fields, mark ∉ f := fun f hf hc => ((h f hf).2 mark hc).1 rfl
      have := List.splitOn_intercalate mark hfree hne
      simpa [List.splitOn, beq_eq_decide] using this
    rw [hsplit, hempty]

theorem splitComma_join {fields : List Str} (h : ∀ f ∈ fields, Field f) :
    splitComma (join fields) = fields :=
  fieldsOf_intercalate (by decide) h

/-- What stands between two separators is of the text and holds none. -/
theorem mem_splitOnP {p : Char → Bool} {s f : Str} (h : f ∈ s.splitOnP p) :
    ∀ c ∈ f, c ∈ s ∧ p c = false := by
  induction s generalizing f with
  | nil =>
    simp only [List.splitOnP_nil, List.mem_singleton] at h
    subst h
    simp
  | cons d s ih =>
    rw [List.splitOnP_cons_eq_if_modifyHead] at h
    split at h
    · rcases List.mem_cons.mp h with rfl | h
      · simp
      · exact fun c hc => ⟨List.mem_cons_of_mem _ (ih h c hc).1, (ih h c hc).2⟩
    · rename_i hd
      obtain ⟨g, l, hl⟩ := List.exists_cons_of_ne_nil (List.splitOnP_ne_nil p s)
      rw [hl, List.modifyHead_cons] at h
      intro c hc
      rcases List.mem_cons.mp h with rfl | h
      · rcases List.mem_cons.mp hc with rfl | hc
        · exact ⟨List.mem_cons_self, by simpa using hd⟩
        · have hg : g ∈ s.splitOnP p := hl ▸ List.mem_cons_self
          exact ⟨List.mem_cons_of_mem _ (ih hg c hc).1, (ih hg c hc).2⟩
      · have hf : f ∈ s.splitOnP p := hl ▸ List.mem_cons_of_mem _ h
        exact ⟨List.mem_cons_of_mem _ (ih hf c hc).1, (ih hf c hc).2⟩

/-- What is read stands between marks. -/
theorem between_of_mem_fieldsOf {mark : Char} {s f : Str} (h : f ∈ fieldsOf mark s) :
    Between mark f := by
  simp only [fieldsOf, List.mem_filter, decide_eq_true_eq] at h
  refine ⟨h.2, fun c hc => ?_⟩
  obtain ⟨hs, hmark⟩ := mem_splitOnP h.1 c hc
  have hspace := (List.mem_filter.mp hs).2
  exact ⟨by simpa using hmark, by simpa using hspace⟩

/-- What `splitComma` reads are fields. -/
theorem field_of_mem_splitComma {s f : Str} (h : f ∈ splitComma s) : Field f :=
  between_of_mem_fieldsOf h

/-- **Two texts with a comma between them.** -/
theorem splitComma_append (s t : Str) :
    splitComma (s ++ ',' :: t) = splitComma s ++ splitComma t := by
  have hcomma : (s ++ ',' :: t).filter (fun c => !isSpace c) =
      s.filter (fun c => !isSpace c) ++ ',' :: t.filter fun c => !isSpace c := by
    rw [List.filter_append, List.filter_cons_of_pos (by decide)]
  rw [splitComma, hcomma, List.splitOnP_append_cons _ _ (by decide), List.filter_append]
  rfl

theorem splitComma_field {f : Str} (h : Field f) : splitComma f = [f] := by
  have : splitComma (join [f]) = [f] := splitComma_join (by simpa using h)
  simpa [join] using this

/-- Neither comma nor space stands in the text of an integer. -/
theorem field_intText (i : ℤ) : Field (intText i) := by
  have hchar : ∀ c ∈ Nat.toDigits 10 i.natAbs, c ≠ ',' ∧ isSpace c = false := by
    intro c hc
    have hdigit := toDigits_isDigit _ c hc
    refine ⟨?_, isSpace_of_isDigit hdigit⟩
    rintro rfl
    exact absurd hdigit (by decide)
  unfold intText
  split
  · refine ⟨by simp, fun c hc => ?_⟩
    rcases List.mem_cons.mp hc with rfl | hc
    · decide
    · exact hchar c hc
  · exact ⟨Nat.toDigits_ne_nil, hchar⟩

theorem field_tostring (i : Int64) : Field (tostring (.int i)) := field_intText i.toInt

end Lua

/-!
## `string.join` and `string.split` as they are written

`string.split` of `global/luaext.lua` strips the white space with one
pattern and collects the runs between the delimiters with another;
`string.join` begins with the first element as it is, whatever its type,
and makes a text of it at the end. Both are what `fieldsOf` and `join`
say (`stringSplit_eq`, `stringJoin_eq`), so a list of ids comes back.
-/

namespace Lua

/-- **`string.split`.** A delimiter is one character that stands for itself in
`[^…]+` of a pattern, so neither `%` nor `^`. -/
def stringSplit (s : Option Str) (delim : Option Char) : List Str :=
  let delim := delim.getD ','
  match s with
  | none => []
  | some s => Pattern.gmatch [⟨fun c => c ≠ delim, .plus, false⟩] (Pattern.strip [⟨isSpace, .plus, false⟩] s)

/-- The turns of the loop of `string.join` after the first. -/
def joinLoop (str : Str) (res : Value) : List Value → Except Fault Value
  | [] => .ok res
  | v :: arr => do
    let a ← res.text
    let b ← v.text
    joinLoop str (.str (a ++ (str ++ b))) arr

/-- **`string.join`.** -/
def stringJoin (arr : Option (List Value)) (str : Option Str) : Except Fault Str :=
  match arr with
  | none => .ok []
  | some [] => .ok []
  | some (v :: arr) => do
    let res ← joinLoop (str.getD [',']) v arr
    pure res.wire

/-! ## What they compute -/

/-- **`string.split` reads the fields of a text.** -/
theorem stringSplit_eq (s : Str) (delim : Option Char) :
    stringSplit (some s) delim = fieldsOf (delim.getD ',') s := by
  have hnot : (fun c => !decide (c ≠ delim.getD ',')) = fun c => decide (c = delim.getD ',') := by
    funext c
    simp
  have hempty : (fun w : Str => !w.isEmpty) = fun w => decide (w ≠ []) := by
    funext w
    cases w <;> rfl
  rw [stringSplit, fieldsOf]
  rw [Pattern.gmatch_plus, Pattern.strip_plus, hnot, hempty]

theorem stringSplit_comma (s : Str) : stringSplit (some s) none = splitComma s :=
  stringSplit_eq s none

/-- A number or a string, which has a text. -/
def Value.Texts (v : Value) : Prop := v.text = .ok v.wire

theorem texts_num (n : Number) : (Value.num n).Texts := rfl

theorem texts_str (s : Str) : (Value.str s).Texts := rfl

theorem joinLoop_eq {str : Str} {res : Value} {arr : List Value} (hres : res.Texts)
    (h : ∀ v ∈ arr, v.Texts) :
    ∃ v, joinLoop str res arr = .ok v ∧ v.wire = str.intercalate ((res :: arr).map Value.wire) := by
  induction arr generalizing res with
  | nil => exact ⟨res, rfl, by simp⟩
  | cons v arr ih =>
    have hv := h v List.mem_cons_self
    obtain ⟨w, hw, htext⟩ := ih (texts_str (res.wire ++ (str ++ v.wire)))
      fun u hu => h u (List.mem_cons_of_mem _ hu)
    refine ⟨w, ?_, htext.trans ?_⟩
    · rw [joinLoop, hres, hv]
      exact hw
    · -- the text so far stands for the two elements it was made of
      rw [List.map_cons, List.map_cons, List.map_cons, List.intercalate_cons_cons]
      cases arr with
      | nil => simp [Value.wire]
      | cons u arr => simp [Value.wire, List.intercalate_cons_cons, List.append_assoc]

/-- **`string.join` puts the texts of its elements together.** -/
theorem stringJoin_eq {arr : List Value} (h : ∀ v ∈ arr, v.Texts) (str : Option Str) :
    stringJoin (some arr) str = .ok ((str.getD [',']).intercalate (arr.map Value.wire)) := by
  cases arr with
  | nil => simp [stringJoin]
  | cons v arr =>
    obtain ⟨w, hw, htext⟩ := @joinLoop_eq (str.getD [',']) v arr (h v List.mem_cons_self)
      fun u hu => h u (List.mem_cons_of_mem _ hu)
    rw [stringJoin, hw, ← htext]
    rfl

theorem wire_str (l : List Str) : (l.map Value.str).map Value.wire = l := by
  rw [List.map_map]
  exact List.map_id l

/-- Texts are joined as they are. -/
theorem stringJoin_str (l : List Str) : stringJoin (some (l.map Value.str)) none = .ok (join l) := by
  rw [stringJoin_eq (by simp [texts_str]), wire_str]
  rfl

/-- A list whose texts are fields comes back as these texts. -/
theorem stringSplit_stringJoin {l : List Value} (h : ∀ v ∈ l, v.Texts ∧ Field v.wire) :
    ∃ s, stringJoin (some l) none = .ok s ∧ stringSplit (some s) none = l.map Value.wire := by
  refine ⟨_, stringJoin_eq (fun v hv => (h v hv).1) none, ?_⟩
  rw [stringSplit_comma]
  refine splitComma_join fun f hf => ?_
  obtain ⟨v, hv, rfl⟩ := List.mem_map.mp hf
  exact (h v hv).2

/-! ## The codec -/

/-- **The codec of the id lists.** A list of integers and a list of proper
texts come back from their text, a text of such a list comes back from
its list, and no list that is read has an empty item. -/
theorem id_list_codec :
    (∀ ids : List Int64, ∃ s, stringJoin (some (ids.map fun i => .num (.int i))) none = .ok s ∧
      stringSplit (some s) none = ids.map fun i => tostring (.int i)) ∧
    (∀ texts : List Str, (∀ t ∈ texts, Field t) →
      ∃ s, stringJoin (some (texts.map .str)) none = .ok s ∧ stringSplit (some s) none = texts) ∧
    (∀ items : List Str, (∀ t ∈ items, Field t) →
      stringJoin (some ((stringSplit (some (join items)) none).map .str)) none =
        .ok (join items)) ∧
    ∀ (s : Option Str) (delim : Option Char), [] ∉ stringSplit s delim := by
  refine ⟨fun ids => ?_, fun texts h => ?_, fun items h => ?_, fun s delim hmem => ?_⟩
  · obtain ⟨s, hs, hread⟩ := stringSplit_stringJoin (l := ids.map fun i => .num (.int i)) <| by
      intro v hv
      obtain ⟨i, -, rfl⟩ := List.mem_map.mp hv
      exact ⟨texts_num _, field_tostring i⟩
    rw [List.map_map] at hread
    exact ⟨s, hs, hread⟩
  · refine ⟨join texts, stringJoin_str texts, ?_⟩
    rw [stringSplit_comma, splitComma_join h]
  · rw [stringSplit_comma, splitComma_join h, stringJoin_str]
  · cases s with
    | none => cases hmem
    | some s =>
      rw [stringSplit_eq] at hmem
      exact (between_of_mem_fieldsOf hmem).1 rfl

/-- The empty list and a list of one. -/
example : stringJoin (some []) none = .ok [] ∧ stringSplit (some []) none = [] := by decide

end Lua

end Athena
