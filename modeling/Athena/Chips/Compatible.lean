import Athena.Chips.Model
/-!
# Chips — which chip goes into which equipment

A chip has a list of parts with a count for each, and a list of equipments that
holds one segment after another: of the count of each part. `add` and
`getequipchip` each walk both lists by themselves. `add` lets in no chip whose
part has a count, and `getequipchip` adds the part's own count before it looks,
so that it reads one segment too far.
-/

namespace Athena

namespace Chips

/-- **What the walks read besides**: the column `Load_Limit` of the table `mod`,
and the column `cfgid` of the equipments. -/
structure Limits where
  Load_Limit : ℤ → List ℤ
  cfgid : ℤ → ℤ → ℤ

/-- An entry of a Lua list, whose places are counted from one. -/
def place (limit : List ℤ) (k : ℤ) : Option ℤ := if 1 ≤ k then limit[(k - 1).toNat]? else none

/-! ## The check of add -/

/-- `find_part`. -/
def find_part (load : List (ℤ × ℤ)) (part : ℤ) : Bool := load.any fun x => x.1 = part

/-- The places `num, …, num + count - 1` that hold an equipment. -/
def placesof (limit : List ℤ) (num count cfgid : ℤ) : List ℕ :=
  (List.range count.toNat).filter fun j => place limit (num + j) = some cfgid

/-- **The loop of `add` over the parts**, with what it has counted before. -/
def loadcheck (limit : List ℤ) (part cfgid num : ℤ) : List (ℤ × ℤ) → Bool
  | [] => true
  | (p, count) :: load =>
    let num := num + count
    if p = part then
      if count = 0 then true
      -- the `break` at an equipment that is found leaves the inner loop only
      else if placesof limit num count cfgid = [] then false else false
    else loadcheck limit part cfgid num load

/-- **The check of `add`.** -/
def accepts (m : Mod) (limit : List ℤ) (part cfgid : ℤ) : Bool :=
  find_part m.Load_Pisiton part && loadcheck limit part cfgid 0 m.Load_Pisiton

/-! ## getequipchip -/

/-- How often `getequipchip` puts a chip into its answer. -/
def times (limit : List ℤ) (part cfgid num : ℤ) : List (ℤ × ℤ) → ℕ
  | [] => 0
  | (p, count) :: load =>
    let num := num + count
    (if p = part then if count = 0 then 1 else (placesof limit num count cfgid).length else 0) +
      times limit part cfgid num load

/-- **A loop of `getequipchip`** over a list of chips; it raises an error at a chip
that is not in the table. -/
def fitting (cfg : Config) (lim : Limits) (part cfgid : ℤ) (isnew : Bool) :
    List Chip → Option (List (Chip × Bool))
  | [] => some []
  | c :: arr => do
    let m ← cfg.mod c.id
    let rest ← fitting cfg lim part cfgid isnew arr
    return List.replicate (times (lim.Load_Limit c.id) part cfgid 0 m.Load_Pisiton) (c, isnew) ++ rest

/-- The chips in the slots, each with its level and its record. -/
def inslots (e : Equip) (record : ℤ) : List (ℤ × ℤ × ℤ) :=
  (List.finRange 5).filterMap fun i => (e.slots i).chip.map fun x => (x.1, x.2, record)

/-- What `getequipchip` answers. -/
structure Fitting where
  code : Code
  chiparray : List (Chip × Bool)
  inchipinfo : List (ℤ × ℤ × ℤ)

/-- **`chiphandler:getequipchip`.** -/
def getequipchip (cfg : Config) (lim : Limits) (s : State) (uniqueidpart : Option ℤ) : Option Fitting :=
  match uniqueidpart with
  | none => some ⟨.err_param, [], []⟩
  | some uniqueidpart =>
    let part := uniqueidpart % 10
    let uniqueid := uniqueidpart / 10
    if part ≤ 0 || uniqueid ≤ 0 then some ⟨.err_param, [], []⟩
    else if !is_match cfg part uniqueid then some ⟨.err_param, [], []⟩
    else
      match s.equip part uniqueid with
      | none => some ⟨.err_param, [], []⟩
      | some e => do
        let new ← fitting cfg lim part (lim.cfgid part uniqueid) true s.newchipinfo
        let seen ← fitting cfg lim part (lim.cfgid part uniqueid) false s.chipinfoarr
        return ⟨.success, new ++ seen, inslots e uniqueidpart⟩

/-! ## What the lists say -/

/-- **The segment of a part** in the list of equipments: it comes after those of
the parts before it. -/
def Segment (load : List (ℤ × ℤ)) (part start count : ℤ) : Prop :=
  ∃ before after, load = before ++ (part, count) :: after ∧ start = (before.map Prod.snd).sum

/-- **A chip is for an equipment**: its part has no limit, or is one of its own
segment. -/
def Compatible (load : List (ℤ × ℤ)) (limit : List ℤ) (part cfgid : ℤ) : Prop :=
  ∃ start count, Segment load part start count ∧
    (count = 0 ∨ ∃ k, start < k ∧ k ≤ start + count ∧ place limit k = some cfgid)

/-- What `getequipchip` reads for a segment: the place where it ends, and those
that follow. -/
def Shifted (load : List (ℤ × ℤ)) (limit : List ℤ) (part cfgid : ℤ) : Prop :=
  ∃ start count, Segment load part start count ∧
    (count = 0 ∨
      ∃ k, start + count ≤ k ∧ k < start + 2 * count ∧ place limit k = some cfgid)

variable {cfg : Config} {lim : Limits} {s : State} {m : Mod} {load : List (ℤ × ℤ)} {limit : List ℤ}
  {part cfgid num count start p : ℤ} {isnew : Bool}

theorem not_segment_nil : ¬ Segment [] part start count := by
  rintro ⟨before, after, h, -⟩
  simp at h

/-- **The segments of a longer list.** -/
theorem segment_cons : Segment ((p, num) :: load) part start count ↔
    (p = part ∧ num = count ∧ start = 0) ∨ Segment load part (start - num) count := by
  constructor
  · rintro ⟨before, after, h, rfl⟩
    cases before with
    | nil =>
      simp only [List.nil_append, List.cons.injEq, Prod.mk.injEq] at h
      exact Or.inl ⟨h.1.1, h.1.2, rfl⟩
    | cons x before =>
      simp only [List.cons_append, List.cons.injEq] at h
      obtain ⟨rfl, rfl⟩ := h
      refine Or.inr ⟨before, after, rfl, ?_⟩
      simp only [List.map_cons, List.sum_cons]
      omega
  · rintro (⟨rfl, rfl, rfl⟩ | ⟨before, after, rfl, h⟩)
    · exact ⟨[], load, rfl, rfl⟩
    · refine ⟨(p, num) :: before, after, rfl, ?_⟩
      simp only [List.map_cons, List.sum_cons]
      omega

theorem segment_find? (h : load.find? (fun x => x.1 = part) = some (p, count)) :
    ∃ start, Segment load part start count := by
  obtain ⟨hp, before, after, rfl, -⟩ := List.find?_eq_some_iff_append.1 h
  have : p = part := by simpa using hp
  subst this
  exact ⟨_, before, after, rfl, rfl⟩

/-! ## What add lets in -/

/-- **The loop of `add` reads the first pair of the part** and nothing else. -/
theorem loadcheck_eq (load : List (ℤ × ℤ)) :
    loadcheck limit part cfgid num load =
      match load.find? fun x => x.1 = part with
      | some x => decide (x.2 = 0)
      | none => true := by
  induction load generalizing num with
  | nil => rfl
  | cons x load ih =>
    obtain ⟨p, count⟩ := x
    unfold loadcheck
    by_cases hp : p = part
    · simp [hp]
    · simp only [hp, if_false, List.find?_cons, decide_false]
      exact ih

/-- The check is the one that `add` is modelled with. -/
theorem accepts_eq_loadable : accepts m limit part cfgid = loadable m part := by
  unfold accepts loadable find_part
  rw [loadcheck_eq]
  cases h : m.Load_Pisiton.find? fun x => x.1 = part with
  | none =>
    have : m.Load_Pisiton.any (fun x => decide (x.1 = part)) = false := by
      rw [List.any_eq_false]
      exact List.find?_eq_none.1 h
    rw [this, Bool.false_and]
  | some x =>
    have : m.Load_Pisiton.any (fun x => decide (x.1 = part)) = true := by
      rw [List.any_eq_true]
      exact ⟨x, List.mem_of_find?_eq_some h, by simpa using List.find?_some h⟩
    rw [this, Bool.true_and]

theorem accepts_iff : accepts m limit part cfgid = true ↔
    (m.Load_Pisiton.find? fun x => x.1 = part).map Prod.snd = some 0 := by
  rw [accepts_eq_loadable]
  unfold loadable
  cases m.Load_Pisiton.find? fun x => x.1 = part <;> simp

/-! ## What getequipchip lists -/

theorem placesof_pos : 0 < (placesof limit num count cfgid).length ↔
    ∃ k, num ≤ k ∧ k < num + count ∧ place limit k = some cfgid := by
  rw [List.length_pos_iff_exists_mem]
  simp only [placesof, List.mem_filter, List.mem_range, decide_eq_true_eq]
  constructor
  · rintro ⟨j, hj, h⟩
    exact ⟨num + j, by omega, by omega, h⟩
  · rintro ⟨k, h1, h2, h⟩
    have hk : num + ((k - num).toNat : ℤ) = k := by omega
    exact ⟨(k - num).toNat, by omega, by rwa [hk]⟩

/-- **One chip is listed where a place that is read holds the equipment.** -/
theorem times_pos (load : List (ℤ × ℤ)) : 0 < times limit part cfgid num load ↔
    ∃ start count, Segment load part start count ∧
      (count = 0 ∨ ∃ k, num + start + count ≤ k ∧ k < num + start + 2 * count ∧
        place limit k = some cfgid) := by
  induction load generalizing num with
  | nil => simp [times, not_segment_nil]
  | cons x load ih =>
    obtain ⟨p, count⟩ := x
    unfold times
    rw [Nat.add_pos_iff_pos_or_pos, ih]
    constructor
    · rintro (h | ⟨start, count', hseg, h⟩)
      · -- the pair at the head is the one of the part
        split at h
        · rename_i hp
          refine ⟨0, count, segment_cons.2 (Or.inl ⟨hp, rfl, rfl⟩), ?_⟩
          split at h
          · exact Or.inl ‹_›
          · obtain ⟨k, h1, h2, h3⟩ := placesof_pos.1 h
            exact Or.inr ⟨k, by omega, by omega, h3⟩
        · omega
      · refine ⟨count + start, count', segment_cons.2 (Or.inr ?_), h.imp_right ?_⟩
        · rwa [add_sub_cancel_left]
        · rintro ⟨k, h1, h2, h3⟩
          exact ⟨k, by omega, by omega, h3⟩
    · rintro ⟨start, count', hseg, h⟩
      rcases segment_cons.1 hseg with ⟨rfl, rfl, rfl⟩ | hseg
      · refine Or.inl ?_
        rw [if_pos rfl]
        split
        · exact Nat.one_pos
        · rename_i hcount
          obtain ⟨k, h1, h2, h3⟩ := h.resolve_left hcount
          exact placesof_pos.2 ⟨k, by omega, by omega, h3⟩
      · refine Or.inr ⟨_, count', hseg, h.imp_right ?_⟩
        rintro ⟨k, h1, h2, h3⟩
        exact ⟨k, by omega, by omega, h3⟩

theorem times_pos_iff : 0 < times limit part cfgid 0 load ↔ Shifted load limit part cfgid := by
  rw [times_pos]
  simp only [Int.zero_add, Shifted]

/-- **A loop lists the chips of its list that are read as fitting.** -/
theorem mem_fitting {arr : List Chip} {out : List (Chip × Bool)} {x : Chip × Bool}
    (h : fitting cfg lim part cfgid isnew arr = some out) :
    x ∈ out ↔ x.1 ∈ arr ∧ x.2 = isnew ∧
      ∃ m, cfg.mod x.1.id = some m ∧ Shifted m.Load_Pisiton (lim.Load_Limit x.1.id) part cfgid := by
  induction arr generalizing out with
  | nil =>
    cases h
    simp
  | cons c arr ih =>
    simp only [fitting, Option.pure_def, Option.bind_eq_bind, Option.bind_eq_some_iff,
      Option.some.injEq] at h
    obtain ⟨m, hm, rest, hrest, rfl⟩ := h
    rw [List.mem_append, List.mem_replicate, ih hrest, List.mem_cons, ← Nat.pos_iff_ne_zero,
      times_pos_iff]
    constructor
    · rintro (⟨ht, rfl⟩ | ⟨hx, h⟩)
      · exact ⟨Or.inl rfl, rfl, m, hm, ht⟩
      · exact ⟨Or.inr hx, h⟩
    · rintro ⟨hx | hx, hnew, m', hm', h⟩
      · obtain ⟨c', new⟩ := x
        cases hx
        cases hnew
        rw [hm] at hm'
        cases hm'
        exact Or.inl ⟨h, rfl⟩
      · exact Or.inr ⟨hx, hnew, m', hm', h⟩

/-- **What a `getequipchip` that succeeds lists.** -/
theorem getequipchip_lists {uniqueidpart id : ℤ} {a : Fitting}
    (h : getequipchip cfg lim s (some uniqueidpart) = some a) (hcode : a.code = .success)
    (hm : cfg.mod id = some m) (hown : ∃ c ∈ s.newchipinfo ++ s.chipinfoarr, c.id = id) :
    (∃ x ∈ a.chiparray, x.1.id = id) ↔
      Shifted m.Load_Pisiton (lim.Load_Limit id) (uniqueidpart % 10)
        (lim.cfgid (uniqueidpart % 10) (uniqueidpart / 10)) := by
  unfold getequipchip at h
  simp only at h
  split at h
  · cases h
    cases hcode
  · split at h
    · cases h
      cases hcode
    · split at h
      · cases h
        cases hcode
      · simp only [Option.pure_def, Option.bind_eq_bind, Option.bind_eq_some_iff,
          Option.some.injEq] at h
        obtain ⟨new, hnew, seen, hseen, rfl⟩ := h
        simp only [List.mem_append, mem_fitting hnew, mem_fitting hseen]
        constructor
        · rintro ⟨x, ⟨-, -, m', hm', h⟩ | ⟨-, -, m', hm', h⟩, rfl⟩ <;>
            · rw [hm] at hm'
              cases hm'
              exact h
        · intro h
          obtain ⟨c, hc, rfl⟩ := hown
          rcases List.mem_append.1 hc with hc | hc
          · exact ⟨(c, true), Or.inl ⟨hc, rfl, m, hm, h⟩, rfl⟩
          · exact ⟨(c, false), Or.inr ⟨hc, rfl, m, hm, h⟩, rfl⟩

/-! ## Where they agree -/

/-- No pair of the part is without a limit, and the equipment is neither in a
segment of the part nor in what is read after it. -/
def Apart (load : List (ℤ × ℤ)) (limit : List ℤ) (part cfgid : ℤ) : Prop :=
  ∀ start count, Segment load part start count →
    count ≠ 0 ∧ ∀ k, start < k → k < start + 2 * count → place limit k ≠ some cfgid

/-- **The segment and what is read for it**: together one run of places. -/
theorem apart_iff : Apart load limit part cfgid ↔
    ¬ Compatible load limit part cfgid ∧ ¬ Shifted load limit part cfgid := by
  constructor
  · intro h
    constructor
    · rintro ⟨start, count, hseg, rfl | ⟨k, h1, h2, h3⟩⟩
      · exact (h _ _ hseg).1 rfl
      · exact (h _ _ hseg).2 k h1 (by omega) h3
    · rintro ⟨start, count, hseg, rfl | ⟨k, h1, h2, h3⟩⟩
      · exact (h _ _ hseg).1 rfl
      · exact (h _ _ hseg).2 k (by omega) h2 h3
  · rintro ⟨hown, hread⟩ start count hseg
    refine ⟨fun h0 => hown ⟨start, count, hseg, Or.inl h0⟩, fun k h1 h2 h3 => ?_⟩
    by_cases hk : k ≤ start + count
    · exact hown ⟨start, count, hseg, Or.inr ⟨k, h1, hk, h3⟩⟩
    · exact hread ⟨start, count, hseg, Or.inr ⟨k, by omega, h2, h3⟩⟩

/-- **`add`, `getequipchip` and the lists agree** on a chip and an equipment just
where the part's first pair has no limit, or the equipment is far from every one
of its segments. -/
theorem compatible_agree_iff {uniqueidpart id : ℤ} {a : Fitting}
    (h : getequipchip cfg lim s (some uniqueidpart) = some a) (hcode : a.code = .success)
    (hm : cfg.mod id = some m) (hown : ∃ c ∈ s.newchipinfo ++ s.chipinfoarr, c.id = id)
    (hpart : part = uniqueidpart % 10) (hcfgid : cfgid = lim.cfgid part (uniqueidpart / 10)) :
    ((accepts m (lim.Load_Limit id) part cfgid = true ↔ ∃ x ∈ a.chiparray, x.1.id = id) ∧
      (accepts m (lim.Load_Limit id) part cfgid = true ↔
        Compatible m.Load_Pisiton (lim.Load_Limit id) part cfgid) ∧
      ((∃ x ∈ a.chiparray, x.1.id = id) ↔
        Compatible m.Load_Pisiton (lim.Load_Limit id) part cfgid)) ↔
      ((m.Load_Pisiton.find? fun x => x.1 = part).map Prod.snd = some 0 ∨
        Apart m.Load_Pisiton (lim.Load_Limit id) part cfgid) := by
  subst hpart hcfgid
  rw [getequipchip_lists h hcode hm hown, accepts_iff, apart_iff]
  constructor
  · rintro ⟨h1, h2, -⟩
    by_cases hfirst : (m.Load_Pisiton.find? fun x => x.1 = uniqueidpart % 10).map Prod.snd = some 0
    · exact Or.inl hfirst
    · exact Or.inr ⟨fun hc => hfirst (h2.2 hc), fun hs => hfirst (h1.2 hs)⟩
  · rintro (hfirst | ⟨hown, hread⟩)
    · obtain ⟨⟨p, count⟩, hx, hcount⟩ := Option.map_eq_some_iff.1 hfirst
      obtain ⟨start, hseg⟩ := segment_find? hx
      have hc : Compatible m.Load_Pisiton (lim.Load_Limit id) (uniqueidpart % 10)
          (lim.cfgid (uniqueidpart % 10) (uniqueidpart / 10)) := ⟨start, count, hseg, Or.inl hcount⟩
      have hs : Shifted m.Load_Pisiton (lim.Load_Limit id) (uniqueidpart % 10)
          (lim.cfgid (uniqueidpart % 10) (uniqueidpart / 10)) := ⟨start, count, hseg, Or.inl hcount⟩
      exact ⟨iff_of_true hfirst hs, iff_of_true hfirst hc, iff_of_true hs hc⟩
    · have hfirst : ¬ (m.Load_Pisiton.find? fun x => x.1 = uniqueidpart % 10).map Prod.snd = some 0 := by
        intro hfirst
        obtain ⟨⟨p, count⟩, hx, hcount⟩ := Option.map_eq_some_iff.1 hfirst
        obtain ⟨start, hseg⟩ := segment_find? hx
        exact hown ⟨start, count, hseg, Or.inl hcount⟩
      exact ⟨iff_of_false hfirst hread, iff_of_false hfirst hown, iff_of_false hread hown⟩

/-! ## A chip for one body -/

/-- A chip that is for the body 5 alone. -/
def bodychip : Mod := ⟨2, 2, 10001, [(2, 1)], [], fun _ => none⟩

def bodycfg : Config := ⟨fun _ => some bodychip, 100, fun _ => none, fun _ => [1]⟩

def bodylim : Limits := ⟨fun _ => [5], fun _ _ => 5⟩

/-- The player has one such chip, and the body. -/
def bodystate : State where
  newchipinfo := [⟨10001, 0, 0, some 1, none⟩]
  chipinfoarr := []
  inchipinfoarr := []
  equip := fun _ _ => some ⟨fun _ => ⟨none, none, false, none⟩, 100, 0, 0, 0⟩
  machines := []
  chipattribute := fun _ _ => 0
  materials := 0
  props := fun _ => 0

def bodylist : Fitting := ⟨.success, [(⟨10001, 0, 0, some 1, none⟩, true)], []⟩

theorem bodylist_eq : getequipchip bodycfg bodylim bodystate (some 12) = some bodylist := rfl

/-- The theorem at the chip. -/
theorem compatible_agree_body :
    ((accepts bodychip [5] 2 5 = true ↔ ∃ x ∈ bodylist.chiparray, x.1.id = 10001) ∧
      (accepts bodychip [5] 2 5 = true ↔ Compatible [(2, 1)] [5] 2 5) ∧
      ((∃ x ∈ bodylist.chiparray, x.1.id = 10001) ↔ Compatible [(2, 1)] [5] 2 5)) ↔
      (([(2, 1)].find? fun x : ℤ × ℤ => x.1 = 2).map Prod.snd = some 0 ∨ Apart [(2, 1)] [5] 2 5) :=
  compatible_agree_iff bodylist_eq rfl rfl ⟨_, List.mem_singleton_self _, rfl⟩ rfl rfl

/-- **The body is in the chip's list, `getequipchip` lists the chip for it, and `add`
lets it in nowhere.** -/
theorem body_refused : getequipchip bodycfg bodylim bodystate (some 12) = some bodylist ∧
    (∃ x ∈ bodylist.chiparray, x.1.id = 10001) ∧ Compatible [(2, 1)] [5] 2 5 ∧
    accepts bodychip [5] 2 5 = false := by
  refine ⟨bodylist_eq, ⟨_, List.mem_singleton_self _, rfl⟩, ?_, rfl⟩
  exact ⟨0, 1, ⟨[], [], rfl, rfl⟩, Or.inr ⟨1, by omega, by omega, rfl⟩⟩

end Chips

end Athena
