import Mathlib.Data.List.Induction
import Athena.Buff.Model
/-!
# The buffs of a battle — the stacks and the jumps

What one call does to the list (`round_eq`, `add_cases`), the bounds on the stacks
and the levels, and the count of the jumps. An entry that is granted no jump is
where the count fails: a round that reaches it settles it once too often, and a
round that settles nothing does not look for what has run out.
-/

namespace Athena

namespace Buff

open Lua (Number)

variable {cfg : Table} {s t : State} {curturnlong : Number} {buffid caster recver : ℤ}
variable {b : BuffInfo} {row : Row}

/-! ## A round -/

/-- The entry is one that a round settles. -/
def BuffInfo.due (curturnlong : Number) (b : BuffInfo) : Bool := b.curturnlong.lt curturnlong

/-- An entry after the first loop. -/
def BuffInfo.after (cfg : Table) (curturnlong : Number) (b : BuffInfo) : BuffInfo :=
  if b.due curturnlong then (cfg b.buffid).elim b b.settle else b

/-- Each entry is of a buff that the table has. -/
def Known (cfg : Table) (l : List BuffInfo) : Prop := ∀ b ∈ l, (cfg b.buffid).isSome

theorem get_damaging_buff_eq_nil :
    get_damaging_buff s curturnlong = [] ↔ ∀ b ∈ s.battlebuffinfos, b.due curturnlong = false := by
  simp only [get_damaging_buff, List.map_eq_nil_iff, List.filter_eq_nil_iff, BuffInfo.due]
  constructor
  · intro h b hb
    obtain ⟨i, hi, rfl⟩ := List.mem_iff_getElem.mp hb
    simpa using h (s.battlebuffinfos[i], i) (by simp [List.mem_zipIdx_iff_getElem?])
  · intro h p hp
    simpa using h p.1 (List.fst_mem_of_mem_zipIdx hp)

/-- The entry at a position is settled, and no other. -/
theorem settle_at {l m : List BuffInfo} (hs : s.battlebuffinfos = l ++ b :: m)
    (hrow : cfg b.buffid = some row) :
    settle cfg s l.length = some { s with battlebuffinfos := l ++ b.settle row :: m } := by
  have hb : s.battlebuffinfos[l.length]? = some b := by simp [hs]
  have hmodify : s.battlebuffinfos.modify l.length (BuffInfo.settle row) = l ++ b.settle row :: m := by
    rw [List.modify_eq_take_cons_drop (by simp [hs])]
    simp [hs]
  simp only [settle, hb, hrow, State.modify, hmodify, Option.bind_eq_bind, Option.bind_some,
    Option.pure_def]

/-- **The first loop settles what is due**: the positions were found before it, and
settling moves no entry. -/
theorem foldlM_settle {l m : List BuffInfo} (hs : s.battlebuffinfos = l ++ m) (hk : Known cfg m) :
    (((m.zipIdx l.length).filter fun p => p.1.curturnlong.lt curturnlong).map Prod.snd).foldlM
      (settle cfg) s = some { s with battlebuffinfos := l ++ m.map (BuffInfo.after cfg curturnlong) } := by
  -- on what is still to be settled, behind the entries `l` of before
  induction m generalizing s l with
  | nil => simp [← hs]
  | cons b m ih =>
    have hk' : Known cfg m := fun c hc => hk c (List.mem_cons_of_mem b hc)
    obtain ⟨row, hrow⟩ := Option.isSome_iff_exists.mp (hk b List.mem_cons_self)
    by_cases hdue : b.curturnlong.lt curturnlong = true
    · have hafter : b.after cfg curturnlong = b.settle row := by
        simp [BuffInfo.after, BuffInfo.due, hdue, hrow]
      have hnext := @ih { s with battlebuffinfos := l ++ b.settle row :: m } (l ++ [b.settle row])
        (by simp) hk'
      rw [List.length_append, List.length_singleton] at hnext
      simp only [List.zipIdx_cons, List.filter_cons, hdue, if_true, List.map_cons, List.foldlM_cons,
        settle_at hs hrow, Option.bind_some, Option.bind_eq_bind, hnext, hafter, List.append_assoc,
        List.singleton_append]
    · have hafter : b.after cfg curturnlong = b := by simp [BuffInfo.after, BuffInfo.due, hdue]
      have hnext := @ih s (l ++ [b]) (by simp [hs]) hk'
      rw [List.length_append, List.length_singleton] at hnext
      simp only [List.zipIdx_cons, List.filter_cons, hdue, if_false, List.map_cons, hnext, hafter,
        List.append_assoc, List.singleton_append, Bool.false_eq_true]

/-- The entry has jumps left. -/
def BuffInfo.lasts (b : BuffInfo) : Bool := 0 < b.jumpnum

theorem syncexpired_infos (s : State) (row : Row) (b : BuffInfo) :
    ∃ sent, syncexpired s row b = { s with sent := sent } := by
  unfold syncexpired buffsync
  dsimp only
  split_ifs
  · exact ⟨_, rfl⟩
  · exact ⟨_, rfl⟩
  · exact ⟨_, rfl⟩

/-- **The second loop keeps what lasts**, in its order: what it deletes lies at or
after every position it has still to look at. -/
theorem sweep_eq {l m : List BuffInfo} (hs : s.battlebuffinfos = l ++ m) (hk : Known cfg l) :
    ∃ sent, sweep cfg l.length s = some ⟨l.filter BuffInfo.lasts ++ m, sent,
      s.expired ++ (l.filter fun b => !b.lasts).reverse⟩ := by
  -- from the end, as the loop counts down
  induction l using List.reverseRecOn generalizing s m with
  | nil => exact ⟨s.sent, by simp [sweep, ← hs]⟩
  | append_singleton l b ih =>
    have hk' : Known cfg l := fun c hc => hk c (by simp [hc])
    have hb : s.battlebuffinfos[l.length]? = some b := by simp [hs]
    rw [List.length_append, List.length_singleton, sweep, hb]
    by_cases hlast : b.jumpnum ≤ 0
    · obtain ⟨row, hrow⟩ := Option.isSome_iff_exists.mp (hk b (by simp))
      obtain ⟨sent, hsync⟩ := syncexpired_infos s row b
      have hlasts : b.lasts = false := by simpa [BuffInfo.lasts] using hlast
      have herase : s.battlebuffinfos.eraseIdx l.length = l ++ m := by
        rw [hs, List.append_assoc, List.eraseIdx_append_of_length_le (le_refl _)]
        simp
      obtain ⟨sent', hrest⟩ := @ih ⟨l ++ m, sent, s.expired ++ [b]⟩ m rfl hk'
      refine ⟨sent', ?_⟩
      simp only [Option.bind_eq_bind, Option.bind_some, hlast, if_true, hrow, hsync, herase, hrest,
        List.filter_append, List.filter_cons, List.filter_nil, hlasts, Bool.false_eq_true, if_false,
        Bool.not_false, List.append_nil, List.reverse_append, List.reverse_singleton,
        List.append_assoc]
    · have hlasts : b.lasts = true := by simpa [BuffInfo.lasts] using hlast
      obtain ⟨sent', hrest⟩ := @ih s (b :: m) (by simp [hs]) hk'
      refine ⟨sent', ?_⟩
      simp only [Option.bind_eq_bind, Option.bind_some, hlast, if_false, hrest, List.filter_append,
        List.filter_cons, List.filter_nil, hlasts, Bool.not_true, Bool.false_eq_true, if_true,
        List.append_nil, List.append_assoc, List.singleton_append]

/-- A round where nothing is due looks no further. -/
theorem round_idle (h : ∀ b ∈ s.battlebuffinfos, b.due curturnlong = false) :
    step cfg s (.round curturnlong) = some s := by
  rw [step, get_damaging_buff_eq_nil.mpr h, onsettledbuff, if_pos rfl]

theorem after_buffid : (b.after cfg curturnlong).buffid = b.buffid := by
  unfold BuffInfo.after
  split
  · cases cfg b.buffid with
    | none => rfl
    | some row => rfl
  · rfl

/-- **A round where something is due.** -/
theorem round_eq (hk : Known cfg s.battlebuffinfos)
    (h : ∃ b ∈ s.battlebuffinfos, b.due curturnlong = true) :
    ∃ sent, step cfg s (.round curturnlong) =
      some ⟨(s.battlebuffinfos.map (BuffInfo.after cfg curturnlong)).filter BuffInfo.lasts, sent,
        s.expired ++ ((s.battlebuffinfos.map (BuffInfo.after cfg curturnlong)).filter
          fun b => !b.lasts).reverse⟩ := by
  have hne : get_damaging_buff s curturnlong ≠ [] := by
    intro hnil
    obtain ⟨b, hb, hdue⟩ := h
    rw [get_damaging_buff_eq_nil.mp hnil b hb] at hdue
    cases hdue
  have hk' : Known cfg (s.battlebuffinfos.map (BuffInfo.after cfg curturnlong)) := by
    intro c hc
    obtain ⟨b, hb, rfl⟩ := List.mem_map.mp hc
    rw [after_buffid]
    exact hk b hb
  have hfirst : (get_damaging_buff s curturnlong).foldlM (settle cfg) s =
      some { s with battlebuffinfos := s.battlebuffinfos.map (BuffInfo.after cfg curturnlong) } :=
    foldlM_settle (l := []) rfl hk
  obtain ⟨sent, hsecond⟩ := @sweep_eq cfg
    { s with battlebuffinfos := s.battlebuffinfos.map (BuffInfo.after cfg curturnlong) } _ []
    (List.append_nil _).symm hk'
  refine ⟨sent, ?_⟩
  rw [step, onsettledbuff, if_neg hne, hfirst, Option.bind_eq_bind, Option.bind_some, hsecond,
    List.append_nil]

/-! ## An addition -/

/-- How many entries a fighter may have of a buff. -/
def Row.limit (row : Row) : ℤ :=
  if row.BUFF_Type = battlebufftype.overlaymult then row.Stack_Max else 1

/-- How many he has. -/
def layers (l : List BuffInfo) (buffid recver : ℤ) : ℤ := l.countP (BuffInfo.same buffid recver)

/-- What an addition does to the list. -/
inductive Added (cfg : Table) (curturnlong : Number) (buffid caster recver : ℤ)
    (l : List BuffInfo) : List BuffInfo → Prop
  | nothing : Added cfg curturnlong buffid caster recver l l
  | entry {row : Row} (hrow : cfg buffid = some row)
      (hroom : layers l buffid recver = 0 ∨ layers l buffid recver < row.limit) :
      Added cfg curturnlong buffid caster recver l
        (l ++ [⟨curturnlong, buffid, 1, caster, recver, row.jumps, row.jumps, 0⟩])
  | extend {row : Row} {i : ℕ} {b : BuffInfo} (hrow : cfg buffid = some row) (hb : l[i]? = some b)
      (hid : b.buffid = buffid) :
      Added cfg curturnlong buffid caster recver l (l.modify i (BuffInfo.extend row))
  | overlay {row : Row} {i : ℕ} {b : BuffInfo} (hrow : cfg buffid = some row) (hb : l[i]? = some b)
      (hid : b.buffid = buffid) :
      Added cfg curturnlong buffid caster recver l (l.modify i (BuffInfo.overlay row))
  | deleted {i : ℕ} : Added cfg curturnlong buffid caster recver l (l.eraseIdx i)

theorem getbuffinfo_none (h : getbuffinfo s buffid recver = none) :
    layers s.battlebuffinfos buffid recver = 0 := by
  have hnone := List.findIdx?_eq_none_iff.mp h
  rw [layers, Nat.cast_eq_zero, List.countP_eq_zero]
  intro b hb
  rw [hnone b hb]
  simp

theorem getbuffinfo_some {i : ℕ} (h : getbuffinfo s buffid recver = some i) :
    ∃ b, s.battlebuffinfos[i]? = some b ∧ b.buffid = buffid := by
  obtain ⟨hi, hsame, -⟩ := List.findIdx?_eq_some_iff_getElem.mp h
  refine ⟨s.battlebuffinfos[i], List.getElem?_eq_getElem hi, ?_⟩
  simp only [BuffInfo.same, Bool.and_eq_true, decide_eq_true_eq] at hsame
  exact hsame.1

theorem delbuffinfo_infos :
    (delbuffinfo s buffid recver).expired = s.expired ∧
      ((delbuffinfo s buffid recver).battlebuffinfos = s.battlebuffinfos ∨
        ∃ i, (delbuffinfo s buffid recver).battlebuffinfos = s.battlebuffinfos.eraseIdx i) := by
  unfold delbuffinfo
  split
  · exact ⟨rfl, Or.inr ⟨_, rfl⟩⟩
  · exact ⟨rfl, Or.inl rfl⟩

theorem newbuffinfo_some {e : BuffInfo} (h : newbuffinfo cfg curturnlong buffid caster recver = some e) :
    ∃ row, cfg buffid = some row ∧
      e = ⟨curturnlong, buffid, 1, caster, recver, row.jumps, row.jumps, 0⟩ := by
  obtain ⟨row, hrow, rfl⟩ := Option.map_eq_some_iff.mp h
  exact ⟨row, hrow, rfl⟩

/-- **The stacking rules**, one case a rule. -/
theorem addbuffinfo_some (h : addbuffinfo cfg s curturnlong buffid caster recver = some t) :
    t.expired = s.expired ∧
      Added cfg curturnlong buffid caster recver s.battlebuffinfos t.battlebuffinfos := by
  unfold addbuffinfo at h
  split at h
  · rename_i hnone
    obtain ⟨e, hnew, heq⟩ := Option.bind_eq_some_iff.mp h
    cases heq
    obtain ⟨row, hrow, rfl⟩ := newbuffinfo_some hnew
    exact ⟨rfl, Added.entry hrow (Or.inl (getbuffinfo_none hnone))⟩
  · rename_i i hi
    obtain ⟨b, hb, hid⟩ := getbuffinfo_some hi
    obtain ⟨row, hrow, h⟩ := Option.bind_eq_some_iff.mp h
    split_ifs at h with hun hext hmult hfull hsingle hswitch
    · cases h
      exact ⟨rfl, Added.nothing⟩
    · cases h
      exact ⟨rfl, Added.extend hrow hb hid⟩
    · cases h
      exact ⟨rfl, Added.nothing⟩
    · -- layers that count apart, below the limit
      obtain ⟨e, hnew, heq⟩ := Option.bind_eq_some_iff.mp h
      cases heq
      obtain ⟨row', hrow', rfl⟩ := newbuffinfo_some hnew
      obtain rfl : row = row' := Option.some.inj (hrow.symm.trans hrow')
      refine ⟨rfl, Added.entry hrow (Or.inr ?_)⟩
      rw [Row.limit, if_pos hmult]
      exact not_le.mp hfull
    · obtain ⟨e, -, heq⟩ := Option.bind_eq_some_iff.mp h
      cases heq
      exact ⟨rfl, Added.overlay hrow hb hid⟩
    · -- a switch: the first entry goes, unless there is none
      cases h
      obtain ⟨hexp, hsame | ⟨j, hdel⟩⟩ := @delbuffinfo_infos s buffid recver
      · refine ⟨hexp, ?_⟩
        rw [show (buffsync (delbuffinfo s buffid recver) recver buffid false 0).battlebuffinfos =
          s.battlebuffinfos from hsame]
        exact Added.nothing
      · refine ⟨hexp, ?_⟩
        rw [show (buffsync (delbuffinfo s buffid recver) recver buffid false 0).battlebuffinfos =
          s.battlebuffinfos.eraseIdx j from hdel]
        exact Added.deleted
    · cases h
      exact ⟨rfl, Added.nothing⟩

/-! ## The list -/

/-- An entry's buff, level and jumps. -/
structure Entry (cfg : Table) (b : BuffInfo) : Prop where
  level : ∃ row, cfg b.buffid = some row ∧ 1 ≤ b.level ∧ b.level ≤ row.Stack_Max
  tally : b.jumpnum = b.granted - b.settled

/-- **What holds of the list.** -/
structure Listed (cfg : Table) (l : List BuffInfo) : Prop where
  entry : ∀ b ∈ l, Entry cfg b
  bound : ∀ buffid recver row, cfg buffid = some row → layers l buffid recver ≤ row.limit

theorem Listed.known {l : List BuffInfo} (h : Listed cfg l) : Known cfg l := by
  intro b hb
  obtain ⟨row, hrow, -⟩ := (h.entry b hb).level
  exact Option.isSome_iff_exists.mpr ⟨row, hrow⟩

/-- Fewer entries. -/
theorem Listed.sublist {l m : List BuffInfo} (h : Listed cfg l) (hm : m.Sublist l) : Listed cfg m where
  entry b hb := h.entry b (hm.subset hb)
  bound buffid recver row hrow := by
    have hle : m.countP (BuffInfo.same buffid recver) ≤ l.countP (BuffInfo.same buffid recver) :=
      hm.countP_le
    have := h.bound buffid recver row hrow
    simp only [layers] at this ⊢
    omega

/-- Other entries of the same buffs and fighters. -/
theorem Listed.map {l : List BuffInfo} {f : BuffInfo → BuffInfo} (h : Listed cfg l)
    (hid : ∀ b, (f b).buffid = b.buffid ∧ (f b).recver = b.recver)
    (hf : ∀ b ∈ l, Entry cfg b → Entry cfg (f b)) : Listed cfg (l.map f) where
  entry c hc := by
    obtain ⟨b, hb, rfl⟩ := List.mem_map.mp hc
    exact hf b hb (h.entry b hb)
  bound buffid recver row hrow := by
    have hsame : BuffInfo.same buffid recver ∘ f = BuffInfo.same buffid recver := by
      funext b
      simp [BuffInfo.same, hid b]
    rw [layers, List.countP_map, hsame]
    exact h.bound buffid recver row hrow

/-- One more entry, of level 1, where there is room for it. -/
theorem Listed.insert {l : List BuffInfo} (h : Listed cfg l) (he : Entry cfg b)
    (hroom : ∀ row, cfg b.buffid = some row → layers l b.buffid b.recver + 1 ≤ row.limit) :
    Listed cfg (l ++ [b]) where
  entry c hc := by
    rcases List.mem_append.mp hc with hc | hc
    · exact h.entry c hc
    · rw [List.mem_singleton.mp hc]
      exact he
  bound buffid recver row hrow := by
    have hcount := h.bound buffid recver row hrow
    rw [layers, List.countP_append, List.countP_singleton]
    split
    · next hsame =>
      obtain ⟨rfl, rfl⟩ : b.buffid = buffid ∧ b.recver = recver := by simpa [BuffInfo.same] using hsame
      exact_mod_cast hroom row hrow
    · exact_mod_cast hcount

/-- What a list has after a write to one entry. -/
theorem mem_modify {l : List BuffInfo} {i : ℕ} {f : BuffInfo → BuffInfo} {c : BuffInfo}
    (hc : c ∈ l.modify i f) : c ∈ l ∨ ∃ b, l[i]? = some b ∧ c = f b := by
  obtain ⟨j, hj⟩ := List.mem_iff_getElem?.mp hc
  rw [List.getElem?_modify, Option.map_eq_map, Option.map_eq_some_iff] at hj
  obtain ⟨b, hb, rfl⟩ := hj
  split
  · next hij => exact Or.inr ⟨b, hij ▸ hb, rfl⟩
  · exact Or.inl (List.mem_of_getElem? hb)

/-- A write to one entry that keeps its buff and its fighter. -/
theorem Listed.modify {l : List BuffInfo} {i : ℕ} {f : BuffInfo → BuffInfo} (h : Listed cfg l)
    (hb : l[i]? = some b) (hid : ∀ c, (f c).buffid = c.buffid ∧ (f c).recver = c.recver)
    (hf : Entry cfg (f b)) : Listed cfg (l.modify i f) where
  entry c hc := by
    rcases mem_modify hc with hc | ⟨b', hb', rfl⟩
    · exact h.entry c hc
    · obtain rfl := Option.some.inj (hb.symm.trans hb')
      exact hf
  bound buffid recver row hrow := by
    have hi : i < l.length := (List.getElem?_eq_some_iff.mp hb).1
    have hsame : BuffInfo.same buffid recver (f l[i]) = BuffInfo.same buffid recver l[i] := by
      simp [BuffInfo.same, hid]
    have hcount : (l.modify i f).countP (BuffInfo.same buffid recver) =
        l.countP (BuffInfo.same buffid recver) := by
      conv_rhs => rw [← List.take_append_drop i l, List.drop_eq_getElem_cons hi]
      rw [List.modify_eq_take_cons_drop hi, List.countP_append, List.countP_append, List.countP_cons,
        List.countP_cons, hsame]
    rw [layers, hcount]
    exact h.bound buffid recver row hrow

theorem one_le_limit (h : 1 ≤ row.Stack_Max) : 1 ≤ row.limit := by
  unfold Row.limit
  split
  · exact h
  · exact le_refl _

/-- **The stacking rules keep the bounds.** -/
theorem Listed.added {l m : List BuffInfo}
    (htable : ∀ buffid row, cfg buffid = some row → 1 ≤ row.Stack_Max) (h : Listed cfg l)
    (hadd : Added cfg curturnlong buffid caster recver l m) : Listed cfg m := by
  cases hadd with
  | nothing => exact h
  | @entry row hrow hroom =>
    have hmax := htable buffid row hrow
    have hone := one_le_limit hmax
    refine h.insert ⟨⟨row, hrow, le_refl _, hmax⟩, by simp⟩ fun row' hrow' => ?_
    obtain rfl := Option.some.inj (hrow.symm.trans hrow')
    show layers l buffid recver + 1 ≤ row.limit
    omega
  | extend hrow hb hid =>
    obtain ⟨hlevel, htally⟩ := h.entry _ (List.mem_of_getElem? hb)
    refine h.modify hb (fun c => ⟨rfl, rfl⟩) ⟨hlevel, ?_⟩
    simp only [BuffInfo.extend]
    omega
  | overlay hrow hb hid =>
    obtain ⟨⟨row', hrow', h1, hmax⟩, htally⟩ := h.entry _ (List.mem_of_getElem? hb)
    rw [hid] at hrow'
    obtain rfl := Option.some.inj (hrow.symm.trans hrow')
    refine h.modify hb (fun c => ⟨rfl, rfl⟩) ⟨⟨_, hid.symm ▸ hrow, ?_, ?_⟩, ?_⟩
    · simp only [BuffInfo.overlay, BuffInfo.extend]
      split
      · omega
      · exact h1
    · simp only [BuffInfo.overlay, BuffInfo.extend]
      split
      · omega
      · exact hmax
    · simp only [BuffInfo.overlay, BuffInfo.extend]
      omega
  | deleted => exact h.sublist (List.eraseIdx_sublist _ _)

/-- A settled list. -/
theorem Listed.after {l : List BuffInfo} (h : Listed cfg l) :
    Listed cfg (l.map (BuffInfo.after cfg curturnlong)) := by
  refine h.map (fun b => ⟨after_buffid, ?_⟩) fun b hb he => ?_
  · unfold BuffInfo.after
    split
    · cases cfg b.buffid with
      | none => rfl
      | some row => rfl
    · rfl
  · obtain ⟨⟨row, hrow, hlevel⟩, htally⟩ := he
    unfold BuffInfo.after
    split
    · rw [hrow, Option.elim_some]
      refine ⟨⟨row, hrow, hlevel⟩, ?_⟩
      simp only [BuffInfo.settle]
      omega
    · exact ⟨⟨row, hrow, hlevel⟩, htally⟩

/-! ## Every run -/

/-- **The law of a state.** -/
structure Lawful (cfg : Table) (s : State) : Prop where
  /-- One entry for a buff of a fighter, or `Stack_Max` where layers count apart. -/
  bound : ∀ buffid recver row, cfg buffid = some row →
    layers s.battlebuffinfos buffid recver ≤ row.limit
  level : ∀ b ∈ s.battlebuffinfos,
    ∃ row, cfg b.buffid = some row ∧ 1 ≤ b.level ∧ b.level ≤ row.Stack_Max
  /-- What ran out was settled once for each of its jumps. -/
  settled : ∀ b ∈ s.expired, b.settled = b.granted

/-- **The law of a step**: a round settles what is due, and removes exactly the
entries that are then out of jumps. -/
def Removes (cfg : Table) (s : State) (e : Event) (t : State) : Prop :=
  ∀ curturnlong, e = .round curturnlong →
    t.battlebuffinfos =
        (s.battlebuffinfos.map (BuffInfo.after cfg curturnlong)).filter BuffInfo.lasts ∧
      t.expired = s.expired ++
        ((s.battlebuffinfos.map (BuffInfo.after cfg curturnlong)).filter fun b => !b.lasts).reverse

/-- **Where the jumps are counted right.** An entry without jumps, before a round, has
none to give back and is not due, and some other entry is. -/
def Meets (s : State) : Event → Prop
  | .round curturnlong => ∀ b ∈ s.battlebuffinfos, b.jumpnum ≤ 0 →
      b.jumpnum = 0 ∧ b.due curturnlong = false ∧
        ∃ c ∈ s.battlebuffinfos, c.due curturnlong = true
  | _ => True

/-- What the steps that meet it keep. -/
structure Sound (cfg : Table) (s : State) : Prop where
  listed : Listed cfg s.battlebuffinfos
  settled : ∀ b ∈ s.expired, b.settled = b.granted

theorem Sound.lawful (h : Sound cfg s) : Lawful cfg s where
  bound := h.listed.bound
  level b hb := (h.listed.entry b hb).level
  settled := h.settled

theorem Sound.of_infos (h : Sound cfg s) (hexp : t.expired = s.expired)
    (hl : Listed cfg t.battlebuffinfos) : Sound cfg t where
  listed := hl
  settled b hb := h.settled b (hexp ▸ hb)

theorem sound_initial (htable : ∀ buffid row, cfg buffid = some row → 1 ≤ row.Stack_Max) :
    Sound cfg initial where
  listed := by
    refine ⟨by simp [initial], fun buffid recver row hrow => ?_⟩
    have hone := one_le_limit (htable buffid row hrow)
    have hzero : layers initial.battlebuffinfos buffid recver = 0 := rfl
    omega
  settled := by simp [initial]

/-- The count of an entry a round takes up. -/
theorem after_counts (hk : Entry cfg b) :
    (b.due curturnlong = true → (b.after cfg curturnlong).jumpnum = b.jumpnum - 1 ∧
      (b.after cfg curturnlong).settled = b.settled + 1 ∧
      (b.after cfg curturnlong).granted = b.granted) ∧
    (b.due curturnlong = false → b.after cfg curturnlong = b) := by
  obtain ⟨row, hrow, -⟩ := hk.level
  unfold BuffInfo.after
  constructor
  · intro hdue
    rw [if_pos hdue, hrow]
    exact ⟨rfl, rfl, rfl⟩
  · intro hdue
    rw [hdue]
    rfl

/-- **A round that meets the condition.** -/
theorem round_meets (h : Sound cfg s) (hm : Meets s (.round curturnlong)) :
    ∃ t, step cfg s (.round curturnlong) = some t ∧ Sound cfg t ∧ Removes cfg s (.round curturnlong) t := by
  by_cases hdue : ∃ b ∈ s.battlebuffinfos, b.due curturnlong = true
  · obtain ⟨sent, hround⟩ := round_eq h.listed.known hdue
    refine ⟨_, hround, ⟨h.listed.after.sublist List.filter_sublist, fun c hc => ?_⟩, ?_⟩
    · rcases List.mem_append.mp hc with hc | hc
      · exact h.settled c hc
      · -- what runs out now: the last jump was taken, or there was none
        obtain ⟨hc, hout⟩ := List.mem_filter.mp (List.mem_reverse.mp hc)
        obtain ⟨b, hb, rfl⟩ := List.mem_map.mp hc
        have hentry := h.listed.entry b hb
        have htally := hentry.tally
        obtain ⟨htaken, hleft⟩ := @after_counts cfg curturnlong b hentry
        have hjump : (b.after cfg curturnlong).jumpnum ≤ 0 := by simpa [BuffInfo.lasts] using hout
        by_cases hb0 : b.jumpnum ≤ 0
        · obtain ⟨hzero, hnot, -⟩ := hm b hb hb0
          rw [hleft hnot]
          omega
        · by_cases hbdue : b.due curturnlong = true
          · obtain ⟨h1, h2, h3⟩ := htaken hbdue
            omega
          · rw [hleft (by simpa using hbdue)] at hjump
            omega
    · rintro c ⟨⟩
      exact ⟨rfl, rfl⟩
  · -- an idle round keeps all, and by the condition all lasts
    have hnone : ∀ b ∈ s.battlebuffinfos, b.due curturnlong = false := by
      intro b hb
      by_contra hb'
      exact hdue ⟨b, hb, by simpa using hb'⟩
    have hall : ∀ b ∈ s.battlebuffinfos, b.lasts = true := by
      intro b hb
      by_contra hout
      have hjump : b.jumpnum ≤ 0 := by simpa [BuffInfo.lasts] using hout
      exact hdue (hm b hb hjump).2.2
    have hsame : s.battlebuffinfos.map (BuffInfo.after cfg curturnlong) = s.battlebuffinfos := by
      refine (List.map_congr_left fun b hb => ?_).trans (List.map_id _)
      exact (after_counts (h.listed.entry b hb)).2 (hnone b hb)
    refine ⟨s, round_idle hnone, h, ?_⟩
    rintro c ⟨⟩
    rw [hsame]
    refine ⟨(List.filter_eq_self.mpr hall).symm, ?_⟩
    have hnil : s.battlebuffinfos.filter (fun b => !b.lasts) = [] := by
      refine List.filter_eq_nil_iff.mpr fun b hb => ?_
      simp [hall b hb]
    rw [hnil]
    simp

/-- **And one that does not**: it leaves an entry that is out of jumps, or takes away
one that was settled too often. -/
theorem round_fails (h : Sound cfg s) (hstep : step cfg s (.round curturnlong) = some t)
    (hl : Lawful cfg t) (hr : Removes cfg s (.round curturnlong) t) : Meets s (.round curturnlong) := by
  obtain ⟨hinfos, hexpired⟩ := hr curturnlong rfl
  intro b hb hjump
  have hentry := h.listed.entry b hb
  have htally := hentry.tally
  obtain ⟨htaken, hleft⟩ := @after_counts cfg curturnlong b hentry
  have hmem : b.after cfg curturnlong ∈ s.battlebuffinfos.map (BuffInfo.after cfg curturnlong) :=
    List.mem_map_of_mem hb
  -- the entry runs out in this round either way
  have hout : (b.after cfg curturnlong).jumpnum ≤ 0 := by
    by_cases hbdue : b.due curturnlong = true
    · have := (htaken hbdue).1
      omega
    · rw [hleft (by simpa using hbdue)]
      exact hjump
  have hexp : b.after cfg curturnlong ∈ t.expired := by
    rw [hexpired]
    refine List.mem_append_right _ (List.mem_reverse.mpr (List.mem_filter.mpr ⟨hmem, ?_⟩))
    simpa [BuffInfo.lasts] using hout
  -- so it was settled as often as it had jumps, which leaves none for this round
  have hsettled := hl.settled _ hexp
  have hnot : b.due curturnlong = false := by
    by_contra hbdue
    obtain ⟨h1, h2, h3⟩ := htaken (by simpa using hbdue)
    omega
  rw [hleft hnot] at hsettled hout
  refine ⟨by omega, hnot, ?_⟩
  -- with nothing else due, the round is idle and the entry stays
  by_contra hdue
  have hnone : ∀ c ∈ s.battlebuffinfos, c.due curturnlong = false := by
    intro c hc
    by_contra hc'
    exact hdue ⟨c, hc, by simpa using hc'⟩
  obtain rfl : s = t := Option.some.inj ((round_idle hnone).symm.trans hstep)
  rw [hinfos] at hb
  have hlasts : b.lasts = true := (List.mem_filter.mp hb).2
  simp only [BuffInfo.lasts, decide_eq_true_eq] at hlasts
  omega

/-- **Every step that meets it returns** in a state of the law. -/
theorem step_meets (htable : ∀ buffid row, cfg buffid = some row → 1 ≤ row.Stack_Max) {e : Event}
    (h : Sound cfg s) (hm : Meets s e) : ∃ t, step cfg s e = some t ∧ Sound cfg t ∧ Removes cfg s e t := by
  cases e with
  | round curturnlong => exact round_meets h hm
  | del buffid recver =>
    refine ⟨_, rfl, ?_, fun c hc => nomatch hc⟩
    obtain ⟨hexp, hsame | ⟨i, hdel⟩⟩ := @delbuffinfo_infos s buffid recver
    · exact h.of_infos hexp (hsame ▸ h.listed)
    · exact h.of_infos hexp (hdel ▸ h.listed.sublist (List.eraseIdx_sublist _ _))
  | add curturnlong buffid caster recver =>
    refine ⟨_, rfl, ?_, fun c hc => nomatch hc⟩
    cases hadd : addbuffinfo cfg s curturnlong buffid caster recver with
    | none => exact h
    | some t =>
      obtain ⟨hexp, hadded⟩ := addbuffinfo_some hadd
      exact h.of_infos hexp (h.listed.added htable hadded)

theorem sound_reachable (htable : ∀ buffid row, cfg buffid = some row → 1 ≤ row.Stack_Max)
    (h : ((system cfg).restrict Meets).Reachable s) : Sound cfg s := by
  refine h.invariant (fun s hs => ?_) fun s e t hst hs => ?_
  · obtain rfl : s = initial := hs
    exact sound_initial htable
  · obtain ⟨u, hu, hsound, -⟩ := step_meets htable hs hst.2
    obtain rfl := Option.some.inj (hu.symm.trans hst.1)
    exact hsound

/-- **The buffs over every run.** A state that a run reaches by steps that meet the
condition is as the law says, and the next step keeps the law just where it meets
the condition too. -/
theorem buffs (htable : ∀ buffid row, cfg buffid = some row → 1 ≤ row.Stack_Max)
    (h : ((system cfg).restrict Meets).Reachable s) :
    Lawful cfg s ∧ ∀ e, Meets s e ↔ ∃ t, (system cfg).step s e t ∧ Lawful cfg t ∧ Removes cfg s e t := by
  have hs := sound_reachable htable h
  refine ⟨hs.lawful, fun e => ⟨fun hm => ?_, ?_⟩⟩
  · obtain ⟨t, hstep, ht, hr⟩ := step_meets htable hs hm
    exact ⟨t, hstep, ht.lawful, hr⟩
  · rintro ⟨t, hstep, hl, hr⟩
    cases e with
    | round curturnlong => exact round_fails hs hstep hl hr
    | del buffid recver => trivial
    | add curturnlong buffid caster recver => trivial

/-- A table of one buff. -/
def single (row : Row) : Table := fun buffid => if buffid = 1 then some row else none

theorem of_single {P : Row → Prop} (h : P row) : ∀ buffid r, single row buffid = some r → P r := by
  intro buffid r hr
  unfold single at hr
  split at hr
  · cases hr
    exact h
  · cases hr

/-- Three jumps, of which a round takes one. -/
theorem buffs_three :
    Meets ((addbuffinfo (single ⟨4, 100, 300, 3⟩) initial (.int 0) 1 7 8).getD initial) (.round (.int 1)) ↔
      ∃ t, (system (single ⟨4, 100, 300, 3⟩)).step
          ((addbuffinfo (single ⟨4, 100, 300, 3⟩) initial (.int 0) 1 7 8).getD initial) (.round (.int 1)) t ∧
        Lawful (single ⟨4, 100, 300, 3⟩) t ∧
        Removes (single ⟨4, 100, 300, 3⟩)
          ((addbuffinfo (single ⟨4, 100, 300, 3⟩) initial (.int 0) 1 7 8).getD initial) (.round (.int 1)) t := by
  have htable : ∀ buffid row, single ⟨4, 100, 300, 3⟩ buffid = some row → 1 ≤ row.Stack_Max :=
    of_single (by decide)
  exact (buffs htable ⟨initial, [.add (.int 0) 1 7 8], rfl,
    System.path_singleton.mpr ⟨rfl, trivial⟩⟩).2 _

/-- **A buff too short for a jump is settled once.** It lasts a turn of 1 at a speed
of 400, which grants no jump; the first round settles it and takes it away. -/
theorem buffs_short :
    ¬ ∀ cfg : Table, (∀ buffid row, cfg buffid = some row → 1 ≤ row.Stack_Max ∧ 0 ≤ row.During) →
      ∀ s, (system cfg).Reachable s →
        Lawful cfg s ∧ ∀ e t, (system cfg).step s e t → Removes cfg s e t := by
  intro hall
  have htable : ∀ buffid row, single ⟨1, 400, 1, 1⟩ buffid = some row →
      1 ≤ row.Stack_Max ∧ 0 ≤ row.During := of_single (by decide)
  have hadd : (system (single ⟨1, 400, 1, 1⟩)).step initial (.add (.int 0) 1 7 8)
      ⟨[⟨.int 0, 1, 1, 7, 8, 0, 0, 0⟩], [⟨8, 1, true, 1⟩], []⟩ := rfl
  obtain ⟨t, ht, hexp⟩ : ∃ t, (system (single ⟨1, 400, 1, 1⟩)).step
      ⟨[⟨.int 0, 1, 1, 7, 8, 0, 0, 0⟩], [⟨8, 1, true, 1⟩], []⟩ (.round (.int 1)) t ∧
      t.expired.map (fun b => (b.settled, b.granted)) = [(1, 0)] := ⟨_, rfl, rfl⟩
  have hlaw := (hall _ htable t
    ⟨initial, [_, _], rfl, System.Path.cons hadd (System.path_singleton.mpr ht)⟩).1
  obtain ⟨b, hb, hcount⟩ := List.mem_map.mp (hexp ▸ List.mem_singleton_self ((1, 0) : ℤ × ℤ))
  have := hlaw.settled b hb
  obtain ⟨h1, h0⟩ := Prod.mk.inj hcount
  omega

end Buff

end Athena
