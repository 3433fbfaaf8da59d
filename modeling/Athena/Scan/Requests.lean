import Athena.Scan.Life
/-!
# Blueprints — what each request does

Each request that goes right keeps the invariant and conserves the copies.
-/

namespace Athena

namespace Scan

open Lua (Str)
open Queue (Row Award BpReward PropReward EquipReward)

variable {cfg : Config} {s t u : State} {e : Event} {l : Lists} {b a key : ℕ} {d : Entry} {row : Row}
  {award : Award} {n k : ℤ} {name : Option Str} {bpid : Str}

/-! ## Records by their ids -/

section

variable {α : Type} {records : ℕ → Option α} {v : α} {i j : ℕ}

theorem isSome_erase : ((records j).isSome ∧ j ≠ i) ↔ (Function.update records i none j).isSome := by
  by_cases hj : j = i
  · subst hj
    simp
  · simp [hj]

theorem isSome_insert : ((records j).isSome ∨ j = i) ↔ (Function.update records i (some v) j).isSome := by
  by_cases hj : j = i
  · subst hj
    simp
  · simp [hj]

end

/-! ## addblueprint -/

/-- **What `add_blueprint` does**: it adds to one of the normal lists. -/
theorem add_blueprint_spec (s : State) (bpid : Str) (n : ℤ) (name : Option Str) :
    (add_blueprint s.blueprint bpid n name).blueprinting = s.lists.blueprinting ∧
    (add_blueprint s.blueprint bpid n name).blueprintend = s.lists.blueprintend ∧
    (∀ id, copies id (add_blueprint s.blueprint bpid n name).newblueprint +
        copies id (add_blueprint s.blueprint bpid n name).blueprintinfo =
      copies id s.lists.newblueprint + copies id s.lists.blueprintinfo + if bpid = id then n else 0) ∧
    (0 < standing s.lists bpid name + n → Positive s.lists.newblueprint →
      Positive s.lists.blueprintinfo →
        Positive (add_blueprint s.blueprint bpid n name).newblueprint ∧
          Positive (add_blueprint s.blueprint bpid n name).blueprintinfo) := by
  cases hl : s.blueprint with
  | none =>
    rw [State.lists, hl]
    refine ⟨rfl, rfl, fun id => ?_, fun hn _ _ => ⟨?_, positive_nil⟩⟩
    · simp [add_blueprint, Into.entry]
    · simpa [add_blueprint, Into.entry, standing, numberof, get_blueprint] using hn
  | some l =>
    rw [State.lists, hl]
    simp only [add_blueprint, Option.getD_some]
    cases hget : get_blueprint (some bpid) l.blueprintinfo name none with
    | none =>
      refine ⟨rfl, rfl, fun id => ?_, fun hn h1 h2 => ⟨?_, h2⟩⟩
      · simp only [copies_change_blueprint]
        omega
      · rw [standing, hget, if_neg (by simp)] at hn
        exact positive_change_blueprint h1 hn
    | some key =>
      obtain ⟨d, hd, hid, -⟩ := get_blueprint_id hget
      refine ⟨rfl, rfl, fun id => ?_, fun hn h1 h2 => ⟨h1, ?_⟩⟩
      · simp only [copies_addnumber hd, hid]
        omega
      · rw [standing, hget, if_pos (by simp), numberof_eq hget hd] at hn
        exact positive_addnumber hd h2 hn

theorem Inv.addblueprint (hi : Inv cfg s) (hn : Clear cfg s (.addblueprint bpid n name)) :
    Inv cfg (addblueprint cfg bpid n name s).2 ∧
      Conserves cfg s (.addblueprint bpid n name) (addblueprint cfg bpid n name s).2 := by
  have hadded : ∀ id, added cfg (.addblueprint bpid n name) id =
      if hasblueprint cfg bpid ∧ bpid = id then n else 0 := fun _ => rfl
  by_cases hknown : hasblueprint cfg bpid = true
  · have hstate : (Scan.addblueprint cfg bpid n name s).2 =
        { s with blueprint := some (add_blueprint s.blueprint bpid n name) } := by
      unfold Scan.addblueprint
      exact congrArg Prod.snd (if_pos hknown)
    rw [hstate]
    obtain ⟨hing, hend, hcopies, hpos⟩ := add_blueprint_spec s bpid n name
    obtain ⟨l', hl'⟩ : ∃ l', add_blueprint s.blueprint bpid n name = l' := ⟨_, rfl⟩
    rw [hl'] at hing hend hcopies hpos ⊢
    obtain ⟨hnew, hinfo⟩ := hpos (hn hknown) hi.newblueprint hi.blueprintinfo
    refine ⟨⟨hnew, hinfo, ?_, ?_, ?_, ?_, fun b row hrow => ?_, ?_, ?_, ?_, hi.ingcasting, hi.ingnodup,
      hi.award, hi.endcasting, hi.endnodup, hi.endscan⟩, fun id => ?_⟩
    · exact hing ▸ hi.blueprinting
    · exact hend ▸ hi.blueprintend
    · exact hing ▸ hi.running
    · exact hend ▸ hi.unreceived
    · obtain ⟨hle, hc⟩ := hi.row b row hrow
      exact ⟨hle, hc.later le_rfl⟩
    · exact hing ▸ hi.casts
    · exact hing ▸ hi.noaward
    · exact hend ▸ hi.noqueue
    · have hc : consumed s { s with blueprint := some l' } id = 0 := consumed_eq_zero fun _ h => h
      have hf : finished s { s with blueprint := some l' } (.addblueprint bpid n name) id = 0 := rfl
      have := hcopies id
      rw [hadded, hc, hf, State.total, State.total]
      simp only [State.lists, Option.getD_some, hing, hend, hknown, true_and] at this ⊢
      omega
  · have hstate : (Scan.addblueprint cfg bpid n name s).2 = s := by
      unfold Scan.addblueprint
      exact congrArg Prod.snd (if_neg hknown)
    rw [hstate]
    refine ⟨hi, (Quiet.refl s).conserves fun id => ?_⟩
    rw [hadded, if_neg fun h => hknown h.1]

/-! ## casting -/

theorem nodup_concat {ids : List ℕ} (h : ids.Nodup) (ha : a ∉ ids) : (ids ++ [a]).Nodup := by
  refine List.nodup_append.mpr ⟨h, by simp, fun b hb c hc => ?_⟩
  rw [List.mem_singleton.mp hc]
  rintro rfl
  exact ha hb

theorem quiet_remmaterials {x : Str × ℤ} : Quiet s (remmaterials cfg s x) := by
  unfold remmaterials
  split
  · exact ⟨rfl, rfl, rfl, rfl, rfl, rfl, le_rfl, rfl, le_rfl⟩
  · exact .refl s

theorem quiet_foldl {α : Type} {f : State → α → State} (hf : ∀ s a, Quiet s (f s a)) {l : List α} :
    Quiet s (l.foldl f s) := by
  induction l generalizing s with
  | nil => exact .refl s
  | cons a l ih => exact (hf s a).trans ih

/-- The row and the entry of a new casting. -/
def State.cast (s : State) (row : Row) (l : Lists) : State :=
  { s with
    bqid := s.bqid + 1
    rows := Function.update s.rows (s.bqid + 1) (some row)
    ingcasting := s.ingcasting ++ [s.bqid + 1]
    blueprint := some l }

/-- The lists with it. -/
def casted (s : State) (row : Row) (key : ℕ) (n : ℤ) (l : Lists) : Lists :=
  { l with
    blueprintinfo := (removeto_blueprint key n l.blueprintinfo l.blueprinting
      (.casting (s.bqid + 1) row.starttime row.endtime)).1
    blueprinting := (removeto_blueprint key n l.blueprintinfo l.blueprinting
      (.casting (s.bqid + 1) row.starttime row.endtime)).2 }

/-- **A casting succeeds, or changes materials at most.** -/
theorem casting_cases (cfg : Config) (s : State) (cfgid : Option Str) (number : Option ℤ)
    (name : Option Str) :
    Quiet s (casting cfg s cfgid number name).1 ∨
      ∃ bpid l key d info u, cfgid = some bpid ∧ s.blueprint = some l ∧
        l.blueprintinfo[key]? = some d ∧ d.id = bpid ∧ number.getD 1 ≤ d.number ∧
        Castable cfg s bpid (number.getD 1) (if bpid.length = 18 then name else none) ∧ Quiet s u ∧ (casting cfg s cfgid number name).1 =
          u.cast (castrow cfg u.now bpid info)
            (casted u (castrow cfg u.now bpid info) key (number.getD 1) l) := by
  unfold casting
  simp only
  split
  · exact Or.inl (.refl s)
  · exact Or.inl (.refl s)
  · rename_i bpid l hl
    split
    · exact Or.inl (.refl s)
    · rename_i key hkey
      obtain ⟨d', hd', hid, -⟩ := get_blueprint_id hkey
      split
      · exact Or.inl (.refl s)
      · rename_i d hd
        obtain rfl : d' = d := Option.some.inj (hd'.symm.trans hd)
        split
        · exact Or.inl (.refl s)
        · rename_i hle
          split
          · exact Or.inl (.refl s)
          · rename_i hfree
            split
            · exact Or.inl (.refl s)
            · rename_i hknown
              split
              · exact Or.inl (.refl s)
              · rename_i hmate
                have hq := quiet_foldl (s := s) (f := remmaterials cfg) (fun _ _ => quiet_remmaterials)
                  (l := mateinfo (number.getD 1) ((strtoarr bpid).flatMap fun b =>
                    ((cfg.blueprint b).map Blueprint.Material).getD []) [])
                split
                · exact Or.inl hq
                · rename_i info hinfo
                  rw [Bool.not_eq_true', Bool.not_eq_false] at hknown hmate
                  have hls := lists_of_blueprint hl
                  have hcastable : Castable cfg s bpid (number.getD 1)
                      (if bpid.length = 18 then name else none) :=
                    ⟨⟨key, d', hls ▸ hkey, hls ▸ hd, by omega⟩, by omega, hknown, hmate, by rw [hinfo]; rfl⟩
                  exact Or.inr ⟨bpid, l, key, d', info, _, rfl, hl, hd, hid, by omega, hcastable, hq, rfl⟩

theorem Inv.bqid_fresh (hi : Inv cfg s) : s.rows (s.bqid + 1) = none := by
  by_contra h
  obtain ⟨row, hrow⟩ := Option.ne_none_iff_exists'.mp h
  have := (hi.row _ row hrow).1
  omega

/-- **A new casting.** -/
theorem Inv.cast (hi : Inv cfg s) (hl : s.blueprint = some l) (hd : l.blueprintinfo[key]? = some d)
    (hpos : 0 < n) (hle : n ≤ d.number) (hrow : Cast cfg s row) (hid : row.sponsorid = d.id) :
    Inv cfg (s.cast row (casted s row key n l)) ∧
      ∀ id, (s.cast row (casted s row key n l)).total id = s.total id := by
  have hls := lists_of_blueprint hl
  have hfresh := hi.bqid_fresh
  obtain ⟨d', hd'⟩ : ∃ d' : Entry,
      (Into.casting (s.bqid + 1) row.starttime row.endtime).entry d.id n d.name = d' := ⟨_, rfl⟩
  -- the queue id is new, so no entry is merged with: one is appended
  have hing : (casted s row key n l).blueprinting = l.blueprinting ++ [d'] := by
    have hnone : get_blueprint (some d.id) l.blueprinting d.name (some (s.bqid + 1)) = none := by
      by_contra hsome
      obtain ⟨j, hj⟩ := Option.ne_none_iff_exists'.mp hsome
      obtain ⟨c, hc, hcb⟩ := get_blueprint_some hj
      have hmem : c ∈ s.lists.blueprinting := hls ▸ List.mem_of_getElem? hc
      obtain ⟨b, row', hb, hrow', -, -⟩ := hi.entry hmem
      have hno := hi.noaward c hmem
      rcases hcb with hcb | hcb
      · rw [hcb] at hb
        obtain rfl := Option.some.inj hb
        rw [hfresh] at hrow'
        cases hrow'
      · rw [hno] at hcb
        cases hcb
    simp only [casted, removeto_blueprint, hd, change_blueprint, Into.tab, hnone, ← hd']
  have hinfo : (casted s row key n l).blueprintinfo = remove_number l.blueprintinfo key n := by
    simp only [casted, removeto_blueprint, hd]
  have hkey : d'.bqid = some (s.bqid + 1) := by rw [← hd']; rfl
  have hnumber : d'.number = n := by rw [← hd']; rfl
  have hdid : d'.id = d.id := by rw [← hd']; rfl
  have hcasts : Casts d' row := by
    rw [← hd']
    exact ⟨hid.symm, rfl, rfl⟩
  rw [← hls] at hd
  have hrows : ∀ b, b ≠ s.bqid + 1 → (s.cast row (casted s row key n l)).rows b = s.rows b :=
    fun b hb => Function.update_of_ne hb _ _
  have hself : (s.cast row (casted s row key n l)).rows (s.bqid + 1) = some row :=
    Function.update_self ..
  have hlive : ∀ b, ((s.rows b).isSome ∨ b = s.bqid + 1) ↔
      ((s.cast row (casted s row key n l)).rows b).isSome := fun _ => isSome_insert
  refine ⟨⟨?_, ?_, ?_, ?_, ?_, ?_, fun b r hr => ?_, fun c hc b r hcb hr => ?_, fun c hc => ?_, ?_,
    fun b => ?_, ?_, hi.award, hi.endcasting, hi.endnodup, hi.endscan⟩, fun id => ?_⟩
  · exact hls ▸ hi.newblueprint
  · change Positive (casted s row key n l).blueprintinfo
    rw [hinfo, ← hls]
    exact positive_remove_number hd hi.blueprintinfo hle
  · change Positive (casted s row key n l).blueprinting
    rw [hing, positive_append, ← hls]
    exact ⟨hi.blueprinting, by simpa [hnumber] using hpos⟩
  · exact hls ▸ hi.blueprintend
  · change Each _ _ (casted s row key n l).blueprinting
    rw [hing, ← hls]
    exact (hi.running.append (by simp [hfresh]) hkey).congr hlive
  · exact hls ▸ hi.unreceived
  · by_cases hb : b = s.bqid + 1
    · subst hb
      obtain rfl : row = r := Option.some.inj (hself.symm.trans hr)
      exact ⟨le_rfl, hrow.later le_rfl⟩
    · rw [hrows b hb] at hr
      obtain ⟨hble, hc⟩ := hi.row b r hr
      exact ⟨Nat.le_succ_of_le hble, hc.later le_rfl⟩
  · change c ∈ (casted s row key n l).blueprinting at hc
    rw [hing, ← hls] at hc
    rcases List.mem_append.mp hc with hc | hc
    · -- an older entry has an older queue id, whose row is untouched
      obtain ⟨b', r', hb', hr', -, hcasts'⟩ := hi.entry hc
      obtain rfl : b' = b := Option.some.inj (hb'.symm.trans hcb)
      have hne : b' ≠ s.bqid + 1 := by
        rintro rfl
        rw [hfresh] at hr'
        cases hr'
      rw [hrows b' hne, hr'] at hr
      exact Option.some.inj hr ▸ hcasts'
    · obtain rfl := List.mem_singleton.mp hc
      obtain rfl : s.bqid + 1 = b := Option.some.inj (hkey.symm.trans hcb)
      exact Option.some.inj (hself.symm.trans hr) ▸ hcasts
  · change c ∈ (casted s row key n l).blueprinting at hc
    rw [hing, ← hls] at hc
    rcases List.mem_append.mp hc with hc | hc
    · exact hi.noaward c hc
    · rw [List.mem_singleton.mp hc, ← hd']
      rfl
  · exact hls ▸ hi.noqueue
  · rw [← hlive b]
    change _ ↔ b ∈ s.ingcasting ++ [s.bqid + 1]
    rw [List.mem_append, List.mem_singleton, hi.ingcasting]
  · refine nodup_concat hi.ingnodup fun hmem => ?_
    rw [← hi.ingcasting, hfresh] at hmem
    cases hmem
  · have hnew : (casted s row key n l).newblueprint = s.lists.newblueprint := by rw [hls]; rfl
    have hend : (casted s row key n l).blueprintend = s.lists.blueprintend := by rw [hls]; rfl
    have htotal : (s.cast row (casted s row key n l)).total id =
        copies id (casted s row key n l).newblueprint + copies id (casted s row key n l).blueprintinfo +
          copies id (casted s row key n l).blueprinting +
          copies id (casted s row key n l).blueprintend := rfl
    rw [htotal, hnew, hend, hinfo, hing, ← hls, copies_remove_number hd hle, copies_append, State.total]
    simp only [copies_cons, copies_nil, hdid, hnumber]
    omega

/-! ## addspeed -/

/-- A queue and its entry with a new end time. -/
def State.speed (s : State) (b : ℕ) (row : Row) (l : Lists) (key : ℕ) (endtime : ℤ) : State :=
  { s with
    rows := Function.update s.rows b (some { row with endtime := endtime })
    blueprint := some { l with
      blueprinting := l.blueprinting.modify key fun c => { c with endtime := some endtime } } }

theorem Inv.speed {endtime : ℤ} (hi : Inv cfg s) (hl : s.blueprint = some l) (hrow : s.rows b = some row)
    (hd : l.blueprinting[key]? = some d) (hb : d.bqid = some b) :
    Inv cfg (s.speed b row l key endtime) ∧
      ∀ id, (s.speed b row l key endtime).total id = s.total id := by
  have hls := lists_of_blueprint hl
  obtain ⟨hble, hcast⟩ := hi.row b row hrow
  rw [← hls] at hd
  have hmem := List.mem_of_getElem? hd
  obtain ⟨pre, post, hsplit, -, hmod⟩ := split_at hd
  have hrows : ∀ j, j ≠ b → Function.update s.rows b (some { row with endtime := endtime }) j =
      s.rows j := fun j hj => Function.update_of_ne hj _ _
  have hself : Function.update s.rows b (some { row with endtime := endtime }) b =
      some { row with endtime := endtime } := Function.update_self ..
  have hlive : ∀ j, (s.rows j).isSome ↔
      (Function.update s.rows b (some { row with endtime := endtime }) j).isSome := by
    intro j
    by_cases hj : j = b
    · subst hj
      simp [hrow]
    · rw [hrows j hj]
  have hing : (s.speed b row l key endtime).lists.blueprinting =
      pre ++ { d with endtime := some endtime } :: post := by
    change l.blueprinting.modify key _ = _
    rw [← hls, hmod]
  -- only the entry of the queue has its id
  have hone : ∀ c ∈ pre ++ post, c.bqid ≠ some b := by
    have hrun := hi.running
    rw [hsplit] at hrun
    exact hrun.others hb
  have hold : ∀ c ∈ pre ++ post, c ∈ s.lists.blueprinting := by
    intro c hc
    rw [hsplit]
    rcases List.mem_append.mp hc with hc | hc <;> simp [hc]
  have hcases : ∀ c ∈ pre ++ { d with endtime := some endtime } :: post,
      c ∈ pre ++ post ∨ c = { d with endtime := some endtime } := by
    intro c hc
    rcases List.mem_append.mp hc with hc | hc
    · exact Or.inl (List.mem_append_left _ hc)
    · rcases List.mem_cons.mp hc with hc | hc
      · exact Or.inr hc
      · exact Or.inl (List.mem_append_right _ hc)
  refine ⟨⟨?_, ?_, fun c hc => ?_, ?_, ?_, ?_, fun j r hr => ?_, fun c hc j r hcj hr => ?_,
    fun c hc => ?_, ?_, fun j => ?_, hi.ingnodup, hi.award, hi.endcasting, hi.endnodup, hi.endscan⟩,
    fun id => ?_⟩
  · exact hls ▸ hi.newblueprint
  · exact hls ▸ hi.blueprintinfo
  · rw [hing] at hc
    rcases hcases c hc with hc | rfl
    · exact hi.blueprinting c (hold c hc)
    · exact hi.blueprinting d hmem
  · exact hls ▸ hi.blueprintend
  · have hrun := hi.running
    rw [hsplit] at hrun
    have hrun' : Each Entry.bqid (fun j => (s.rows j).isSome)
        (pre ++ { d with endtime := some endtime } :: post) := hrun.modify rfl
    rw [hing]
    exact hrun'.congr hlive
  · exact hls ▸ hi.unreceived
  · by_cases hj : j = b
    · subst hj
      obtain rfl : { row with endtime := endtime } = r := Option.some.inj (hself.symm.trans hr)
      exact ⟨hble, hcast.type, hcast.playerid, hcast.bprewardlist, hcast.started, hcast.known⟩
    · obtain ⟨hle, hc⟩ := hi.row j r ((hrows j hj).symm.trans hr)
      exact ⟨hle, hc.later le_rfl⟩
  · rw [hing] at hc
    rcases hcases c hc with hc | rfl
    · have hne : j ≠ b := by
        rintro rfl
        exact hone c hc hcj
      exact hi.casts c (hold c hc) j r hcj ((hrows j hne).symm.trans hr)
    · obtain rfl : b = j := Option.some.inj (hb.symm.trans hcj)
      obtain rfl : { row with endtime := endtime } = r := Option.some.inj (hself.symm.trans hr)
      have hc := hi.casts d hmem b row hb hrow
      exact ⟨hc.id, hc.begintime, rfl⟩
  · rw [hing] at hc
    rcases hcases c hc with hc | rfl
    · exact hi.noaward c (hold c hc)
    · exact hi.noaward d hmem
  · exact hls ▸ hi.noqueue
  · exact (hlive j).symm.trans (hi.ingcasting j)
  · have hnew : (s.speed b row l key endtime).lists.newblueprint = s.lists.newblueprint := by
      rw [hls]
      rfl
    have hinfo : (s.speed b row l key endtime).lists.blueprintinfo = s.lists.blueprintinfo := by
      rw [hls]
      rfl
    have hend : (s.speed b row l key endtime).lists.blueprintend = s.lists.blueprintend := by
      rw [hls]
      rfl
    rw [State.total, State.total, hnew, hinfo, hend, hing, hsplit]
    simp only [copies_append, copies_cons]

/-- **An `addspeed` that does not bring the casting to its end.** -/
theorem Inv.addspeed {bqid : Option ℕ} {time propid : Option ℤ} (hi : Inv cfg s)
    (hclear : Clear cfg s (.addspeed bqid time propid)) :
    Inv cfg (addspeed s bqid time propid).1 ∧
      Conserves cfg s (.addspeed bqid time propid) (addspeed s bqid time propid).1 := by
  have hquiet : Inv cfg s ∧ Conserves cfg s (.addspeed bqid time propid) s :=
    ⟨hi, (Quiet.refl s).conserves fun _ => rfl⟩
  unfold Scan.addspeed
  split
  · rename_i b time x
    split
    · exact hquiet
    · exact hquiet
    · rename_i row l hrow hl
      split
      · exact hquiet
      · rename_i key hkey
        obtain ⟨key', d, hkey', hd, hb⟩ := hi.found none none
          (lists_of_blueprint hl) hrow
        obtain rfl : key' = key := Option.some.inj (hkey'.symm.trans hkey)
        have hnow : s.now < row.endtime - time * 60 := hclear row hrow
        have hsped : sendspeed s b row (time * 60) =
            (State.mk s.now s.blueprint s.materials
                (Function.update s.rows b (some { row with endtime := row.endtime - time * 60 }))
                s.bqid s.ingcasting s.endcasting s.ingscan s.endscan s.maxcasting s.awards s.awardid
                s.machines s.given,
              row.endtime - time * 60) := by
          unfold sendspeed
          simp only
          rw [if_neg (by omega)]
        rw [hsped]
        simp only [hl, Option.map_some]
        obtain ⟨hinv, htotal⟩ := hi.speed hl hrow hd hb
        refine ⟨hinv, fun id => ?_⟩
        have hc : consumed s (s.speed b row l key' (row.endtime - time * 60)) id = 0 :=
          consumed_eq_zero fun _ h => h
        change (s.speed b row l key' (row.endtime - time * 60)).total id = s.total id + 0 -
          consumed s (s.speed b row l key' (row.endtime - time * 60)) id - 0
        rw [htotal id, hc]
        omega
  · exact hquiet

/-! ## onbq_completed -/

/-- The blueprints are there while a casting runs. -/
theorem Inv.blueprint_of_row (hi : Inv cfg s) (hrow : s.rows b = some row) :
    ∃ l, s.blueprint = some l := by
  cases hl : s.blueprint with
  | some l => exact ⟨l, rfl⟩
  | none =>
    have hone := hi.running.one b (by simp [hrow])
    simp [State.lists, hl] at hone

/-- A casting at its end. -/
def State.ended (s : State) (b : ℕ) (row : Row) (l : Lists) (key : ℕ) (d : Entry) : State :=
  { s with
    awardid := s.awardid + 1
    blueprint := some { l with
      blueprintend := l.blueprintend ++ [d]
      blueprinting := l.blueprinting.eraseIdx key }
    awards := Function.update s.awards (s.awardid + 1) (some (row.award (s.awardid + 1)))
    ingcasting := s.ingcasting.erase b
    endcasting := s.endcasting ++ [s.awardid + 1]
    rows := Function.update s.rows b none }

/-- **A casting comes to its end**: its entry goes to the finished ones. -/
theorem Inv.completed (hi : Inv cfg s) (b : ℕ) : Inv cfg (onbq_completed s b) ∧
    Conserves cfg s (.completed b) (onbq_completed s b) := by
  cases hrow : s.rows b with
  | none =>
    -- no such row: the message is ignored
    have hstate : onbq_completed s b = s := by simp only [onbq_completed, hrow]
    rw [hstate]
    exact ⟨hi, (Quiet.refl s).conserves fun _ => rfl⟩
  | some row =>
    obtain ⟨l, hl⟩ := hi.blueprint_of_row hrow
    have hls := lists_of_blueprint hl
    obtain ⟨hble, hcast⟩ := hi.row b row hrow
    obtain ⟨key, d, hkey, hd, hb⟩ := hi.found (some row.sponsorid) none hls hrow
    have hmem : b ∈ s.ingcasting := (hi.ingcasting b).mp (by simp [hrow])
    obtain ⟨d', hd'⟩ : ∃ d' : Entry,
        (Into.ending (s.awardid + 1)).entry row.sponsorid d.number d.name = d' := ⟨_, rfl⟩
    have hstate : onbq_completed s b = s.ended b row l key d' := by
      simp only [onbq_completed, hrow, hcast.type, hl, removeto_end, hkey, hd, hd',
        Queue.remove_array, hmem, if_true, State.ended]
    rw [hstate]
    rw [← hls] at hd
    obtain ⟨pre, post, hsplit, herase, -⟩ := split_at hd
    have hdmem := List.mem_of_getElem? hd
    have hcasts := hi.casts d hdmem b row hb hrow
    have hfresh : s.awards (s.awardid + 1) = none := by
      by_contra h
      obtain ⟨aw, haw⟩ := Option.ne_none_iff_exists'.mp h
      have := (hi.award _ aw haw).1
      omega
    have hrows : ∀ j, j ≠ b → Function.update s.rows b none j = s.rows j :=
      fun j hj => Function.update_of_ne hj _ _
    have hself : Function.update s.rows b none b = none := Function.update_self ..
    have hawards : ∀ j, j ≠ s.awardid + 1 → Function.update s.awards (s.awardid + 1)
        (some (row.award (s.awardid + 1))) j = s.awards j := fun j hj => Function.update_of_ne hj _ _
    have haself : Function.update s.awards (s.awardid + 1) (some (row.award (s.awardid + 1)))
        (s.awardid + 1) = some (row.award (s.awardid + 1)) := Function.update_self ..
    have hlive : ∀ j, ((s.rows j).isSome ∧ j ≠ b) ↔ ((s.ended b row l key d').rows j).isSome :=
      fun _ => isSome_erase
    have halive : ∀ j, ((s.awards j).isSome ∨ j = s.awardid + 1) ↔
        ((s.ended b row l key d').awards j).isSome := fun _ => isSome_insert
    -- each row has one entry, so erasing it leaves exactly the other rows
    have hrun : Each Entry.bqid (fun j => (s.rows j).isSome ∧ j ≠ b)
        (s.lists.blueprinting.eraseIdx key) := by
      have hrun := hi.running
      rw [hsplit] at hrun
      rw [herase]
      exact hrun.erase hb
    refine ⟨⟨?_, ?_, ?_, ?_, ?_, ?_, fun j r hr => ?_, fun c hc j r hcj hr => ?_, fun c hc => ?_,
      fun c hc => ?_, fun j => ?_, hi.ingnodup.erase b, fun j aw haw => ?_, fun j => ?_, ?_,
      hi.endscan⟩, fun id => ?_⟩
    · exact hls ▸ hi.newblueprint
    · exact hls ▸ hi.blueprintinfo
    · exact hls ▸ positive_eraseIdx hi.blueprinting
    · change Positive (l.blueprintend ++ [d'])
      rw [positive_append, ← hls, ← hd']
      exact ⟨hi.blueprintend, by simpa [Into.entry] using hi.blueprinting d hdmem⟩
    · exact hls ▸ hrun.congr hlive
    · change Each _ _ (l.blueprintend ++ [d'])
      rw [← hls]
      exact (hi.unreceived.append (by simp [hfresh]) (by rw [← hd']; rfl)).congr halive
    · have hne : j ≠ b := by
        rintro rfl
        cases hself.symm.trans hr
      obtain ⟨hle, hc⟩ := hi.row j r ((hrows j hne).symm.trans hr)
      exact ⟨hle, hc.later le_rfl⟩
    · have hne : j ≠ b := by
        rintro rfl
        cases hself.symm.trans hr
      exact hi.casts c (hls ▸ List.mem_of_mem_eraseIdx hc) j r hcj ((hrows j hne).symm.trans hr)
    · exact hi.noaward c (hls ▸ List.mem_of_mem_eraseIdx hc)
    · rcases List.mem_append.mp hc with hc | hc
      · exact hi.noqueue c (hls ▸ hc)
      · rw [List.mem_singleton.mp hc, ← hd']
        rfl
    · change _ ↔ j ∈ s.ingcasting.erase b
      rw [← hlive j, hi.ingnodup.mem_erase_iff, hi.ingcasting]
      exact And.comm
    · by_cases hj : j = s.awardid + 1
      · subst hj
        obtain rfl := Option.some.inj (haself.symm.trans haw)
        exact ⟨le_rfl, hcast.bprewardlist⟩
      · obtain ⟨hle, hnil⟩ := hi.award j aw ((hawards j hj).symm.trans haw)
        exact ⟨Nat.le_succ_of_le hle, hnil⟩
    · change _ ↔ j ∈ s.endcasting ++ [s.awardid + 1]
      rw [← halive j, List.mem_append, List.mem_singleton, hi.endcasting]
    · refine nodup_concat hi.endnodup fun hmem => ?_
      rw [← hi.endcasting, hfresh] at hmem
      cases hmem
    · -- the copies move from `blueprinting` to `blueprintend`; no award goes
      have hc : consumed s (s.ended b row l key d') id = 0 :=
        consumed_eq_zero fun j hj => (halive j).mp (Or.inl hj)
      have hid : d'.id = d.id ∧ d'.number = d.number := by
        rw [← hd', hcasts.id]
        exact ⟨rfl, rfl⟩
      have hcopies : copies id (l.blueprinting.eraseIdx key) =
          copies id l.blueprinting - if d.id = id then d.number else 0 := by
        rw [← hls, herase, hsplit]
        simp only [copies_append, copies_cons]
        omega
      have htotal : (s.ended b row l key d').total id = copies id l.newblueprint +
          copies id l.blueprintinfo + copies id (l.blueprinting.eraseIdx key) +
          copies id (l.blueprintend ++ [d']) := rfl
      rw [hc, htotal, State.total, hls, hcopies]
      simp only [copies_append, copies_cons, copies_nil, hid.1, hid.2, added, finished]
      omega

end Scan

end Athena
