import Athena.Scan.Requests
import Mathlib.Tactic.FieldSimp
import Mathlib.Tactic.Linarith
/-!
# Blueprints — a casting is cancelled

The copies that are not finished go back, the others are given out, and the
entry is gone. A casting that is still under way has at least one copy that is
not finished.
-/

namespace Athena

namespace Scan

open Lua (Str)
open Queue (Row Award BpReward PropReward EquipReward)

variable {cfg : Config} {s t u : State} {l : Lists} {b key : ℕ} {d : Entry} {row : Row} {n k : ℤ}
  {bpid : Str}

/-! ## The part that is not finished -/

/-- **The copies that are not finished** are between none and all: none after
the end, and not none before it. -/
theorem unfinished_spec {now begintime : ℤ} (endtime : ℤ) (hnow : begintime ≤ now) (hn : 0 < n) :
    0 ≤ unfinished now begintime endtime n ∧ unfinished now begintime endtime n ≤ n ∧
      (now < endtime → 0 < unfinished now begintime endtime n) ∧
      (endtime ≤ now → unfinished now begintime endtime n = 0) := by
  unfold unfinished
  rcases Int.lt_or_le now endtime with hend | hend
  · have hlen : (0 : ℚ) < ((endtime - begintime : ℤ) : ℚ) := by
      exact_mod_cast Int.sub_pos.mpr (lt_of_le_of_lt hnow hend)
    have hnq : (0 : ℚ) < (n : ℚ) := by exact_mod_cast hn
    have hmax : max 0 (endtime - now) = endtime - now := by omega
    have hpos : (0 : ℚ) < ((endtime - now : ℤ) : ℚ) := by
      exact_mod_cast Int.sub_pos.mpr hend
    have hle : ((endtime - now : ℤ) : ℚ) ≤ ((endtime - begintime : ℤ) : ℚ) := by
      exact_mod_cast Int.sub_le_sub_left hnow endtime
    rw [hmax]
    have hceil : 0 < ⌈((endtime - now : ℤ) : ℚ) / ((endtime - begintime : ℤ) : ℚ) * (n : ℚ)⌉ :=
      Int.ceil_pos.mpr (mul_pos (div_pos hpos hlen) hnq)
    refine ⟨hceil.le, Int.ceil_le.mpr ?_, fun _ => hceil, fun h => by omega⟩
    exact mul_le_of_le_one_left hnq.le ((div_le_one hlen).mpr hle)
  · have hmax : max 0 (endtime - now) = 0 := by omega
    rw [hmax, Int.cast_zero, zero_div, zero_mul, Int.ceil_zero]
    exact ⟨le_rfl, hn.le, fun h => by omega, fun _ => rfl⟩

/-- After the end doubles do not miss it. -/
theorem notfinishnum_end {now begintime endtime : ℤ} (hne : begintime ≠ endtime) (hend : endtime ≤ now) :
    notfinishnum now begintime endtime n = some (unfinished now begintime endtime n) := by
  have hmax : max 0 (endtime - now) = 0 := by omega
  rw [notfinishnum, if_neg hne.symm, unfinished, hmax]
  simp

/-- Before it they may: with a little more than seven of 25 copies left by doubles, it is eight. -/
example : notfinishnum 518400 0 720000 25 = some 8 ∧ unfinished 518400 0 720000 25 = 7 := by
  decide +kernel

/-! ## cancelcasting -/

theorem foldl_addmaterials {α : Type} {cfgid : α → Str} {number : α → ℤ} {l : List α} :
    ∃ m, l.foldl (fun s x => (addmaterials cfg (cfgid x) (number x) s).2) s =
      { s with materials := m } := by
  induction l generalizing s with
  | nil => exact ⟨s.materials, rfl⟩
  | cons a l ih =>
    obtain ⟨m, hm⟩ := addmaterials_snd cfg s (cfgid a) (number a)
    obtain ⟨m', hm'⟩ := ih (s := { s with materials := m })
    refine ⟨m', ?_⟩
    rw [List.foldl_cons, hm, hm']

/-- Materials are all that comes back. -/
theorem returnmaterials_eq (cfg : Config) (n : ℤ) (bpid : Str) (s : State) :
    ∃ m, returnmaterials cfg n bpid s = { s with materials := m } :=
  foldl_addmaterials

/-- A casting that is gone: its entry is taken and its copies are among the
normal ones. -/
def State.withdraw (s : State) (b : ℕ) (l : Lists) (key : ℕ) (info : List Entry) : State :=
  { s with
    ingcasting := s.ingcasting.erase b
    rows := Function.update s.rows b none
    blueprint := some { l with
      blueprintinfo := info
      blueprinting := l.blueprinting.eraseIdx key } }

/-- **A cancelled casting** leaves its copies that are not finished. -/
theorem Inv.withdraw (hi : Inv cfg s) (hl : s.blueprint = some l) (hrow : s.rows b = some row)
    (hd : l.blueprinting[key]? = some d) (hb : d.bqid = some b)
    (hk : 0 < numberof l.blueprintinfo d.id d.name + k) :
    Inv cfg (s.withdraw b l key (change_blueprint d.id d.name l.blueprintinfo k .normal)) ∧
      ∀ id, (s.withdraw b l key (change_blueprint d.id d.name l.blueprintinfo k .normal)).total id =
        s.total id - if d.id = id then d.number - k else 0 := by
  obtain ⟨info, hinfo⟩ : ∃ info, change_blueprint d.id d.name l.blueprintinfo k .normal = info :=
    ⟨_, rfl⟩
  have hls := lists_of_blueprint hl
  have hpos : Positive info := by
    rw [← hinfo]
    exact positive_change_blueprint (hls ▸ hi.blueprintinfo) hk
  have hcopies : ∀ id, copies id info = copies id l.blueprintinfo + if d.id = id then k else 0 := by
    rw [← hinfo]
    exact fun _ => copies_change_blueprint
  rw [hinfo]
  rw [← hls] at hd
  obtain ⟨pre, post, hsplit, herase, -⟩ := split_at hd
  have hrows : ∀ j, j ≠ b → Function.update s.rows b none j = s.rows j :=
    fun j hj => Function.update_of_ne hj _ _
  have hself : Function.update s.rows b none b = none := Function.update_self ..
  have hlive : ∀ j, ((s.rows j).isSome ∧ j ≠ b) ↔ ((s.withdraw b l key info).rows j).isSome :=
    fun _ => isSome_erase
  have hrun : Each Entry.bqid (fun j => (s.rows j).isSome ∧ j ≠ b)
      (s.lists.blueprinting.eraseIdx key) := by
    have hrun := hi.running
    rw [hsplit] at hrun
    rw [herase]
    exact hrun.erase hb
  have hne : ∀ j r, Function.update s.rows b none j = some r → j ≠ b := by
    rintro j r hr rfl
    cases hself.symm.trans hr
  refine ⟨⟨?_, hpos, ?_, ?_, ?_, ?_, fun j r hr => ?_, fun c hc j r hcj hr => ?_, fun c hc => ?_, ?_,
    fun j => ?_, hi.ingnodup.erase b, hi.award, hi.endcasting, hi.endnodup, hi.endscan⟩, fun id => ?_⟩
  · exact hls ▸ hi.newblueprint
  · exact hls ▸ positive_eraseIdx hi.blueprinting
  · exact hls ▸ hi.blueprintend
  · exact hls ▸ hrun.congr hlive
  · exact hls ▸ hi.unreceived
  · obtain ⟨hle, hc⟩ := hi.row j r ((hrows j (hne j r hr)).symm.trans hr)
    exact ⟨hle, hc.later le_rfl⟩
  · have hold := (hrows j (hne j r hr)).symm.trans hr
    exact hi.casts c (hls ▸ List.mem_of_mem_eraseIdx hc) j r hcj hold
  · exact hi.noaward c (hls ▸ List.mem_of_mem_eraseIdx hc)
  · exact hls ▸ hi.noqueue
  · change _ ↔ j ∈ s.ingcasting.erase b
    rw [← hlive j, hi.ingnodup.mem_erase_iff, hi.ingcasting]
    exact And.comm
  · have htotal : (s.withdraw b l key info).total id = copies id l.newblueprint + copies id info +
        copies id (l.blueprinting.eraseIdx key) + copies id l.blueprintend := rfl
    have htaken : copies id (l.blueprinting.eraseIdx key) =
        copies id l.blueprinting - if d.id = id then d.number else 0 := by
      rw [← hls, herase, hsplit]
      simp only [copies_append, copies_cons]
      omega
    rw [htotal, htaken, hcopies, State.total, hls]
    split <;> omega

/-- What a cancelled casting finished is in its entry. -/
theorem Inv.finished_cancel (hi : Inv cfg s) (hrow : s.rows b = some row) (ht : t.rows b = none)
    (hd : s.lists.blueprinting[key]? = some d) (hb : d.bqid = some b) (id : Str) :
    finished s t (.cancelcasting (some b)) id = if d.id = id then finishedpart s.now d else 0 := by
  obtain ⟨pre, post, hsplit, -, -⟩ := split_at hd
  have hrun := hi.running
  rw [hsplit] at hrun
  have hfilter : s.lists.blueprinting.filter (fun d => d.bqid = some b) = [d] := by
    rw [hsplit]
    exact hrun.filter_eq hb (by simp [hb]) fun c _ hc => by simp [hc]
  simp only [finished]
  rw [if_pos (by simp [hrow, ht]), hfilter]
  simp

/-- **`cancelcasting` where a normal entry is left for its copies.** -/
theorem Inv.cancelcasting {bqid : Option ℕ} (hi : Inv cfg s)
    (hclear : Clear cfg s (.cancelcasting bqid)) : Inv cfg (cancelcasting cfg s bqid).1 ∧
      Conserves cfg s (.cancelcasting bqid) (cancelcasting cfg s bqid).1 := by
  have hquiet : ∀ t, Quiet s t → Inv cfg t ∧ Conserves cfg s (.cancelcasting bqid) t :=
    fun t h => ⟨hi.quiet h, h.conserves fun _ => rfl⟩
  cases bqid with
  | none => exact hquiet s (.refl s)
  | some b =>
    cases hrow : s.rows b with
    | none =>
      have hstate : (Scan.cancelcasting cfg s (some b)).1 = s := by simp only [Scan.cancelcasting, hrow]
      rw [hstate]
      exact hquiet s (.refl s)
    | some row =>
      obtain ⟨l, hl⟩ := hi.blueprint_of_row hrow
      have hls := lists_of_blueprint hl
      obtain ⟨-, hcast⟩ := hi.row b row hrow
      obtain ⟨key, d, hkey, hd, hb⟩ := hi.found none none hls hrow
      have hd' : s.lists.blueprinting[key]? = some d := hls ▸ hd
      have hmem := List.mem_of_getElem? hd'
      have hcasts := hi.casts d hmem b row hb hrow
      have hnumber := hi.blueprinting d hmem
      obtain ⟨-, hall⟩ := hclear row hrow
      obtain ⟨hk, hnormal⟩ := hall d hmem hb
      obtain ⟨k, hkdef⟩ : ∃ k, unfinished s.now row.starttime row.endtime d.number = k := ⟨_, rfl⟩
      obtain ⟨hk0, hkn, hend, hzero⟩ := unfinished_spec row.endtime hcast.started hnumber
      rw [hkdef] at hk hk0 hkn hend hzero
      have hing : b ∈ s.ingcasting := (hi.ingcasting b).mp (by simp [hrow])
      have hpart : finishedpart s.now d = d.number - k := by
        simp only [finishedpart, hcasts.begintime, hcasts.endtime, hkdef]
      obtain ⟨got, hgot⟩ : ∃ got, (if k < d.number then get_award cfg none (row.award 0)
          (some (finishedshare d.number k)) s else (true, s)) = got := ⟨_, rfl⟩
      have hq : Quiet s got.2 := by
        rw [← hgot]
        split
        · exact kept_get_award.quiet (get_award_blueprint hcast.bprewardlist)
        · exact .refl s
      obtain ⟨m, hm⟩ := returnmaterials_eq cfg k row.sponsorid
        { got.2 with
          ingcasting := got.2.ingcasting.erase b
          rows := Function.update got.2.rows b none }
      have hstate : (Scan.cancelcasting cfg s (some b)).1 =
          if got.1 = false then got.2
          else State.withdraw { got.2 with materials := m } b l key
            (change_blueprint d.id d.name l.blueprintinfo k .normal) := by
        have hknown : ((strtoarr row.sponsorid).all fun b => (cfg.blueprint b).isSome) = true :=
          hcast.known
        simp only [Scan.cancelcasting, hrow, hcast.playerid, ne_eq, not_true_eq_false, if_false, hl, hing,
          if_true, hkey, hd, cancelentry, hcasts.begintime, hcasts.endtime, hk, hgot, cancelled, hknown,
          Bool.not_true, Bool.false_eq_true, removeto_blueprint, Bool.not_eq_true',
          remove_number_remove_number hd (hls ▸ hi.blueprinting) hkn]
        split
        · rfl
        · rw [hm]
          simp only [hq.blueprint, hl, Option.map_some]
          rfl
      rw [hstate]
      cases hsuccess : got.1 with
      | false => exact hquiet got.2 hq
      | true =>
        -- where its copies go, there is an entry for them
        have hpos : 0 < numberof l.blueprintinfo d.id d.name + k := by
          have hnonneg : 0 ≤ numberof l.blueprintinfo d.id d.name := by
            rw [← hls]
            exact numberof_nonneg hi.blueprintinfo
          rcases hnormal with h | h | h
          · have := hend h
            omega
          · have := numberof_pos hi.blueprintinfo h
            rw [hls] at this
            omega
          · rcases Int.lt_or_le s.now row.endtime with hlt | hle
            · have := hend hlt
              omega
            · rw [if_pos (by omega), hzero hle] at hgot
              have hfst := get_award_fst cfg none (row.award 0) (some (finishedshare d.number 0)) s
              rw [hgot, hsuccess, h] at hfst
              cases hfst
        have hv : Quiet s { got.2 with materials := m } := ⟨hq.blueprint, hq.rows, hq.ingcasting,
          hq.awards, hq.endcasting, hq.endscan, hq.now, hq.bqid, hq.awardid⟩
        obtain ⟨v, hve⟩ : ∃ v : State, { got.2 with materials := m } = v := ⟨_, rfl⟩
        rw [hve] at hv ⊢
        obtain ⟨hinv, htotal⟩ := (hi.quiet hv).withdraw (hv.blueprint.trans hl)
          ((congrFun hv.rows b).trans hrow) hd hb hpos
        refine ⟨hinv, fun id => ?_⟩
        have hgone : (v.withdraw b l key
            (change_blueprint d.id d.name l.blueprintinfo k .normal)).rows b = none :=
          Function.update_self ..
        rw [if_neg (by simp), htotal, hi.finished_cancel hrow hgone hd' hb, hpart,
          consumed_eq_zero fun a ha => ?_]
        · rw [State.total, State.total, hv.lists]
          simp only [added]
          omega
        · change (v.awards a).isSome
          rwa [hv.awards]

end Scan

end Athena
