import Athena.Scan.Cancel
/-!
# Blueprints — an award is received

A casting that was received takes its entry out of the finished ones, where it
is for one copy. `receiveallcast` does nothing where it finds no award to
receive.
-/

namespace Athena

namespace Scan

open Lua (Str)
open Queue (Row Award BpReward PropReward EquipReward)

variable {cfg : Config} {s t u : State} {l : Lists} {a key : ℕ} {d : Entry} {award : Award} {bpid : Str}

/-! ## remove_array -/

theorem remove_array_of_not_mem {ids : List ℕ} (h : a ∉ ids) : remove_array ids a = ids := by
  fun_induction remove_array ids a with
  | case1 => rfl
  | case2 => simp at h
  | case3 => simp at h
  | case4 b l a hb ih => rw [ih (List.not_mem_of_not_mem_cons h)]

/-- **An id that is there once is removed.** -/
theorem remove_array_eq {ids : List ℕ} (h : ids.Nodup) : remove_array ids a = ids.erase a := by
  fun_induction remove_array ids a with
  | case1 => rfl
  | case2 => simp
  | case3 a b l ih =>
    have hnot : a ∉ l := fun hmem => (List.nodup_cons.mp h).1 (List.mem_cons_of_mem b hmem)
    rw [remove_array_of_not_mem hnot, List.erase_cons_head]
  | case4 b l a hb ih =>
    rw [ih (List.nodup_cons.mp h).2, List.erase_cons_tail (by simpa using hb)]

/-! ## receivecasting -/

/-- The entry of an award is found. -/
theorem Inv.foundend (hi : Inv cfg s) (id name : Option Str) (ha : s.awards a = some award) :
    ∃ l key d, s.blueprint = some l ∧ get_blueprint id l.blueprintend name (some a) = some key ∧
      l.blueprintend[key]? = some d ∧ d.awardid = some a := by
  have hone := hi.unreceived.one a (by simp [ha])
  obtain ⟨d, hd, hda⟩ := List.countP_pos_iff.mp (by rw [hone]; exact Nat.one_pos)
  obtain ⟨key, hkey⟩ := exists_get_blueprint id name hd
    (Or.inr (of_decide_eq_true hda))
  cases hl : s.blueprint with
  | none => simp [State.lists, hl] at hd
  | some l =>
    rw [lists_of_blueprint hl] at hkey
    obtain ⟨d', hd', ha'⟩ := get_blueprint_some hkey
    refine ⟨l, key, d', rfl, hkey, hd', ha'.resolve_left fun hb => ?_⟩
    have hmem : d' ∈ s.lists.blueprintend := lists_of_blueprint hl ▸ List.mem_of_getElem? hd'
    cases (hi.noqueue d' hmem).symm.trans hb

/-- An award that is gone, with its entry. -/
def State.receive (s : State) (a : ℕ) (l : Lists) (key : ℕ) : State :=
  { s with
    blueprint := some { l with blueprintend := l.blueprintend.eraseIdx key }
    endcasting := s.endcasting.erase a
    awards := Function.update s.awards a none }

/-- **A received award takes its entry.** -/
theorem Inv.receive (hi : Inv cfg s) (hl : s.blueprint = some l) (ha : s.awards a = some award)
    (hd : l.blueprintend[key]? = some d) (hda : d.awardid = some a) :
    Inv cfg (s.receive a l key) ∧ ∀ id,
      (s.receive a l key).total id = s.total id - (if d.id = id then d.number else 0) := by
  have hls := lists_of_blueprint hl
  rw [← hls] at hd
  obtain ⟨pre, post, hsplit, herase, -⟩ := split_at hd
  have hlive : ∀ j, ((s.awards j).isSome ∧ j ≠ a) ↔ ((s.receive a l key).awards j).isSome :=
    fun _ => isSome_erase
  have hrun : Each Entry.awardid (fun j => (s.awards j).isSome ∧ j ≠ a)
      (s.lists.blueprintend.eraseIdx key) := by
    have hrun := hi.unreceived
    rw [hsplit] at hrun
    rw [herase]
    exact hrun.erase hda
  refine ⟨⟨?_, ?_, ?_, ?_, ?_, ?_, fun b row hrow => ?_, ?_, ?_, fun c hc => ?_, hi.ingcasting,
    hi.ingnodup, fun j aw haw => ?_, fun j => ?_, hi.endnodup.erase a, hi.endscan⟩, fun id => ?_⟩
  · exact hls ▸ hi.newblueprint
  · exact hls ▸ hi.blueprintinfo
  · exact hls ▸ hi.blueprinting
  · exact hls ▸ positive_eraseIdx hi.blueprintend
  · exact hls ▸ hi.running
  · exact hls ▸ hrun.congr hlive
  · obtain ⟨hle, hc⟩ := hi.row b row hrow
    exact ⟨hle, hc.later le_rfl⟩
  · exact hls ▸ hi.casts
  · exact hls ▸ hi.noaward
  · exact hi.noqueue c (hls ▸ List.mem_of_mem_eraseIdx hc)
  · have hne : j ≠ a := by
      rintro rfl
      cases haw.symm.trans (Function.update_self ..)
    exact hi.award j aw ((Function.update_of_ne hne _ _).symm.trans haw)
  · change _ ↔ j ∈ s.endcasting.erase a
    rw [← hlive j, hi.endnodup.mem_erase_iff, hi.endcasting]
    exact And.comm
  · have htotal : (s.receive a l key).total id = copies id l.newblueprint + copies id l.blueprintinfo +
        copies id l.blueprinting + copies id (l.blueprintend.eraseIdx key) := rfl
    have htaken : copies id (l.blueprintend.eraseIdx key) =
        copies id l.blueprintend - if d.id = id then d.number else 0 := by
      rw [← hls, herase, hsplit]
      simp only [copies_append, copies_cons]
      omega
    rw [htotal, htaken, State.total, hls]
    omega

/-- What a received award consumes is its entry. -/
theorem Inv.consumed_receive (hi : Inv cfg s) (ha : s.awards a = some award)
    (ht : t.awards = Function.update s.awards a none) (hd : s.lists.blueprintend[key]? = some d)
    (hda : d.awardid = some a) (id : Str) :
    consumed s t id = if d.id = id then d.number else 0 := by
  obtain ⟨pre, post, hsplit, -, -⟩ := split_at hd
  have hrun := hi.unreceived
  rw [hsplit] at hrun
  have hfilter : s.lists.blueprintend.filter (received s t) = [d] := by
    rw [hsplit]
    refine hrun.filter_eq hda (by simp [received, hda, ha, ht]) fun c _ hc => ?_
    cases hca : c.awardid with
    | none => simp [received, hca]
    | some j =>
      have hne : j ≠ a := by
        rintro rfl
        exact hc hca
      simp only [received, hca, ht, Function.update_of_ne hne]
      cases s.awards j <;> rfl
  rw [consumed, hfilter]
  simp

/-- An entry for one copy is taken. -/
theorem remblueprint_one (hkey : get_blueprint (some bpid) l.blueprintend none (some a) = some key)
    (hd : l.blueprintend[key]? = some d) (hone : d.number = 1) :
    remblueprint l bpid a = (true, { l with blueprintend := l.blueprintend.eraseIdx key }) := by
  have hremove : remove_number l.blueprintend key 1 = l.blueprintend.eraseIdx key := by
    rw [remove_number_eq hd (by omega), if_neg (by omega)]
  simp only [remblueprint, hkey, hd]
  rw [if_neg (by omega), hremove]

/-- **`receivecasting` of an award for one copy.** -/
theorem Inv.receivecasting {awardid : Option ℕ} (hi : Inv cfg s)
    (hclear : Clear cfg s (.receivecasting awardid)) : Inv cfg (receivecasting cfg s awardid).1 ∧
      Conserves cfg s (.receivecasting awardid) (receivecasting cfg s awardid).1 := by
  have hquiet : ∀ t, Quiet s t → Inv cfg t ∧ Conserves cfg s (.receivecasting awardid) t :=
    fun t h => ⟨hi.quiet h, h.conserves fun _ => rfl⟩
  cases awardid with
  | none => exact hquiet s (.refl s)
  | some a =>
    cases ha : s.awards a with
    | none =>
      have hstate : (Scan.receivecasting cfg s (some a)).1 = s := by
        simp only [Scan.receivecasting, ha]
      rw [hstate]
      exact hquiet s (.refl s)
    | some award =>
      have hmem : a ∈ s.endcasting := (hi.endcasting a).mp (by simp [ha])
      obtain ⟨l, key, d, hl, hkey, hd, hda⟩ := hi.foundend (some award.sponsorid) none ha
      have hd' : s.lists.blueprintend[key]? = some d := lists_of_blueprint hl ▸ hd
      have hnil := (hi.award a award ha).2
      have hq : Quiet s (get_award cfg (some a) award none s).2 :=
        kept_get_award.quiet (get_award_blueprint hnil)
      cases hfull : machinefull s award with
      | true =>
        have hstate : (Scan.receivecasting cfg s (some a)).1 = s := by
          simp only [Scan.receivecasting, ha, hmem, not_true_eq_false, if_false, hfull, if_true]
        rw [hstate]
        exact hquiet s (.refl s)
      | false =>
        cases hgot : (get_award cfg (some a) award none s).1 with
        | false =>
          have hstate : (Scan.receivecasting cfg s (some a)).1 = (get_award cfg (some a) award none s).2 := by
            simp only [Scan.receivecasting, ha, hmem, not_true_eq_false, if_false, hfull, hgot,
              Bool.not_false, if_true, Bool.false_eq_true]
          rw [hstate]
          exact hquiet _ hq
        | true =>
          have hone : d.number = 1 := by
            refine hclear ⟨award, ha, hmem, hfull, ?_⟩ d (List.mem_of_getElem? hd') hda
            rw [← get_award_fst cfg (some a) award none s, hgot]
          have hstate : (Scan.receivecasting cfg s (some a)).1 =
              (get_award cfg (some a) award none s).2.receive a l key := by
            simp only [Scan.receivecasting, ha, hmem, not_true_eq_false, if_false, hfull, hgot,
              Bool.not_true, Bool.false_eq_true, hq.blueprint, hl,
              remblueprint_one hkey hd hone, remove_array_eq hi.endnodup, State.receive, hq.endcasting]
          rw [hstate]
          obtain ⟨v, hv⟩ : ∃ v, (get_award cfg (some a) award none s).2 = v := ⟨_, rfl⟩
          rw [hv] at hq ⊢
          obtain ⟨hinv, htotal⟩ := (hi.quiet hq).receive (hq.blueprint.trans hl)
            ((congrFun hq.awards a).trans ha) hd hda
          refine ⟨hinv, fun id => ?_⟩
          have hc : consumed s (v.receive a l key) id = if d.id = id then d.number else 0 := by
            refine hi.consumed_receive ha ?_ hd' hda id
            change Function.update v.awards a none = _
            rw [hq.awards]
          rw [htotal, hc, State.total, State.total, hq.lists]
          simp only [added, finished]
          omega

/-! ## receivescan and receiveallcast -/

/-- Without scans there is nothing to receive. -/
theorem Inv.receivescan (hi : Inv cfg s) (awardid : Option ℕ) :
    (receivescan cfg s awardid).1 = s := by
  unfold Scan.receivescan
  split
  · rfl
  · split
    · rfl
    · rw [hi.endscan, if_pos (by simp)]

/-- **A round that finds no award to receive** changes none of the lists. -/
theorem receiveone_quiet (hi : Inv cfg s) (h : ¬ Receivable cfg s a) :
    Quiet s (receiveone cfg s s.endcasting a).1 ∧
      (receiveone cfg s s.endcasting a).1.machines = s.machines ∧
      (receiveone cfg s s.endcasting a).2.1 = s.endcasting := by
  unfold receiveone
  split
  · exact ⟨.refl s, rfl, rfl⟩
  · rename_i award ha
    split
    · exact ⟨.refl s, rfl, rfl⟩
    · rename_i hmem
      split
      · exact ⟨.refl s, rfl, rfl⟩
      · rename_i hfull
        have hnot : awardable cfg award none = false := by
          by_contra haw
          exact h ⟨award, ha, not_not.mp hmem, by simpa using hfull, by simpa using haw⟩
        have hfst := get_award_fst cfg (some a) award none s
        simp only [hfst, hnot, Bool.not_false, if_true]
        exact ⟨kept_get_award.quiet (get_award_blueprint (hi.award a award ha).2), get_award_machines hnot,
          trivial⟩

theorem receiveloop_quiet (ids : List ℕ) (number : ℕ) (hi : Inv cfg s)
    (h : ∀ a, ¬ Receivable cfg s a) :
    Quiet s (receiveloop cfg ids s s.endcasting number).1 ∧
      (receiveloop cfg ids s s.endcasting number).2.1 = s.endcasting := by
  induction ids generalizing s number with
  | nil => exact ⟨.refl s, rfl⟩
  | cons a ids ih =>
    obtain ⟨hq, hm, hinfo⟩ := receiveone_quiet hi (h a)
    simp only [receiveloop]
    rw [hinfo]
    obtain ⟨v, hv⟩ : ∃ v, (receiveone cfg s s.endcasting a).1 = v := ⟨_, rfl⟩
    rw [hv] at hq hm ⊢
    have h' : ∀ a, ¬ Receivable cfg v a := by
      rintro a ⟨award, ha, hmem, hfull, haw⟩
      refine h a ⟨award, (congrFun hq.awards a).symm.trans ha, hq.endcasting ▸ hmem, ?_, haw⟩
      rw [machinefull, hm] at hfull
      exact hfull
    obtain ⟨hq', hinfo'⟩ := ih _ (hi.quiet hq) h'
    rw [hq.endcasting] at hq' hinfo'
    exact ⟨hq.trans hq', hinfo'⟩

/-- **`receiveallcast` without an award to receive** leaves the lists alone. -/
theorem Inv.receiveallcast (hi : Inv cfg s) (h : ∀ a, ¬ Receivable cfg s a) :
    Quiet s (receiveallcast cfg s).1 := by
  unfold Scan.receiveallcast
  split
  · exact .refl s
  · rename_i l hl
    obtain ⟨hq, hinfo⟩ := receiveloop_quiet (l.blueprintend.filterMap Entry.awardid) 0 hi h
    exact ⟨hq.blueprint, hq.rows, hq.ingcasting, hq.awards, hinfo, hq.endscan, hq.now, hq.bqid,
      hq.awardid⟩

end Scan

end Athena
