import Athena.Scan.Cancel
/-!
# Blueprints — the ids of castings

The id of a new casting is not among those under way, in every run: no request but
`casting` puts an entry there, and it takes the next id.
-/

namespace Athena

namespace Scan

open Lua (Str)
open Queue (Row Award BpReward PropReward EquipReward)

variable {cfg : Config} {s t u : State} {key : ℕ} {n : ℤ} {l : List Entry} {f : Entry → Entry}

/-- What an entry is found by. -/
def Entry.ids (d : Entry) : Option ℕ × Option ℕ := (d.bqid, d.awardid)

/-- **No entry under way has a later id.** -/
def Fresh (s : State) : Prop :=
  ∀ d ∈ s.lists.blueprinting, d.awardid = none ∧ ∀ b, d.bqid = some b → b ≤ s.bqid

/-- **Nothing new is under way.** -/
structure Narrows (s t : State) : Prop where
  bqid : t.bqid = s.bqid
  blueprinting : t.lists.blueprinting.map Entry.ids ⊆ s.lists.blueprinting.map Entry.ids

theorem Narrows.refl (s : State) : Narrows s s := ⟨rfl, List.Subset.refl _⟩

theorem Narrows.trans (h : Narrows s t) (h' : Narrows t u) : Narrows s u :=
  ⟨h'.bqid.trans h.bqid, List.Subset.trans h'.blueprinting h.blueprinting⟩

theorem Narrows.of_eq (hbqid : t.bqid = s.bqid) (hl : t.lists.blueprinting = s.lists.blueprinting) :
    Narrows s t :=
  ⟨hbqid, by rw [hl]; exact List.Subset.refl _⟩

theorem Quiet.narrows (h : Quiet s t) : Narrows s t := .of_eq h.bqid (by rw [h.lists])

theorem Narrows.fresh (h : Narrows s t) (hs : Fresh s) : Fresh t := by
  intro d hd
  obtain ⟨d', hd', heq⟩ := List.mem_map.mp (h.blueprinting (List.mem_map_of_mem hd))
  obtain ⟨hb, ha⟩ := Prod.mk.inj heq
  obtain ⟨haward, hle⟩ := hs d' hd'
  refine ⟨ha ▸ haward, fun b hbq => ?_⟩
  rw [h.bqid]
  exact hle b (hb.trans hbq)

/-! ## Entries that change -/

theorem modify_ids (hf : ∀ d, (f d).ids = d.ids) : (l.modify key f).map Entry.ids = l.map Entry.ids := by
  refine List.ext_getElem? fun i => ?_
  rw [List.getElem?_map, List.getElem?_map, List.getElem?_modify]
  cases l[i]? with
  | none => rfl
  | some d =>
    by_cases hi : key = i
    · simp [hi, hf]
    · simp [hi]

theorem addnumber_ids : (addnumber l key n).map Entry.ids = l.map Entry.ids := modify_ids fun _ => rfl

theorem remove_number_ids : (remove_number l key n).map Entry.ids ⊆ l.map Entry.ids := by
  unfold remove_number
  split
  · exact List.Subset.refl _
  · split
    · rw [addnumber_ids]
      exact List.Subset.refl _
    · split
      · exact List.map_subset _ (List.eraseIdx_subset)
      · exact List.Subset.refl _

/-! ## The requests -/

theorem add_blueprint_narrows (s : State) (bpid : Str) (n : ℤ) (name : Option Str) :
    (add_blueprint s.blueprint bpid n name).blueprinting = s.lists.blueprinting := by
  unfold add_blueprint State.lists
  cases s.blueprint with
  | none => rfl
  | some l =>
    simp only
    split <;> rfl

theorem addblueprint_narrows (cfg : Config) (s : State) (bpid : Str) (n : ℤ) (name : Option Str) :
    Narrows s (addblueprint cfg bpid n name s).2 := by
  unfold addblueprint
  split
  · exact .of_eq rfl (add_blueprint_narrows s bpid n name)
  · exact .refl s

theorem recorded_narrows {source : Option ℕ} {g : Given} {r : Bool × State} (h : Narrows s r.2) :
    Narrows s (recorded source g r).2 := by
  unfold recorded
  split
  · exact h.trans (.of_eq rfl rfl)
  · exact h

theorem get_award_narrows {source : Option ℕ} {data : Award} {number : Option ℚ} :
    Narrows s (get_award cfg source data number s).2 := by
  refine get_award_rel Narrows.refl Narrows.trans (fun e _ s => ?_) (fun b _ s => ?_) (fun p _ s => ?_)
    fun s => recorded_narrows ?_
  · unfold addequip
    split
    · exact .of_eq rfl rfl
    · exact .refl s
  · exact recorded_narrows (addblueprint_narrows cfg s _ _ _)
  · obtain ⟨m, hm⟩ := addmaterials_snd cfg s p.cfgid (part p.number number)
    refine recorded_narrows ?_
    rw [hm]
    exact .of_eq rfl rfl
  · unfold add_machine
    split
    · exact .refl s
    · exact .of_eq rfl rfl

theorem onbq_completed_narrows (s : State) (b : ℕ) : Narrows s (onbq_completed s b) := by
  unfold onbq_completed
  split
  · exact .refl s
  · rename_i row _
    simp only
    split
    · exact .refl s
    · exact .of_eq rfl rfl
    · split
      · exact .of_eq rfl rfl
      · rename_i l hl
        refine ⟨rfl, ?_⟩
        have hls : s.lists = l := lists_of_blueprint hl
        change (removeto_end l row.sponsorid b (s.awardid + 1)).blueprinting.map Entry.ids ⊆ _
        rw [hls]
        unfold removeto_end
        split
        · exact List.Subset.refl _
        · split
          · exact List.Subset.refl _
          · exact List.map_subset _ List.eraseIdx_subset

theorem sendspeed_narrows (s : State) (b : ℕ) (row : Row) (difftime : ℤ) :
    Narrows s (sendspeed s b row difftime).1 := by
  have hrow : Narrows s { s with
      rows := Function.update s.rows b (some { row with endtime := row.endtime - difftime }) } :=
    .of_eq rfl rfl
  unfold sendspeed
  simp only
  split
  · exact hrow.trans (onbq_completed_narrows _ b)
  · exact hrow

theorem addspeed_narrows (s : State) (bqid : Option ℕ) (time propid : Option ℤ) :
    Narrows s (addspeed s bqid time propid).1 := by
  unfold addspeed
  split
  · rename_i id time _
    split
    · exact .refl s
    · exact .refl s
    · rename_i row l hrow hl
      split
      · exact .refl s
      · rename_i key _
        have hspeed := sendspeed_narrows s id row (time * 60)
        refine ⟨hspeed.bqid, ?_⟩
        simp only [State.lists]
        cases hb : (sendspeed s id row (time * 60)).1.blueprint with
        | none => simp
        | some l' =>
          simp only [Option.map_some, Option.getD_some, hl]
          rw [modify_ids]
          · exact List.Subset.refl _
          · exact fun _ => rfl
  · exact .refl s

theorem cancelled_narrows {info ing : List Entry} {bpid : Str} {k : ℤ} (h : Narrows s t)
    (hing : ing.map Entry.ids ⊆ s.lists.blueprinting.map Entry.ids) :
    Narrows s (cancelled cfg t bpid k info ing).1 := by
  unfold cancelled
  split
  · exact h
  · obtain ⟨m, hm⟩ := returnmaterials_eq cfg k bpid t
    simp only [hm]
    refine ⟨h.bqid, ?_⟩
    simp only [State.lists]
    cases t.blueprint with
    | none => simp
    | some l => exact hing

theorem removeto_blueprint_ids {toarry : List Entry} {into : Into} :
    (removeto_blueprint key n l toarry into).1.map Entry.ids ⊆ l.map Entry.ids := by
  unfold removeto_blueprint
  split
  · exact List.Subset.refl _
  · exact remove_number_ids

theorem cancelcasting_narrows (cfg : Config) (s : State) (bqid : Option ℕ) :
    Narrows s (cancelcasting cfg s bqid).1 := by
  unfold cancelcasting
  split
  · exact .refl s
  · rename_i b
    split
    · exact .refl s
    · rename_i row _
      split
      · exact .refl s
      · split
        · exact .refl s
        · rename_i l hl
          have hls : s.lists = l := lists_of_blueprint hl
          split
          · split
            · exact .refl s
            · rename_i key _
              split
              · exact .refl s
              · rename_i d _
                unfold cancelentry
                split
                · simp only
                  split
                  · exact .of_eq rfl rfl
                  · rename_i k _
                    obtain ⟨got, hgot⟩ : ∃ got, (if k < d.number then get_award cfg none (row.award 0)
                        (some (finishedshare d.number k)) s else (true, s)) = got := ⟨_, rfl⟩
                    have haward : Narrows s got.2 := by
                      rw [← hgot]
                      split
                      · exact get_award_narrows
                      · exact .refl s
                    rw [hgot]
                    split
                    · exact haward
                    · refine cancelled_narrows (haward.trans (.of_eq rfl rfl)) ?_
                      rw [hls]
                      exact List.Subset.trans remove_number_ids removeto_blueprint_ids
                · exact .refl s
          · refine cancelled_narrows (.refl s) ?_
            rw [hls]
            exact List.Subset.refl _

theorem receivescan_narrows (cfg : Config) (s : State) (awardid : Option ℕ) :
    Narrows s (receivescan cfg s awardid).1 := by
  rcases receivescan_split cfg s awardid with
    ⟨heq, -⟩ | ⟨a, award, -, -, -, -, ⟨-, heq⟩ | ⟨-, heq⟩⟩
  · rw [heq]
    exact .refl s
  · rw [heq]
    exact get_award_narrows
  · rw [heq]
    exact get_award_narrows.trans (.of_eq rfl rfl)

theorem remblueprint_narrows (l : Lists) (bpid : Str) (awardid : ℕ) :
    (remblueprint l bpid awardid).2.blueprinting = l.blueprinting := by
  unfold remblueprint
  repeat' split
  all_goals rfl

theorem receivecasting_narrows (cfg : Config) (s : State) (awardid : Option ℕ) :
    Narrows s (receivecasting cfg s awardid).1 := by
  rcases receivecasting_split cfg s awardid with
    ⟨heq, -⟩ | ⟨a, award, -, -, -, -, ⟨-, heq⟩ | ⟨-, ⟨-, heq⟩ | ⟨l, hl, heq⟩⟩⟩
  · rw [heq]
    exact .refl s
  · rw [heq]
    exact get_award_narrows
  · rw [heq]
    exact get_award_narrows
  · rw [heq]
    refine get_award_narrows.trans (.of_eq rfl ?_)
    rw [lists_of_blueprint hl]
    exact remblueprint_narrows _ _ _

theorem receiveone_narrows (cfg : Config) (s : State) (queueinfo : List ℕ) (a : ℕ) :
    Narrows s (receiveone cfg s queueinfo a).1 := by
  unfold receiveone
  split
  · exact .refl s
  · split
    · exact .refl s
    · split
      · exact .refl s
      · simp only
        split
        · exact get_award_narrows
        · split
          · exact get_award_narrows
          · rename_i l hl
            split
            all_goals
              refine get_award_narrows.trans (.of_eq rfl ?_)
              rw [lists_of_blueprint hl]
              exact remblueprint_narrows _ _ _

theorem receiveloop_narrows (cfg : Config) (ids : List ℕ) (s : State) (queueinfo : List ℕ) (number : ℕ) :
    Narrows s (receiveloop cfg ids s queueinfo number).1 := by
  induction ids generalizing s queueinfo number with
  | nil => exact .refl s
  | cons a ids ih => exact (receiveone_narrows cfg s queueinfo a).trans (ih _ _ _)

theorem receiveallcast_narrows (cfg : Config) (s : State) : Narrows s (receiveallcast cfg s).1 := by
  unfold receiveallcast
  split
  · exact .refl s
  · exact (receiveloop_narrows cfg _ s _ 0).trans (.of_eq rfl rfl)

/-! ## Every run -/

/-- **A new casting** has the next id. -/
theorem Fresh.casting (h : Fresh s) (cfgid : Option Str) (number : Option ℤ) (name : Option Str) :
    Fresh (casting cfg s cfgid number name).1 := by
  rcases casting_cases cfg s cfgid number name with
    hquiet | ⟨bpid, l, key, d, info, u, -, hl, hd, -, -, -, hquiet, hout⟩
  · exact hquiet.narrows.fresh h
  · have hu : u.lists.blueprinting = l.blueprinting := by rw [hquiet.lists, lists_of_blueprint hl]
    have hfresh := hquiet.narrows.fresh h
    rw [hout]
    intro d' hd'
    change d' ∈ (removeto_blueprint key (number.getD 1) l.blueprintinfo l.blueprinting
      (.casting (u.bqid + 1) _ _)).2 at hd'
    have hold : ∀ d ∈ l.blueprinting, d.awardid = none ∧ ∀ b, d.bqid = some b → b ≤ u.bqid + 1 := by
      intro d hd
      obtain ⟨haward, hle⟩ := hfresh d (hu ▸ hd)
      exact ⟨haward, fun b hb => Nat.le_succ_of_le (hle b hb)⟩
    simp only [removeto_blueprint, hd, change_blueprint] at hd'
    split at hd'
    · rcases List.mem_append.mp hd' with hd' | hd'
      · exact hold d' hd'
      · obtain rfl := List.mem_singleton.mp hd'
        exact ⟨rfl, fun b hb => (Option.some.inj hb).ge⟩
    · have hids := List.mem_map_of_mem (f := Entry.ids) hd'
      rw [addnumber_ids] at hids
      obtain ⟨d₀, hd₀, heq⟩ := List.mem_map.mp hids
      obtain ⟨hb, ha⟩ := Prod.mk.inj heq
      rw [← hb, ← ha]
      exact hold d₀ hd₀

/-- **One request** keeps the ids under way below the next one. -/
theorem Fresh.step (h : Fresh s) (e : Event) : Fresh (step cfg s e).1 := by
  cases e with
  | tick => exact h
  | addblueprint bpid number name => exact (addblueprint_narrows cfg s bpid number name).fresh h
  | casting cfgid number name => exact h.casting cfgid number name
  | addspeed bqid time propid => exact (addspeed_narrows s bqid time propid).fresh h
  | completed bqid => exact (onbq_completed_narrows s bqid).fresh h
  | cancelcasting bqid => exact (cancelcasting_narrows cfg s bqid).fresh h
  | receivescan awardid => exact (receivescan_narrows cfg s awardid).fresh h
  | receivecasting awardid => exact (receivecasting_narrows cfg s awardid).fresh h
  | receiveallcast => exact (receiveallcast_narrows cfg s).fresh h

/-- **In every run** the next id is new. -/
theorem fresh_reachable (h : (system cfg).Reachable s) : Fresh s := by
  obtain ⟨s₀, es, hstart, hpath⟩ := h
  refine hpath.invariant (P := Fresh) (fun s e t hstep hs => ?_) fun d hd => ?_
  · rw [hstep]
    exact hs.step e
  · rw [hstart.blueprinting] at hd
    cases hd

end Scan

end Athena
