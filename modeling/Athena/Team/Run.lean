import Athena.Team.Enter
import Athena.Team.Pending
/-!
# Team rooms — leaving

`teamexit` and `gobattlefinish` while another player may be inside
`createorjoinroom`. The room one of them dissolves, or takes its player out
of, is not the room that player is about to enter, so the two changes
do not meet.
-/

namespace Athena

namespace Team

variable {s t : State} {stage : ℤ → Option ℤ} {l : List Room} {uid v : ℤ} {r : Room}

theorem unmark_nil (mark : ℤ → Option Mark) : unmark [] mark = mark := by
  funext v
  simp [unmark]

theorem complete_of_exit (he : s.exit = none) :
    complete s = (enterRooms s.next s.rooms s.make, enterMark s.userroomtype s.make) := by
  rw [complete, rest, he, without, unmark_nil]

/-- A room nobody is about to join is there as it is. -/
theorem mem_enterRooms {rooms : Table → List Room} {n : ℕ} {c : Option Make} {k : Table}
    (hr : r ∈ rooms k)
    (hno : ∀ v ref m, c = some (.joining v ref m) → ¬(m.table = k ∧ r.ref = ref)) :
    r ∈ enterRooms n rooms c k := by
  obtain _ | ⟨v, key, m⟩ | ⟨v, m⟩ | ⟨v, ref, m⟩ := c
  · exact hr
  · by_cases hk : k = m.table
    · subst hk
      simp only [enterRooms, Function.update_self]
      exact List.mem_append_left _ hr
    · simp only [enterRooms, Function.update_of_ne hk]
      exact hr
  · exact hr
  · by_cases hk : k = m.table
    · subst hk
      simp only [enterRooms, Function.update_self]
      refine mem_modify.mpr (Or.inr ⟨hr, decide_eq_false fun href => ?_⟩)
      exact hno v ref m rfl ⟨rfl, href⟩
    · simp only [enterRooms, Function.update_of_ne hk]
      exact hr

/-- The one who is about to enter a room is in no other. -/
theorem Inv.entry_not_mem (h : Inv s) (he : s.exit = none) {c : Make} (hc : s.make = some c)
    {k : Table} (hr : r ∈ s.rooms k)
    (hno : ∀ v ref m, s.make = some (.joining v ref m) → ¬(m.table = k ∧ r.ref = ref))
    (hcreated : ∀ v m, c = .created v m → r.key.uid ≠ v) : c.entry.1 ∉ r.members := by
  have hsound := h.sound
  have hmem : r ∈ (complete s).1 k := by
    rw [complete_of_exit he]
    exact mem_enterRooms hr hno
  obtain ⟨h₁, h₂, h₃, -⟩ := h.making c hc
  intro hv
  rw [complete_of_exit he, hc] at hsound hmem
  obtain ⟨v, key, m⟩ | ⟨v, m⟩ | ⟨v, ref, m⟩ := c
  · have hnew : (⟨key, s.next, [v]⟩ : Room) ∈
        enterRooms s.next s.rooms (some (.creating v key m)) m.table := by
      simp [enterRooms]
    obtain ⟨rfl, heq⟩ := hsound.one_room hmem hnew hv (List.mem_singleton_self v)
    exact (h₁ v key m rfl).2.2 (List.mem_map.mpr ⟨r, hr, by rw [heq]⟩)
  · obtain ⟨-, r', hr', hown, hv', -⟩ := h₂ v m rfl
    obtain ⟨-, rfl⟩ := hsound.one_room hmem hr' hv hv'
    exact hcreated v m rfl hown
  · obtain ⟨r', hr', href, -, -⟩ := h₃ v ref m rfl
    have hnew : { r' with members := r'.members ++ [v] } ∈
        enterRooms s.next s.rooms (some (.joining v ref m)) m.table := by
      simp only [enterRooms, Function.update_self]
      exact mem_modify.mpr (Or.inl ⟨r', hr', decide_eq_true href, rfl⟩)
    obtain ⟨rfl, heq⟩ := hsound.one_room hmem hnew hv
      (List.mem_append_right _ (List.mem_singleton_self v))
    exact hno v ref m hc ⟨rfl, by rw [heq]; exact href⟩

theorem enterMark_unmark {mark : ℤ → Option Mark} {l : List ℤ} {c : Option Make}
    (h : ∀ c', c = some c' → c'.entry.1 ∉ l) :
    enterMark (unmark l mark) c = unmark l (enterMark mark c) := by
  cases c with
  | none => rfl
  | some c =>
    funext v
    simp only [enterMark, unmark]
    by_cases hv : v = c.entry.1
    · rw [hv, Function.update_self, if_neg (h c rfl), Function.update_self]
    · rw [Function.update_of_ne hv, Function.update_of_ne hv]
      rfl

/-- The deletion of a room that is not the new one. -/
theorem enterRooms_delete {rooms : Table → List Room} {n : ℕ} {c : Option Make} {k : Table} {key : Key}
    (h : ∀ v key' m, c = some (.creating v key' m) → m.table = k → key' ≠ key) :
    enterRooms n (Function.update rooms k (delete (rooms k) key)) c =
      Function.update (enterRooms n rooms c) k (delete (enterRooms n rooms c k) key) := by
  obtain _ | ⟨v, key', m⟩ | ⟨v, m⟩ | ⟨v, ref, m⟩ := c
  · rfl
  · by_cases hk : m.table = k
    · subst hk
      have hne := h v key' m rfl rfl
      simp only [enterRooms, Function.update_self, Function.update_idem]
      congr 1
      simp [delete, hne]
    · simp only [enterRooms, Function.update_of_ne hk, Function.update_of_ne (Ne.symm hk)]
      exact Function.update_comm (Ne.symm hk) _ _ _
  · rfl
  · by_cases hk : m.table = k
    · subst hk
      simp only [enterRooms, Function.update_self, Function.update_idem]
      exact congrArg _ delete_modify.symm
    · simp only [enterRooms, Function.update_of_ne hk, Function.update_of_ne (Ne.symm hk)]
      exact Function.update_comm (Ne.symm hk) _ _ _

/-- **An owner dissolves its room.** -/
theorem Inv.destroyroom (h : Inv s) (he : s.exit = none) {k : Table} (hr : r ∈ s.rooms k)
    (hmark : s.userroomtype r.key.uid ≠ none)
    (hclear : ∀ v ref m, s.make = some (.joining v ref m) →
      ∀ r' ∈ s.rooms m.table, r'.ref = ref → r'.key.uid ≠ r.key.uid) (battle : Bool) :
    Inv (Team.proceed s r.key.uid k r.key r.members.length 0 battle) := by
  have hno : ∀ v ref m, s.make = some (.joining v ref m) → ¬(m.table = k ∧ r.ref = ref) := by
    rintro v ref m hm ⟨rfl, href⟩
    exact hclear v ref m hm r hr href rfl
  have hcreated : ∀ c, s.make = some c → ∀ v m, c = .created v m → r.key.uid ≠ v := by
    rintro c hc v m rfl rfl
    exact hmark ((h.making _ hc).created _ m rfl).1
  have hentry : ∀ c, s.make = some c → c.entry.1 ∉ r.members :=
    fun c hc => h.entry_not_mem he hc hr hno (hcreated c hc)
  have hsound := h.sound
  rw [complete_of_exit he] at hsound
  have hmem : r ∈ enterRooms s.next s.rooms s.make k := mem_enterRooms hr hno
  refine Inv.proceed h.keys h.refs h.fresh hr (Nat.zero_le _) (hsound.owner k r hmem)
    (hsound.size k r hmem) (hsound.nodup k r hmem) ?_ ?_ ?_
  · intro v hv
    rw [List.drop_zero] at hv
    obtain ⟨m, hm, -⟩ := hsound.member k r hmem v hv
    change enterMark s.userroomtype s.make v = some m at hm
    intro hnone
    cases hc : s.make with
    | none =>
      rw [hc, enterMark, hnone] at hm
      cases hm
    | some c =>
      have hne : v ≠ c.entry.1 := fun heq => hentry c hc (heq ▸ hv)
      rw [hc, enterMark, Function.update_of_ne hne, hnone] at hm
      cases hm
  · intro c hc
    obtain ⟨h₁, h₂, h₃, -⟩ := h.making c hc
    refine ⟨h₁, fun v m hv => ?_, fun v ref m hv => ?_, by rw [List.drop_zero]; exact hentry c hc⟩
    · obtain ⟨hnone, r', hr', hown, hv', -⟩ := h₂ v m hv
      refine ⟨hnone, r', hr', hown, hv', ?_⟩
      rintro ⟨rfl, hkey⟩
      exact hcreated c hc v m hv (by rw [hkey, hown])
    · obtain ⟨r', hr', href, hv', -⟩ := h₃ v ref m hv
      refine ⟨r', hr', href, hv', ?_⟩
      rintro ⟨rfl, hkey⟩
      exact hclear v ref m (by rw [hc, hv]) r' hr' href (by rw [hkey])
  · rw [List.drop_zero, enterMark_unmark hentry, enterRooms_delete]
    · exact hsound.drop hmem
    · rintro v key m hc rfl rfl
      exact ((h.making _ hc).creating v _ m rfl).2.2 (List.mem_map_of_mem hr)

/-- A room as it is when the calls under way are through: it has its members,
and the one who is about to join it. -/
theorem exists_enterRooms {rooms : Table → List Room} {n : ℕ} {c : Option Make} {k : Table}
    (hr : r ∈ rooms k) :
    ∃ r' ∈ enterRooms n rooms c k, r'.key = r.key ∧ ∀ v ∈ r.members, v ∈ r'.members := by
  by_cases hno : ∀ v ref m, c = some (.joining v ref m) → ¬(m.table = k ∧ r.ref = ref)
  · exact ⟨r, mem_enterRooms hr hno, rfl, fun _ hv => hv⟩
  · push Not at hno
    obtain ⟨v, ref, m, rfl, rfl, href⟩ := hno
    refine ⟨{ r with members := r.members ++ [v] }, ?_, rfl, fun _ hv => List.mem_append_left _ hv⟩
    simp only [enterRooms, Function.update_self]
    exact mem_modify.mpr (Or.inl ⟨r, hr, decide_eq_true href, rfl⟩)

theorem insert_remove {key : Key} {ref : ℕ} (hne : v ≠ uid) :
    insert (remove l key uid) ref v = remove (insert l ref v) key uid := by
  have herase : ∀ a : List ℤ, (a ++ [v]).erase uid = a.erase uid ++ [v] := by
    intro a
    rw [List.erase_append]
    split
    · rfl
    · rename_i hnot
      rw [List.erase_of_not_mem hnot, List.erase_of_not_mem (by simpa using Ne.symm hne)]
  simp only [insert, remove, modify, List.map_map]
  refine List.map_congr_left fun r _ => ?_
  dsimp only [Function.comp]
  by_cases hkey : r.key = key <;> by_cases href : r.ref = ref <;> simp [hkey, href, herase]

/-- The removal of a player from a room that is not the new one. -/
theorem enterRooms_remove {rooms : Table → List Room} {n : ℕ} {c : Option Make} {k : Table} {key : Key}
    (h : ∀ v key' m, c = some (.creating v key' m) → m.table = k → key' ≠ key)
    (hne : ∀ c', c = some c' → c'.entry.1 ≠ uid) :
    enterRooms n (Function.update rooms k (remove (rooms k) key uid)) c =
      Function.update (enterRooms n rooms c) k (remove (enterRooms n rooms c k) key uid) := by
  obtain _ | ⟨v, key', m⟩ | ⟨v, m⟩ | ⟨v, ref, m⟩ := c
  · rfl
  · by_cases hk : m.table = k
    · subst hk
      have hkey := h v key' m rfl rfl
      simp only [enterRooms, Function.update_self, Function.update_idem]
      congr 1
      simp [remove, modify, hkey]
    · simp only [enterRooms, Function.update_of_ne hk, Function.update_of_ne (Ne.symm hk)]
      exact Function.update_comm (Ne.symm hk) _ _ _
  · rfl
  · by_cases hk : m.table = k
    · subst hk
      simp only [enterRooms, Function.update_self, Function.update_idem]
      exact congrArg _ (insert_remove (hne _ rfl))
    · simp only [enterRooms, Function.update_of_ne hk, Function.update_of_ne (Ne.symm hk)]
      exact Function.update_comm (Ne.symm hk) _ _ _

/-- Who is marked is not the one about to enter, unless it found its own
room and was taken out of it. -/
theorem Inv.entry_ne (h : Inv s) (he : s.exit = none) {c : Make} (hc : s.make = some c) {k : Table}
    (hmark : s.userroomtype uid ≠ none) (hr : r ∈ s.rooms k) (hu : uid ∈ r.members) :
    c.entry.1 ≠ uid := by
  obtain ⟨h₁, h₂, h₃, -⟩ := h.making c hc
  rintro rfl
  obtain ⟨v, key, m⟩ | ⟨v, m⟩ | ⟨v, ref, m⟩ := c
  · exact hmark (h₁ v key m rfl).2.1
  · exact hmark (h₂ v m rfl).1
  · obtain ⟨r', hr', href, hv', -⟩ := h₃ v ref m rfl
    -- its room is the one it is about to join, which it is not in
    refine h.entry_not_mem he hc hr (fun v' ref' m' hm => ?_) (fun _ _ hm => by cases hm) hu
    rintro ⟨rfl, rfl⟩
    rw [hc] at hm
    cases hm
    rw [eq_of_ref (h.refs _) hr hr' href.symm] at hu
    exact hv' hu

/-- **A member leaves** the room of another. -/
theorem Inv.exitroom (h : Inv s) (he : s.exit = none) {k : Table} (hr : r ∈ s.rooms k)
    (hmark : s.userroomtype uid ≠ none) (hu : uid ∈ r.members) (hne : r.key.uid ≠ uid)
    (ready : ℤ → Option Bool) :
    Inv { s.setRooms k (remove (s.rooms k) r.key uid) with
      userroomtype := Function.update s.userroomtype uid none
      userreadystatus := ready } := by
  have hentry : ∀ c, s.make = some c → c.entry.1 ≠ uid := fun c hc => h.entry_ne he hc hmark hr hu
  have hnew : ∀ v key m, s.make = some (.creating v key m) → m.table = k → key ≠ r.key := by
    rintro v key m hc rfl rfl
    exact ((h.making _ hc).creating v _ m rfl).2.2 (List.mem_map_of_mem hr)
  have hsound := h.sound
  rw [complete_of_exit he] at hsound
  obtain ⟨s', hs'⟩ : ∃ s', s' = { s.setRooms k (remove (s.rooms k) r.key uid) with
      userroomtype := Function.update s.userroomtype uid none
      userreadystatus := ready } := ⟨_, rfl⟩
  have hexit : s'.exit = none := by rw [hs']; exact he
  have hrooms : s'.rooms = Function.update s.rooms k (remove (s.rooms k) r.key uid) := by rw [hs']; rfl
  have hmark' : s'.userroomtype = Function.update s.userroomtype uid none := by rw [hs']
  have hmake : s'.make = s.make := by rw [hs']; rfl
  have hnext : s'.next = s.next := by rw [hs']; rfl
  have hopen : ∀ k' key, ¬Closing s' k' key := by
    rintro k' key ⟨e, he', -⟩
    rw [hexit] at he'
    cases he'
  -- every room is there, with its members but the one
  have hroom : ∀ k', ∀ r' ∈ s'.rooms k', ∃ r₁ ∈ s.rooms k', r'.ref = r₁.ref := by
    intro k' r' hr'
    rw [hrooms] at hr'
    by_cases hk : k' = k
    · subst hk
      rw [Function.update_self] at hr'
      rcases mem_modify.mp hr' with ⟨r₁, h₁, -, rfl⟩ | ⟨h₁, -⟩
      · exact ⟨r₁, h₁, rfl⟩
      · exact ⟨r', h₁, rfl⟩
    · rw [Function.update_of_ne hk] at hr'
      exact ⟨r', hr', rfl⟩
  have hroom' : ∀ k', ∀ r₁ ∈ s.rooms k', ∃ r' ∈ s'.rooms k', r'.key = r₁.key ∧ r'.ref = r₁.ref ∧
      ∀ v, v ≠ uid → (v ∈ r'.members ↔ v ∈ r₁.members) := by
    intro k' r₁ h₁
    rw [hrooms]
    by_cases hk : k' = k
    · subst hk
      rw [Function.update_self]
      by_cases hkey : r₁.key = r.key
      · exact ⟨_, mem_modify.mpr (Or.inl ⟨r₁, h₁, decide_eq_true hkey, rfl⟩), rfl, rfl,
          fun v hv => List.mem_erase_of_ne hv⟩
      · exact ⟨r₁, mem_modify.mpr (Or.inr ⟨h₁, decide_eq_false hkey⟩), rfl, rfl, fun _ _ => Iff.rfl⟩
    · rw [Function.update_of_ne hk]
      exact ⟨r₁, h₁, rfl, rfl, fun _ _ => Iff.rfl⟩
  have hkeys : ∀ k', (s'.rooms k').map Room.key = (s.rooms k').map Room.key := by
    intro k'
    rw [hrooms]
    by_cases hk : k' = k
    · rw [hk, Function.update_self, remove, map_key_modify]
    · rw [Function.update_of_ne hk]
  have hrefs : ∀ k', (s'.rooms k').map Room.ref = (s.rooms k').map Room.ref := by
    intro k'
    rw [hrooms]
    by_cases hk : k' = k
    · rw [hk, Function.update_self, remove, map_ref_modify]
    · rw [Function.update_of_ne hk]
  rw [← hs']
  refine ⟨?_, fun k' => by rw [hkeys]; exact h.keys k', fun k' => by rw [hrefs]; exact h.refs k',
    fun k' r' hr' => ?_, fun c hc => ?_, fun e he' => ?_⟩
  · rw [complete_of_exit hexit, hmake, hnext, hrooms, hmark', enterRooms_remove hnew hentry]
    obtain ⟨r', hr', hkey, hsub⟩ := exists_enterRooms (n := s.next) (c := s.make) hr
    have hleave := hsound.leave hr' (hsub uid hu) (by rw [hkey]; exact hne)
    rw [hkey] at hleave
    have hmarks : enterMark (Function.update s.userroomtype uid none) s.make =
        Function.update (enterMark s.userroomtype s.make) uid none := by
      cases hc : s.make with
      | none => rfl
      | some c => exact Function.update_comm (Ne.symm (hentry c hc)) _ _ _
    rw [hmarks]
    exact hleave
  · obtain ⟨r₁, h₁, href⟩ := hroom k' r' hr'
    rw [hnext, href]
    exact h.fresh k' r₁ h₁
  · rw [hmake] at hc
    obtain ⟨h₁, h₂, h₃, -⟩ := h.making c hc
    have hother : ∀ v, s.userroomtype v = none → s'.userroomtype v = none := by
      intro v hv
      rw [hmark']
      by_cases hvu : v = uid
      · rw [hvu, Function.update_self]
      · rw [Function.update_of_ne hvu, hv]
    refine ⟨fun v key m hv => ?_, fun v m hv => ?_, fun v ref m hv => ?_, ?_⟩
    · obtain ⟨hown, hnone, hkey⟩ := h₁ v key m hv
      exact ⟨hown, hother v hnone, by rwa [hkeys]⟩
    · obtain ⟨hnone, r₁, hr₁, hown, hv', -⟩ := h₂ v m hv
      obtain ⟨r', hr', hkey, -, hmem⟩ := hroom' _ r₁ hr₁
      have hvu : v ≠ uid := by simpa [hv, Make.entry] using hentry c hc
      exact ⟨hother v hnone, r', hr', by rw [hkey, hown], (hmem v hvu).mpr hv', hopen _ _⟩
    · obtain ⟨r₁, hr₁, href, hv', -⟩ := h₃ v ref m hv
      obtain ⟨r', hr', -, href', hmem⟩ := hroom' _ r₁ hr₁
      have hvu : v ≠ uid := by simpa [hv, Make.entry] using hentry c hc
      exact ⟨r', hr', by rw [href', href], fun hm => hv' ((hmem v hvu).mp hm), hopen _ _⟩
    · rw [rest, hexit]
      exact List.not_mem_nil
  · rw [hexit] at he'
    cases he'

theorem Inv.unready (h : Inv s) (uid : ℤ) (battle : Bool) : Inv (s.unready uid battle) := by
  cases battle with
  | false => exact h
  | true => exact ⟨h.sound, h.keys, h.refs, h.fresh,
      fun c hc => ⟨(h.making c hc).creating, (h.making c hc).created, (h.making c hc).joining,
        (h.making c hc).entry⟩,
      fun e he => by
        obtain ⟨r, hl⟩ := h.leaving e he
        exact ⟨r, hl.mem, hl.key, hl.count, hl.mate, hl.owner, hl.size, hl.nodup, hl.marked⟩⟩

/-- **`teamexit` and `gobattlefinish`.** -/
theorem Inv.leave (h : Inv s) (he : s.exit = none)
    (hclear : ∀ v ref m, s.make = some (.joining v ref m) →
      ∀ r ∈ s.rooms m.table, r.ref = ref → r.key.uid ≠ uid) (battle : Bool) :
    Inv (Team.leave s uid battle) := by
  unfold Team.leave
  split
  · exact h
  · rename_i mark hmark
    have hmarked : s.userroomtype uid ≠ none := by
      rw [hmark]
      simp
    split
    · exact h
    · rename_i owner howner
      obtain ⟨r, hfind, rfl⟩ := Option.map_eq_some_iff.mp howner
      have hr := List.mem_of_find?_eq_some hfind
      have hmem : r.key.uid = uid ∨ uid ∈ r.members := by simpa using List.find?_some hfind
      split
      · unfold Team.destroyroom
        split
        · exact h.unready uid battle
        · rename_i r' hfind'
          have hr' := List.mem_of_find?_eq_some hfind'
          have hown : r'.key.uid = uid := by simpa using List.find?_some hfind'
          rw [← hown]
          exact h.destroyroom he hr' (by rwa [hown]) (by rwa [hown]) battle
      · rename_i hne
        have hu := hmem.resolve_left hne
        unfold Team.exitroom
        split
        · exact h
        · rename_i r' hfind'
          have hr' := List.mem_of_find?_eq_some hfind'
          have hown : r'.key.uid = r.key.uid := by simpa using List.find?_some hfind'
          split
          · rename_i hu'
            exact (h.exitroom he hr' hmarked hu' (by rwa [hown]) _).unready uid battle
          · exact h.unready uid battle

end Team

/-!
## Team rooms — every run

The invariant over every run in which calls begin where nothing goes
wrong, and what it says when no call is under way.
-/

namespace Team

variable {s t : State} {stage : ℤ → Option ℤ} {l : List Room} {uid v : ℤ} {r : Room}

theorem inv_initial : Inv initial where
  sound := by
    have hcomplete : complete initial = (fun _ => [], fun _ => none) := by
      rw [complete_of_exit rfl]
      rfl
    rw [hcomplete]
    exact ⟨by simp, by simp, by simp, by simp, by simp, by simp, nofun⟩
  keys := by simp [initial]
  refs := by simp [initial]
  fresh := by simp [initial]
  making := fun _ hm => nomatch hm
  leaving := fun _ he => nomatch he

/-- **A step that begins no call where something goes wrong** keeps the
invariant. -/
theorem inv_step {e : Event} (h : Inv s) (hstep : step stage s e = some t) (hclear : Clear stage s e) :
    Inv t := by
  cases e with
  | maketeam uid stageid =>
    simp only [step] at hstep
    split at hstep
    · rename_i type hm hstage
      cases hstep
      exact h.maketeam hm hclear hstage
    · cases hstep
      exact h
    · cases hstep
  | resume =>
    obtain ⟨c, hc, rfl⟩ := Option.map_eq_some_iff.mp hstep
    obtain ⟨v, key, m⟩ | ⟨v, m⟩ | ⟨v, ref, m⟩ := c
    · exact h.resume_creating hc
    · exact h.resume_created hc
    · exact h.resume_joining hc
  | teamexit uid =>
    simp only [step] at hstep
    split at hstep
    · rename_i he
      cases hstep
      exact h.leave he hclear false
    · cases hstep
  | gobattlefinish uid =>
    simp only [step] at hstep
    split at hstep
    · rename_i he
      cases hstep
      exact h.leave he hclear true
    · cases hstep
  | notified =>
    obtain ⟨e, he, rfl⟩ := Option.map_eq_some_iff.mp hstep
    exact h.notified he
  | rehash k l =>
    simp only [step] at hstep
    split at hstep
    · rename_i hp
      cases hstep
      exact h.rehash hp
    · cases hstep

/-- The runs in which every call begins where nothing goes wrong. -/
def clear (stage : ℤ → Option ℤ) : System State Event := (system stage).restrict (Clear stage)

theorem inv_of_reachable (h : (clear stage).Reachable t) : Inv t := by
  refine h.invariant (P := Inv) (fun s hs => ?_)
    fun s e t (hstep : step stage s e = some t ∧ Clear stage s e) hs => inv_step hs hstep.1 hstep.2
  rw [show s = initial from hs]
  exact inv_initial

/-- **Team rooms.** Whenever no call is under way the tables and the marks are
sound: a player is in one room of all tables at most and marked with its
table exactly when in one, so nobody is left with the mark of a room that
was dissolved; the owner of a room is in it, so no room is empty; and no
room has more members than its table allows. -/
theorem rooms_sound (h : (clear stage).Reachable t) (hmake : t.make = none) (hexit : t.exit = none) :
    Sound t.rooms t.userroomtype ∧
    (∀ k, ∀ r ∈ t.rooms k, ∀ k', ∀ r' ∈ t.rooms k', ∀ v ∈ r.members, v ∈ r'.members → k = k' ∧ r = r') ∧
    (∀ k, ∀ r ∈ t.rooms k, r.members ≠ []) := by
  have hsound := (inv_of_reachable h).sound
  rw [complete_of_exit hexit, hmake] at hsound
  refine ⟨hsound, fun k r hr k' r' hr' v hv hv' => hsound.one_room hr hr' hv hv', fun k r hr hnil => ?_⟩
  have hown := hsound.owner k r hr
  rw [hnil] at hown
  cases hown

/-- A player makes a room for stage 10, another one joins it, and the room goes with its
owner. -/
theorem rooms_sound_left : ∃ t : State, t.rooms .fiftyomrooms_1 = [] ∧ t.userroomtype 2 = none ∧
    Sound t.rooms t.userroomtype := by
  have hrun : (clear fun _ => some 1).Path initial
      [.maketeam 1 10, .resume, .resume, .maketeam 2 10, .resume, .teamexit 1, .notified] _ :=
    .cons ⟨rfl, Or.inr ⟨Or.inl rfl, fun _ _ _ he => nomatch he⟩⟩ (.cons ⟨rfl, trivial⟩ (.cons ⟨rfl, trivial⟩
      (.cons ⟨rfl, Or.inr ⟨Or.inl rfl, fun _ _ _ he => nomatch he⟩⟩ (.cons ⟨rfl, trivial⟩
        (.cons ⟨rfl, nofun⟩ (.cons ⟨rfl, trivial⟩ (.nil _)))))))
  exact ⟨_, rfl, rfl, (rooms_sound ⟨initial, _, rfl, hrun⟩ rfl rfl).1⟩

/-- A player with a room for stage 10 asks for stage 11, and is in two rooms. A
player given a room joins it after its owner has left, and is marked though
there is no room. -/
theorem rooms_unsound :
    (∃ t, (system fun _ => some 1).Reachable t ∧ t.make = none ∧ t.exit = none ∧
      t.rooms .fiftyomrooms_1 = [⟨⟨10, 1⟩, 0, [1]⟩, ⟨⟨11, 1⟩, 1, [1]⟩]) ∧
    (∃ t, (system fun _ => some 1).Reachable t ∧ t.make = none ∧ t.exit = none ∧
      t.userroomtype 2 = some ⟨.hundred, 1⟩ ∧ ∀ k, t.rooms k = []) := by
  constructor
  · have hrun : (system fun _ => some 1).Path initial
        [.maketeam 1 10, .resume, .resume, .maketeam 1 11, .resume, .resume] _ :=
      .cons rfl (.cons rfl (.cons rfl (.cons rfl (.cons rfl (.cons rfl (.nil _))))))
    exact ⟨_, ⟨initial, _, rfl, hrun⟩, rfl, rfl, rfl⟩
  · have hrun : (system fun _ => some 1).Path initial
        [.maketeam 1 10, .resume, .resume, .maketeam 2 10, .teamexit 1, .resume] _ :=
      .cons rfl (.cons rfl (.cons rfl (.cons rfl (.cons rfl (.cons rfl (.nil _))))))
    exact ⟨_, ⟨initial, _, rfl, hrun⟩, rfl, rfl, rfl, fun k => by cases k <;> rfl⟩

end Team

end Athena
