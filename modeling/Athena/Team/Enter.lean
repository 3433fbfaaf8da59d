import Athena.Team.Pending
/-!
# Team rooms — entering

The steps of `maketeam` while `destroyroom` may be under way, and a new
order of a table. The room a player is given is not the one being
dissolved; what comes after is the end of the call that the state was
read with already.
-/

namespace Athena

namespace Team

variable {s t : State} {stage : ℤ → Option ℤ} {l : List Room} {uid v : ℤ} {r : Room}

/-- The actual rooms are sound ones, but for the one that is being dissolved. -/
theorem Inv.room (h : Inv s) (hm : s.make = none) {k : Table} (hr : r ∈ s.rooms k) :
    r ∈ (complete s).1 k ∨ ∃ e, s.exit = some e ∧ e.table = k ∧ Leaving s e r := by
  rw [complete, hm]
  cases he : s.exit with
  | none => exact Or.inl hr
  | some e =>
    simp only [without, enterRooms]
    by_cases hk : k = e.table
    · subst hk
      obtain ⟨r', hl⟩ := h.leaving e he
      by_cases hkey : r.key = e.key
      · rw [eq_of_key (h.keys _) hr hl.mem (hkey.trans hl.key.symm)]
        exact Or.inr ⟨e, rfl, rfl, hl⟩
      · rw [Function.update_self]
        exact Or.inl (mem_delete.mpr ⟨hr, hkey⟩)
    · rw [Function.update_of_ne hk]
      exact Or.inl hr

/-- A player whose mark is about to go has one. -/
theorem Inv.marked_of_rest (h : Inv s) (hv : v ∈ rest s) : s.userroomtype v ≠ none := by
  cases he : s.exit with
  | none =>
    rw [rest, he] at hv
    cases hv
  | some e =>
    obtain ⟨r, hl⟩ := h.leaving e he
    rw [rest_eq he (h.keys _) hl.mem hl.key] at hv
    exact hl.marked v hv

theorem without_modify {rooms : Table → List Room} {x : Option Exit} {k : Table} {p : Room → Bool}
    {f : List ℤ → List ℤ} :
    without (Function.update rooms k (modify (rooms k) p f)) x =
      Function.update (without rooms x) k (modify (without rooms x k) p f) := by
  cases x with
  | none => rfl
  | some e =>
    by_cases hk : e.table = k
    · subst hk
      simp only [without, Function.update_self, Function.update_idem, delete_modify]
    · simp only [without, Function.update_of_ne hk, Function.update_of_ne (Ne.symm hk)]
      exact Function.update_comm (Ne.symm hk) _ _ _

theorem without_subset {rooms : Table → List Room} {x : Option Exit} {k : Table}
    (hr : r ∈ without rooms x k) : r ∈ rooms k := by
  cases x with
  | none => exact hr
  | some e =>
    simp only [without] at hr
    by_cases hk : k = e.table
    · subst hk
      rw [Function.update_self] at hr
      exact (mem_delete.mp hr).1
    · rwa [Function.update_of_ne hk] at hr

/-- The insertion into the room the player was taken out of. -/
theorem insert_erase {ref : ℕ} :
    insert (modify l (fun r => r.ref = ref) fun a => a.erase uid) ref uid =
      modify l (fun r => r.ref = ref) fun a => a.erase uid ++ [uid] := by
  simp only [insert, modify, List.map_map]
  refine List.map_congr_left fun r _ => ?_
  dsimp only [Function.comp]
  by_cases href : r.ref = ref <;> simp [href]

/-- **A player asks for a room.** -/
theorem Inv.maketeam (h : Inv s) (hm : s.make = none) {stageid type : ℤ}
    (hclear : Clear stage s (.maketeam uid stageid)) (hstage : stage stageid = some type) :
    Inv (createorjoinroom s stageid uid ⟨.hundred, type⟩) := by
  have hsound := h.sound
  have hcomplete : complete s = (without s.rooms s.exit, unmark (rest s) s.userroomtype) := by
    rw [complete, hm]
    rfl
  obtain ⟨hmark, hopen⟩ := hclear.resolve_left (by rw [hstage]; simp)
  have hsize : ∀ r ∈ s.rooms .fiftyomrooms_1, r.members.length ≤ Roomnum.hundred.target := by
    intro r hr
    rcases h.room hm hr with hr' | ⟨e, -, hk, hl⟩
    · exact hsound.size _ r hr'
    · have := hl.size
      rwa [hk] at this
  obtain ⟨m, hmdef⟩ : ∃ m : Mark, m = ⟨.hundred, type⟩ := ⟨_, rfl⟩
  have htable : m.table = .fiftyomrooms_1 := by rw [hmdef]; rfl
  have htarget : m.roomnum.target = Roomnum.hundred.target := by rw [hmdef]
  rw [← hmdef]
  unfold createorjoinroom
  rw [htable, htarget]
  rcases findfitroom_eq stageid uid hsize with
    ⟨hnone, heq, hno⟩ | ⟨a, r, b, hl, hsome, hst, hlen, heq⟩
  · -- no room fits, and the player had no mark
    have hnomark : s.userroomtype uid = none := by
      rcases hmark with hmark | ⟨r, hr, -⟩
      · exact hmark
      · rw [fitroom, hnone] at hr
        cases hr
    rw [heq]
    simp only
    obtain ⟨s', hs'⟩ : ∃ s', s' = { s.setRooms .fiftyomrooms_1 (s.rooms .fiftyomrooms_1) with
      make := some (.creating uid ⟨stageid, uid⟩ m) } := ⟨_, rfl⟩
    have hrooms : s'.rooms = s.rooms := by
      rw [hs']
      exact Function.update_eq_self _ _
    have hexit : s'.exit = s.exit := by rw [hs']; rfl
    have hmark' : s'.userroomtype = s.userroomtype := by rw [hs']; rfl
    have hmake : s'.make = some (.creating uid ⟨stageid, uid⟩ m) := by rw [hs']
    have hnext : s'.next = s.next := by rw [hs']; rfl
    have hrest : rest s' = rest s := by rw [rest, rest, hexit, hrooms]
    rw [← hs']
    refine ⟨?_, by rw [hrooms]; exact h.keys, by rw [hrooms]; exact h.refs,
      by rw [hrooms, hnext]; exact h.fresh, fun c hc => ?_, fun e he => ?_⟩
    · rw [complete, hmake, hrest, hrooms, hexit, hmark', hnext]
      rw [hcomplete] at hsound
      exact hsound.found (unmark_of_none hnomark) rfl rfl (by rw [htable]; decide)
    · rw [hmake] at hc
      cases hc
      refine ⟨fun v key m' hv => ?_, by simp, by simp, ?_⟩
      · cases hv
        refine ⟨rfl, by rw [hmark']; exact hnomark, fun hmem => ?_⟩
        rw [hrooms, htable] at hmem
        obtain ⟨r, hr, hkey⟩ := List.mem_map.mp hmem
        refine hno r hr (by rw [hkey]) ?_
        -- the owner of a room of that key would be in it
        have hown : r.key.uid ∈ r.members := by
          rcases h.room hm hr with hr' | ⟨e, -, -, hl⟩
          · exact hsound.owner _ r hr'
          · exact hl.owner
        rwa [hkey] at hown
      · rw [hrest]
        exact fun hmem => h.marked_of_rest hmem hnomark
    · rw [hexit] at he
      obtain ⟨r, hl⟩ := h.leaving e he
      exact ⟨r, by rw [hrooms]; exact hl.mem, hl.key, hl.count, hl.mate, hl.owner, hl.size, hl.nodup,
        by rw [hmark']; exact hl.marked⟩
  · -- the first room that fits, which is not being dissolved
    have hr : r ∈ s.rooms .fiftyomrooms_1 := by rw [hl]; simp
    have hrefs := h.refs .fiftyomrooms_1
    rw [hl] at hrefs
    have hmod : a ++ { r with members := r.members.erase uid } :: b =
        modify (s.rooms .fiftyomrooms_1) (fun r' => r'.ref = r.ref) fun l => l.erase uid := by
      rw [hl, modify_append hrefs]
    have hclosing : ∀ e, s.exit = some e → ¬(e.table = .fiftyomrooms_1 ∧ e.key = r.key) :=
      fun e he => hopen r e hsome he
    have hmem : r ∈ (complete s).1 .fiftyomrooms_1 := by
      rcases h.room hm hr with hr' | ⟨e, he, hk, hl⟩
      · exact hr'
      · exact absurd ⟨hk, hl.key.symm⟩ (hclosing e he)
    have hu : s.userroomtype uid = none ∨ uid ∈ r.members := by
      rcases hmark with hmark | ⟨r', hr', hu⟩
      · exact Or.inl hmark
      · rw [fitroom, hsome] at hr'
        cases hr'
        exact Or.inr hu
    rw [heq, hmod]
    simp only
    obtain ⟨s', hs'⟩ : ∃ s', s' = { s.setRooms .fiftyomrooms_1
      (modify (s.rooms .fiftyomrooms_1) (fun r' => r'.ref = r.ref) fun l => l.erase uid) with
      make := some (.joining uid r.ref m) } := ⟨_, rfl⟩
    have hrooms : s'.rooms = Function.update s.rooms .fiftyomrooms_1
        (modify (s.rooms .fiftyomrooms_1) (fun r' => r'.ref = r.ref) fun l => l.erase uid) := by
      rw [hs']
      rfl
    have hexit : s'.exit = s.exit := by rw [hs']; rfl
    have hmark' : s'.userroomtype = s.userroomtype := by rw [hs']; rfl
    have hmake : s'.make = some (.joining uid r.ref m) := by rw [hs']
    have hnext : s'.next = s.next := by rw [hs']; rfl
    have hkeys : ∀ k, (s'.rooms k).map Room.key = (s.rooms k).map Room.key := by
      intro k
      rw [hrooms]
      by_cases hk : k = .fiftyomrooms_1
      · rw [hk, Function.update_self, map_key_modify]
      · rw [Function.update_of_ne hk]
    have hrefs' : ∀ k, (s'.rooms k).map Room.ref = (s.rooms k).map Room.ref := by
      intro k
      rw [hrooms]
      by_cases hk : k = .fiftyomrooms_1
      · rw [hk, Function.update_self, map_ref_modify]
      · rw [Function.update_of_ne hk]
    -- the room that is being dissolved is another one
    have hleaving : ∀ e r', s.exit = some e → Leaving s e r' → r' ∈ s'.rooms e.table := by
      intro e r' he hl'
      rw [hrooms]
      by_cases hk : e.table = .fiftyomrooms_1
      · rw [hk, Function.update_self]
        have hr' := hl'.mem
        rw [hk] at hr'
        refine mem_modify.mpr (Or.inr ⟨hr', decide_eq_false fun href => ?_⟩)
        exact hclosing e he ⟨hk, by rw [← hl'.key, eq_of_ref (h.refs _) hr' hr href]⟩
      · rw [Function.update_of_ne hk]
        exact hl'.mem
    have hrest : rest s' = rest s := by
      cases he : s.exit with
      | none => rw [rest, rest, hexit, he]
      | some e =>
        obtain ⟨r', hl'⟩ := h.leaving e he
        rw [rest_eq he (h.keys _) hl'.mem hl'.key,
          rest_eq (by rw [hexit, he]) (by rw [hkeys]; exact h.keys _) (hleaving e r' he hl') hl'.key]
    rw [← hs']
    refine ⟨?_, fun k => by rw [hkeys]; exact h.keys k, fun k => by rw [hrefs']; exact h.refs k,
      fun k r' hr' => ?_, fun c hc => ?_, fun e he => ?_⟩
    · rw [hcomplete] at hsound hmem
      rw [complete, hmake, hrest, hrooms, hexit, hmark', hnext, without_modify]
      simp only [enterRooms, enterMark, Make.entry, htable, Function.update_self,
        Function.update_idem, insert_erase]
      rw [← htable] at hmem ⊢
      refine hsound.enter hmem (fun r' hr' => ?_) ?_ (by rw [htable]; exact hlen)
      · rw [decide_eq_true_eq]
        exact ⟨fun href => eq_of_ref (h.refs _) (without_subset hr') (without_subset hmem) href,
          fun heq => by rw [heq]⟩
      · exact hu.imp_left unmark_of_none
    · rw [hnext]
      have href : r'.ref ∈ (s.rooms k).map Room.ref := by
        rw [← hrefs']
        exact List.mem_map_of_mem hr'
      obtain ⟨r₁, h₁, heq₁⟩ := List.mem_map.mp href
      rw [← heq₁]
      exact h.fresh k r₁ h₁
    · rw [hmake] at hc
      cases hc
      refine ⟨by simp, by simp, fun v ref m' hv => ?_, ?_⟩
      · cases hv
        refine ⟨{ r with members := r.members.erase uid }, ?_, rfl,
          (hsound.nodup _ r hmem).not_mem_erase, ?_⟩
        · rw [hrooms, htable, Function.update_self]
          exact mem_modify.mpr (Or.inl ⟨r, hr, decide_eq_true rfl, rfl⟩)
        · rintro ⟨e, he, hk, hkey⟩
          rw [hexit] at he
          exact hclosing e he ⟨hk.trans htable, hkey⟩
      · rw [hrest]
        intro hv
        rcases hu with hu | hu
        · exact h.marked_of_rest hv hu
        · obtain ⟨m', hm', -⟩ := hsound.member _ r hmem uid hu
          rw [hcomplete] at hm'
          have hgone : unmark (rest s) s.userroomtype uid = none := if_pos hv
          cases hgone.symm.trans hm'
    · rw [hexit] at he
      obtain ⟨r', hl'⟩ := h.leaving e he
      exact ⟨r', hleaving e r' he hl', hl'.key, hl'.count, hl'.mate, hl'.owner, hl'.size, hl'.nodup,
        by rw [hmark']; exact hl'.marked⟩

theorem delete_append {room : Room} {key : Key} (hne : room.key ≠ key) :
    delete (l ++ [room]) key = delete l key ++ [room] := by
  simp [delete, hne]

/-- What a step inside `createorjoinroom` has to leave: the tables and the marks as
they will be, the room that is being dissolved and its members. -/
theorem Inv.of_complete (h : Inv s) (hcomplete : complete t = complete s) (hexit : t.exit = s.exit)
    (hkeys : ∀ k, ((t.rooms k).map Room.key).Nodup) (hrefs : ∀ k, ((t.rooms k).map Room.ref).Nodup)
    (hfresh : ∀ k, ∀ r ∈ t.rooms k, r.ref < t.next)
    (hmaking : ∀ c, t.make = some c → Making t (Closing t) (rest t) c)
    (hleaving : ∀ e r, s.exit = some e → Leaving s e r → r ∈ t.rooms e.table ∧
      ∀ v ∈ r.members.drop e.i, t.userroomtype v ≠ none) : Inv t := by
  refine ⟨by rw [hcomplete]; exact h.sound, hkeys, hrefs, hfresh, hmaking, fun e he => ?_⟩
  rw [hexit] at he
  obtain ⟨r, hl⟩ := h.leaving e he
  obtain ⟨hr, hmarked⟩ := hleaving e r he hl
  exact ⟨r, hr, hl.key, hl.count, hl.mate, hl.owner, hl.size, hl.nodup, hmarked⟩

theorem update_ne_none {mark : ℤ → Option Mark} {m : Mark} (h : mark v ≠ none) :
    Function.update mark uid (some m) v ≠ none := by
  by_cases hv : v = uid
  · rw [hv, Function.update_self]
    simp
  · rwa [Function.update_of_ne hv]

/-- The rest of `destroyroom` is as it was where its room is still there. -/
theorem Inv.rest_congr (h : Inv s) (hexit : t.exit = s.exit)
    (hkeys : ∀ k, ((t.rooms k).map Room.key).Nodup)
    (hleaving : ∀ e r, s.exit = some e → Leaving s e r → r ∈ t.rooms e.table) : rest t = rest s := by
  cases he : s.exit with
  | none => rw [rest, rest, hexit, he]
  | some e =>
    obtain ⟨r, hl⟩ := h.leaving e he
    rw [rest_eq he (h.keys _) hl.mem hl.key,
      rest_eq (by rw [hexit, he]) (hkeys _) (hleaving e r he hl) hl.key]

/-- The mark is set before it would go, or after it went. -/
theorem unmark_update {a : List ℤ} {mark : ℤ → Option Mark} {m : Mark} (h : uid ∉ a) :
    unmark a (Function.update mark uid (some m)) = Function.update (unmark a mark) uid (some m) := by
  funext v
  unfold unmark
  by_cases hv : v = uid
  · rw [hv, if_neg h, Function.update_self, Function.update_self]
  · rw [Function.update_of_ne hv, Function.update_of_ne hv]

/-- **The new room is there.** -/
theorem Inv.resume_creating (h : Inv s) {key : Key} {m : Mark}
    (hc : s.make = some (.creating uid key m)) : Inv (Make.resume s (.creating uid key m)) := by
  obtain ⟨hmaking, -, -, hentry⟩ := h.making _ hc
  obtain ⟨hown, hnone, hkey⟩ := hmaking uid key m rfl
  obtain ⟨room, hroom⟩ : ∃ room : Room, room = ⟨key, s.next, [uid]⟩ := ⟨_, rfl⟩
  have hrooms : (Make.resume s (.creating uid key m)).rooms =
      Function.update s.rooms m.table (s.rooms m.table ++ [room]) := by
    change Function.update s.rooms m.table (put (s.rooms m.table) _) = _
    rw [put, if_neg hkey, hroom]
  have hroomkey : room.key = key := by rw [hroom]
  have hroomref : room.ref = s.next := by rw [hroom]
  have hsplit : ∀ {P : Table → List Room → Prop}, P m.table (s.rooms m.table ++ [room]) →
      (∀ k, P k (s.rooms k)) → ∀ k, P k ((Make.resume s (.creating uid key m)).rooms k) := by
    intro P hk hne k
    rw [hrooms]
    by_cases hkk : k = m.table
    · rw [hkk, Function.update_self]
      exact hk
    · rw [Function.update_of_ne hkk]
      exact hne k
  have hsub : ∀ k, ∀ r ∈ s.rooms k, r ∈ (Make.resume s (.creating uid key m)).rooms k := by
    refine hsplit (P := fun k l => ∀ r ∈ s.rooms k, r ∈ l) (fun r hr => List.mem_append_left _ hr)
      fun k r hr => hr
  have hkeys : ∀ k, (((Make.resume s (.creating uid key m)).rooms k).map Room.key).Nodup := by
    refine hsplit (P := fun _ l => (l.map Room.key).Nodup) ?_ h.keys
    rw [List.map_append, List.nodup_append]
    refine ⟨h.keys _, by simp, ?_⟩
    rintro x hx y hy rfl
    rw [List.map_singleton, List.mem_singleton, hroomkey] at hy
    exact hkey (hy ▸ hx)
  have hrest := h.rest_congr (t := Make.resume s (.creating uid key m)) rfl hkeys
    fun e r _ hl => hsub _ r hl.mem
  -- a room being closed is still in its table, and no room there has this key
  have hnotclosing : ∀ e, s.exit = some e → key ≠ e.key ∨ e.table ≠ m.table := by
    intro e he
    by_cases hk : e.table = m.table
    · obtain ⟨r, hl⟩ := h.leaving e he
      refine Or.inl fun heq => hkey ?_
      have hr := hl.mem
      rw [hk] at hr
      exact List.mem_map.mpr ⟨r, hr, hl.key.trans heq.symm⟩
    · exact Or.inr hk
  refine h.of_complete ?_ rfl hkeys ?_ ?_ ?_ fun e r he hl => ⟨hsub _ r hl.mem, hl.marked⟩
  · rw [complete, complete, hrest, hrooms, hc]
    have hwithout : without (Function.update s.rooms m.table (s.rooms m.table ++ [room])) s.exit =
        Function.update (without s.rooms s.exit) m.table (without s.rooms s.exit m.table ++ [room]) := by
      cases he : s.exit with
      | none => rfl
      | some e =>
        by_cases hk : e.table = m.table
        · have hne : room.key ≠ e.key := by
            rw [hroomkey]
            exact (hnotclosing e he).resolve_right (by simpa using hk)
          simp only [without, hk, Function.update_self, Function.update_idem, delete_append hne]
        · simp only [without, Function.update_of_ne hk, Function.update_of_ne (Ne.symm hk)]
          exact Function.update_comm (Ne.symm hk) _ _ _
    change (without (Function.update s.rooms m.table (s.rooms m.table ++ [room])) s.exit,
      Function.update (unmark (rest s) s.userroomtype) uid (some m)) = _
    rw [hwithout, hroom]
    rfl
  · refine hsplit (P := fun _ l => (l.map Room.ref).Nodup) ?_ h.refs
    rw [List.map_append, List.nodup_append]
    refine ⟨h.refs _, by simp, ?_⟩
    rintro x hx y hy rfl
    obtain ⟨r, hr, rfl⟩ := List.mem_map.mp hx
    rw [List.map_singleton, List.mem_singleton, hroomref] at hy
    exact absurd (h.fresh _ r hr) (by omega)
  · refine hsplit (P := fun _ l => ∀ r ∈ l, r.ref < s.next + 1) ?_
      fun k r hr => Nat.lt_succ_of_lt (h.fresh k r hr)
    intro r hr
    rcases List.mem_append.mp hr with hr | hr
    · exact Nat.lt_succ_of_lt (h.fresh _ r hr)
    · rw [List.mem_singleton.mp hr, hroomref]
      exact Nat.lt_succ_self _
  · intro c hc'
    cases hc'
    refine ⟨by simp, fun v m' hv => ?_, by simp, by rw [hrest]; exact hentry⟩
    cases hv
    refine ⟨hnone, room, ?_, by rw [hroomkey, hown], by rw [hroom]; exact List.mem_singleton_self uid, ?_⟩
    · rw [hrooms, Function.update_self]
      simp
    · rintro ⟨e, he, hk, hkey'⟩
      rcases hnotclosing e he with hne | hne
      · exact hne (by rw [← hroomkey, ← hkey'])
      · exact hne hk

/-- **Its player is marked.** -/
theorem Inv.resume_created (h : Inv s) {m : Mark} (hc : s.make = some (.created uid m)) :
    Inv (Make.resume s (.created uid m)) := by
  have hentry : uid ∉ rest s := (h.making _ hc).entry
  refine h.of_complete ?_ rfl h.keys h.refs h.fresh nofun
    fun e r _ hl => ⟨hl.mem, fun v hv => update_ne_none (hl.marked v hv)⟩
  rw [complete, complete, hc]
  change (without s.rooms s.exit, unmark (rest s) (Function.update s.userroomtype uid (some m))) = _
  rw [unmark_update hentry]
  rfl

/-- **A player joins**, and is marked. -/
theorem Inv.resume_joining (h : Inv s) {ref : ℕ} {m : Mark}
    (hc : s.make = some (.joining uid ref m)) : Inv (Make.resume s (.joining uid ref m)) := by
  obtain ⟨-, -, hmaking, hgone⟩ := h.making _ hc
  have hentry : uid ∉ rest s := hgone
  obtain ⟨r₀, hr₀, href₀, -, hopen⟩ := hmaking uid ref m rfl
  have hrooms : (Make.resume s (.joining uid ref m)).rooms =
      Function.update s.rooms m.table (insert (s.rooms m.table) ref uid) := rfl
  have hmaps : ∀ k, ((Make.resume s (.joining uid ref m)).rooms k).map Room.key = (s.rooms k).map Room.key ∧
      ((Make.resume s (.joining uid ref m)).rooms k).map Room.ref = (s.rooms k).map Room.ref := by
    intro k
    rw [hrooms]
    by_cases hk : k = m.table
    · rw [hk, Function.update_self, insert, map_key_modify, map_ref_modify]
      exact ⟨rfl, rfl⟩
    · rw [Function.update_of_ne hk]
      exact ⟨rfl, rfl⟩
  have hkeys : ∀ k, (((Make.resume s (.joining uid ref m)).rooms k).map Room.key).Nodup := by
    intro k
    rw [(hmaps k).1]
    exact h.keys k
  have hleaving : ∀ e r, s.exit = some e → Leaving s e r →
      r ∈ (Make.resume s (.joining uid ref m)).rooms e.table := by
    intro e r he hl
    rw [hrooms]
    by_cases hk : e.table = m.table
    · have hr := hl.mem
      rw [hk] at hr ⊢
      rw [Function.update_self]
      refine mem_modify.mpr (Or.inr ⟨hr, decide_eq_false fun href => hopen ⟨e, he, hk, ?_⟩⟩)
      rw [← hl.key, eq_of_ref (h.refs _) hr hr₀ (href.trans href₀.symm)]
    · rw [Function.update_of_ne hk]
      exact hl.mem
  have hrest := h.rest_congr (t := Make.resume s (.joining uid ref m)) rfl hkeys hleaving
  refine h.of_complete ?_ rfl hkeys (fun k => by rw [(hmaps k).2]; exact h.refs k) (fun k r hr => ?_) nofun
    fun e r he hl => ⟨hleaving e r he hl, fun v hv => update_ne_none (hl.marked v hv)⟩
  · rw [complete, complete, hrest, hrooms, hc]
    change (without (Function.update s.rooms m.table (insert (s.rooms m.table) ref uid)) s.exit,
      unmark (rest s) (Function.update s.userroomtype uid (some m))) = _
    rw [unmark_update hentry, insert, without_modify]
    rfl
  · have hmem : r.ref ∈ (s.rooms k).map Room.ref := by
      rw [← (hmaps k).2]
      exact List.mem_map_of_mem hr
    obtain ⟨r₁, h₁, heq⟩ := List.mem_map.mp hmem
    rw [← heq]
    exact h.fresh k r₁ h₁

/-! ## The order of a table -/

theorem perm_update {rooms : Table → List Room} {k : Table} {l' : List Room} (hp : l'.Perm (rooms k)) :
    ∀ k', (Function.update rooms k l' k').Perm (rooms k') := by
  intro k'
  by_cases hk : k' = k
  · rw [hk, Function.update_self]
    exact hp
  · rw [Function.update_of_ne hk]

theorem without_perm {rooms rooms' : Table → List Room} (hp : ∀ k, (rooms' k).Perm (rooms k))
    (x : Option Exit) (k : Table) : (without rooms' x k).Perm (without rooms x k) := by
  cases x with
  | none => exact hp k
  | some e =>
    simp only [without]
    by_cases hk : k = e.table
    · subst hk
      rw [Function.update_self, Function.update_self]
      exact (hp _).filter _
    · rw [Function.update_of_ne hk, Function.update_of_ne hk]
      exact hp k

theorem enterRooms_perm {rooms rooms' : Table → List Room} (hp : ∀ k, (rooms' k).Perm (rooms k))
    (n : ℕ) (c : Option Make) (k : Table) : (enterRooms n rooms' c k).Perm (enterRooms n rooms c k) := by
  obtain _ | ⟨v, key, m⟩ | ⟨v, m⟩ | ⟨v, ref, m⟩ := c
  · exact hp k
  · simp only [enterRooms]
    by_cases hk : k = m.table
    · subst hk
      rw [Function.update_self, Function.update_self]
      exact (hp _).append_right _
    · rw [Function.update_of_ne hk, Function.update_of_ne hk]
      exact hp k
  · exact hp k
  · simp only [enterRooms]
    by_cases hk : k = m.table
    · subst hk
      rw [Function.update_self, Function.update_self]
      exact (hp _).map _
    · rw [Function.update_of_ne hk, Function.update_of_ne hk]
      exact hp k

theorem Inv.rehash (h : Inv s) {k : Table} (hp : l.Perm (s.rooms k)) : Inv (s.setRooms k l) := by
  have hperm : ∀ k', ((s.setRooms k l).rooms k').Perm (s.rooms k') := perm_update hp
  have hkeys : ∀ k', (((s.setRooms k l).rooms k').map Room.key).Nodup :=
    fun k' => ((hperm k').map _).nodup_iff.mpr (h.keys k')
  have hrest : rest (s.setRooms k l) = rest s :=
    h.rest_congr rfl hkeys fun e r _ hl => (hperm _).mem_iff.mpr hl.mem
  refine ⟨?_, hkeys, fun k' => ((hperm k').map _).nodup_iff.mpr (h.refs k'),
    fun k' r hr => h.fresh k' r ((hperm k').mem_iff.mp hr), fun c hc => ?_, fun e he => ?_⟩
  · have hmark : (complete (s.setRooms k l)).2 = (complete s).2 := by
      rw [complete, complete, hrest]
      rfl
    rw [hmark]
    exact h.sound.perm (enterRooms_perm (without_perm hperm s.exit) s.next s.make)
  · obtain ⟨h₁, h₂, h₃, h₄⟩ := h.making c hc
    refine ⟨fun v key m hv => ?_, fun v m hv => ?_, fun v ref m hv => ?_, by rw [hrest]; exact h₄⟩
    · exact ⟨(h₁ v key m hv).1, (h₁ v key m hv).2.1,
        fun hmem => (h₁ v key m hv).2.2 (((hperm _).map _).mem_iff.mp hmem)⟩
    · obtain ⟨hnone, r, hr, hown, hv', hopen⟩ := h₂ v m hv
      exact ⟨hnone, r, (hperm _).mem_iff.mpr hr, hown, hv', hopen⟩
    · obtain ⟨r, hr, href, hv', hopen⟩ := h₃ v ref m hv
      exact ⟨r, (hperm _).mem_iff.mpr hr, href, hv', hopen⟩
  · obtain ⟨r, hl⟩ := h.leaving e he
    exact ⟨r, (hperm _).mem_iff.mpr hl.mem, hl.key, hl.count, hl.mate, hl.owner, hl.size, hl.nodup,
      hl.marked⟩

end Team

end Athena
