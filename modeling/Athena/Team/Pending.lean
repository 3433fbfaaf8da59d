import Athena.Team.Rooms
/-!
# Team rooms — calls under way

A state is read as the one it comes to when the calls under way are
through and nothing else happens (`complete`). That state is what the
steps of a call leave alone, so it is sound as long as the calls only
begin where nothing goes wrong (`Clear`): a player who is in a room only
asks for a room where it finds that one, nobody is given a room that is
being dissolved, and nobody dissolves a room another player was given
and is not in yet.
-/

namespace Athena

namespace Team

/-! ## What the calls under way will do -/

/-- The members `destroyroom` has still to unmark. -/
def rest (s : State) : List ℤ :=
  match s.exit with
  | none => []
  | some e => ((((s.rooms e.table).find? fun r => r.key = e.key).map Room.members).getD []).drop e.i

/-- The tables without the room that is being dissolved. -/
def without (rooms : Table → List Room) : Option Exit → Table → List Room
  | none => rooms
  | some e => Function.update rooms e.table (delete (rooms e.table) e.key)

/-- The end of a call inside `createorjoinroom`, on tables. -/
def enterRooms (next : ℕ) (rooms : Table → List Room) : Option Make → Table → List Room
  | none => rooms
  | some (.creating uid key m) => Function.update rooms m.table (rooms m.table ++ [⟨key, next, [uid]⟩])
  | some (.created _ _) => rooms
  | some (.joining uid ref m) => Function.update rooms m.table (insert (rooms m.table) ref uid)

/-- The player of a call inside `createorjoinroom`, and its mark to be. -/
def Make.entry : Make → ℤ × Mark
  | .creating uid _ m => (uid, m)
  | .created uid m => (uid, m)
  | .joining uid _ m => (uid, m)

/-- The end of a call inside `createorjoinroom`, on marks. -/
def enterMark (mark : ℤ → Option Mark) : Option Make → ℤ → Option Mark
  | none => mark
  | some c => Function.update mark c.entry.1 (some c.entry.2)

/-- **The tables and the marks when the calls under way are through.** -/
def complete (s : State) : (Table → List Room) × (ℤ → Option Mark) :=
  (enterRooms s.next (without s.rooms s.exit) s.make, enterMark (unmark (rest s) s.userroomtype) s.make)

/-! ## The condition -/

/-- A room for the stage that has place when the player is not counted. -/
def fits (target : ℕ) (stageid uid : ℤ) (r : Room) : Bool :=
  r.key.stageid = stageid ∧ (r.members.erase uid).length < target

/-- The first room a player may get. -/
def fitroom (s : State) (stageid uid : ℤ) : Option Room :=
  (s.rooms .fiftyomrooms_1).find? (fits Roomnum.hundred.target stageid uid)

/-- **A call begins where nothing goes wrong.** -/
def Clear (stage : ℤ → Option ℤ) (s : State) : Event → Prop
  | .maketeam uid stageid =>
    stage stageid = none ∨
      ((s.userroomtype uid = none ∨ ∃ r, fitroom s stageid uid = some r ∧ uid ∈ r.members) ∧
        ∀ r e, fitroom s stageid uid = some r → s.exit = some e →
          ¬(e.table = .fiftyomrooms_1 ∧ e.key = r.key))
  | .teamexit uid | .gobattlefinish uid =>
    ∀ v ref m, s.make = some (.joining v ref m) →
      ∀ r ∈ s.rooms m.table, r.ref = ref → r.key.uid ≠ uid
  | _ => True

/-! ## The invariant -/

/-- A room that is being dissolved. -/
def Closing (s : State) (k : Table) (key : Key) : Prop := ∃ e, s.exit = some e ∧ e.table = k ∧ e.key = key

/-- The call inside `createorjoinroom` is where it should be, when `closing` is
being dissolved and the marks of `gone` are about to go. -/
structure Making (s : State) (closing : Table → Key → Prop) (gone : List ℤ) (c : Make) : Prop where
  creating : ∀ uid key m, c = .creating uid key m →
    key.uid = uid ∧ s.userroomtype uid = none ∧ key ∉ (s.rooms m.table).map Room.key
  created : ∀ uid m, c = .created uid m → s.userroomtype uid = none ∧
    ∃ r ∈ s.rooms m.table, r.key.uid = uid ∧ uid ∈ r.members ∧ ¬closing m.table r.key
  joining : ∀ uid ref m, c = .joining uid ref m → ∃ r ∈ s.rooms m.table, r.ref = ref ∧
    uid ∉ r.members ∧ ¬closing m.table r.key
  entry : c.entry.1 ∉ gone

/-- So is the call inside `destroyroom`, in the room `r`. -/
structure Leaving (s : State) (e : Exit) (r : Room) : Prop where
  mem : r ∈ s.rooms e.table
  key : r.key = e.key
  count : e.n = r.members.length
  mate : r.members[e.i]? = some e.mate
  owner : r.key.uid ∈ r.members
  size : r.members.length ≤ e.table.target
  nodup : r.members.Nodup
  marked : ∀ v ∈ r.members.drop e.i, s.userroomtype v ≠ none

structure Inv (s : State) : Prop where
  sound : Sound (complete s).1 (complete s).2
  keys : ∀ k, ((s.rooms k).map Room.key).Nodup
  refs : ∀ k, ((s.rooms k).map Room.ref).Nodup
  fresh : ∀ k, ∀ r ∈ s.rooms k, r.ref < s.next
  making : ∀ c, s.make = some c → Making s (Closing s) (rest s) c
  leaving : ∀ e, s.exit = some e → ∃ r, Leaving s e r

variable {s t : State} {stage : ℤ → Option ℤ} {l : List Room} {uid v : ℤ} {r : Room}

/-! ## `findfitroom` -/

/-- The room `findfitroom` finds is the first that fits. Where no room holds more
than its number, the player is taken out of that room and no other. -/
theorem findfitroom_eq {target : ℕ} (stageid uid : ℤ) (hsize : ∀ r ∈ l, r.members.length ≤ target) :
    (l.find? (fits target stageid uid) = none ∧ findfitroom target stageid uid l = (none, l) ∧
      ∀ r ∈ l, r.key.stageid = stageid → uid ∉ r.members) ∨
    ∃ a r b, l = a ++ r :: b ∧ l.find? (fits target stageid uid) = some r ∧
      r.key.stageid = stageid ∧ (r.members.erase uid).length < target ∧
      findfitroom target stageid uid l =
        (some { r with members := r.members.erase uid },
          a ++ { r with members := r.members.erase uid } :: b) := by
  induction l with
  | nil => exact Or.inl ⟨rfl, rfl, by simp⟩
  | cons r l ih =>
    have ih := ih fun r hr => hsize r (List.mem_cons_of_mem _ hr)
    by_cases hfit : fits target stageid uid r = true
    · have h : r.key.stageid = stageid ∧ (r.members.erase uid).length < target := by
        simpa [fits] using hfit
      refine Or.inr ⟨[], r, l, rfl, List.find?_cons_of_pos hfit, h.1, h.2, ?_⟩
      simp [findfitroom, h.1, h.2]
    · have hfind : (r :: l).find? (fits target stageid uid) = l.find? (fits target stageid uid) :=
        List.find?_cons_of_neg hfit
      -- a room that is passed is as it was: full without the player
      have hpass : r.key.stageid = stageid → uid ∉ r.members := by
        intro hst hmem
        have hlen := List.length_erase_of_mem hmem
        have hpos := List.length_pos_of_mem hmem
        have hle := hsize r List.mem_cons_self
        exact hfit (by simp [fits, hst]; omega)
      have hstep : findfitroom target stageid uid (r :: l) =
          ((findfitroom target stageid uid l).1, r :: (findfitroom target stageid uid l).2) := by
        by_cases hst : r.key.stageid = stageid
        · have hlen : ¬ (r.members.erase uid).length < target := fun h => hfit (by simp [fits, hst, h])
          have herase := List.erase_of_not_mem (hpass hst)
          rw [herase] at hlen
          rw [findfitroom, if_pos hst]
          simp only [herase]
          rw [if_neg hlen]
        · rw [findfitroom, if_neg hst]
      rcases ih with ⟨hnone, heq, hno⟩ | ⟨a, r', b, rfl, hsome, hst, hlen, heq⟩
      · refine Or.inl ⟨hfind.trans hnone, by rw [hstep, heq], fun r' hr' hst => ?_⟩
        rcases List.mem_cons.mp hr' with rfl | hr'
        · exact hpass hst
        · exact hno r' hr' hst
      · exact Or.inr ⟨r :: a, r', b, rfl, hfind.trans hsome, hst, hlen, by rw [hstep, heq]; rfl⟩

/-- A change of the one room at its place. -/
theorem modify_append {a b : List Room} (hn : ((a ++ r :: b).map Room.ref).Nodup) (f : List ℤ → List ℤ) :
    modify (a ++ r :: b) (fun r' => r'.ref = r.ref) f =
      a ++ { r with members := f r.members } :: b := by
  have hout : ∀ l : List Room, (∀ r' ∈ l, r'.ref ≠ r.ref) →
      modify l (fun r' => r'.ref = r.ref) f = l := by
    intro l hl
    unfold modify
    refine (List.map_congr_left fun r' hr' => ?_).trans (List.map_id l)
    rw [if_neg (by simpa using hl r' hr')]
    rfl
  simp only [List.map_append, List.map_cons, List.nodup_append, List.nodup_cons] at hn
  obtain ⟨-, ⟨hb, -⟩, ha⟩ := hn
  have ha' : modify a (fun r' => r'.ref = r.ref) f = a := hout a fun r' hr' heq =>
    ha r'.ref (List.mem_map_of_mem hr') r.ref (by simp) heq
  have hb' : modify b (fun r' => r'.ref = r.ref) f = b := hout b fun r' hr' heq =>
    hb (heq ▸ List.mem_map_of_mem hr')
  calc modify (a ++ r :: b) (fun r' => r'.ref = r.ref) f
      = modify a (fun r' => r'.ref = r.ref) f ++ { r with members := f r.members } ::
          modify b (fun r' => r'.ref = r.ref) f := by simp [modify]
    _ = a ++ { r with members := f r.members } :: b := by rw [ha', hb']

/-! ## The loop of `destroyroom` -/

/-- **What the loop leaves**: the members it has unmarked and those it has not
are the members from where it started. -/
theorem sweep_spec (uid : ℤ) (members : List ℤ) (i : ℕ) (hi : i ≤ members.length) :
    (∃ j mate, (sweep uid members (members.length - i) i).2 = .notify j mate ∧
      members[j]? = some mate ∧
      members.drop i = (sweep uid members (members.length - i) i).1 ++ members.drop j) ∨
    ((sweep uid members (members.length - i) i).2 = .done ∧
      members.drop i = (sweep uid members (members.length - i) i).1) := by
  obtain ⟨fuel, hfuel⟩ : ∃ fuel, fuel = members.length - i := ⟨_, rfl⟩
  rw [← hfuel]
  induction fuel generalizing i with
  | zero =>
    refine Or.inr ⟨rfl, ?_⟩
    rw [List.drop_eq_nil_of_le (by omega)]
    rfl
  | succ fuel ih =>
    have hlt : i < members.length := by omega
    have hget : members[i]? = some members[i] := List.getElem?_eq_getElem hlt
    by_cases hu : uid = members[i]
    · have hsweep : sweep uid members (fuel + 1) i =
          (members[i] :: (sweep uid members fuel (i + 1)).1, (sweep uid members fuel (i + 1)).2) := by
        simp only [sweep, hget, hu, ne_eq, not_true, if_false]
      rw [hsweep, List.drop_eq_getElem_cons hlt]
      rcases ih (i + 1) (by omega) (by omega) with ⟨j, mate, h₁, h₂, h₃⟩ | ⟨h₁, h₂⟩
      · exact Or.inl ⟨j, mate, h₁, h₂, by rw [h₃]; rfl⟩
      · exact Or.inr ⟨h₁, by rw [h₂]⟩
    · have hsweep : sweep uid members (fuel + 1) i = ([], .notify i members[i]) := by
        simp only [sweep, hget, ne_eq, hu, not_false_eq_true, if_true]
      rw [hsweep]
      exact Or.inl ⟨i, members[i], rfl, hget, rfl⟩

theorem rest_eq {e : Exit} (he : s.exit = some e) (hkeys : ((s.rooms e.table).map Room.key).Nodup)
    (hr : r ∈ s.rooms e.table) (hkey : r.key = e.key) : rest s = r.members.drop e.i := by
  rw [rest, he]
  simp only [← hkey, find?_key hkeys hr, Option.map_some, Option.getD_some]

theorem unmark_of_none {l : List ℤ} {mark : ℤ → Option Mark} (h : mark v = none) :
    unmark l mark v = none := by
  unfold unmark
  split
  · rfl
  · exact h

theorem unmark_append (a b : List ℤ) (mark : ℤ → Option Mark) :
    unmark b (unmark a mark) = unmark (a ++ b) mark := by
  funext v
  simp only [unmark, List.mem_append]
  by_cases ha : v ∈ a <;> by_cases hb : v ∈ b <;> simp [ha, hb]

/-- **`destroyroom` from the `i`-th member on** keeps the invariant, when it holds of
the tables without the room and the marks without those of the members
from there. -/
theorem Inv.proceed {k : Table} {i : ℕ} {battle : Bool}
    (hkeys : ∀ k, ((s.rooms k).map Room.key).Nodup) (hrefs : ∀ k, ((s.rooms k).map Room.ref).Nodup)
    (hfresh : ∀ k, ∀ r ∈ s.rooms k, r.ref < s.next) (hr : r ∈ s.rooms k)
    (hi : i ≤ r.members.length) (howner : r.key.uid ∈ r.members)
    (hsize : r.members.length ≤ k.target) (hnodup : r.members.Nodup)
    (hmarked : ∀ v ∈ r.members.drop i, s.userroomtype v ≠ none)
    (hmaking : ∀ c, s.make = some c →
      Making s (fun k' key => k = k' ∧ r.key = key) (r.members.drop i) c)
    (hsound : Sound
      (enterRooms s.next (Function.update s.rooms k (delete (s.rooms k) r.key)) s.make)
      (enterMark (unmark (r.members.drop i) s.userroomtype) s.make)) :
    Inv (proceed s uid k r.key r.members.length i battle) := by
  have hfind : (((s.rooms k).find? fun r' => r'.key = r.key).map Room.members).getD [] =
      r.members := by
    rw [find?_key (hkeys k) hr]
    rfl
  have hspec := sweep_spec uid r.members i hi
  unfold Team.proceed
  simp only [hfind]
  rcases hspec with ⟨j, mate, hstop, hmate, hdrop⟩ | ⟨hstop, hdrop⟩
  · -- it waits with the `j`-th member
    obtain ⟨c, hc⟩ : ∃ c, c = (sweep uid r.members (r.members.length - i) i).1 := ⟨_, rfl⟩
    rw [← hc] at hdrop
    simp only [hstop, ← hc]
    -- the room stays in the table, and `exit` says what is left to do
    obtain ⟨s', hs'⟩ : ∃ s', s' = { s.clear c with
      exit := some ⟨uid, k, r.key, r.members.length, j, mate, battle⟩ } := ⟨_, rfl⟩
    have hexit : s'.exit = some ⟨uid, k, r.key, r.members.length, j, mate, battle⟩ := by rw [hs']
    have hrooms : s'.rooms = s.rooms := by rw [hs']; rfl
    have hmark : s'.userroomtype = unmark c s.userroomtype := by rw [hs']; rfl
    have hmake : s'.make = s.make := by rw [hs']; rfl
    have hnext : s'.next = s.next := by rw [hs']; rfl
    have hrest : rest s' = r.members.drop j :=
      rest_eq hexit (by rw [hrooms]; exact hkeys k) (by rw [hrooms]; exact hr) rfl
    -- the only room being closed is this one, which `hmaking` leaves out
    have hclose : ∀ k' key, Closing s' k' key → k = k' ∧ r.key = key := by
      rintro k' key ⟨e, he, hk, hkey⟩
      rw [hexit] at he
      cases he
      exact ⟨hk, hkey⟩
    rw [← hs']
    refine ⟨?_, by rwa [hrooms], by rwa [hrooms], by rwa [hrooms, hnext], fun c' hc' => ?_, fun e he => ?_⟩
    · rw [complete, hexit, hrest, hmark, hmake, hnext, hrooms, unmark_append, ← hdrop]
      exact hsound
    · obtain ⟨h₁, h₂, h₃, h₄⟩ := hmaking c' (by rw [← hmake, hc'])
      refine ⟨fun v key m hv => ?_, fun v m hv => ?_, fun v ref m hv => ?_, ?_⟩
      · rw [hmark, hrooms]
        exact ⟨(h₁ v key m hv).1, unmark_of_none (h₁ v key m hv).2.1, (h₁ v key m hv).2.2⟩
      · rw [hmark, hrooms]
        obtain ⟨hnone, r', hr', hown, hv', hclosing⟩ := h₂ v m hv
        exact ⟨unmark_of_none hnone, r', hr', hown, hv', fun h => hclosing (hclose _ _ h)⟩
      · rw [hrooms]
        obtain ⟨r', hr', href, hv', hclosing⟩ := h₃ v ref m hv
        exact ⟨r', hr', href, hv', fun h => hclosing (hclose _ _ h)⟩
      · rw [hrest]
        rw [hdrop] at h₄
        exact fun hmem => h₄ (List.mem_append_right _ hmem)
    · rw [hexit] at he
      cases he
      refine ⟨r, by rwa [hrooms], rfl, rfl, hmate, howner, hsize, hnodup, fun v hv => ?_⟩
      have hn : (r.members.drop i).Nodup := hnodup.sublist (List.drop_sublist _ _)
      rw [hdrop, List.nodup_append] at hn
      rw [hmark, unmark, if_neg fun hvc => hn.2.2 v hvc v hv rfl]
      exact hmarked v (by rw [hdrop]; exact List.mem_append_right _ hv)
  · -- the room goes
    obtain ⟨c, hc⟩ : ∃ c, c = (sweep uid r.members (r.members.length - i) i).1 := ⟨_, rfl⟩
    rw [← hc] at hdrop
    simp only [hstop, ← hc]
    obtain ⟨s', hs'⟩ : ∃ s', s' = { State.unready ((s.clear c).setRooms k
      (delete ((s.clear c).rooms k) r.key)) uid battle with exit := none } := ⟨_, rfl⟩
    have hexit : s'.exit = none := by rw [hs']
    have hrooms : s'.rooms = Function.update s.rooms k (delete (s.rooms k) r.key) := by
      rw [hs']
      cases battle <;> rfl
    have hmark : s'.userroomtype = unmark c s.userroomtype := by
      rw [hs']
      cases battle <;> rfl
    have hmake : s'.make = s.make := by
      rw [hs']
      cases battle <;> rfl
    have hnext : s'.next = s.next := by
      rw [hs']
      cases battle <;> rfl
    have hrest : rest s' = [] := by rw [rest, hexit]
    have hsub : ∀ k', (s'.rooms k').Sublist (s.rooms k') := by
      intro k'
      rw [hrooms]
      by_cases hk : k' = k
      · rw [hk, Function.update_self]
        exact List.filter_sublist
      · rw [Function.update_of_ne hk]
    -- every room but this one is still there
    have hstay : ∀ k', ∀ r' ∈ s.rooms k', ¬(k = k' ∧ r.key = r'.key) → r' ∈ s'.rooms k' := by
      intro k' r' hr' hclosing
      rw [hrooms]
      by_cases hk : k' = k
      · rw [hk, Function.update_self]
        rw [hk] at hr'
        exact mem_delete.mpr ⟨hr', fun hkey => hclosing ⟨hk.symm, hkey.symm⟩⟩
      · rwa [Function.update_of_ne hk]
    have hopen : ∀ k' key, ¬Closing s' k' key := by
      rintro k' key ⟨e, he, -⟩
      rw [hexit] at he
      cases he
    rw [← hs']
    refine ⟨?_, fun k' => (hkeys k').sublist ((hsub k').map _), fun k' => (hrefs k').sublist ((hsub k').map _),
      fun k' r' hr' => ?_, fun c' hc' => ?_, fun e he => ?_⟩
    · have hnil : unmark [] (unmark c s.userroomtype) = unmark (r.members.drop i) s.userroomtype := by
        rw [unmark_append, List.append_nil, ← hdrop]
      rw [complete, hexit, hrest, hmark, hmake, hnext, hnil, hrooms]
      exact hsound
    · rw [hnext]
      exact hfresh k' r' ((hsub k').subset hr')
    · obtain ⟨h₁, h₂, h₃, h₄⟩ := hmaking c' (by rw [← hmake, hc'])
      refine ⟨fun v key m hv => ?_, fun v m hv => ?_, fun v ref m hv => ?_, ?_⟩
      · rw [hmark]
        exact ⟨(h₁ v key m hv).1, unmark_of_none (h₁ v key m hv).2.1,
          fun hmem => (h₁ v key m hv).2.2 (((hsub _).map _).subset hmem)⟩
      · rw [hmark]
        obtain ⟨hnone, r', hr', hown, hv', hclosing⟩ := h₂ v m hv
        exact ⟨unmark_of_none hnone, r', hstay _ r' hr' hclosing, hown, hv', hopen _ _⟩
      · obtain ⟨r', hr', href, hv', hclosing⟩ := h₃ v ref m hv
        exact ⟨r', hstay _ r' hr' hclosing, href, hv', hopen _ _⟩
      · rw [hrest]
        exact List.not_mem_nil
    · rw [hexit] at he
      cases he

/-- A member is told, and `destroyroom` goes on. -/
theorem Inv.notified (h : Inv s) {e : Exit} (he : s.exit = some e) :
    Inv (Team.proceed (s.clear [e.mate]) e.uid e.table e.key e.n (e.i + 1) e.battle) := by
  obtain ⟨r, hl⟩ := h.leaving e he
  have hlt : e.i < r.members.length := (List.getElem?_eq_some_iff.mp hl.mate).1
  have hdrop : r.members.drop e.i = e.mate :: r.members.drop (e.i + 1) := by
    rw [List.drop_eq_getElem_cons hlt, (List.getElem?_eq_some_iff.mp hl.mate).2]
  have hrest : rest s = e.mate :: r.members.drop (e.i + 1) := by
    rw [rest_eq he (h.keys _) hl.mem hl.key, hdrop]
  have hnodup : (e.mate :: r.members.drop (e.i + 1)).Nodup := by
    rw [← hdrop]
    exact hl.nodup.sublist (List.drop_sublist _ _)
  rw [← hl.key, hl.count]
  refine Inv.proceed h.keys h.refs h.fresh hl.mem hlt hl.owner hl.size hl.nodup ?_ ?_ ?_
  · intro v hv
    have hne : v ∉ [e.mate] := by
      rw [List.mem_singleton]
      rintro rfl
      exact (List.nodup_cons.mp hnodup).1 hv
    change unmark [e.mate] s.userroomtype v ≠ none
    rw [unmark, if_neg hne]
    exact hl.marked v (by rw [hdrop]; exact List.mem_cons_of_mem _ hv)
  · intro c hc
    obtain ⟨h₁, h₂, h₃, h₄⟩ := h.making c hc
    have hclose : ∀ k key, (e.table = k ∧ r.key = key) → Closing s k key :=
      fun k key h => ⟨e, he, h.1, hl.key ▸ h.2⟩
    refine ⟨fun v key m hv => ?_, fun v m hv => ?_, fun v ref m hv => ?_, fun hmem => ?_⟩
    · exact ⟨(h₁ v key m hv).1, unmark_of_none (h₁ v key m hv).2.1, (h₁ v key m hv).2.2⟩
    · obtain ⟨hnone, r', hr', hown, hv', hclosing⟩ := h₂ v m hv
      exact ⟨unmark_of_none hnone, r', hr', hown, hv', fun h => hclosing (hclose _ _ h)⟩
    · obtain ⟨r', hr', href, hv', hclosing⟩ := h₃ v ref m hv
      exact ⟨r', hr', href, hv', fun h => hclosing (hclose _ _ h)⟩
    · rw [hrest] at h₄
      exact h₄ (List.mem_cons_of_mem _ hmem)
  · have hsound := h.sound
    rw [complete, he, hrest, without, ← hl.key] at hsound
    change Sound (enterRooms s.next (Function.update s.rooms e.table (delete (s.rooms e.table) r.key)) s.make)
      (enterMark (unmark (r.members.drop (e.i + 1)) (unmark [e.mate] s.userroomtype)) s.make)
    rw [unmark_append]
    exact hsound

end Team

end Athena
