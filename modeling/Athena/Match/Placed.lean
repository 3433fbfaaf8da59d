import Athena.Match.Model
import Athena.Common.Trace
import Mathlib.Data.List.Count
/-!
# Matchmaking — placed once

A state is `Placed` when no player is in two battles, in two waiting rooms or in
both, and the room type of a player is set exactly while he is in one of them. Few
steps keep that: a room that comes to wait has its players' types set one stop
later each, a rival is in the new battle and still in his waiting room, an `offline`
clears the type of a fighter before he leaves, and the end of a battle clears none.
`Spares` says which steps do keep it, and `placed_iff` that a run is placed at every
stop if and only if all of its steps are of these.
-/

namespace Athena

namespace Match

/-- The player is in a room that waits under the key. -/
def Waits (s : State) (uid : Uid) (key : Key) : Prop :=
  ∃ rooms, s.waitingroom key = some rooms ∧ ∃ room ∈ rooms, uid ∈ room

/-- The number of battles a player is in, registered or not yet. -/
def battlesOf (s : State) (uid : Uid) : ℕ :=
  (s.handle_uid.countP fun v => uid ∈ v.2) + s.flights.countP fun f => uid ∈ f.fighters

/-- **Each player is placed once**, and marked exactly while he is. -/
structure Placed (s : State) : Prop where
  battles : ∀ uid, battlesOf s uid ≤ 1
  rooms : ∀ uid key rooms, s.waitingroom key = some rooms →
    (rooms.countP fun room => uid ∈ room) ≤ 1
  keys : ∀ uid key key', Waits s uid key → Waits s uid key' → key = key'
  apart : ∀ uid key, Waits s uid key → battlesOf s uid = 0
  marked : ∀ uid, s.playerroomtype uid ≠ none ↔ (∃ key, Waits s uid key) ∨ 0 < battlesOf s uid

/-- `gobattle` comes to let the room wait. -/
def Joins (Task_Type : ℤ → Option ℤ) (s : State) (key : Key) (room : Room) (pick : ℕ) : Prop :=
  (∃ task_type, Task_Type key.stageid = some task_type ∧ isPve task_type key.roomnum = false) ∧
    (∀ uid ∈ room, s.playerroomtype uid = none) ∧ findsuitrival s key pick = none

/-- A stopped call may go on: the players of a battle that begins are not marked by
then, and nobody is taken out of a battle. -/
def Flight.Spares (s : State) (ok : Bool) : Flight → Prop
  | .sets _ room _ _ 0 => ∀ uid ∈ room, s.playerroomtype uid = none
  | .closes uid => ok = false → ∀ v ∈ s.handle_uid, uid ∈ v.2 → uid ∈ v.2.erase uid
  | _ => True

/-- **No room with players comes to wait**; the players of a battle that begins are
not marked by then; nobody leaves a battle, by an `offline` or an answer to an
earlier one; and no battle with fighters in it ends. -/
def Spares (Task_Type : ℤ → Option ℤ) (s : State) : Event → Prop
  | .gobattle key room pick => Joins Task_Type s key room pick → room = []
  | .offline uid => battlesOf s uid = 0
  | .resume i ok _ => ∀ f, s.flights[i]? = some f → f.Spares s ok
  | .battlefinish handle => ∀ v ∈ s.handle_uid, v.1 = handle → v.2 = []
  | _ => True

/-- A stopped call without a rival, and with no player to mark. -/
def Flight.Calm : Flight → Prop
  | .asks _ _ rival | .opens _ _ rival | .sets _ _ rival _ _ | .inits _ rival _ | .sends rival _ =>
    rival.getD [] = []
  | .waits _ room => room = []
  | _ => True

/-- The states of a run that was placed at every stop: nobody waits. -/
structure Calm (s : State) : Prop where
  empty : ∀ key rooms, s.waitingroom key = some rooms → ∀ room ∈ rooms, room = []
  flights : ∀ f ∈ s.flights, f.Calm

variable {Task_Type : ℤ → Option ℤ} {s t : State} {uid : Uid} {key : Key} {i : ℕ} {f : Flight}
  {e : Event}

/-! ## Counting battles -/

section Fighters

variable (room : Room) (rival : Option Room) (handle : Handle) (left : ℕ) (fighters : List Uid)

@[simp] theorem fighters_asks : (Flight.asks key room rival).fighters = [] := rfl

@[simp] theorem fighters_opens : (Flight.opens key room rival).fighters = [] := rfl

@[simp] theorem fighters_sets : (Flight.sets key room rival handle left).fighters = [] := rfl

@[simp] theorem fighters_inits : (Flight.inits fighters rival handle).fighters = fighters := rfl

@[simp] theorem fighters_sends : (Flight.sends rival left).fighters = [] := rfl

@[simp] theorem fighters_waits : (Flight.waits key room).fighters = [] := rfl

@[simp] theorem fighters_queued : (Flight.queued uid).fighters = [] := rfl

@[simp] theorem fighters_closes : (Flight.closes uid).fighters = [] := rfl

end Fighters

theorem battlesOf_launch (f : Flight) :
    battlesOf (s.launch f) uid = battlesOf s uid + if uid ∈ f.fighters then 1 else 0 := by
  simp only [battlesOf, State.launch, List.countP_append, List.countP_singleton, decide_eq_true_eq]
  omega

theorem flights_split (h : s.flights[i]? = some f) :
    s.flights = s.flights.take i ++ f :: s.flights.drop (i + 1) := by
  obtain ⟨hi, rfl⟩ := List.getElem?_eq_some_iff.mp h
  rw [← List.drop_eq_getElem_cons hi, List.take_append_drop]

/-- A call that goes on stands in place of what it was. -/
theorem countP_resumed (h : s.flights[i]? = some f) (next : List Flight) (p : Flight → Bool) :
    (s.flights.take i ++ next ++ s.flights.drop (i + 1)).countP p + (if p f then 1 else 0) =
      s.flights.countP p + next.countP p := by
  have hcount := congrArg (List.countP p) (flights_split h)
  rw [List.countP_append, List.countP_cons] at hcount
  rw [List.countP_append, List.countP_append]
  omega

theorem battlesOf_resumed (uid : Uid) (h : s.flights[i]? = some f) (next : List Flight) :
    battlesOf (s.resumed i next) uid + (if uid ∈ f.fighters then 1 else 0) =
      battlesOf s uid + next.countP fun f => uid ∈ f.fighters := by
  have hcount := countP_resumed h next fun f => uid ∈ f.fighters
  simp only [decide_eq_true_eq] at hcount
  simp only [battlesOf, State.resumed]
  omega

/-- Where no player waits, only battles count. -/
theorem placed_iff_of_empty
    (h : ∀ key rooms, s.waitingroom key = some rooms → ∀ room ∈ rooms, room = []) :
    Placed s ↔ (∀ uid, battlesOf s uid ≤ 1) ∧
      ∀ uid, s.playerroomtype uid ≠ none ↔ 0 < battlesOf s uid := by
  have hwaits : ∀ uid key, ¬ Waits s uid key := by
    rintro uid key ⟨rooms, hrooms, room, hmem, huid⟩
    rw [h key rooms hrooms room hmem] at huid
    cases huid
  constructor
  · intro hplaced
    refine ⟨hplaced.battles, fun uid => (hplaced.marked uid).trans ?_⟩
    exact or_iff_right fun ⟨key, hkey⟩ => hwaits uid key hkey
  · rintro ⟨hbattles, hmarked⟩
    refine ⟨hbattles, fun uid key rooms hrooms => ?_, fun uid key _ hkey => absurd hkey (hwaits uid key),
      fun uid key hkey => absurd hkey (hwaits uid key), fun uid => (hmarked uid).trans ?_⟩
    · have hzero : (rooms.countP fun room => uid ∈ room) = 0 := by
        refine List.countP_eq_zero.mpr fun room hmem => ?_
        rw [h key rooms hrooms room hmem]
        simp
      omega
    · exact (or_iff_right fun ⟨key, hkey⟩ => hwaits uid key hkey).symm

/-! ## Nobody waits -/

theorem removefromwaiting_calm (h : Calm s) (uid : Uid) : removefromwaiting s uid = s := by
  rw [removefromwaiting]
  split
  · rfl
  · next key _ =>
    split
    · rfl
    · next rooms hrooms =>
      have hnone : rooms.eraseP (fun room => uid ∈ room) = rooms := by
        refine List.eraseP_of_forall_not fun room hmem => ?_
        rw [h.empty key rooms hrooms room hmem]
        simp
      rw [leave, hnone, ← hrooms, Function.update_eq_self]

theorem cancel_calm (h : Calm s) {rooms : List Room} (hrooms : s.waitingroom key = some rooms)
    (uid : Uid) : cancel s key rooms uid = s := by
  have hnone : (rooms.find? fun room => uid ∈ room) = none := by
    refine List.find?_eq_none.mpr fun room hmem => ?_
    rw [h.empty key rooms hrooms room hmem]
    simp
  rw [cancel, hnone]

theorem remwaiting_calm (h : Calm s) (uid : Uid) : remwaiting s uid = s := by
  rw [remwaiting]
  split
  · rfl
  · split
    · rfl
    · next rooms hrooms => exact cancel_calm h hrooms uid

theorem cancelbattle_calm (h : Calm s) (key : Key) (uid : Uid) : cancelbattle s key uid = s := by
  rw [cancelbattle]
  split
  · rfl
  · next rooms hrooms => exact cancel_calm h hrooms uid

theorem findsuitrival_calm (h : Calm s) {pick : ℕ} {rival : Room}
    (hrival : findsuitrival s key pick = some rival) : rival = [] := by
  rw [findsuitrival] at hrival
  split at hrival
  · cases hrival
  · next rooms hrooms => exact h.empty key rooms hrooms rival (List.mem_of_getElem? hrival)

/-! ## One step -/

/-- A step that is told apart by a condition: it keeps the state placed exactly
where that holds, and then nobody waits. -/
def Told (C : Prop) (t : State) : Prop := (Placed t ↔ C) ∧ (C → Calm t)

theorem Told.congr {C D : Prop} (hCD : C ↔ D) (h : Told D t) : Told C t :=
  ⟨h.1.trans hCD.symm, fun hC => h.2 (hCD.mp hC)⟩

/-- Where the marks and the number of battles are the same, and nobody waits. -/
theorem told_same {C : Prop} (h : Placed s) (hcalm : Calm s) (ht : Calm t) (hC : C)
    (hmarks : t.playerroomtype = s.playerroomtype)
    (hbattles : ∀ uid, battlesOf t uid = battlesOf s uid) : Told C t := by
  refine ⟨iff_of_true ?_ hC, fun _ => ht⟩
  rw [placed_iff_of_empty ht.empty]
  obtain ⟨honce, hmarked⟩ := (placed_iff_of_empty hcalm.empty).mp h
  refine ⟨fun uid => ?_, fun uid => ?_⟩
  · rw [hbattles]
    exact honce uid
  · rw [hmarks, hbattles]
    exact hmarked uid

theorem calm_launch (h : Calm s) {f : Flight} (hf : f.Calm) (hwaiting : t.waitingroom = s.waitingroom)
    (hflights : t.flights = s.flights ++ [f]) : Calm t where
  empty key rooms hrooms := h.empty key rooms (hwaiting ▸ hrooms)
  flights f' hf' := by
    rw [hflights] at hf'
    rcases List.mem_append.mp hf' with hold | hnew
    · exact h.flights f' hold
    · rw [List.mem_singleton.mp hnew]
      exact hf

theorem calm_resumed (h : Calm s) {next : List Flight} (hnext : ∀ f ∈ next, f.Calm)
    (hwaiting : t.waitingroom = s.waitingroom)
    (hflights : t.flights = s.flights.take i ++ next ++ s.flights.drop (i + 1)) : Calm t where
  empty key rooms hrooms := h.empty key rooms (hwaiting ▸ hrooms)
  flights f' hf' := by
    rw [hflights] at hf'
    rcases List.mem_append.mp hf' with hfirst | hlast
    · rcases List.mem_append.mp hfirst with hbefore | hnew
      · exact h.flights f' (List.mem_of_mem_take hbefore)
      · exact hnext f' hnew
    · exact h.flights f' (List.mem_of_mem_drop hlast)

/-- A call without fighters goes on. -/
theorem told_next (h : Placed s) (hcalm : Calm s) (hf : s.flights[i]? = some f) (f' : Flight)
    (hf' : f'.Calm) (hnone : f.fighters = []) (hnone' : f'.fighters = []) :
    Told True (s.resumed i [f']) := by
  have hnext : ∀ f'' ∈ [f'], f''.Calm := fun f'' hmem => List.mem_singleton.mp hmem ▸ hf'
  refine told_same h hcalm (calm_resumed hcalm hnext rfl rfl) trivial rfl fun uid => ?_
  have hbattles := battlesOf_resumed uid hf [f']
  simpa [hnone, hnone'] using hbattles

/-- And returns. -/
theorem told_done (h : Placed s) (hcalm : Calm s) (hf : s.flights[i]? = some f)
    (hnone : f.fighters = []) : Told True (s.resumed i []) := by
  have hnext : ∀ f' ∈ ([] : List Flight), f'.Calm := fun f' hmem => absurd hmem List.not_mem_nil
  refine told_same h hcalm (calm_resumed hcalm hnext rfl rfl) trivial rfl fun uid => ?_
  have hbattles := battlesOf_resumed uid hf []
  simpa [hnone] using hbattles

/-- A room without players comes to wait. -/
theorem calm_joined (h : Calm s) (key : Key) {room : Room} (hempty : room = []) :
    Calm { s with
      waitingroom := Function.update s.waitingroom key
        (some ((s.waitingroom key).getD [] ++ [room])) } where
  empty key' rooms hrooms room' hmem := by
    by_cases hkey : key' = key
    · subst hkey
      obtain rfl := Option.some.inj ((Function.update_self key' _ s.waitingroom).symm.trans hrooms)
      rcases List.mem_append.mp hmem with hold | hnew
      · cases hwaiting : s.waitingroom key' with
        | none =>
          rw [hwaiting] at hold
          cases hold
        | some rooms =>
          rw [hwaiting] at hold
          exact h.empty key' rooms hwaiting room' hold
      · rw [List.mem_singleton.mp hnew, hempty]
    · exact h.empty key' rooms ((Function.update_of_ne hkey _ _).symm.trans hrooms) room' hmem
  flights := h.flights

theorem gobattle_told (h : Placed s) (hcalm : Calm s) (key : Key) (room : Room) (pick : ℕ) :
    Told (Joins Task_Type s key room pick → room = []) (gobattle Task_Type s key room pick) := by
  have hlaunch : ∀ C : Prop, C → ∀ rival : Option Room, rival.getD [] = [] →
      Told C (s.launch (.asks key room rival)) := by
    intro C hC rival hrival
    have hasks : (Flight.asks key room rival).Calm := hrival
    refine told_same h hcalm (calm_launch hcalm hasks rfl rfl) hC rfl fun uid => ?_
    rw [battlesOf_launch]
    simp
  simp only [gobattle]
  split
  · next hstage =>
    -- a refusal, before any list is touched
    refine told_same h hcalm hcalm (fun hjoins => ?_) rfl fun _ => rfl
    obtain ⟨⟨task_type, htype, -⟩, -⟩ := hjoins
    rw [hstage] at htype
    cases htype
  · next task_type htype =>
    split
    · next hmarked =>
      refine told_same h hcalm hcalm (fun hjoins => ?_) rfl fun _ => rfl
      obtain ⟨uid, huid, hmark⟩ := hmarked
      exact absurd (hjoins.2.1 uid huid) hmark
    · next hmarked =>
      split
      · next hpve =>
        -- against the machine, where no room waits
        refine hlaunch _ (fun hjoins => ?_) none rfl
        obtain ⟨⟨task_type', htype', hpvp⟩, -⟩ := hjoins
        rw [htype] at htype'
        cases htype'
        rw [hpve] at hpvp
        cases hpvp
      · next hpvp =>
        have hfree : ∀ uid ∈ room, s.playerroomtype uid = none := by
          intro uid huid
          by_contra hmark
          exact hmarked ⟨uid, huid, hmark⟩
        split
        · next hrival =>
          have hjoins : Joins Task_Type s key room pick :=
            ⟨⟨task_type, htype, by simpa using hpvp⟩, hfree, hrival⟩
          split
          · next hempty =>
            exact told_same h hcalm (calm_joined hcalm key hempty) (fun _ => hempty) rfl fun _ => rfl
          · next hne =>
            refine ⟨iff_of_false (fun hplaced => ?_) fun hC => hne (hC hjoins),
              fun hC => absurd (hC hjoins) hne⟩
            -- the first player waits, and is marked when his descriptor has come
            obtain ⟨uid, huid⟩ := List.exists_mem_of_ne_nil room hne
            refine (hplaced.marked uid).mpr (Or.inl ⟨key, _, Function.update_self key _ _, room, ?_,
              huid⟩) (hfree uid huid)
            exact List.mem_append_right _ List.mem_cons_self
        · next rival hrival =>
          refine hlaunch _ (fun hjoins => ?_) (some rival) (findsuitrival_calm hcalm hrival)
          rw [hjoins.2.2] at hrival
          cases hrival

theorem offline_told (h : Placed s) (hcalm : Calm s) (uid : Uid) :
    Told (battlesOf s uid = 0) (offline s uid) := by
  rw [offline, removefromwaiting_calm hcalm uid]
  have hcount : ∀ uid', battlesOf ((clear s [uid]).launch (.queued uid)) uid' = battlesOf s uid' := by
    intro uid'
    rw [battlesOf_launch]
    simp [battlesOf, clear]
  have hqueued : (Flight.queued uid).Calm := trivial
  have ht : Calm ((clear s [uid]).launch (.queued uid)) :=
    calm_launch hcalm hqueued rfl rfl
  refine ⟨⟨fun hplaced => ?_, fun hzero => ?_⟩, fun _ => ht⟩
  · -- he is marked no more, so he is in no battle
    by_contra hne
    refine (hplaced.marked uid).mpr (Or.inr ?_) ?_
    · rw [hcount]
      omega
    · simp [State.launch, clear]
  · -- in no battle he was not marked, so nothing is cleared
    obtain ⟨-, hmarked⟩ := (placed_iff_of_empty hcalm.empty).mp h
    have hnone : s.playerroomtype uid = none := by
      by_contra hmark
      have hpos := (hmarked uid).mp hmark
      omega
    refine (told_same h hcalm ht hzero (funext fun uid' => ?_) hcount).1.mpr hzero
    by_cases heq : uid' = uid
    · simp [State.launch, clear, heq, hnone]
    · simp [State.launch, clear, heq]

theorem battlefinish_told (h : Placed s) (hcalm : Calm s) (handle : Handle) :
    Told (∀ v ∈ s.handle_uid, v.1 = handle → v.2 = []) (battlefinish s handle) := by
  have ht : Calm (battlefinish s handle) := ⟨hcalm.empty, hcalm.flights⟩
  have hsplit : ∀ uid, battlesOf s uid = battlesOf (battlefinish s handle) uid +
      (s.handle_uid.filter fun v => v.1 = handle).countP fun v => uid ∈ v.2 := by
    intro uid
    have hcount := List.countP_eq_countP_filter_add s.handle_uid (fun v => uid ∈ v.2)
      fun v => v.1 ≠ handle
    simp only [battlesOf, battlefinish, hcount]
    simp only [ne_eq, decide_not, Bool.not_not]
    omega
  obtain ⟨honce, hmarked⟩ := (placed_iff_of_empty hcalm.empty).mp h
  refine ⟨⟨fun hplaced v hv hhandle => ?_, fun hnone => ?_⟩, fun _ => ht⟩
  · -- a fighter of the battle stays marked, and has no other battle
    refine List.eq_nil_iff_forall_not_mem.mpr fun uid huid => ?_
    obtain ⟨-, hmarked'⟩ := (placed_iff_of_empty ht.empty).mp hplaced
    have hin : 0 < (s.handle_uid.filter fun v => v.1 = handle).countP fun v => uid ∈ v.2 :=
      List.countP_pos_iff.mpr ⟨v, by simp [hv, hhandle], by simpa using huid⟩
    have hone := honce uid
    have hsum := hsplit uid
    have hmark := (hmarked' uid).mp ((hmarked uid).mpr (by omega))
    omega
  · refine (told_same h hcalm ht hnone rfl fun uid => ?_).1.mpr hnone
    have hzero : ((s.handle_uid.filter fun v => v.1 = handle).countP fun v => uid ∈ v.2) = 0 := by
      refine List.countP_eq_zero.mpr fun v hv => ?_
      obtain ⟨hmem, hhandle⟩ := List.mem_filter.mp hv
      rw [hnone v hmem (of_decide_eq_true hhandle)]
      simp
    have hsum := hsplit uid
    omega

/-- The marks of a room at the stop where its battle gets its fighters. -/
theorem sets_told (h : Placed s) (hcalm : Calm s) {room : Room} {rival : Option Room}
    {handle : Handle} (hf : s.flights[i]? = some (.sets key room rival handle 0)) (ok : Bool)
    (handle' : Handle) :
    Told (∀ uid ∈ room, s.playerroomtype uid = none)
      (resume s i ok handle' (.sets key room rival handle 0)) := by
  have hrival : rival.getD [] = [] := hcalm.flights _ (List.mem_of_getElem? hf)
  have ht : Calm (resume s i ok handle' (.sets key room rival handle 0)) := by
    refine calm_resumed hcalm (fun f hnew => ?_) rfl rfl
    rw [List.mem_singleton.mp hnew]
    exact hrival
  have hbattles : ∀ uid, battlesOf (resume s i ok handle' (.sets key room rival handle 0)) uid =
      battlesOf s uid + if uid ∈ room then 1 else 0 := by
    intro uid
    have hcount := countP_resumed hf [.inits room rival handle] fun f => uid ∈ f.fighters
    simp only [battlesOf, resume, State.resumed, hrival, List.append_nil]
    by_cases huid : uid ∈ room
    · simp only [fighters_sets, fighters_inits, List.countP_singleton, huid, List.not_mem_nil,
        decide_true, decide_false, Bool.false_eq_true, if_true, if_false] at hcount ⊢
      omega
    · simp only [fighters_sets, fighters_inits, List.countP_singleton, huid, List.not_mem_nil,
        decide_false, Bool.false_eq_true, if_false] at hcount ⊢
      omega
  obtain ⟨honce, hmarked⟩ := (placed_iff_of_empty hcalm.empty).mp h
  refine ⟨⟨fun hplaced uid huid => ?_, fun hfree => ?_⟩, fun _ => ht⟩
  · -- a mark is a battle, and this one would be the second
    by_contra hmark
    have hone := hplaced.battles uid
    have hpos := (hmarked uid).mp hmark
    rw [hbattles, if_pos huid] at hone
    omega
  · refine (placed_iff_of_empty ht.empty).mpr ⟨fun uid => ?_, fun uid => ?_⟩
    · rw [hbattles]
      split
      · next huid =>
        have hzero : ¬ 0 < battlesOf s uid := fun hpos => (hmarked uid).mpr hpos (hfree uid huid)
        omega
      · exact honce uid
    · rw [hbattles]
      by_cases huid : uid ∈ room
      · simp [resume, State.resumed, huid]
      · simp only [resume, State.resumed, huid, if_false, Nat.add_zero]
        exact hmarked uid

/-- The registration of a battle. -/
theorem inits_told (h : Placed s) (hcalm : Calm s) {fighters : List Uid} {rival : Option Room}
    {handle : Handle} (hf : s.flights[i]? = some (.inits fighters rival handle))
    (hfresh : ∀ v ∈ s.handle_uid, v.1 ≠ handle) (ok : Bool) (handle' : Handle) :
    Told True (resume s i ok handle' (.inits fighters rival handle)) := by
  have hrival : rival.getD [] = [] := hcalm.flights _ (List.mem_of_getElem? hf)
  have hkeep : (s.handle_uid.filter fun v => v.1 ≠ handle) = s.handle_uid :=
    List.filter_eq_self.mpr fun v hv => by simpa using hfresh v hv
  refine told_same h hcalm (calm_resumed hcalm (fun f hnew => ?_) rfl rfl) trivial rfl
    fun uid => ?_
  · rw [List.mem_singleton.mp hnew]
    exact hrival
  · have hcount := countP_resumed hf [.sends rival 1] fun f => uid ∈ f.fighters
    simp only [battlesOf, resume, hkeep, State.resumed, List.countP_cons]
    by_cases huid : uid ∈ fighters
    · simp only [fighters_inits, fighters_sends, List.countP_singleton, huid, List.not_mem_nil,
        decide_true, decide_false, Bool.false_eq_true, if_true, if_false] at hcount ⊢
      omega
    · simp only [fighters_inits, fighters_sends, List.countP_singleton, huid, List.not_mem_nil,
        decide_false, Bool.false_eq_true, if_false] at hcount ⊢
      omega

/-- Fewer pass a stronger test, where one of a list fails it. -/
theorem countP_lt_of_mem {α : Type} {p q : α → Bool} {l : List α} {a : α} (ha : a ∈ l)
    (hpq : ∀ b, p b = true → q b = true) (hp : p a = false) (hq : q a = true) :
    l.countP p < l.countP q := by
  induction l with
  | nil => cases ha
  | cons b l ih =>
    have hle : l.countP p ≤ l.countP q := List.countP_mono_left fun c _ => hpq c
    rw [List.countP_cons, List.countP_cons]
    rcases List.mem_cons.mp ha with rfl | hmem
    · rw [if_neg (by rw [hp]; exact Bool.false_ne_true), if_pos hq]
      omega
    · have hlt := ih hmem
      by_cases hb : p b = true
      · rw [if_pos hb, if_pos (hpq b hb)]
        omega
      · rw [if_neg hb]
        omega

/-- A fighter that is taken out of his battle. -/
theorem closes_told (h : Placed s) (hcalm : Calm s) (uid : Uid)
    (hf : s.flights[i]? = some (.closes uid)) :
    Told (∀ v ∈ s.handle_uid, uid ∈ v.2 → uid ∈ v.2.erase uid)
      ((remove_item s uid).resumed i []) := by
  have ht : Calm ((remove_item s uid).resumed i []) :=
    calm_resumed hcalm (fun f hnew => absurd hnew List.not_mem_nil) rfl rfl
  have hbattles : ∀ uid', battlesOf ((remove_item s uid).resumed i []) uid' =
      (s.handle_uid.countP fun v => uid' ∈ v.2.erase uid) +
        s.flights.countP fun f => uid' ∈ f.fighters := by
    intro uid'
    have hcount := countP_resumed hf [] fun f => uid' ∈ f.fighters
    simp only [fighters_closes, List.not_mem_nil, decide_false, Bool.false_eq_true, if_false,
      List.countP_nil, Nat.add_zero] at hcount
    simp only [battlesOf, remove_item, State.resumed, List.countP_map, Function.comp_def, hcount]
  obtain ⟨honce, hmarked⟩ := (placed_iff_of_empty hcalm.empty).mp h
  refine ⟨⟨fun hplaced v hv hin => ?_, fun hstays => ?_⟩, fun _ => ht⟩
  · -- he stays marked, so he is still in a battle, and has no other than this one
    obtain ⟨-, hmarked'⟩ := (placed_iff_of_empty ht.empty).mp hplaced
    have hpos : 0 < battlesOf s uid := by
      have hregistered : 0 < s.handle_uid.countP fun v => uid ∈ v.2 :=
        List.countP_pos_iff.mpr ⟨v, hv, by simpa using hin⟩
      rw [battlesOf]
      omega
    have hstill := (hmarked' uid).mp ((hmarked uid).mpr hpos)
    rw [hbattles] at hstill
    have hone := honce uid
    rw [battlesOf] at hone
    -- no flight has him, so the battle he is still in is registered, and it is this one
    have hregistered : 0 < s.handle_uid.countP fun v => uid ∈ v.2 :=
      List.countP_pos_iff.mpr ⟨v, hv, by simpa using hin⟩
    have hleft : 0 < s.handle_uid.countP fun v => uid ∈ v.2.erase uid := by omega
    by_contra hgone
    have htwo := countP_lt_of_mem (p := fun v : Handle × List Uid => uid ∈ v.2.erase uid)
      (q := fun v => uid ∈ v.2) hv
      (fun w hw => by simpa using List.mem_of_mem_erase (by simpa using hw)) (by simpa using hgone)
      (by simpa using hin)
    omega
  · refine (told_same h hcalm ht hstays rfl fun uid' => ?_).1.mpr hstays
    rw [hbattles, battlesOf]
    congr 1
    refine List.countP_congr fun v hv => ?_
    by_cases heq : uid' = uid
    · subst heq
      simp only [decide_eq_true_eq]
      exact ⟨List.mem_of_mem_erase, hstays v hv⟩
    · simp [List.mem_erase_of_ne heq]

/-- **What a stopped call does on its answer.** -/
theorem resume_told (h : Placed s) (hcalm : Calm s) (ok : Bool) (handle : Handle)
    (hallowed : Allowed s (.resume i ok handle)) :
    Told (Spares Task_Type s (.resume i ok handle)) (step Task_Type s (.resume i ok handle)) := by
  obtain ⟨f, hf, hallowed⟩ := hallowed
  have hspares : Spares Task_Type s (.resume i ok handle) ↔ f.Spares s ok := by
    constructor
    · exact fun hall => hall f hf
    · intro hone f' hf'
      rw [hf] at hf'
      cases hf'
      exact hone
  refine Told.congr hspares ?_
  have hcalmf := hcalm.flights f (List.mem_of_getElem? hf)
  simp only [step, hf]
  cases f with
  | asks key room rival =>
    cases ok with
    | true => exact told_next h hcalm hf (.opens key room rival) hcalmf rfl rfl
    | false => exact told_done h hcalm hf rfl
  | opens key room rival => exact told_next h hcalm hf (.sets key room rival handle 1) hcalmf rfl rfl
  | sets key room rival handle' left =>
    cases left with
    | zero => exact sets_told h hcalm hf ok handle
    | succ left => exact told_next h hcalm hf (.sets key room rival handle' left) hcalmf rfl rfl
  | inits fighters rival handle' => exact inits_told h hcalm hf hallowed ok handle
  | sends rival left =>
    cases left with
    | zero =>
      simp only [resume]
      split
      · rw [removefromwaiting_calm hcalm]
        exact told_done h hcalm hf rfl
      · exact told_done h hcalm hf rfl
    | succ left => exact told_next h hcalm hf (.sends rival left) hcalmf rfl rfl
  | waits key room =>
    obtain rfl : room = [] := hcalmf
    exact told_done h hcalm hf rfl
  | queued uid =>
    simp only [resume]
    split
    · exact told_done h hcalm hf rfl
    · exact told_next h hcalm hf (.closes uid) trivial rfl rfl
  | closes uid =>
    cases ok with
    | true =>
      have htrue : (Flight.closes uid).Spares s true ↔ True := by simp [Flight.Spares]
      exact (told_done h hcalm hf rfl).congr htrue
    | false =>
      have hfalse : (Flight.closes uid).Spares s false ↔
          ∀ v ∈ s.handle_uid, uid ∈ v.2 → uid ∈ v.2.erase uid := by simp [Flight.Spares]
      exact (closes_told h hcalm uid hf).congr hfalse

/-- **Every step is told apart.** -/
theorem step_told (Task_Type : ℤ → Option ℤ) (h : Placed s) (hcalm : Calm s) (hallowed : Allowed s e) :
    Told (Spares Task_Type s e) (step Task_Type s e) := by
  have hsame : Told True s := told_same h hcalm hcalm trivial rfl fun _ => rfl
  cases e with
  | gobattle key room pick => exact gobattle_told h hcalm key room pick
  | cancelbattle key uid =>
    rw [step, cancelbattle_calm hcalm key uid]
    exact hsame
  | remwaiting uid =>
    rw [step, remwaiting_calm hcalm uid]
    exact hsame
  | offline uid => exact offline_told h hcalm uid
  | resume i ok handle => exact resume_told h hcalm ok handle hallowed
  | battlefinish handle => exact battlefinish_told h hcalm handle

/-! ## Whole runs -/

/-- The state after some events. -/
def stateAfter (Task_Type : ℤ → Option ℤ) (s : State) (es : List Event) : State :=
  es.foldl (step Task_Type) s

theorem placed_from {es : List Event} (h : (system Task_Type).Path s es t) (hplaced : Placed s)
    (hcalm : Calm s) :
    (∀ pre post, es = pre ++ post → Placed (stateAfter Task_Type s pre)) ↔
      AtEach (fun pre e => Spares Task_Type (stateAfter Task_Type s pre) e) es := by
  -- on the run; the first step that does not spare leaves a state that is not placed
  induction h with
  | nil s =>
    refine iff_of_true (fun pre post heq => ?_) atEach_nil
    obtain ⟨rfl, -⟩ := List.append_eq_nil_iff.mp heq.symm
    exact hplaced
  | @cons s m t e es hstep _ ih =>
    obtain ⟨hallowed, rfl⟩ := hstep
    obtain ⟨hiff, hcalm'⟩ := step_told Task_Type hplaced hcalm hallowed
    rw [atEach_cons]
    constructor
    · intro hall
      have hspares := hiff.mp (hall [e] es rfl)
      refine ⟨hspares, (ih (hiff.mpr hspares) (hcalm' hspares)).mp fun pre post heq => ?_⟩
      exact hall (e :: pre) post (by rw [heq]; rfl)
    · rintro ⟨hspares, hrest⟩ pre post heq
      cases pre with
      | nil => exact hplaced
      | cons e' pre =>
        rw [List.cons_append, List.cons.injEq] at heq
        obtain ⟨rfl, heq⟩ := heq
        exact (ih (hiff.mpr hspares) (hcalm' hspares)).mpr hrest pre post heq

theorem initial_calm : Calm initial where
  empty _ _ hrooms := by cases hrooms
  flights _ hf := by cases hf

theorem initial_placed : Placed initial :=
  (placed_iff_of_empty initial_calm.empty).mpr ⟨fun _ => Nat.zero_le 1,
    fun _ => iff_of_false (fun h => h rfl) (Nat.lt_irrefl 0)⟩

/-- **A run is placed at every stop if and only if each of its steps spares the
players.** -/
theorem placed_iff (Task_Type : ℤ → Option ℤ) {es : List Event}
    (h : (system Task_Type).Path initial es t) :
    (∀ pre post, es = pre ++ post → Placed (stateAfter Task_Type initial pre)) ↔
      AtEach (fun pre e => Spares Task_Type (stateAfter Task_Type initial pre) e) es :=
  placed_from h initial_placed initial_calm

/-- A battle of one player against the machine, up to where it is registered. -/
def alone : List Event :=
  [.gobattle ⟨1, 1⟩ [7] 0, .resume 0 true 0, .resume 0 true 9, .resume 0 true 0, .resume 0 true 0,
    .resume 0 true 0]

/-- It is placed at every stop. -/
theorem placed_iff_alone :
    (system fun _ => some 2).Path initial alone (stateAfter (fun _ => some 2) initial alone) ∧
      ∀ pre post, alone = pre ++ post → Placed (stateAfter (fun _ => some 2) initial pre) := by
  have hpath : (system fun _ => some 2).Path initial alone
      (stateAfter (fun _ => some 2) initial alone) :=
    .cons ⟨trivial, rfl⟩ (.cons ⟨⟨_, rfl, trivial⟩, rfl⟩ (.cons ⟨⟨_, rfl, trivial⟩, rfl⟩
      (.cons ⟨⟨_, rfl, trivial⟩, rfl⟩ (.cons ⟨⟨_, rfl, trivial⟩, rfl⟩
        (.cons ⟨⟨_, rfl, fun v hv => absurd hv List.not_mem_nil⟩, rfl⟩ (.nil _))))))
  have hresume : ∀ s i ok handle (f : Flight), s.flights[i]? = some f → f.Spares s ok →
      Spares (fun _ => some 2) s (.resume i ok handle) := by
    intro s i ok handle f hf hspares f' hf'
    rw [hf] at hf'
    cases hf'
    exact hspares
  refine ⟨hpath, (placed_iff (fun _ => some 2) hpath).mpr ?_⟩
  simp only [alone, atEach_cons]
  refine ⟨?_, hresume _ _ _ _ _ rfl trivial, hresume _ _ _ _ _ rfl trivial,
    hresume _ _ _ _ _ rfl trivial, hresume _ _ _ _ _ rfl fun _ _ => rfl,
    hresume _ _ _ _ _ rfl trivial, atEach_nil⟩
  -- the stage is one against the machine
  rintro ⟨⟨task_type, htype, hpvp⟩, -⟩
  cases htype
  exact absurd hpvp (by decide)

/-- A room waits, and is the rival of two others. -/
def twice : List Event :=
  [.gobattle ⟨1, 1⟩ [1] 0, .resume 0 true 0, .gobattle ⟨1, 1⟩ [2] 0, .gobattle ⟨1, 1⟩ [3] 0,
    .resume 0 true 0, .resume 1 true 0, .resume 0 true 8, .resume 1 true 9, .resume 0 true 0,
    .resume 0 true 0, .resume 1 true 0, .resume 1 true 0]

/-- **Its player is in two battles.** -/
theorem not_placed : ¬ ∀ Task_Type es t, (system Task_Type).Path initial es t → Placed t := by
  intro h
  have hpath : (system fun _ => some 1).Path initial twice
      (stateAfter (fun _ => some 1) initial twice) := by
    refine .cons ⟨trivial, rfl⟩ (.cons ⟨⟨_, rfl, trivial⟩, rfl⟩ (.cons ⟨trivial, rfl⟩
      (.cons ⟨trivial, rfl⟩ ?_)))
    iterate 8 refine .cons ⟨⟨_, rfl, trivial⟩, rfl⟩ ?_
    exact .nil _
  have hplaced := h _ twice _ hpath
  have htwo : battlesOf (stateAfter (fun _ => some 1) initial twice) 1 = 2 := by decide
  have hone := hplaced.battles 1
  omega

end Match

end Athena
