import Athena.Rolename.Model
/-!
# Names of roles — uniqueness

The names that the test looks at are those of the start of the service (`Knows`), and a
rename writes others. So names stay unique where a name is asked for that its player of
the start has still, or that nobody had then and nobody else has got since (`Meets`), and
no name is a text that redis gives back as a number (`Store.Textual`).
-/

namespace Athena

namespace Rolename

open Lua (Str Value)
open Store (Textual)

variable {E : Env} {s t : State} {uid u v : Uid} {n : Option Value} {name : Str}

/-! ## What a player is called -/

/-- The name that would be read from redis or MySQL. -/
def back (s : State) (uid : Uid) : Option Value :=
  match s.redis uid with
  | some name => name.bind Store.isnumber
  | none => (s.mysql uid).map .str

/-- Whether there is a row. -/
def exist (s : State) (uid : Uid) : Bool :=
  (s.recordset uid).isSome || (s.redis uid).isSome || (s.mysql uid).isSome

/-- **The name of a player**, as `getvalue(uid, "name")` gives it. -/
def called (s : State) (uid : Uid) : Option Value :=
  match s.recordset uid with
  | some name => name
  | none => back s uid

/-- **No two players have the same name.** -/
def Unique (s : State) : Prop :=
  ∀ u v name, called s u = some name → called s v = some name → u = v

/-- No other player has the name. -/
def Free (s : State) (uid : Uid) (name : Str) : Prop :=
  ∀ v, v ≠ uid → called s v ≠ some (.str name)

/-- The texts of names are strings when they come back. -/
structure Texts (s : State) : Prop where
  redis : ∀ uid name, s.redis uid = some (some name) → Textual name
  mysql : ∀ uid name, s.mysql uid = some name → Textual name

/-- **A row in memory is as it is kept**, or what is kept has lost its name. -/
def Coherent (s : State) : Prop :=
  ∀ uid name, s.recordset uid = some name → back s uid = name ∨ back s uid = none

/-- The invariant. -/
structure Sound (s : State) : Prop where
  unique : Unique s
  texts : Texts s
  coherent : Coherent s

/-! ## Reading -/

/-- What a read of the services leaves. -/
structure Fetched (s t : State) : Prop where
  texts : Texts t
  recordset : t.recordset = s.recordset
  custom : t.custom = s.custom
  back : ∀ v, back t v = back s v

theorem Fetched.refl (h : Texts s) : Fetched s s := ⟨h, rfl, rfl, fun _ => rfl⟩

/-- **A read gives the name and keeps it.** -/
theorem fetch_spec (h : Texts s) (hnone : s.recordset uid = none) :
    exist s uid = true ∧ (fetch s uid).1 = some (back s uid) ∧ Fetched s (fetch s uid).2 ∨
      exist s uid = false ∧ fetch s uid = (none, s) := by
  unfold fetch
  split
  · next name hredis =>
    exact Or.inl ⟨by simp [exist, hredis], by simp [back, hredis], Fetched.refl h⟩
  · next hredis =>
    split
    · next name hmysql =>
      have htext := h.mysql uid name hmysql
      refine Or.inl ⟨by simp [exist, hmysql], by simp [back, hredis, hmysql], ⟨?_, h.mysql⟩, rfl, rfl,
        fun v => ?_⟩
      · intro v text hv
        simp only [Function.update_apply] at hv
        split at hv
        · cases hv
          exact htext
        · exact h.redis v text hv
      · -- the text comes back as the string that it was
        by_cases hv : v = uid
        · subst hv
          simp [back, hredis, hmysql, Store.isnumber_of_textual htext]
        · simp [back, hv]
    · next hmysql => exact Or.inr ⟨by simp [exist, hnone, hredis, hmysql], rfl⟩

/-- What a `get` leaves. -/
structure Reads (s t : State) : Prop where
  sound : Sound t
  called : ∀ v, called t v = called s v
  custom : t.custom = s.custom

/-- **`get`**: the name of a player, whose row is in memory after it. -/
theorem get_spec (h : Sound s) (uid : Uid) :
    exist s uid = true ∧ (get s uid).1 = some (called s uid) ∧ Reads s (get s uid).2 ∧
        ((get s uid).2.recordset uid).isSome ∨
      exist s uid = false ∧ get s uid = (none, s) ∧ s.recordset uid = none := by
  unfold get
  split
  · next name hrow =>
    exact Or.inl ⟨by simp [exist, hrow], by simp [called, hrow], ⟨h, fun _ => rfl, rfl⟩, by simp [hrow]⟩
  · next hrow =>
    rcases hf : fetch s uid with ⟨row, s'⟩
    obtain ⟨hex, hrow', hfetched⟩ | ⟨hex, hnone⟩ := @fetch_spec s uid h.texts hrow
    · rw [hf] at hrow' hfetched
      obtain rfl : row = some (back s uid) := hrow'
      obtain ⟨htexts, hrec, hcustom, hback⟩ := hfetched
      dsimp only at htexts hrec hcustom hback
      -- the row that is kept says what was read
      have hcalled : ∀ v, called { s' with
          recordset := Function.update s'.recordset uid (some (back s uid)) } v = called s v := by
        intro v
        simp only [called, hrec, Function.update_apply]
        by_cases hv : v = uid
        · subst hv
          simp [hrow]
        · simp only [hv, if_false]
          cases s.recordset v with
          | some name => rfl
          | none => exact hback v
      refine Or.inl ⟨hex, by simp [called, hrow], ⟨⟨?_, ⟨htexts.redis, htexts.mysql⟩, ?_⟩, hcalled, hcustom⟩,
        by simp⟩
      · intro u v name hu hv
        rw [hcalled] at hu hv
        exact h.unique u v name hu hv
      · intro v name hv
        have hsame : back { s' with
            recordset := Function.update s'.recordset uid (some (back s uid)) } v = back s v := hback v
        rw [hsame]
        simp only [hrec, Function.update_apply] at hv
        split at hv
        · next hvu =>
          cases hv
          exact Or.inl (by rw [hvu])
        · exact h.coherent v name hv
    · obtain ⟨rfl, rfl⟩ := Prod.mk.inj (hf.symm.trans hnone)
      exact Or.inr ⟨hex, rfl, hrow⟩

/-! ## Writing -/

/-- **A player is called by a name that no other has.** -/
theorem Unique.update (h : Unique s) (hfree : Free s uid name)
    (huid : called t uid = some (.str name)) (hother : ∀ v, v ≠ uid → called t v = called s v) :
    Unique t := by
  intro u v x hu hv
  by_cases huu : u = uid
  · by_cases hvu : v = uid
    · rw [huu, hvu]
    · -- the other has an old name, which is not the new one
      rw [huu, huid] at hu
      cases hu
      rw [hother v hvu] at hv
      exact absurd hv (hfree v hvu)
  · by_cases hvu : v = uid
    · rw [hvu, huid] at hv
      cases hv
      rw [hother u huu] at hu
      exact absurd hu (hfree u huu)
    · rw [hother u huu] at hu
      rw [hother v hvu] at hv
      exact h u v x hu hv

/-- Fewer names. -/
theorem Unique.fewer (h : Unique s) (hless : ∀ v, called t v = called s v ∨ called t v = none) :
    Unique t := by
  intro u v x hu hv
  have hsame : ∀ w, called t w = some x → called s w = some x := by
    intro w hw
    obtain heq | hnone := hless w
    · exact heq.symm.trans hw
    · rw [hnone] at hw
      cases hw
  exact h u v x (hsame u hu) (hsame v hv)

/-- **A name that is written**, in memory and behind it or not, keeps the invariant where
no other player has it. -/
theorem Sound.written (h : Sound s) (hfree : Free s uid name) (htexts : Texts t)
    (hrow : t.recordset uid = some (some (.str name)))
    (hback : back t uid = some (.str name) ∨ back t uid = none)
    (hother : ∀ v, v ≠ uid → t.recordset v = s.recordset v ∧ back t v = back s v) : Sound t where
  unique := by
    refine h.unique.update hfree (by simp [called, hrow]) fun v hv => ?_
    obtain ⟨hrec, hsame⟩ := hother v hv
    simp only [called, hrec, hsame]
  texts := htexts
  coherent v x hv := by
    by_cases hvu : v = uid
    · subst hvu
      rw [hrow] at hv
      cases hv
      exact hback
    · obtain ⟨hrec, hsame⟩ := hother v hvu
      rw [hsame]
      exact h.coherent v x (hrec ▸ hv)

/-- The table of MySQL after a write that it may not have admitted. -/
theorem write_mysql (m : Uid → Option Str) (p : Prop) [Decidable p] (uid : Uid) (name : Str) :
    (∀ v, v ≠ uid → (if p then Function.update m uid (some name) else m) v = m v) ∧
      ((if p then Function.update m uid (some name) else m) uid = some name ∨
        (if p then Function.update m uid (some name) else m) uid = m uid) := by
  split
  · exact ⟨fun v hv => by simp [hv], Or.inl (by simp)⟩
  · exact ⟨fun _ _ => rfl, Or.inr rfl⟩

/-- The texts after a write of one. -/
theorem Texts.written (h : Texts s) (htext : Textual name)
    (hredis : ∀ v, t.redis v = s.redis v ∨ t.redis v = some (some name))
    (hmysql : ∀ v, t.mysql v = s.mysql v ∨ t.mysql v = some name) : Texts t where
  redis v text hv := by
    obtain hsame | hnew := hredis v
    · exact h.redis v text (hsame ▸ hv)
    · rw [hnew] at hv
      cases hv
      exact htext
  mysql v text hv := by
    obtain hsame | hnew := hmysql v
    · exact h.mysql v text (hsame ▸ hv)
    · rw [hnew] at hv
      cases hv
      exact htext

/-- **A rename.** -/
theorem setname_spec (h : Sound s) (hrow : (s.recordset uid).isSome) (hfree : Free s uid name)
    (htext : Textual name) : (setname E s uid name).1 = true ∧ Sound (setname E s uid name).2 := by
  obtain ⟨old, hold⟩ := Option.isSome_iff_exists.mp hrow
  unfold setname
  rw [hold]
  obtain ⟨hother, huid⟩ :=
    write_mysql s.mysql ((s.mysql uid).isSome ∧ E.admits s.mysql uid name) uid name
  refine ⟨rfl, h.written hfree (h.texts.written htext (fun v => ?_) fun v => ?_) (by simp) ?_
    fun v hv => ?_⟩
  · by_cases hv : v = uid
    · exact Or.inr (by simp [hv])
    · exact Or.inl (by simp [hv])
  · by_cases hv : v = uid
    · subst hv
      exact huid.symm
    · exact Or.inl (hother v hv)
  · exact Or.inl (by simp [back, Store.isnumber_of_textual htext])
  · exact ⟨by simp [hv], by simp [back, hv, hother v hv]⟩

/-- A write of another field. -/
theorem setfield_sound (h : Sound s) (uid : Uid) : Sound (setfield s uid) := by
  unfold setfield
  split
  · exact h
  · next old hold =>
    -- a hash that was not there hides the name in MySQL from now on
    have hback : ∀ v, back { s with redis := Function.update s.redis uid (some (s.redis uid).join) } v =
        back s v ∨ back { s with redis := Function.update s.redis uid (some (s.redis uid).join) } v = none := by
      intro v
      by_cases hv : v = uid
      · subst hv
        cases hredis : s.redis v with
        | some text => simp [back, hredis]
        | none => simp [back, hredis]
      · simp [back, hv]
    refine ⟨h.unique.fewer fun v => ?_, ⟨?_, h.texts.mysql⟩, ?_⟩
    · unfold called
      dsimp only
      split
      · exact Or.inl rfl
      · exact hback v
    · intro v text hv
      simp only [Function.update_apply] at hv
      split at hv
      · next hvu =>
        obtain ⟨text', hredis, rfl⟩ : ∃ x, s.redis uid = some (some x) ∧ x = text := by
          simpa [Option.join_eq_some_iff] using hv
        exact h.texts.redis uid _ hredis
      · exact h.texts.redis v text hv
    · intro v x hv
      obtain hsame | hnone := hback v
      · rw [hsame]
        exact h.coherent v x hv
      · exact Or.inr hnone

/-- **A new role.** -/
theorem add_sound (h : Sound s) (hnone : exist s uid = false) (hfree : Free s uid name)
    (htext : Textual name) : Sound (add E s uid name) := by
  obtain ⟨⟨hrec, hredis⟩, hmysql⟩ : (s.recordset uid = none ∧ s.redis uid = none) ∧ s.mysql uid = none := by
    simpa [exist] using hnone
  unfold add
  rw [hrec]
  obtain ⟨hother, huid⟩ :=
    write_mysql s.mysql ((s.mysql uid).isNone ∧ E.admits s.mysql uid name) uid name
  refine h.written hfree (h.texts.written htext (fun v => ?_) fun v => ?_) (by simp) ?_ fun v hv => ?_
  · by_cases hv : v = uid
    · cases E.shared with
      | true => exact Or.inr (by simp [hv])
      | false => exact Or.inl (by simp)
    · cases E.shared with
      | true => exact Or.inl (by simp [hv])
      | false => exact Or.inl (by simp)
  · by_cases hv : v = uid
    · subst hv
      exact huid.symm
    · exact Or.inl (hother v hv)
  · -- on another connection the hash of the player is not written, and MySQL may refuse the row
    cases E.shared with
    | true => exact Or.inl (by simp [back, Store.isnumber_of_textual htext])
    | false =>
      obtain hnew | hold := huid
      · exact Or.inl (by simp only [back, Bool.false_eq_true, if_false, hredis, hnew, Option.map_some])
      · have hnone' := hold.trans hmysql
        exact Or.inr (by simp only [back, Bool.false_eq_true, if_false, hredis, hnone', Option.map_none])
  · refine ⟨by simp [hv], ?_⟩
    cases E.shared with
    | true => simp only [back, if_true, Function.update_of_ne hv, hother v hv]
    | false => simp only [back, Bool.false_eq_true, if_false, hother v hv]

/-! ## The requests -/

/-- The length that a name may have. -/
def Measured (name : Str) : Prop := ∃ len, utf8len name = some len ∧ 3 ≤ len ∧ len ≤ 7

variable {start : Uid → Option Str}

/-- **The test knows the names of the start.** -/
def Knows (start : Uid → Option Str) (s : State) : Prop :=
  ∀ name, check_rolename_exists s name = true ↔ ∃ u, start u = some name

/-- **No rename since the start has made the table of the start wrong**, for a request that
comes to the test: who had the name at the start has it still; and if nobody had it and it
is well formed, nobody else has got it since, and it is no number. The name of a new role
nobody else has. -/
def Meets (start : Uid → Option Str) (E : Env) (s : State) : Event → Prop
  | .changename uid (some name) =>
    exist s uid = true → called s uid ≠ some (.str name) → Measured name →
      (∀ u, start u = some name → called s u = some (.str name)) ∧
        ((∀ u, start u ≠ some name) → name_match E name = some none → Free s uid name ∧ Textual name)
  | .roleinit uid => uid ≠ 1 → exist s uid = false → Free s uid (visitor uid)
  | _ => True

theorem name_match_ne_used (name : Str) : name_match E name ≠ some (some .used_name) := by
  unfold name_match
  split
  · simp
  · intro h
    obtain ⟨newname, -, h⟩ := Option.bind_eq_some_iff.mp h
    obtain ⟨old, -, h⟩ := Option.bind_eq_some_iff.mp h
    obtain ⟨new, -, h⟩ := Option.bind_eq_some_iff.mp h
    simp only [Option.pure_def, Option.some.injEq] at h
    split at h
    · cases h
    · cases h

/-- What is refused as used was found. -/
theorem checked_used {row : Option (Option Value)} (h : checked E s row name = some (some .used_name)) :
    ∃ old, row = some old ∧ old ≠ some (.str name) ∧ check_rolename_exists s name = true := by
  unfold checked at h
  split at h
  · cases h
  · next old =>
    split_ifs at h with hsame hused
    · cases h
    · exact ⟨old, rfl, hsame, hused⟩
    · exact absurd h (name_match_ne_used name)

/-- What passes was not. -/
theorem checked_passes {row : Option (Option Value)} (h : checked E s row name = some none) :
    ∃ old, row = some old ∧ old ≠ some (.str name) ∧ check_rolename_exists s name = false ∧
      name_match E name = some none := by
  unfold checked at h
  split at h
  · cases h
  · next old =>
    split_ifs at h with hsame hused
    · cases h
    · cases h
    · exact ⟨old, rfl, hsame, by simpa using hused, h⟩

/-- A rename is refused as used only if another player has the name. -/
def Refuses (E : Env) (s : State) (e : Event) : Prop :=
  ∀ uid name, e = .changename uid name → (serve E s e).1 = some .used_name →
    ∃ text v, name = some text ∧ v ≠ uid ∧ called s v = some (.str text)

/-- **A rename that meets the condition.** -/
theorem changename_sound (h : Sound s) (hknows : Knows start s) (hm : Meets start E s (.changename uid (some name))) :
    Sound (changename E s uid (some name)).2 ∧
      ((changename E s uid (some name)).1 = some .used_name →
        ∃ v, v ≠ uid ∧ called s v = some (.str name)) := by
  rcases hg : get s uid with ⟨row, s'⟩
  obtain ⟨hex, hrow, hreads, hloaded⟩ | ⟨-, hnone, -⟩ := get_spec h uid
  · rw [hg] at hrow hreads hloaded
    dsimp only at hrow hreads hloaded
    subst hrow
    -- the names that are tested are those of the start, which a read does not change
    have hcheck : check_rolename_exists s' name = true ↔ ∃ u, start u = some name := by
      rw [← hknows name, check_rolename_exists, hreads.custom, check_rolename_exists]
    simp only [changename, hg]
    cases hc : checked E s' (some (called s uid)) name with
    | none => exact ⟨hreads.sound, nofun⟩
    | some code =>
      cases hl : utf8len name with
      | none => exact ⟨hreads.sound, nofun⟩
      | some len =>
        dsimp only
        split
        · exact ⟨hreads.sound, nofun⟩
        · next hlen =>
          have hmeasured : Measured name := ⟨len, hl, by omega, by omega⟩
          cases code with
          | some code =>
            refine ⟨hreads.sound, fun hused => ?_⟩
            obtain rfl : code = .used_name := Option.some.inj hused
            obtain ⟨old, hold, hne, hused⟩ := checked_used hc
            cases hold
            obtain ⟨u, hu⟩ := hcheck.mp hused
            have hcalled := (hm hex hne hmeasured).1 u hu
            refine ⟨u, ?_, hcalled⟩
            rintro rfl
            exact hne hcalled
          | none =>
            obtain ⟨old, hold, hne, hunused, hmatch⟩ := checked_passes hc
            cases hold
            have hnobody : ∀ u, start u ≠ some name := by
              intro u hu
              rw [hcheck.mpr ⟨u, hu⟩] at hunused
              cases hunused
            obtain ⟨hfree, htext⟩ := (hm hex hne hmeasured).2 hnobody hmatch
            have hfree' : Free s' uid name := fun v hv => hreads.called v ▸ hfree v hv
            obtain ⟨hdone, hset⟩ := @setname_spec E s' uid name hreads.sound hloaded hfree' htext
            rcases hs : setname E s' uid name with ⟨done, s''⟩
            rw [hs] at hdone hset
            obtain rfl : done = true := hdone
            exact ⟨hset, nofun⟩
  · have hc : checked E s none name = some (some .role_not_exists) := rfl
    simp only [changename, hnone, hc]
    cases utf8len name with
    | none => exact ⟨h, nofun⟩
    | some len =>
      dsimp only
      split
      · exact ⟨h, nofun⟩
      · exact ⟨h, nofun⟩

theorem visitor_textual (uid : Uid) : Textual (visitor uid) := by
  refine Or.inr (Or.inr ?_)
  rw [visitor, List.any_append, Bool.or_eq_true]
  exact Or.inl (by decide)

theorem get_custom (s : State) (uid : Uid) : (get s uid).2.custom = s.custom := by
  have hfetch : (fetch s uid).2.custom = s.custom := by
    unfold fetch
    split
    · rfl
    · split <;> rfl
  unfold get
  split
  · rfl
  · rcases hf : fetch s uid with ⟨row, s'⟩
    rw [hf] at hfetch
    cases row <;> exact hfetch

theorem setname_custom (E : Env) (s : State) (uid : Uid) (name : Str) :
    (setname E s uid name).2.custom = s.custom := by
  unfold setname
  split <;> rfl

/-- **No request changes the names of the start.** -/
theorem serve_custom (E : Env) (s : State) (e : Event) : (serve E s e).2.custom = s.custom := by
  cases e with
  | load uid => exact get_custom s uid
  | unload uid => rfl
  | changename uid name =>
    cases name with
    | none => rfl
    | some name =>
      have hget := get_custom s uid
      simp only [serve, changename]
      rcases hg : get s uid with ⟨row, s'⟩
      rw [hg] at hget
      dsimp only
      split
      · split
        · exact hget
        · split
          · exact hget
          · have hset := setname_custom E s' uid name
            rcases hs : setname E s' uid name with ⟨done, s''⟩
            rw [hs] at hset
            cases done <;> exact hset.trans hget
      · exact hget
  | roleinit uid =>
    have hget := get_custom s uid
    simp only [serve, roleinit]
    split
    · rfl
    · rcases hg : get s uid with ⟨row, s'⟩
      rw [hg] at hget
      cases row with
      | none =>
        unfold add
        dsimp only
        split <;> exact hget
      | some old =>
        unfold setfield
        dsimp only
        split <;> exact hget

theorem Knows.serve (h : Knows start s) (E : Env) (e : Event) : Knows start (serve E s e).2 := by
  intro name
  rw [← h name, check_rolename_exists, serve_custom, check_rolename_exists]

/-- **A step that meets the condition.** -/
theorem serve_sound (h : Sound s) (hknows : Knows start s) (e : Event) (hm : Meets start E s e) :
    Sound (serve E s e).2 ∧ Refuses E s e := by
  cases e with
  | load uid =>
    refine ⟨?_, nofun⟩
    obtain ⟨-, -, hreads, -⟩ | ⟨-, hnone, -⟩ := get_spec h uid
    · exact hreads.sound
    · simp only [serve, load, hnone]
      exact h
  | unload uid =>
    refine ⟨?_, nofun⟩
    have hcalled : ∀ v, called (unload s uid) v = called s v ∨ called (unload s uid) v = none := by
      intro v
      by_cases hv : v = uid
      · subst hv
        cases hrow : s.recordset v with
        | none => exact Or.inl (by simp [called, unload, hrow, back])
        | some name =>
          obtain hback | hback := h.coherent v name hrow
          · exact Or.inl (by simpa [called, unload, hrow, back] using hback)
          · exact Or.inr (by simpa [called, unload, back] using hback)
      · exact Or.inl (by simp [called, unload, hv, back])
    refine ⟨h.unique.fewer hcalled, ⟨h.texts.redis, h.texts.mysql⟩, fun v name hv => ?_⟩
    simp only [serve, unload, Function.update_apply] at hv
    split at hv
    · cases hv
    · exact h.coherent v name hv
  | changename uid name =>
    cases name with
    | none =>
      refine ⟨h, fun v name hv hused => ?_⟩
      simp [serve, changename] at hused
    | some name =>
      obtain ⟨hsound, hrefuses⟩ := changename_sound h hknows hm
      refine ⟨hsound, fun v name' hv hused => ?_⟩
      cases hv
      obtain ⟨v, hv, hcalled⟩ := hrefuses hused
      exact ⟨name, v, rfl, hv, hcalled⟩
  | roleinit uid =>
    refine ⟨?_, nofun⟩
    simp only [serve, roleinit]
    split
    · exact h
    · next hone =>
      obtain ⟨-, hrow, hreads, -⟩ | ⟨hex, hnone, -⟩ := get_spec h uid
      · rcases hg : get s uid with ⟨row, s'⟩
        rw [hg] at hrow hreads
        obtain rfl : row = some (called s uid) := hrow
        exact setfield_sound hreads.sound uid
      · rw [hnone]
        exact add_sound h hex (hm hone hex) (visitor_textual uid)

/-! ## Every run -/

/-- At the start the names are those of MySQL. -/
theorem Started.sound (h : Started s) (htext : ∀ uid name, s.mysql uid = some name → Textual name) :
    Sound s := by
  have hcalled : ∀ uid, called s uid = (s.mysql uid).map .str := by
    intro uid
    simp only [called, h.recordset uid, back]
    split
    · next name hredis =>
      obtain ⟨text, rfl, hmysql⟩ := h.redis uid name hredis
      simp [hmysql, Store.isnumber_of_textual (htext uid text hmysql)]
    · rfl
  refine ⟨fun u v name hu hv => ?_, ⟨fun uid name hredis => ?_, htext⟩, fun uid name hrow => ?_⟩
  · rw [hcalled, Option.map_eq_some_iff] at hu hv
    obtain ⟨text, hu, rfl⟩ := hu
    obtain ⟨text', hv, heq⟩ := hv
    cases heq
    exact h.unique u v _ hu hv
  · obtain ⟨text, htext', hmysql⟩ := h.redis uid _ hredis
    cases htext'
    exact htext uid _ hmysql
  · rw [h.recordset uid] at hrow
    cases hrow

/-- And those are what the test knows. -/
theorem Started.knows (h : Started s) (htext : ∀ uid name, s.mysql uid = some name → Textual name) :
    Knows s.mysql s := by
  intro name
  rw [check_rolename_exists, List.any_eq_true]
  constructor
  · rintro ⟨x, hx, heq⟩
    obtain rfl : x = some (.str name) := by simpa using heq
    obtain ⟨u, text, hu, hback⟩ := (h.custom _).mp hx
    rw [Store.isnumber_of_textual (htext u text hu)] at hback
    cases hback
    exact ⟨u, hu⟩
  · rintro ⟨u, hu⟩
    exact ⟨some (.str name), (h.custom _).mpr ⟨u, name, hu, Store.isnumber_of_textual (htext u name hu)⟩, by simp⟩

/-- **Names over every run** whose steps meet the condition: no two players have the
same, and a rename that meets it is refused as used only for another player's. -/
theorem names (hstart : (system E).init s)
    (htext : ∀ uid name, s.mysql uid = some name → Textual name) {es : List Event}
    (h : ((system E).restrict (Meets s.mysql E)).Path s es t) :
    Unique t ∧ ∀ e, Meets s.mysql E t e → Refuses E t e := by
  have hsound : Sound t ∧ Knows s.mysql t := by
    refine h.invariant (P := fun u => Sound u ∧ Knows s.mysql u) (fun u e v hst hu => ?_)
      ⟨Started.sound hstart htext, Started.knows hstart htext⟩
    obtain ⟨rfl, hm⟩ := hst
    exact ⟨(serve_sound hu.1 hu.2 e hm).1, hu.2.serve E e⟩
  exact ⟨hsound.1.unique, fun e hm => (serve_sound hsound.1 hsound.2 e hm).2⟩

/-! ## Two players -/

/-- One connection, no word that is forbidden, and every name admitted. -/
def plain : Env := ⟨true, fun _ => false, fun _ _ _ => true⟩

def alice : Str := "alice".toList

def bobby : Str := "bobby".toList

def carol : Str := "carol".toList

def nameOf (uid : Uid) : Option Str :=
  if uid = 2 then some alice else if uid = 3 then some bobby else none

def two : State where
  recordset _ := none
  redis uid := (nameOf uid).map some
  mysql := nameOf
  custom := [some (.str alice), some (.str bobby)]

theorem nameOf_cases {name : Str} (h : nameOf uid = some name) :
    uid = 2 ∧ name = alice ∨ uid = 3 ∧ name = bobby := by
  unfold nameOf at h
  split_ifs at h with h2 h3
  · exact Or.inl ⟨h2, (Option.some.inj h).symm⟩
  · exact Or.inr ⟨h3, (Option.some.inj h).symm⟩

theorem two_textual : ∀ uid name, two.mysql uid = some name → Textual name := by
  intro uid name h
  obtain ⟨-, rfl⟩ | ⟨-, rfl⟩ := nameOf_cases h
  · decide
  · decide

theorem two_started : Started two where
  recordset _ := rfl
  redis uid name h := by
    obtain ⟨text, hname, rfl⟩ := Option.map_eq_some_iff.mp h
    exact ⟨text, rfl, hname⟩
  unique u v name hu hv := by
    obtain ⟨rfl, rfl⟩ | ⟨rfl, rfl⟩ := nameOf_cases hu
    · obtain ⟨rfl, -⟩ | ⟨-, hname⟩ := nameOf_cases hv
      · rfl
      · exact absurd hname (by decide)
    · obtain ⟨-, hname⟩ | ⟨rfl, -⟩ := nameOf_cases hv
      · exact absurd hname (by decide)
      · rfl
  custom name := by
    have halice : Store.isnumber alice = some (.str alice) := by decide
    have hbobby : Store.isnumber bobby = some (.str bobby) := by decide
    constructor
    · intro h
      obtain rfl | rfl : name = some (.str alice) ∨ name = some (.str bobby) := by simpa [two] using h
      · exact ⟨2, alice, rfl, halice⟩
      · exact ⟨3, bobby, rfl, hbobby⟩
    · rintro ⟨uid, text, h, rfl⟩
      obtain ⟨-, rfl⟩ | ⟨-, rfl⟩ := nameOf_cases h
      · simp [two, halice]
      · simp [two, hbobby]

/-- One of the two takes a new name and is unloaded. -/
def renamed : State := unload (changename plain two 2 (some carol)).2 2

theorem renamed_path : ((system plain).restrict (Meets two.mysql plain)).Path two
    [.changename 2 (some carol), .unload 2] renamed := by
  have hmeets : Meets two.mysql plain two (.changename 2 (some carol)) := by
    intro _ _ _
    refine ⟨fun u hu => ?_, fun _ _ => ⟨fun v hv hcalled => ?_, by decide⟩⟩
    · obtain ⟨-, hname⟩ | ⟨-, hname⟩ := nameOf_cases hu
      · exact absurd hname (by decide)
      · exact absurd hname (by decide)
    · have hback : (nameOf v).bind Store.isnumber = some (.str carol) := by
        simp only [called, two, back] at hcalled
        cases hname : nameOf v with
        | none => simp [hname] at hcalled
        | some name => simpa [hname] using hcalled
      obtain ⟨name, hname, hnumber⟩ := Option.bind_eq_some_iff.mp hback
      obtain ⟨-, rfl⟩ | ⟨-, rfl⟩ := nameOf_cases hname
      · exact absurd hnumber (by decide)
      · exact absurd hnumber (by decide)
  exact .cons ⟨rfl, hmeets⟩ (System.path_singleton.mpr ⟨rfl, trivial⟩)

/-- He is refused the name of the other, who has it. -/
theorem names_renamed : Unique renamed ∧
    (serve plain renamed (.changename 2 (some bobby))).1 = some .used_name ∧
    ∃ v, v ≠ 2 ∧ called renamed v = some (.str bobby) := by
  obtain ⟨hunique, hrefuses⟩ := names two_started two_textual renamed_path
  have hused : (serve plain renamed (.changename 2 (some bobby))).1 = some .used_name := by decide
  have hmeets : Meets two.mysql plain renamed (.changename 2 (some bobby)) := by
    intro _ _ _
    refine ⟨fun u hu => ?_, fun hnobody => absurd rfl (hnobody 3)⟩
    obtain ⟨-, hname⟩ | ⟨rfl, -⟩ := nameOf_cases hu
    · exact absurd hname (by decide)
    · decide
  obtain ⟨text, v, htext, hv, hcalled⟩ := hrefuses _ hmeets 2 (some bobby) rfl hused
  cases htext
  exact ⟨hunique, hused, v, hv, hcalled⟩

/-- **Both take it.** The names that the test looks at are those of the start. -/
theorem names_both :
    ¬ ∀ (E : Env) (s t : State) (es : List Event), (system E).init s →
      (∀ uid name, s.mysql uid = some name → Textual name) → (system E).Path s es t → Unique t := by
  intro hall
  have hunique := hall plain two _ [.changename 2 (some carol), .changename 3 (some carol)] two_started
    two_textual (System.Path.cons rfl (System.path_singleton.mpr rfl))
  have hsame : (2 : Uid) = 3 := hunique 2 3 (.str carol) (by decide) (by decide)
  exact absurd hsame (by decide)

end Rolename

end Athena
