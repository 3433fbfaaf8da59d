import Athena.Team.Model
import Mathlib.Data.List.Nodup
/-!
# Team rooms — sound tables

What the tables and the marks are between the calls (`Sound`): a player is
in one room at most, marked with its table exactly when in one; an
owner is in its room, and no room has more members than its table
allows. A player without a mark may enter a room that has place or found
one, a member who is not the owner may leave, and a room may go with
the marks of its members.
-/

namespace Athena

namespace Team

/-- **The tables and the marks agree.** -/
structure Sound (rooms : Table → List Room) (mark : ℤ → Option Mark) : Prop where
  keys : ∀ k, ((rooms k).map Room.key).Nodup
  /-- A player is in one room of a table, -/
  one : ∀ k, ∀ r ∈ rooms k, ∀ r' ∈ rooms k, ∀ v ∈ r.members, v ∈ r'.members → r = r'
  /-- and there once. -/
  nodup : ∀ k, ∀ r ∈ rooms k, r.members.Nodup
  owner : ∀ k, ∀ r ∈ rooms k, r.key.uid ∈ r.members
  size : ∀ k, ∀ r ∈ rooms k, r.members.length ≤ k.target
  /-- A member is marked with the table, -/
  member : ∀ k, ∀ r ∈ rooms k, ∀ v ∈ r.members, ∃ m, mark v = some m ∧ m.table = k
  /-- and nobody else is marked. -/
  marked : ∀ v m, mark v = some m → ∃ r ∈ rooms m.table, v ∈ r.members

section

variable {l : List Room} {p : Room → Bool} {f g : List ℤ → List ℤ} {key : Key} {u v : ℤ} {r r' : Room}

/-! ## Changes of one room -/

theorem mem_modify : r' ∈ modify l p f ↔
    (∃ r ∈ l, p r = true ∧ r' = { r with members := f r.members }) ∨ (r' ∈ l ∧ p r' = false) := by
  unfold modify
  rw [List.mem_map]
  constructor
  · rintro ⟨r, hr, rfl⟩
    by_cases hp : p r = true
    · rw [if_pos hp]
      exact Or.inl ⟨r, hr, hp, rfl⟩
    · rw [if_neg hp]
      exact Or.inr ⟨hr, by simpa using hp⟩
  · rintro (⟨r, hr, hp, rfl⟩ | ⟨hr, hp⟩)
    · exact ⟨r, hr, by rw [if_pos hp]⟩
    · exact ⟨r', hr, by simp [hp]⟩

@[simp] theorem map_key_modify : (modify l p f).map Room.key = l.map Room.key := by
  rw [modify, List.map_map]
  refine List.map_congr_left fun r _ => ?_
  dsimp only [Function.comp]
  split <;> rfl

@[simp] theorem map_ref_modify : (modify l p f).map Room.ref = l.map Room.ref := by
  rw [modify, List.map_map]
  refine List.map_congr_left fun r _ => ?_
  dsimp only [Function.comp]
  split <;> rfl

/-- A test of the key does not see a change of the members. -/
theorem delete_modify :
    delete (modify l p f) key = modify (delete l key) p f := by
  unfold delete modify
  rw [List.filter_map]
  congr 1
  refine List.filter_congr fun r _ => ?_
  dsimp only [Function.comp]
  split <;> rfl

theorem mem_delete : r ∈ delete l key ↔ r ∈ l ∧ r.key ≠ key := by
  simp [delete, List.mem_filter]

theorem eq_of_key (hn : (l.map Room.key).Nodup) (hr : r ∈ l) (hr' : r' ∈ l)
    (h : r.key = r'.key) : r = r' :=
  List.inj_on_of_nodup_map hn hr hr' h

theorem eq_of_ref (hn : (l.map Room.ref).Nodup) (hr : r ∈ l) (hr' : r' ∈ l)
    (h : r.ref = r'.ref) : r = r' :=
  List.inj_on_of_nodup_map hn hr hr' h

theorem find?_key (hn : (l.map Room.key).Nodup) (hr : r ∈ l) :
    (l.find? fun r' => r'.key = r.key) = some r := by
  cases h : l.find? fun r' => r'.key = r.key with
  | none =>
    rw [List.find?_eq_none] at h
    exact absurd (decide_eq_true rfl) (h r hr)
  | some r' =>
    have hkey : r'.key = r.key := by simpa using List.find?_some h
    rw [eq_of_key hn (List.mem_of_find?_eq_some h) hr hkey]

end

/-! ## Sound tables stay sound -/

namespace Sound

variable {rooms rooms' : Table → List Room} {mark : ℤ → Option Mark} {k : Table} {l : List Room}
variable {u v : ℤ} {m : Mark} {r r₀ : Room} {f : List ℤ → List ℤ} {p : Room → Bool}

/-- A player is in one room of all tables. -/
theorem one_room (h : Sound rooms mark) {k k' : Table} {r r' : Room} (hr : r ∈ rooms k)
    (hr' : r' ∈ rooms k') (hv : v ∈ r.members) (hv' : v ∈ r'.members) : k = k' ∧ r = r' := by
  obtain ⟨m, hm, rfl⟩ := h.member k r hr v hv
  obtain ⟨m', hm', rfl⟩ := h.member k' r' hr' v hv'
  cases hm.symm.trans hm'
  exact ⟨rfl, h.one _ r hr r' hr' v hv hv'⟩

theorem not_mem (h : Sound rooms mark) (hu : mark u = none) : ∀ k, ∀ r ∈ rooms k, u ∉ r.members := by
  intro k r hr hmem
  obtain ⟨m, hm, -⟩ := h.member k r hr u hmem
  rw [hu] at hm
  cases hm

/-- The order of a table does not matter. -/
theorem perm (h : Sound rooms mark) (hp : ∀ k, (rooms' k).Perm (rooms k)) : Sound rooms' mark where
  keys k := ((hp k).map _).nodup_iff.mpr (h.keys k)
  one k r hr r' hr' := h.one k r ((hp k).mem_iff.mp hr) r' ((hp k).mem_iff.mp hr')
  nodup k r hr := h.nodup k r ((hp k).mem_iff.mp hr)
  owner k r hr := h.owner k r ((hp k).mem_iff.mp hr)
  size k r hr := h.size k r ((hp k).mem_iff.mp hr)
  member k r hr := h.member k r ((hp k).mem_iff.mp hr)
  marked v m hv := by
    obtain ⟨r, hr, hmem⟩ := h.marked v m hv
    exact ⟨r, (hp m.table).mem_iff.mpr hr, hmem⟩

/-- What is to show when one table changes. -/
theorem of_table (h : Sound rooms mark) {mark' : ℤ → Option Mark} (keys : (l.map Room.key).Nodup)
    (one : ∀ r ∈ l, ∀ r' ∈ l, ∀ v ∈ r.members, v ∈ r'.members → r = r')
    (nodup : ∀ r ∈ l, r.members.Nodup) (owner : ∀ r ∈ l, r.key.uid ∈ r.members)
    (size : ∀ r ∈ l, r.members.length ≤ k.target)
    (member : ∀ r ∈ l, ∀ v ∈ r.members, ∃ m, mark' v = some m ∧ m.table = k)
    (others : ∀ k', k' ≠ k → ∀ r ∈ rooms k', ∀ v ∈ r.members, mark' v = mark v)
    (marked : ∀ v m, mark' v = some m →
      (m.table = k ∧ ∃ r ∈ l, v ∈ r.members) ∨ (m.table ≠ k ∧ mark v = some m)) :
    Sound (Function.update rooms k l) mark' := by
  have hsplit : ∀ {P : Table → List Room → Prop}, P k l → (∀ k', k' ≠ k → P k' (rooms k')) →
      ∀ k', P k' (Function.update rooms k l k') := by
    intro P hk hne k'
    by_cases hkk : k' = k
    · rw [hkk, Function.update_self]
      exact hk
    · rw [Function.update_of_ne hkk]
      exact hne k' hkk
  refine ⟨hsplit (P := fun _ l => (l.map Room.key).Nodup) keys fun k' _ => h.keys k',
    hsplit (P := fun _ l => ∀ r ∈ l, ∀ r' ∈ l, ∀ v ∈ r.members, v ∈ r'.members → r = r') one
      fun k' _ => h.one k',
    hsplit (P := fun _ l => ∀ r ∈ l, r.members.Nodup) nodup fun k' _ => h.nodup k',
    hsplit (P := fun _ l => ∀ r ∈ l, r.key.uid ∈ r.members) owner fun k' _ => h.owner k',
    hsplit (P := fun k l => ∀ r ∈ l, r.members.length ≤ k.target) size fun k' _ => h.size k',
    hsplit (P := fun k l => ∀ r ∈ l, ∀ v ∈ r.members, ∃ m, mark' v = some m ∧ m.table = k) member
      fun k' hk' r hr v hv => ?_,
    fun v m hv => ?_⟩
  · rw [others k' hk' r hr v hv]
    exact h.member k' r hr v hv
  · rcases marked v m hv with ⟨rfl, hr⟩ | ⟨hne, hm⟩
    · rwa [Function.update_self]
    · rw [Function.update_of_ne hne]
      exact h.marked v m hm

/-- **A player enters a room** that has place for it, perhaps its own. -/
theorem enter (h : Sound rooms mark) (hr₀ : r₀ ∈ rooms m.table)
    (hp : ∀ r ∈ rooms m.table, p r = true ↔ r = r₀) (hu : mark u = none ∨ u ∈ r₀.members)
    (hsize : (r₀.members.erase u).length < m.table.target) :
    Sound (Function.update rooms m.table (modify (rooms m.table) p fun l => l.erase u ++ [u]))
      (Function.update mark u (some m)) := by
  -- the members of the room are the ones before and the player
  have hmem : ∀ v, v ∈ r₀.members.erase u ++ [u] ↔ v ∈ r₀.members ∨ v = u := by
    intro v
    rw [List.mem_append, List.mem_singleton]
    by_cases hv : v = u
    · simp [hv]
    · rw [List.mem_erase_of_ne hv]
  have hother : ∀ k, ∀ r ∈ rooms k, u ∈ r.members → r = r₀ := by
    intro k r hr hur
    rcases hu with hu | hu
    · exact absurd hur (h.not_mem hu k r hr)
    · exact (h.one_room hr hr₀ hur hu).2
  have hcases : ∀ r ∈ modify (rooms m.table) p (fun l => l.erase u ++ [u]),
      r = { r₀ with members := r₀.members.erase u ++ [u] } ∨
        (r ∈ rooms m.table ∧ r ≠ r₀ ∧ u ∉ r.members) := by
    intro r hr
    rcases mem_modify.mp hr with ⟨r', hr', hpr, rfl⟩ | ⟨hr', hpr⟩
    · rw [(hp r' hr').mp hpr]
      exact Or.inl rfl
    · have hne : r ≠ r₀ := by
        rintro rfl
        rw [(hp r hr').mpr rfl] at hpr
        cases hpr
      exact Or.inr ⟨hr', hne, fun hur => hne (hother _ r hr' hur)⟩
  refine h.of_table ?_ ?_ ?_ ?_ ?_ ?_ ?_ ?_
  · rw [map_key_modify]
    exact h.keys _
  · intro r hr r' hr' v hv hv'
    rcases hcases r hr with rfl | ⟨hr, hne, hur⟩ <;> rcases hcases r' hr' with rfl | ⟨hr', hne', hur'⟩
    · rfl
    · rcases (hmem v).mp hv with hv | rfl
      · exact absurd (h.one _ r₀ hr₀ r' hr' v hv hv').symm hne'
      · exact absurd hv' hur'
    · rcases (hmem v).mp hv' with hv' | rfl
      · exact absurd (h.one _ r hr r₀ hr₀ v hv hv') hne
      · exact absurd hv hur
    · exact h.one _ r hr r' hr' v hv hv'
  · intro r hr
    rcases hcases r hr with rfl | ⟨hr, -, -⟩
    · have hn := h.nodup _ r₀ hr₀
      refine (hn.erase u).append (List.nodup_singleton u) ?_
      intro v hv hvu
      rw [List.mem_singleton.mp hvu] at hv
      exact hn.not_mem_erase hv
    · exact h.nodup _ r hr
  · intro r hr
    rcases hcases r hr with rfl | ⟨hr, -, -⟩
    · exact (hmem _).mpr (Or.inl (h.owner _ r₀ hr₀))
    · exact h.owner _ r hr
  · intro r hr
    rcases hcases r hr with rfl | ⟨hr, -, -⟩
    · simpa using Nat.succ_le_of_lt hsize
    · exact h.size _ r hr
  · intro r hr v hv
    by_cases hvu : v = u
    · exact ⟨m, by rw [hvu, Function.update_self], rfl⟩
    · rw [Function.update_of_ne hvu]
      rcases hcases r hr with rfl | ⟨hr, -, -⟩
      · exact h.member _ r₀ hr₀ v (((hmem v).mp hv).resolve_right hvu)
      · exact h.member _ r hr v hv
  · intro k hk r hr v hv
    refine Function.update_of_ne ?_ _ _
    rintro rfl
    rcases hu with hu | hu
    · exact h.not_mem hu k r hr hv
    · exact hk (h.one_room hr hr₀ hv hu).1
  · intro v m' hv
    by_cases hvu : v = u
    · rw [hvu, Function.update_self] at hv
      cases hv
      refine Or.inl ⟨rfl, _, mem_modify.mpr (Or.inl ⟨r₀, hr₀, (hp r₀ hr₀).mpr rfl, rfl⟩), ?_⟩
      exact (hmem v).mpr (Or.inr hvu)
    · rw [Function.update_of_ne hvu] at hv
      by_cases hk : m'.table = m.table
      · obtain ⟨r, hr, hmv⟩ := h.marked v m' hv
        rw [hk] at hr
        refine Or.inl ⟨hk, ?_⟩
        by_cases hrr : r = r₀
        · exact ⟨_, mem_modify.mpr (Or.inl ⟨r₀, hr₀, (hp r₀ hr₀).mpr rfl, rfl⟩),
            (hmem v).mpr (Or.inl (hrr ▸ hmv))⟩
        · refine ⟨r, mem_modify.mpr (Or.inr ⟨hr, ?_⟩), hmv⟩
          simpa using fun hpr => hrr ((hp r hr).mp hpr)
      · exact Or.inr ⟨hk, hv⟩

/-- **A player founds a room.** -/
theorem found (h : Sound rooms mark) (hu : mark u = none) (hkey : r.key.uid = u)
    (hr : r.members = [u]) (htarget : 1 ≤ m.table.target) :
    Sound (Function.update rooms m.table (rooms m.table ++ [r])) (Function.update mark u (some m)) := by
  have hno := h.not_mem hu
  have hcases : ∀ r' ∈ rooms m.table ++ [r], r' = r ∨ r' ∈ rooms m.table := by
    intro r' hr'
    rcases List.mem_append.mp hr' with hr' | hr'
    · exact Or.inr hr'
    · exact Or.inl (List.mem_singleton.mp hr')
  refine h.of_table ?_ ?_ ?_ ?_ ?_ ?_ ?_ ?_
  · rw [List.map_append, List.nodup_append]
    refine ⟨h.keys _, by simp, ?_⟩
    rintro a ha b hb rfl
    -- a room with that key has the player as its owner
    obtain ⟨r', hr', rfl⟩ := List.mem_map.mp ha
    have hown := h.owner _ r' hr'
    rw [show r'.key = r.key by simpa using hb, hkey] at hown
    exact hno _ r' hr' hown
  · intro r₁ h₁ r₂ h₂ v hv₁ hv₂
    rcases hcases r₁ h₁ with rfl | hr₁ <;> rcases hcases r₂ h₂ with rfl | hr₂
    · rfl
    · rw [hr, List.mem_singleton] at hv₁
      exact absurd (hv₁ ▸ hv₂) (hno _ r₂ hr₂)
    · rw [hr, List.mem_singleton] at hv₂
      exact absurd (hv₂ ▸ hv₁) (hno _ r₁ hr₁)
    · exact h.one _ r₁ hr₁ r₂ hr₂ v hv₁ hv₂
  · intro r' hr'
    rcases hcases r' hr' with rfl | hr'
    · rw [hr]
      exact List.nodup_singleton u
    · exact h.nodup _ r' hr'
  · intro r' hr'
    rcases hcases r' hr' with rfl | hr'
    · rw [hr, hkey]
      exact List.mem_singleton_self u
    · exact h.owner _ r' hr'
  · intro r' hr'
    rcases hcases r' hr' with rfl | hr'
    · rw [hr]
      exact htarget
    · exact h.size _ r' hr'
  · intro r' hr' v hv
    by_cases hvu : v = u
    · exact ⟨m, by rw [hvu, Function.update_self], rfl⟩
    · rw [Function.update_of_ne hvu]
      rcases hcases r' hr' with rfl | hr'
      · rw [hr, List.mem_singleton] at hv
        exact absurd hv hvu
      · exact h.member _ r' hr' v hv
  · intro k _ r' hr' v hv
    refine Function.update_of_ne ?_ _ _
    rintro rfl
    exact hno k r' hr' hv
  · intro v m' hv
    by_cases hvu : v = u
    · rw [hvu, Function.update_self] at hv
      cases hv
      exact Or.inl ⟨rfl, r, by simp, by rw [hr, hvu]; exact List.mem_singleton_self u⟩
    · rw [Function.update_of_ne hvu] at hv
      by_cases hk : m'.table = m.table
      · obtain ⟨r', hr', hmv⟩ := h.marked v m' hv
        rw [hk] at hr'
        exact Or.inl ⟨hk, r', List.mem_append_left _ hr', hmv⟩
      · exact Or.inr ⟨hk, hv⟩

/-- **A member who is not the owner leaves.** -/
theorem leave (h : Sound rooms mark) (hr : r ∈ rooms k) (hu : u ∈ r.members) (hne : r.key.uid ≠ u) :
    Sound (Function.update rooms k (remove (rooms k) r.key u)) (Function.update mark u none) := by
  -- every room is as before, without the player
  have hcases : ∀ r' ∈ remove (rooms k) r.key u, ∃ r₁ ∈ rooms k, r₁.key = r'.key ∧
      r'.members = r₁.members.erase u := by
    intro r' hr'
    rcases mem_modify.mp hr' with ⟨r₁, h₁, hkey, rfl⟩ | ⟨h₁, hkey⟩
    · exact ⟨r₁, h₁, rfl, rfl⟩
    · refine ⟨r', h₁, rfl, (List.erase_of_not_mem fun hur => ?_).symm⟩
      rw [h.one k r' h₁ r hr u hur hu] at hkey
      simp at hkey
  have hmem : ∀ r' ∈ remove (rooms k) r.key u, ∀ v ∈ r'.members,
      ∃ r₁ ∈ rooms k, r₁.key = r'.key ∧ r'.members = r₁.members.erase u ∧ v ∈ r₁.members ∧ v ≠ u := by
    intro r' hr' v hv
    obtain ⟨r₁, h₁, hkey, hmem⟩ := hcases r' hr'
    rw [hmem] at hv
    refine ⟨r₁, h₁, hkey, hmem, List.mem_of_mem_erase hv, ?_⟩
    rintro rfl
    exact (h.nodup k r₁ h₁).not_mem_erase hv
  have hkeys : ((remove (rooms k) r.key u).map Room.key).Nodup := by
    rw [remove, map_key_modify]
    exact h.keys k
  refine h.of_table hkeys ?_ ?_ ?_ ?_ ?_ ?_ ?_
  · intro r₁ h₁ r₂ h₂ v hv₁ hv₂
    obtain ⟨r₁', h₁', hkey₁, -, hv₁', -⟩ := hmem r₁ h₁ v hv₁
    obtain ⟨r₂', h₂', hkey₂, -, hv₂', -⟩ := hmem r₂ h₂ v hv₂
    refine eq_of_key hkeys h₁ h₂ ?_
    rw [← hkey₁, ← hkey₂, h.one k r₁' h₁' r₂' h₂' v hv₁' hv₂']
  · intro r' hr'
    obtain ⟨r₁, h₁, -, hmem⟩ := hcases r' hr'
    rw [hmem]
    exact (h.nodup k r₁ h₁).erase u
  · intro r' hr'
    obtain ⟨r₁, h₁, hkey, hmem⟩ := hcases r' hr'
    have hown := h.owner k r₁ h₁
    rw [hmem, ← hkey]
    refine (List.mem_erase_of_ne ?_).mpr hown
    rintro rfl
    exact hne (congrArg (fun r : Room => r.key.uid) (h.one k r₁ h₁ r hr _ hown hu)).symm
  · intro r' hr'
    obtain ⟨r₁, h₁, -, hmem⟩ := hcases r' hr'
    rw [hmem]
    exact Nat.le_trans List.length_erase_le (h.size k r₁ h₁)
  · intro r' hr' v hv
    obtain ⟨r₁, h₁, -, -, hv₁, hvu⟩ := hmem r' hr' v hv
    rw [Function.update_of_ne hvu]
    exact h.member k r₁ h₁ v hv₁
  · intro k' hk' r' hr' v hv
    refine Function.update_of_ne ?_ _ _
    rintro rfl
    exact hk' (h.one_room hr' hr hv hu).1
  · intro v m hv
    by_cases hvu : v = u
    · rw [hvu, Function.update_self] at hv
      cases hv
    · rw [Function.update_of_ne hvu] at hv
      by_cases hk : m.table = k
      · obtain ⟨r', hr', hmv⟩ := h.marked v m hv
        rw [hk] at hr'
        refine Or.inl ⟨hk, ?_⟩
        by_cases hkey : r'.key = r.key
        · exact ⟨_, mem_modify.mpr (Or.inl ⟨r', hr', decide_eq_true hkey, rfl⟩),
            (List.mem_erase_of_ne hvu).mpr hmv⟩
        · exact ⟨r', mem_modify.mpr (Or.inr ⟨hr', decide_eq_false hkey⟩), hmv⟩
      · exact Or.inr ⟨hk, hv⟩

/-- **A room goes**, with the marks of its members. -/
theorem drop (h : Sound rooms mark) (hr : r ∈ rooms k) :
    Sound (Function.update rooms k (delete (rooms k) r.key)) (unmark r.members mark) := by
  have hmem : ∀ r' ∈ delete (rooms k) r.key, r' ∈ rooms k ∧ r' ≠ r := by
    intro r' hr'
    obtain ⟨hr', hkey⟩ := mem_delete.mp hr'
    exact ⟨hr', fun heq => hkey (heq ▸ rfl)⟩
  have hstay : ∀ k', ∀ r' ∈ rooms k', r' ≠ r → ∀ v ∈ r'.members, unmark r.members mark v = mark v := by
    intro k' r' hr' hne v hv
    exact if_neg fun hvr => hne (h.one_room hr' hr hv hvr).2
  refine h.of_table ((h.keys k).sublist (List.filter_sublist.map _))
    (fun r₁ h₁ r₂ h₂ => h.one k r₁ (hmem r₁ h₁).1 r₂ (hmem r₂ h₂).1)
    (fun r' hr' => h.nodup k r' (hmem r' hr').1) (fun r' hr' => h.owner k r' (hmem r' hr').1)
    (fun r' hr' => h.size k r' (hmem r' hr').1) ?_ ?_ ?_
  · intro r' hr' v hv
    rw [hstay k r' (hmem r' hr').1 (hmem r' hr').2 v hv]
    exact h.member k r' (hmem r' hr').1 v hv
  · intro k' hk' r' hr' v hv
    refine if_neg fun hvr => hk' (h.one_room hr' hr hv hvr).1
  · intro v m hv
    have hvr : v ∉ r.members := by
      intro hvr
      rw [unmark, if_pos hvr] at hv
      cases hv
    rw [unmark, if_neg hvr] at hv
    by_cases hk : m.table = k
    · obtain ⟨r', hr', hmv⟩ := h.marked v m hv
      rw [hk] at hr'
      refine Or.inl ⟨hk, r', mem_delete.mpr ⟨hr', fun hkey => hvr ?_⟩, hmv⟩
      rwa [← eq_of_key (h.keys k) hr' hr hkey]
    · exact Or.inr ⟨hk, hv⟩

end Sound

end Team

end Athena
