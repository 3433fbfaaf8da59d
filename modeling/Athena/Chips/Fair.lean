import Athena.Chips.Sold
/-!
# Chips — fair requests

`sellchip`, `decompose` and `composition` fail without an effect or take just what is
listed and pay for it: where they do.
-/

namespace Athena

namespace Chips

open Lua (wrap)

variable {cfg : Config} {prices : Prices} {s t u : State} {e e' : Equip} {x : Item} {items : List Item}
  {price : Item → Option (Option ℤ)} {chipinfo : Option (List SaleItem)} {i : Fin 5}
  {part uniqueid id level r n number : ℤ}

/-! ## Slots are only emptied -/

/-- **The slots of an equipment are emptied at most.** -/
def Empties (s t : State) : Prop :=
  ∀ part uniqueid e, s.equip part uniqueid = some e →
    ∃ e', t.equip part uniqueid = some e' ∧ ∀ i, (e.slots i).chip = none → (e'.slots i).chip = none

/-- A slot has lost its chip. -/
def Lost (s t : State) : Prop :=
  ∃ part uniqueid e e' i, s.equip part uniqueid = some e ∧ t.equip part uniqueid = some e' ∧
    (e.slots i).chip ≠ none ∧ (e'.slots i).chip = none

theorem empties_rfl (h : t.equip = s.equip) : Empties s t :=
  fun part uniqueid e he => ⟨e, by rw [h, he], fun _ hi => hi⟩

theorem Empties.trans (h : Empties s t) (h' : Empties t u) : Empties s u := by
  intro part uniqueid e he
  obtain ⟨e₁, he₁, h₁⟩ := h part uniqueid e he
  obtain ⟨e₂, he₂, h₂⟩ := h' part uniqueid e₁ he₁
  exact ⟨e₂, he₂, fun i hi => h₂ i (h₁ i hi)⟩

theorem Lost.trans (h : Lost s t) (h' : Empties t u) : Lost s u := by
  obtain ⟨part, uniqueid, e, e₁, i, he, he₁, hchip, hnone⟩ := h
  obtain ⟨e₂, he₂, h₂⟩ := h' part uniqueid e₁ he₁
  exact ⟨part, uniqueid, e, e₂, i, he, he₂, hchip, h₂ i hnone⟩

/-- **What an error leaves** is not what there was. -/
theorem Lost.unstored (h : Lost s t) : s.unstored t ≠ s := by
  obtain ⟨part, uniqueid, e, e', i, he, he', hchip, hnone⟩ := h
  intro heq
  have hsame : (s.unstored t).equip part uniqueid = t.equip part uniqueid := rfl
  rw [heq, he, he', Option.some.injEq] at hsame
  rw [hsame] at hchip
  exact hchip hnone

/-- The equipment after a fitted chip is taken. -/
theorem takefitted_equip (cfg : Config) (s : State) (x : Item) (m : Mod) (e : Equip) :
    ∃ e', (takefitted cfg s x m e).equip =
        (s.setequip (x.record % 10) (x.record / 10) e').equip ∧
      (∀ i, (e.slots i).chip = none → (e'.slots i).chip = none) ∧
      ∀ i, e.find x.id = some i → (e'.slots i).chip = none := by
  refine ⟨_, setequip_congr (by simp), fun i hi => ?_, fun i hi => ?_⟩
  · simp only [Equip.floor]
    split
    · rename_i j _
      by_cases hij : i = j
      · subst hij
        simp [Equip.set, Slot.clear]
      · have hother : (((e.without m x.level j).set j (e.slots j).clear).slots i) =
            (e.without m x.level j).slots i := Function.update_of_ne hij _ _
        rw [hother]
        unfold Equip.without
        simp only
        split <;> exact hi
    · exact hi
  · simp [hi, Equip.floor, Equip.set, Slot.clear]

theorem takeitem_empties (h : takeitem cfg x s = some t) : Empties s t := by
  unfold takeitem at h
  split at h
  · split at h
    · rename_i m e _ he
      obtain rfl := Option.some.inj h
      obtain ⟨e', hequip, hkeep, -⟩ := takefitted_equip cfg s x m e
      intro part uniqueid d hd
      rw [hequip]
      by_cases hpu : part = x.record % 10 ∧ uniqueid = x.record / 10
      · obtain ⟨rfl, rfl⟩ := hpu
        obtain rfl := Option.some.inj (he.symm.trans hd)
        exact ⟨e', setequip_self, hkeep⟩
      · rw [setequip_of_ne hpu]
        exact ⟨d, hd, fun _ hi => hi⟩
    · cases h
  · split at h <;> obtain rfl := Option.some.inj h <;> exact empties_rfl rfl

/-- **A fitted chip leaves its slot.** -/
theorem takeitem_lost (h : takeitem cfg x s = some t) (hequip : x.isequip = true)
    (hslot : ∃ e i, s.equip (x.record % 10) (x.record / 10) = some e ∧ e.find x.id = some i) :
    Lost s t := by
  obtain ⟨e, i, he, hi⟩ := hslot
  rw [takeitem, if_pos hequip, he] at h
  split at h
  · rename_i m d _ hd
    obtain rfl := Option.some.inj hd
    obtain rfl := Option.some.inj h
    obtain ⟨e', hstored, -, hgone⟩ := takefitted_equip cfg s x m e
    refine ⟨_, _, e, e', i, he, by rw [hstored, setequip_self], ?_, hgone i hi⟩
    obtain ⟨level, hchip⟩ := chip_of_chipid (find_some hi)
    rw [hchip]
    exact Option.some_ne_none _
  · cases h

/-! ## How the loop ends -/

/-- The loop has all it needs of a chip. -/
def Complete (cfg : Config) (price : Item → Option (Option ℤ)) (items : List Item) : Prop :=
  ∀ x ∈ items, (∃ neednum, price x = some (some neednum)) ∧ (x.isequip = true → (cfg.mod x.id).isSome)

/-- **An error before anything is stored.** -/
def Early (cfg : Config) (price : Item → Option (Option ℤ)) (items : List Item) : Prop :=
  ∃ l₁ x l₂, items = l₁ ++ x :: l₂ ∧
    (∀ y ∈ l₁, y.isequip = false ∧ ∃ neednum, price y = some (some neednum)) ∧
    (price x = none ∨ x.isequip = true ∧ cfg.mod x.id = none ∨ price x = some none ∧ x.isequip = false)

/-- What a chip of a request comes to. -/
def pay (price : Item → Option (Option ℤ)) (x : Item) : ℤ :=
  match price x with
  | some (some neednum) => neednum * x.number
  | _ => 0

/-- The equipment of the fitted chips are there. -/
def Equipped (s : State) (items : List Item) : Prop :=
  ∀ x ∈ items, x.isequip = true → (s.equip (x.record % 10) (x.record / 10)).isSome

theorem Equipped.empties (h : Equipped s items) (hst : Empties s t) : Equipped t items := by
  intro x hx hequip
  obtain ⟨e, he⟩ := Option.isSome_iff_exists.mp (h x hx hequip)
  obtain ⟨e', he', -⟩ := hst _ _ e he
  rw [he']
  rfl

theorem Equipped.tail (h : Equipped s (x :: items)) : Equipped s items :=
  fun y hy => h y (List.mem_cons_of_mem x hy)

/-- A round raises an error only where a fitted chip is not in the table. -/
theorem takeitem_none (h : takeitem cfg x s = none)
    (hequip : x.isequip = true → (s.equip (x.record % 10) (x.record / 10)).isSome) :
    x.isequip = true ∧ cfg.mod x.id = none := by
  unfold takeitem at h
  split at h
  · rename_i hx
    refine ⟨hx, ?_⟩
    obtain ⟨e, he⟩ := Option.isSome_iff_exists.mp (hequip hx)
    rw [he] at h
    cases hm : cfg.mod x.id with
    | none => rfl
    | some m => simp [hm] at h
  · split at h <;> cases h

theorem takeitem_some (hmod : x.isequip = true → (cfg.mod x.id).isSome)
    (hequip : x.isequip = true → (s.equip (x.record % 10) (x.record / 10)).isSome) :
    ∃ t, takeitem cfg x s = some t := by
  cases h : takeitem cfg x s with
  | some t => exact ⟨t, rfl⟩
  | none =>
    obtain ⟨hx, hno⟩ := takeitem_none h hequip
    have := hmod hx
    rw [hno] at this
    cases this

/-- A chip that is not fitted leaves all but the lists. -/
theorem takeitem_unstored (h : takeitem cfg x s = some t) (hequip : x.isequip = false) :
    s.unstored t = s := by
  unfold takeitem at h
  rw [if_neg (by simp [hequip])] at h
  simp only at h
  split at h <;> obtain rfl := Option.some.inj h <;> rfl

theorem takeitems_complete_from (h : Complete cfg price items) (hequip : Equipped s items) :
    ∃ t, takeall cfg items s = some t ∧
      takeitems cfg price items s (wrap n) = (t, some (wrap (n + tally (pay price) items))) := by
  induction items generalizing s n with
  | nil => exact ⟨s, rfl, by simp [takeitems]⟩
  | cons x items ih =>
    obtain ⟨⟨neednum, hprice⟩, hmod⟩ := h x List.mem_cons_self
    obtain ⟨t₁, ht₁⟩ := takeitem_some hmod (hequip x List.mem_cons_self)
    obtain ⟨t, hall, ht⟩ := ih (s := t₁) (n := n + neednum * x.number)
      (fun y hy => h y (List.mem_cons_of_mem x hy)) (hequip.tail.empties (takeitem_empties ht₁))
    refine ⟨t, by rw [takeall, ht₁]; exact hall, ?_⟩
    have hpay : pay price x = neednum * x.number := by simp [pay, hprice]
    simp only [takeitems, hprice, ht₁]
    rw [Lua.wrap_wrap_add_wrap, ht, tally_cons, hpay, add_assoc]

/-- **The loop with all it needs** goes to its end. -/
theorem takeitems_complete (h : Complete cfg price items) (hequip : Equipped s items) :
    ∃ t, takeall cfg items s = some t ∧
      takeitems cfg price items s 0 = (t, some (wrap (tally (pay price) items))) := by
  obtain ⟨t, hall, ht⟩ := takeitems_complete_from (n := 0) h hequip
  rw [zero_add] at ht
  exact ⟨t, hall, ht⟩

/-- **An early error** leaves all as it was. -/
theorem takeitems_early (h : Early cfg price items) :
    ∃ t, takeitems cfg price items s n = (t, none) ∧ s.unstored t = s := by
  obtain ⟨l₁, x, l₂, rfl, hbefore, hx⟩ := h
  induction l₁ generalizing s n with
  | nil =>
    rw [List.nil_append, takeitems]
    cases hprice : price x with
    | none => exact ⟨s, rfl, rfl⟩
    | some p =>
      cases ht : takeitem cfg x s with
      | none => exact ⟨s, by cases p <;> rfl, rfl⟩
      | some t =>
        rcases hx with hx | ⟨hequip, hmod⟩ | ⟨hx, hequip⟩
        · rw [hprice] at hx
          cases hx
        · rw [takeitem, if_pos hequip, hmod] at ht
          cases ht
        · rw [hprice, Option.some.injEq] at hx
          subst hx
          exact ⟨t, rfl, takeitem_unstored ht hequip⟩
  | cons y l₁ ih =>
    obtain ⟨hequip, neednum, hprice⟩ := hbefore y List.mem_cons_self
    obtain ⟨t₁, ht₁⟩ : ∃ t, takeitem cfg y s = some t :=
      takeitem_some (by simp [hequip]) (by simp [hequip])
    obtain ⟨t, ht, hkeep⟩ := ih (s := t₁) (n := wrap (n + wrap (neednum * y.number)))
      fun z hz => hbefore z (List.mem_cons_of_mem y hz)
    refine ⟨t, ?_, ?_⟩
    · rw [List.cons_append, takeitems]
      simp only [hprice, ht₁]
      exact ht
    · have hfirst := takeitem_unstored ht₁ hequip
      calc s.unstored t = s.unstored (t₁.unstored t) := rfl
        _ = s.unstored t₁ := by rw [hkeep]
        _ = s := hfirst

/-- What the loop does to the slots. -/
theorem takeitems_empties (cfg : Config) (price : Item → Option (Option ℤ)) (items : List Item)
    (s : State) (n : ℤ) : Empties s (takeitems cfg price items s n).1 := by
  induction items generalizing s n with
  | nil => exact empties_rfl rfl
  | cons x items ih =>
    rw [takeitems]
    split
    · rename_i ht
      exact (takeitem_empties ht).trans (ih _ _)
    · rename_i ht
      exact takeitem_empties ht
    · exact empties_rfl rfl

/-- A fitted chip that is taken is in the table. -/
theorem takeitem_mod (h : takeitem cfg x s = some t) (hequip : x.isequip = true) :
    (cfg.mod x.id).isSome := by
  rw [takeitem, if_pos hequip] at h
  split at h
  · rename_i m _ hm _
    rw [hm]
    rfl
  · cases h

/-- A loop that goes to its end has all it needs. -/
theorem complete_of_some {r : ℤ} (h : (takeitems cfg price items s n).2 = some r) : Complete cfg price items := by
  induction items generalizing s n with
  | nil => exact fun x hx => absurd hx List.not_mem_nil
  | cons x items ih =>
    rw [takeitems] at h
    split at h
    · rename_i neednum t hprice ht
      intro y hy
      rcases List.mem_cons.mp hy with rfl | hy
      · exact ⟨⟨neednum, hprice⟩, takeitem_mod ht⟩
      · exact ih h y hy
    · cases h
    · cases h

/-- **How the loop ends**: it has all it needs, or there is an early error, or a slot
has lost its chip and the lists are not stored. -/
theorem takeitems_cases (cfg : Config) (price : Item → Option (Option ℤ)) (n : ℤ)
    (hslot : ∀ x ∈ items, x.isequip = true →
      ∃ e i, s.equip (x.record % 10) (x.record / 10) = some e ∧ e.find x.id = some i) :
    Complete cfg price items ∨ Early cfg price items ∨
      (takeitems cfg price items s n).2 = none ∧ Lost s (takeitems cfg price items s n).1 := by
  induction items generalizing s n with
  | nil => exact Or.inl fun x hx => absurd hx List.not_mem_nil
  | cons x items ih =>
    have hslotx := hslot x List.mem_cons_self
    have hequip : x.isequip = true → (s.equip (x.record % 10) (x.record / 10)).isSome := by
      intro hx
      obtain ⟨e, i, he, -⟩ := hslotx hx
      rw [he]
      rfl
    by_cases hcomplete : Complete cfg price (x :: items)
    · exact Or.inl hcomplete
    refine Or.inr ?_
    cases hprice : price x with
    | none => exact Or.inl ⟨[], x, items, rfl, by simp, Or.inl hprice⟩
    | some p =>
      cases ht : takeitem cfg x s with
      | none => exact Or.inl ⟨[], x, items, rfl, by simp, Or.inr (Or.inl (takeitem_none ht hequip))⟩
      | some t₁ =>
        cases p with
        | none =>
          cases hx : x.isequip with
          | false => exact Or.inl ⟨[], x, items, rfl, by simp, Or.inr (Or.inr ⟨hprice, hx⟩)⟩
          | true =>
            refine Or.inr ?_
            simp only [takeitems, hprice, ht]
            exact ⟨trivial, takeitem_lost ht hx (hslotx hx)⟩
        | some neednum =>
          have hnot : ¬ Complete cfg price items := by
            intro hrest
            refine hcomplete fun y hy => ?_
            rcases List.mem_cons.mp hy with rfl | hy
            · exact ⟨⟨neednum, hprice⟩, takeitem_mod ht⟩
            · exact hrest y hy
          simp only [takeitems, hprice, ht]
          cases hx : x.isequip with
          | false =>
            have hsame : (s.unstored t₁).equip = s.equip := by rw [takeitem_unstored ht hx]
            have hsame : t₁.equip = s.equip := hsame
            have hrest := ih (s := t₁) (wrap (n + wrap (neednum * x.number))) fun y hy => by
              rw [hsame]
              exact hslot y (List.mem_cons_of_mem x hy)
            rcases hrest with hrest | ⟨l₁, y, l₂, rfl, hbefore, hy⟩ | ⟨hnone, hlost⟩
            · exact absurd hrest hnot
            · refine Or.inl ⟨x :: l₁, y, l₂, rfl, fun z hz => ?_, hy⟩
              rcases List.mem_cons.mp hz with rfl | hz
              · exact ⟨hx, neednum, hprice⟩
              · exact hbefore z hz
            · refine Or.inr ⟨hnone, ?_⟩
              rw [Lost, hsame] at hlost
              exact hlost
          | true =>
            refine Or.inr ⟨?_, (takeitem_lost ht hx (hslotx hx)).trans (takeitems_empties _ _ _ _ _)⟩
            cases hout : (takeitems cfg price items t₁ (wrap (n + wrap (neednum * x.number)))).2 with
            | none => rfl
            | some r => exact absurd (complete_of_some hout) hnot

/-! ## What is listed -/

/-- **The chips of a request.** -/
def named (chipinfo : Option (List SaleItem)) : List Item := (chipinfo.getD []).map SaleItem.item

theorem matchitem_ok {a : SaleItem} (h : matchitem cfg s a = .ok x) : x = a.item ∧ (x.isequip = true →
    ∃ e i, s.equip (x.record % 10) (x.record / 10) = some e ∧ e.find x.id = some i) := by
  unfold matchitem at h
  split at h
  · cases h
  split at h
  · cases h
  split at h
  · cases h
  split at h
  · cases h
  split at h
  · simp only at h
    split at h
    · cases h
    split at h
    · cases h
    rename_i e he
    split at h
    · cases h
    · rename_i hfind
      obtain rfl := Except.ok.inj h
      obtain ⟨i, hi⟩ := Option.ne_none_iff_exists'.mp (by simpa using hfind)
      exact ⟨rfl, fun _ => ⟨e, i, he, hi⟩⟩
  · rename_i hequip
    obtain rfl := Except.ok.inj h
    exact ⟨rfl, fun h => absurd h hequip⟩

theorem matchitem_error {a : SaleItem} : matchitem cfg s a ≠ .error (some .success) := by
  unfold matchitem
  repeat' split
  all_goals simp
  repeat' split
  all_goals simp

theorem matchitems_ok {l : List SaleItem} (h : matchitems cfg s l = .ok items) :
    items = l.map SaleItem.item ∧ ∀ x ∈ items, x.isequip = true →
      ∃ e i, s.equip (x.record % 10) (x.record / 10) = some e ∧ e.find x.id = some i := by
  induction l generalizing items with
  | nil =>
    obtain rfl := Except.ok.inj h
    exact ⟨rfl, by simp⟩
  | cons a l ih =>
    rw [matchitems] at h
    cases hx : matchitem cfg s a with
    | error code =>
      rw [hx] at h
      cases h
    | ok x =>
      cases hrest : matchitems cfg s l with
      | error code =>
        rw [hx, hrest] at h
        cases h
      | ok rest =>
        rw [hx, hrest] at h
        obtain rfl := Except.ok.inj h
        obtain ⟨rfl, hslot⟩ := ih hrest
        obtain ⟨rfl, hslotx⟩ := matchitem_ok hx
        refine ⟨rfl, fun y hy => ?_⟩
        rcases List.mem_cons.mp hy with rfl | hy
        · exact hslotx
        · exact hslot y hy

theorem matchitems_error {l : List SaleItem} : matchitems cfg s l ≠ .error (some .success) := by
  induction l with
  | nil => exact fun h => nomatch h
  | cons a l ih =>
    rw [matchitems]
    intro h
    cases hx : matchitem cfg s a with
    | error code =>
      rw [hx] at h
      cases h
      exact matchitem_error hx
    | ok x =>
      cases hrest : matchitems cfg s l with
      | error code =>
        rw [hx, hrest] at h
        cases h
        exact ih hrest
      | ok rest =>
        rw [hx, hrest] at h
        cases h

/-- **A request that passes the checks** is of the chips it lists, and their slots
are there. -/
theorem param_match_ok {num : Option ℤ} (h : param_match cfg s chipinfo num = .ok items) :
    items = named chipinfo ∧ (∀ x ∈ items, x.isequip = true →
      ∃ e i, s.equip (x.record % 10) (x.record / 10) = some e ∧ e.find x.id = some i) := by
  unfold param_match at h
  split at h
  · cases h
  · split at h
    · cases h
    · rename_i l items' hitems
      split at h
      · cases h
      · obtain rfl := Except.ok.inj h
        exact matchitems_ok hitems

theorem param_match_error {num : Option ℤ} : param_match cfg s chipinfo num ≠ .error (some .success) := by
  unfold param_match
  split
  · simp
  · rename_i l
    split
    · rename_i code hcode
      intro h
      rw [h] at hcode
      exact matchitems_error hcode
    · split <;> simp

/-! ## Paying for what is taken -/

/-- **A fair request**: it fails without an effect, or takes just what is listed and
pays for each chip what is due. -/
def Fairdeal (s t : State) (held held' : ℤ) (success : Prop) (due : Item → Option ℤ) (items : List Item) : Prop :=
  (t = s ∧ held' = held ∧ ¬ success) ∨
    (success ∧ Taken s t items ∧ (∀ x ∈ items, (due x).isSome) ∧
      held' = held + tally (fun x => (due x).getD 0 * x.number) items)

/-- **What is said of a request here**: none of its chips is both fitted and new, and no
number of an entry leaves 64 bits when the numbers that are below zero are taken from it. -/
structure Plain (s : State) (items : List Item) : Prop where
  onelist : ∀ x ∈ items, x.Onelist
  fits : ∀ p, ∀ c ∈ s.list p,
    c.number.getD 0 + tally (fun x => max 0 (-x.number)) items < 2 ^ 63 - 1

/-- **Where it is fair**: an early error, or nothing is missing, what is listed is
there, and what it comes to, added to what is held, is what is due. `receive` adds it. -/
def Honoured (cfg : Config) (price : Item → Option (Option ℤ)) (due : Item → Option ℤ)
    (receive : ℤ → ℤ) (held : ℤ) (s : State) (items : List Item) : Prop :=
  Early cfg price items ∨
    (Complete cfg price items ∧ Plain s items ∧ Covered s items ∧
      receive (wrap (tally (pay price) items)) =
        held + tally (fun x => (due x).getD 0 * x.number) items)

/-- A state with the lists of another. -/
theorem Taken.congr (h : Taken s t items) (hlist : ∀ p, u.list p = t.list p) : Taken s u items := by
  refine ⟨fun p id level lock => ?_, h.owned⟩
  rw [← h.removed, stock, stock, hlist]

/-- **The loop and what is paid after it.** -/
theorem fairdeal_takeitems {due : Item → Option ℤ} {receive : ℤ → ℤ} {held held' : ℤ}
    {success : Prop} (h : Counted s)
    (hslot : ∀ x ∈ items, x.isequip = true →
      ∃ e i, s.equip (x.record % 10) (x.record / 10) = some e ∧ e.find x.id = some i)
    (hdue : ∀ x q, price x = some (some q) → (due x).isSome)
    (hnone : ∀ t₁, takeitems cfg price items s 0 = (t₁, none) →
      t = s.unstored t₁ ∧ held' = held ∧ ¬ success)
    (hsome : ∀ t₁ n, takeitems cfg price items s 0 = (t₁, some n) →
      success ∧ (∀ p, t.list p = t₁.list p) ∧ held' = receive n) :
    (Honoured cfg price due receive held s items → Fairdeal s t held held' success due items) ∧
      (Plain s items → Fairdeal s t held held' success due items →
        Honoured cfg price due receive held s items) := by
  have hequip : Equipped s items := by
    intro x hx hequip
    obtain ⟨e, i, he, -⟩ := hslot x hx hequip
    rw [he]
    rfl
  constructor
  · rintro (hearly | ⟨hcomplete, hone, hcovered, hpay⟩)
    · obtain ⟨t₁, hrun, hkeep⟩ := takeitems_early (s := s) (n := 0) hearly
      obtain ⟨ht, hheld, hfail⟩ := hnone t₁ hrun
      rw [hkeep] at ht
      exact Or.inl ⟨ht, hheld, hfail⟩
    · obtain ⟨t₁, hall, hrun⟩ := takeitems_complete hcomplete hequip
      obtain ⟨hsuccess, hlist, hheld⟩ := hsome t₁ _ hrun
      refine Or.inr ⟨hsuccess, ((takeall_taken_iff h hone.onelist hall).mpr hcovered).congr hlist, fun x hx => ?_, ?_⟩
      · obtain ⟨⟨q, hq⟩, -⟩ := hcomplete x hx
        exact hdue x q hq
      · rw [hheld, hpay]
  · intro hone hfair
    rcases takeitems_cases cfg price 0 hslot with hcomplete | hearly | ⟨hout, hlost⟩
    · obtain ⟨t₁, hall, hrun⟩ := takeitems_complete hcomplete hequip
      obtain ⟨hsuccess, hlist, hheld⟩ := hsome t₁ _ hrun
      rcases hfair with ⟨-, -, hfail⟩ | ⟨-, htaken, -, hpaid⟩
      · exact absurd hsuccess hfail
      · have htaken : Taken s t₁ items := htaken.congr fun p => (hlist p).symm
        rw [hheld] at hpaid
        exact Or.inr ⟨hcomplete, hone, (takeall_taken_iff h hone.onelist hall).mp htaken, hpaid⟩
    · exact Or.inl hearly
    · obtain ⟨ht, -, hfail⟩ := hnone _ (Prod.ext rfl hout)
      rcases hfair with ⟨hsame, -, -⟩ | ⟨hsuccess, -⟩
      · exact absurd (ht.symm.trans hsame) hlost.unstored
      · exact absurd hsuccess hfail

/-! ## Selling and decomposing -/

/-- What a table says of a chip. -/
def tableprice (prices : Prices) (table : ℤ → Option (ℤ → Option ℤ)) (x : Item) : Option ℤ :=
  (table (prices.Material_Sale x.id)).bind fun modeup => modeup x.level

theorem tableprice_saleprice {q : ℤ} (h : saleprice cfg prices x = some (some q)) :
    tableprice prices prices.mod_sale x = some q := by
  unfold saleprice at h
  split at h
  · cases h
  · obtain ⟨modeup, hrow, hq⟩ := Option.map_eq_some_iff.mp h
    rw [tableprice, hrow, Option.bind_some, hq]

theorem tableprice_resolveprice {q : ℤ} (h : resolveprice cfg prices x = some (some q)) :
    (tableprice prices prices.mod_resolve x).isSome := by
  unfold resolveprice at h
  split at h
  · cases h
  · split at h
    · cases h
    · rename_i modeup hrow
      obtain ⟨neednum, hneed, -⟩ := Option.map_eq_some_iff.mp h
      rw [tableprice, hrow, Option.bind_some, hneed]
      rfl

/-- A balance and a number that fit are added. -/
theorem addgold_eq {gold number : ℤ} (hgold : 0 ≤ gold) (h0 : 0 ≤ number) (hfit : gold + number < 2 ^ 63) :
    addgold gold (wrap number) = gold + number := by
  rw [addgold, Lua.wrap_eq (by omega) (by omega)]
  split
  · omega
  · exact Lua.wrap_eq (by omega) hfit

/-- So are a total and a number, up to what doubles have. -/
theorem addmaterials_eq {number : ℤ} (hheld : 0 ≤ s.materials) (h0 : 0 ≤ number)
    (hfit : s.materials + number ≤ 2 ^ 53) :
    (s.addmaterials (wrap number)).materials = s.materials + number := by
  rw [State.addmaterials, Lua.wrap_eq (by omega) (by omega)]
  split
  · omega
  · split
    · rename_i hnone
      simp [hnone]
    · rename_i hpos _
      have hsum : ((s.materials : ℚ) + number) = ((s.materials + number : ℤ) : ℚ) := by
        push_cast
        rfl
      simp only [newtotal]
      rw [Lua.toDouble_intCast hheld (by omega), Lua.toDouble_intCast h0 (by omega), Lua.Number.addFloat, hsum,
        Lua.toDouble_intCast (by omega) hfit, Lua.Number.ceil, Int.ceil_intCast, if_pos ⟨by omega, by omega⟩,
        Warehouse.reread_int]
      exact Lua.wrap_eq (by omega) (by omega)

theorem addmaterials_congr (h : t.materials = s.materials) (number : ℤ) :
    (t.addmaterials number).materials = (s.addmaterials number).materials := by
  unfold State.addmaterials
  rw [h]
  split
  · exact h
  · split <;> rfl

theorem addmaterials_list (s : State) (number : ℤ) (p : Place) :
    (s.addmaterials number).list p = s.list p := by
  unfold State.addmaterials
  split
  · rfl
  · split <;> cases p <;> rfl

/-- **A sale is fair.** -/
def Sellfair (cfg : Config) (prices : Prices) (s : State) (gold : ℤ) (chipinfo : Option (List SaleItem)) : Prop :=
  let out := sellchip cfg prices s gold chipinfo
  Fairdeal s out.1 gold out.2.1 (∃ n, out.2.2 = some (.success, n)) (tableprice prices prices.mod_sale)
    (named chipinfo)

/-- **Chips are decomposed fairly.** -/
def Decomposefair (cfg : Config) (prices : Prices) (s : State) (chipinfo : Option (List SaleItem)) : Prop :=
  let out := decompose cfg prices s chipinfo
  Fairdeal s out.1 s.materials out.1.materials (∃ n, out.2 = some (.success, n))
    (tableprice prices prices.mod_resolve) (named chipinfo)

/-- The sales that are. -/
def Sellable (cfg : Config) (prices : Prices) (s : State) (gold : ℤ) (chipinfo : Option (List SaleItem)) : Prop :=
  ∀ items, param_match cfg s chipinfo none = .ok items →
    Honoured cfg (saleprice cfg prices) (tableprice prices prices.mod_sale) (addgold gold) gold s items

def Decomposable (cfg : Config) (prices : Prices) (s : State) (chipinfo : Option (List SaleItem)) : Prop :=
  ∀ items, param_match cfg s chipinfo none = .ok items →
    Honoured cfg (resolveprice cfg prices) (tableprice prices prices.mod_resolve)
      (fun n => (s.addmaterials n).materials) s.materials s items

theorem takeitem_materials (h : takeitem cfg x s = some t) : t.materials = s.materials := by
  unfold takeitem at h
  split at h
  · split at h
    · obtain rfl := Option.some.inj h
      simp [takefitted]
    · cases h
  · split at h <;> obtain rfl := Option.some.inj h <;> rfl

/-- The loop pays nothing. -/
theorem takeitems_materials (cfg : Config) (price : Item → Option (Option ℤ)) (items : List Item)
    (s : State) (n : ℤ) : (takeitems cfg price items s n).1.materials = s.materials := by
  induction items generalizing s n with
  | nil => rfl
  | cons x items ih =>
    rw [takeitems]
    split
    · rename_i ht
      rw [ih, takeitem_materials ht]
    · rename_i ht
      exact takeitem_materials ht
    · rfl

/-- An error over the list is no success. -/
theorem not_success_of_error {code : Option SaleCode} (hmatch : param_match cfg s chipinfo none = .error code) :
    ¬ ∃ n : ℤ, code.map (fun code => (code, (0 : ℤ))) = some (.success, n) := by
  rintro ⟨n, hn⟩
  obtain ⟨code, rfl, hcode⟩ := Option.map_eq_some_iff.mp hn
  obtain ⟨rfl, -⟩ := Prod.mk.inj hcode
  exact param_match_error hmatch

/-- **The list, the loop and what is paid after it.** A list that is no good changes nothing. -/
theorem fairdeal_matched {due : Item → Option ℤ} {receive : ℤ → ℤ} {held held' : ℤ}
    {success : Prop} (h : Counted s)
    (hdue : ∀ x q, price x = some (some q) → (due x).isSome)
    (herror : ∀ code, param_match cfg s chipinfo none = .error code → t = s ∧ held' = held ∧ ¬ success)
    (hnone : ∀ t₁, param_match cfg s chipinfo none = .ok (named chipinfo) →
      takeitems cfg price (named chipinfo) s 0 = (t₁, none) → t = s.unstored t₁ ∧ held' = held ∧ ¬ success)
    (hsome : ∀ t₁ n, param_match cfg s chipinfo none = .ok (named chipinfo) →
      takeitems cfg price (named chipinfo) s 0 = (t₁, some n) →
        success ∧ (∀ p, t.list p = t₁.list p) ∧ held' = receive n) :
    ((∀ items, param_match cfg s chipinfo none = .ok items → Honoured cfg price due receive held s items) →
        Fairdeal s t held held' success due (named chipinfo)) ∧
      (Plain s (named chipinfo) → Fairdeal s t held held' success due (named chipinfo) →
        ∀ items, param_match cfg s chipinfo none = .ok items → Honoured cfg price due receive held s items) := by
  cases hmatch : param_match cfg s chipinfo none with
  | error code =>
    refine ⟨fun _ => Or.inl (herror code hmatch), fun _ _ items hitems => ?_⟩
    cases hitems
  | ok items =>
    obtain ⟨rfl, hslot⟩ := param_match_ok hmatch
    have hdeal : (Honoured cfg price due receive held s (named chipinfo) →
          Fairdeal s t held held' success due (named chipinfo)) ∧
        (Plain s (named chipinfo) → Fairdeal s t held held' success due (named chipinfo) →
          Honoured cfg price due receive held s (named chipinfo)) :=
      fairdeal_takeitems h hslot hdue (fun t hrun => hnone t hmatch hrun) fun t n hrun => hsome t n hmatch hrun
    refine ⟨fun hsell => hdeal.1 (hsell _ rfl), fun hone hfair items hitems => ?_⟩
    obtain rfl := Except.ok.inj hitems
    exact hdeal.2 hone hfair

theorem sellfair_iff {gold : ℤ} (h : Counted s) :
    (Sellable cfg prices s gold chipinfo → Sellfair cfg prices s gold chipinfo) ∧
      (Plain s (named chipinfo) → Sellfair cfg prices s gold chipinfo →
        Sellable cfg prices s gold chipinfo) := by
  have hdue : ∀ x q, saleprice cfg prices x = some (some q) →
      (tableprice prices prices.mod_sale x).isSome := by
    intro x q hq
    rw [tableprice_saleprice hq]
    rfl
  refine fairdeal_matched h hdue (fun code hmatch => ?_) (fun t hmatch hrun => ?_) fun t n hmatch hrun => ?_
  · simp only [sellchip, hmatch]
    exact ⟨trivial, trivial, not_success_of_error hmatch⟩
  · simp [sellchip, hmatch, hrun]
  · simp [sellchip, hmatch, hrun]

theorem decomposefair_iff (h : Counted s) :
    (Decomposable cfg prices s chipinfo → Decomposefair cfg prices s chipinfo) ∧
      (Plain s (named chipinfo) → Decomposefair cfg prices s chipinfo →
        Decomposable cfg prices s chipinfo) := by
  have hmat : ∀ t n, takeitems cfg (resolveprice cfg prices) (named chipinfo) s 0 = (t, n) →
      t.materials = s.materials := by
    intro t n hrun
    rw [← takeitems_materials cfg (resolveprice cfg prices) (named chipinfo) s 0, hrun]
  refine fairdeal_matched h (fun _ _ => tableprice_resolveprice) (fun code hmatch => ?_)
    (fun t hmatch hrun => ?_) fun t n hmatch hrun => ?_
  · simp only [decompose, hmatch]
    exact ⟨trivial, trivial, not_success_of_error hmatch⟩
  · simp [decompose, hmatch, hrun, State.unstored, hmat t none hrun]
  · simp [decompose, hmatch, hrun, addmaterials_list, addmaterials_congr (hmat t n hrun)]

/-! ## Composing -/

/-- **Just so many chips are destroyed**, and none is added. -/
def Destroyed (s t : State) (n : ℤ) : Prop :=
  (∀ p id level lock, stock t p id level lock ≤ stock s p id level lock) ∧ owned t = owned s - n

/-- **Chips are composed fairly**: three go, and then one comes. -/
def Composefair (cfg : Config) (s : State) (chipinfo : Option (List SaleItem))
    (chipid : { id : ℤ // (cfg.mod id).isSome }) : Prop :=
  let out := composition cfg s chipinfo chipid
  (out.1 = s ∧ ¬ ∃ id, out.2 = some (.success, id)) ∨
    ∃ t, composed cfg s chipinfo = .ok t ∧ Destroyed s t 3 ∧ out.2 = some (.success, some chipid.1) ∧
      ∀ w, weight w out.1 = weight w t + w chipid 1

/-- Three chips may be listed that are not there. -/
def Composable (cfg : Config) (s : State) (chipinfo : Option (List SaleItem)) : Prop :=
  ∀ items, param_match cfg s chipinfo (some 3) = .ok items →
    Early cfg (fun _ => some (some 0)) items ∨
      (Complete cfg (fun _ => some (some 0)) items ∧ Plain s items ∧
        (∀ p id level, 0 ≤ gone s items p id level) ∧
        ∑ k ∈ (items.map Item.key).toFinset, keygone s items k = 3)

/-- One chip comes. -/
theorem addchip_weigh (w : ℤ → ℤ → ℤ) (hmod : (cfg.mod id).isSome) (hnew : Numbered s.newchipinfo)
    (hseen : Numbered s.chipinfoarr) :
    weight w (addchip cfg s (some id) (some 1) (some 1)).1 = weight w s + w id 1 := by
  obtain ⟨m, hm⟩ := Option.isSome_iff_exists.mp hmod
  simp only [addchip, hm]
  cases hkey : get_chip id s.chipinfoarr (some 1) 0 none with
  | none =>
    simp only [weight, add_chip_weigh w id 1 1 0 hnew]
    ring
  | some key =>
    obtain ⟨c, hc, hid, hlevel, -⟩ := get_chip_some hkey
    obtain ⟨n, hn, -⟩ := hseen c (List.mem_of_getElem? hc)
    have heq : (s.chipinfoarr.modify key fun c => { c with number := c.number.map (· + 1) }) =
        s.chipinfoarr.modify key fun d => { d with number := some (n + 1) } :=
      modify_congr hc (by rw [hn]; rfl)
    have hnumber := weigh_number (w := w) (n + 1) hc
    simp only [weigh, hn, Option.getD_some, hid, Option.some.inj hlevel, mul_add, mul_one] at hnumber
    simp only [weight]
    rw [heq]
    linarith only [hnumber]

/-- **Three chips go** where the kinds that are listed lose three. -/
theorem destroyed_iff (h : Counted s) (hone : ∀ x ∈ items, x.Onelist)
    (hrun : takeall cfg items s = some t) : Destroyed s t n ↔
      (∀ p id level, 0 ≤ gone s items p id level) ∧
        ∑ k ∈ (items.map Item.key).toFinset, keygone s items k = n := by
  have hkeys : ∀ k ∈ (items.map Item.key).toFinset, ∃ y : Item, k = y.key := by
    intro k hk
    obtain ⟨y, -, rfl⟩ := List.mem_map.mp (List.mem_toFinset.mp hk)
    exact ⟨y, rfl⟩
  have hstock := takeall_stock h hone hrun
  have howned := takeall_owned (items.map Item.key).toFinset hkeys hone
    (fun x hx => List.mem_toFinset.mpr (List.mem_map_of_mem hx)) hrun
  have hgone : ∑ k ∈ (items.map Item.key).toFinset, (keystock s k - keystock t k) =
      ∑ k ∈ (items.map Item.key).toFinset, keygone s items k := by
    refine Finset.sum_congr rfl fun k hk => ?_
    obtain ⟨y, rfl⟩ := hkeys k hk
    exact takeall_keygone h hone hrun y
  rw [hgone] at howned
  constructor
  · rintro ⟨hless, hdestroyed⟩
    refine ⟨fun p id level => ?_, by omega⟩
    have hle := hless p id level 0
    rw [hstock, if_pos rfl] at hle
    omega
  · rintro ⟨hnonneg, hsum⟩
    refine ⟨fun p id level lock => ?_, by omega⟩
    have hle := hnonneg p id level
    rw [hstock]
    split <;> omega

theorem composefair_iff {chipid : { id : ℤ // (cfg.mod id).isSome }} (h : Counted s) :
    (Composable cfg s chipinfo → Composefair cfg s chipinfo chipid) ∧
      (Plain s (named chipinfo) → Composefair cfg s chipinfo chipid →
        Composable cfg s chipinfo) := by
  cases hmatch : param_match cfg s chipinfo (some 3) with
  | error code =>
    refine ⟨fun _ => ?_, fun _ _ items hitems => ?_⟩
    · refine Or.inl ?_
      simp only [composition, composed, hmatch]
      refine ⟨trivial, ?_⟩
      rintro ⟨id, hid⟩
      obtain ⟨code, rfl, hcode⟩ := Option.map_eq_some_iff.mp hid
      obtain ⟨rfl, -⟩ := Prod.mk.inj hcode
      exact param_match_error hmatch
    · rw [hmatch] at hitems
      cases hitems
  | ok items =>
    obtain ⟨rfl, hslot⟩ := param_match_ok hmatch
    have hequip : Equipped s (named chipinfo) := by
      intro x hx hequip
      obtain ⟨e, i, he, -⟩ := hslot x hx hequip
      rw [he]
      rfl
    constructor
    · intro hcomp
      rcases hcomp _ hmatch with hearly | ⟨hcomplete, hone, hgone⟩
      · obtain ⟨t, hrun, hkeep⟩ := takeitems_early (s := s) (n := 0) hearly
        refine Or.inl ?_
        simp [composition, composed, hmatch, hrun, hkeep]
      · obtain ⟨t, hall, hrun⟩ := takeitems_complete hcomplete hequip
        have hcomposed : composed cfg s chipinfo = .ok t := by
          simp only [composed, hmatch, hrun]
        have hlist := takeall_list hone.onelist hall
        have hnew : Numbered t.newchipinfo := by
          have := hlist .new
          simp only [State.list] at this
          rw [this]
          exact takes_numbered h.newchipinfo
        have hseen : Numbered t.chipinfoarr := by
          have := hlist .seen
          simp only [State.list] at this
          rw [this]
          exact takes_numbered h.chipinfoarr
        refine Or.inr ⟨t, hcomposed, (destroyed_iff h hone.onelist hall).mpr hgone, ?_, fun w => ?_⟩
        · simp only [composition, hcomposed]
        · simp only [composition, hcomposed]
          exact addchip_weigh w chipid.2 hnew hseen
    · intro hone hfair items hitems
      obtain rfl := Except.ok.inj (hmatch.symm.trans hitems)
      rcases takeitems_cases cfg (fun _ => some (some 0)) 0 hslot with
        hcomplete | hearly | ⟨hout, hlost⟩
      · obtain ⟨t, hall, hrun⟩ := takeitems_complete hcomplete hequip
        have hcomposed : composed cfg s chipinfo = .ok t := by
          simp only [composed, hmatch, hrun]
        rcases hfair with ⟨-, hfail⟩ | ⟨t', ht', hdestroyed, -⟩
        · refine absurd ⟨some chipid.1, ?_⟩ hfail
          simp only [composition, hcomposed]
        · obtain rfl := Except.ok.inj (hcomposed.symm.trans ht')
          exact Or.inr ⟨hcomplete, hone, (destroyed_iff h hone.onelist hall).mp hdestroyed⟩
      · exact Or.inl hearly
      · -- a chip is missing after others have gone, and nothing gives these back
        obtain ⟨t, hrun⟩ : ∃ t, takeitems cfg (fun _ => some (some 0)) (named chipinfo) s 0 = (t, none) :=
          ⟨_, Prod.ext rfl hout⟩
        rw [hrun] at hlost
        have hcomposed : composed cfg s chipinfo = .error (s.unstored t, none) := by
          simp only [composed, hmatch, hrun]
        rcases hfair with ⟨hsame, -⟩ | ⟨t', ht', -⟩
        · simp only [composition, hcomposed] at hsame
          exact absurd hsame hlost.unstored
        · rw [hcomposed] at ht'
          cases ht'

/-- The rows of the rarest chips. -/
def rarest : Prices where
  Material_Sale := fun _ => 3
  mod_sale := fun row => if row = 3 then some fun level => if level ≤ 15 then some 150 else none else none
  mod_resolve := fun row => if row = 3 then some fun level => if level ≤ 15 then some 150 else none else none

/-- Copies of the new chip. -/
def newchips (number : ℤ) : SaleItem :=
  ⟨some 10001, some 1, some false, none, some number, some true, some false⟩

theorem counted_newchip : Counted newchip := fits_newchip.counted

theorem sellable_newchip : Sellable onebody rarest newchip 0 (some [newchips 1]) := by
  intro items hitems
  obtain ⟨rfl, -⟩ := param_match_ok hitems
  refine Or.inr ⟨?_, ⟨?_, ?_⟩, ⟨fun id level => ?_, fun id level => ?_, fun r id level => ?_⟩, by decide⟩
  · intro x hx
    obtain rfl := List.mem_singleton.mp hx
    exact ⟨⟨150, by decide⟩, by decide⟩
  · intro x hx
    obtain rfl := List.mem_singleton.mp hx
    exact fun hboth => absurd hboth.1 (by decide)
  · intro p c hc
    cases p with
    | new =>
      obtain rfl := List.mem_singleton.mp hc
      decide
    | seen => cases hc
    | fitted r => cases hc
  · by_cases hkind : 10001 = id ∧ 1 = level
    · obtain ⟨rfl, rfl⟩ := hkind
      decide
    · have hasks : asks (named (some [newchips 1])) .new id level = [] := by
        have hof : Item.isof id level (newchips 1).item = false := by
          rw [Item.isof, ← Bool.decide_and, decide_eq_false_iff_not]
          exact hkind
        simp only [asks, named, Option.getD_some, List.map_cons, List.map_nil]
        rw [List.filter_cons_of_pos (by decide), List.filter_cons_of_neg (by rw [hof]; simp)]
        rfl
      rw [hasks, refused]
  · rfl
  · rfl

end Chips

end Athena
