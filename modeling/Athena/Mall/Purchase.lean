import Athena.Mall.Model
/-!
# A purchase in the mall

What is bought is the contents of the entry, with the bags in it taken apart, and
each level of it has its price. A purchase takes the price of every level, each in
its own currency, and gives what the services add. This is a purchase as it should
be where the levels below cost nothing, every kind is added in full and the balance
has the price, which for khorium nothing tests.
-/

namespace Athena

namespace Mall

open Lua (Number)
open Warehouse (Purse)

variable {t : Tables} {s u v : State} {m : Money} {number price k : Int64} {type id : ℤ} {depth : ℕ}
  {row : Row} {p : Purse} {items items' : List (ℤ × ℤ)} {prices prices' : List (Purse × Int64)}

/-! ## The contents of an entry -/

/-- **The contents of an entry**, and the prices of its levels, the own one last. A bag
without fields has neither. -/
def expand (t : Tables) (type : ℤ) : ℕ → ℤ → Option (List (ℤ × ℤ) × List (Purse × Int64))
  | 0, _ => none
  | depth + 1, id => do
    let row ← t.get type id
    if row.type = warehousetype.bag then
      match t.store_bag row.cfgid with
      | none => none
      | some none => some ([], [])
      | some (some goodsids) => do
        let parts ← goodsids.mapM fun g =>
          if g.1 = warehousetype.bag then expand t type depth g.2 else some ([g], [])
        let price ← row.paid
        some (parts.flatMap Prod.fst, parts.flatMap Prod.snd ++ [(row.purse, price)])
    else do
      let price ← row.paid
      some ([(row.type, row.cfgid)], [(row.purse, price)])

/-- One part of a bag. -/
def part (t : Tables) (type : ℤ) (depth : ℕ) (g : ℤ × ℤ) :
    Option (List (ℤ × ℤ) × List (Purse × Int64)) :=
  if g.1 = warehousetype.bag then expand t type depth g.2 else some ([g], [])

/-- A bag of `store_bag` without fields. -/
def Row.Empty (t : Tables) (row : Row) : Prop :=
  row.type = warehousetype.bag ∧ t.store_bag row.cfgid = some none

theorem mapM_mono {α β : Type} {f g : α → Option β} (h : ∀ a b, f a = some b → g a = some b) {l : List α}
    {l' : List β} (hl : l.mapM f = some l') : l.mapM g = some l' := by
  induction l generalizing l' with
  | nil => exact hl
  | cons a l ih =>
    simp only [List.mapM_cons, Option.bind_eq_bind, Option.bind_eq_some_iff] at hl ⊢
    obtain ⟨b, hb, bs, hbs, hl⟩ := hl
    exact ⟨b, h a b hb, bs, ih hbs, hl⟩

/-- **One level of an entry**: an empty bag, a bag with its parts, or no bag. -/
inductive Level (t : Tables) (type : ℤ) (depth : ℕ) (row : Row) :
    List (ℤ × ℤ) → List (Purse × Int64) → Prop
  | empty : row.Empty t → Level t type depth row [] []
  | bag {goodsids : List (ℤ × ℤ)} {l : List (List (ℤ × ℤ) × List (Purse × Int64))} {price : Int64} :
      row.type = warehousetype.bag → t.store_bag row.cfgid = some (some goodsids) →
      goodsids.mapM (part t type depth) = some l → row.paid = some price →
      Level t type depth row (l.flatMap Prod.fst) (l.flatMap Prod.snd ++ [(row.purse, price)])
  | goods {price : Int64} : row.type ≠ warehousetype.bag → row.paid = some price →
      Level t type depth row [(row.type, row.cfgid)] [(row.purse, price)]

theorem Level.of_expand (hrow : t.get type id = some row)
    (h : expand t type (depth + 1) id = some (items, prices)) : Level t type depth row items prices := by
  rw [expand, hrow] at h
  simp only [Option.bind_eq_bind, Option.bind_some] at h
  split_ifs at h with hbag
  · cases hstore : t.store_bag row.cfgid with
    | none =>
      rw [hstore] at h
      cases h
    | some storeinfo =>
      rw [hstore] at h
      cases storeinfo with
      | none =>
        cases h
        exact .empty ⟨hbag, hstore⟩
      | some goodsids =>
        simp only [Option.bind_eq_some_iff] at h
        obtain ⟨l, hl, price, hprice, h⟩ := h
        cases h
        exact .bag hbag hstore hl hprice
  · simp only [Option.bind_eq_some_iff] at h
    obtain ⟨price, hprice, h⟩ := h
    cases h
    exact .goods hbag hprice

theorem Level.expand (hrow : t.get type id = some row) (h : Level t type depth row items prices) :
    expand t type (depth + 1) id = some (items, prices) := by
  rw [Mall.expand, hrow]
  simp only [Option.bind_eq_bind, Option.bind_some]
  cases h with
  | empty hempty => rw [if_pos hempty.1, hempty.2]
  | bag hbag hstore hl hprice =>
    simp only [if_pos hbag, hstore, hprice, Option.bind_some]
    exact Option.bind_eq_some_iff.mpr ⟨_, hl, rfl⟩
  | goods hbag hprice => rw [if_neg hbag, hprice, Option.bind_some]

/-- What is unfolded stays so with more room. -/
theorem expand_succ (h : expand t type depth id = some (items, prices)) :
    expand t type (depth + 1) id = some (items, prices) := by
  induction depth generalizing id items prices with
  | zero => cases h
  | succ depth ih =>
    cases hrow : t.get type id with
    | none =>
      rw [expand, hrow] at h
      cases h
    | some row =>
      refine Level.expand hrow ?_
      cases Level.of_expand hrow h with
      | empty hempty => exact .empty hempty
      | bag hbag hstore hl hprice =>
        refine .bag hbag hstore (mapM_mono (fun g x hg => ?_) hl) hprice
        unfold part at hg ⊢
        split_ifs at hg ⊢
        · exact ih hg
        · exact hg
      | goods hbag hprice => exact .goods hbag hprice

theorem expand_mono {depth' : ℕ} (hle : depth ≤ depth') (h : expand t type depth id = some (items, prices)) :
    expand t type depth' id = some (items, prices) := by
  induction hle with
  | refl => exact h
  | step _ ih => exact expand_succ ih

/-- **The contents do not depend on the room.** -/
theorem expand_unique {depth' : ℕ} (h : expand t type depth id = some (items, prices))
    (h' : expand t type depth' id = some (items', prices')) : items = items' ∧ prices = prices' := by
  -- both are what there is with the larger room
  have := expand_mono (le_max_left depth depth') h
  rw [expand_mono (le_max_right depth depth') h'] at this
  cases this
  exact ⟨rfl, rfl⟩

/-- An entry that is not an empty bag has its own price last. -/
theorem expand_last (hrow : t.get type id = some row) (hfull : ¬ row.Empty t)
    (h : expand t type depth id = some (items, prices)) :
    ∃ below price, row.paid = some price ∧ prices = below ++ [(row.purse, price)] := by
  cases depth with
  | zero => cases h
  | succ depth =>
    cases Level.of_expand hrow h with
    | empty hempty => exact absurd hempty hfull
    | bag hbag hstore hl hprice => exact ⟨_, _, hprice, rfl⟩
    | goods hbag hprice => exact ⟨[], _, hprice, rfl⟩

/-! ## What `getbaginfo` does -/

/-- The removals of some prices. -/
def pays (number : Int64) (prices : List (Purse × Int64)) (m : Money) : Money :=
  prices.foldl (fun m x => m.rem x.1 (x.2 * number)) m

/-- **What is added and paid** for some contents. -/
structure Effect (t : Tables) (number : Int64) (items : List (ℤ × ℤ)) (prices : List (Purse × Int64))
    (s u : State) : Prop where
  money : u.money = pays number prices s.money
  stock : ∀ a b, u.stock a b = (added t s.looked number a b)^[items.count (a, b)] (s.stock a b)
  looked : u.looked = s.looked

theorem Effect.refl (s : State) : Effect t number [] [] s s := ⟨rfl, fun a b => by simp, rfl⟩

theorem Effect.trans (h : Effect t number items prices s u) (h' : Effect t number items' prices' u v) :
    Effect t number (items ++ items') (prices ++ prices') s v := by
  refine ⟨?_, fun a b => ?_, h'.looked.trans h.looked⟩
  · rw [h'.money, h.money, pays, pays, pays, List.foldl_append]
  · rw [h'.stock, h.stock, h.looked, List.count_append, Nat.add_comm, Function.iterate_add_apply]

theorem effect_grant (g : ℤ × ℤ) : Effect t number [g] [] s (grant t number g s) := by
  refine ⟨rfl, fun a b => ?_, rfl⟩
  obtain ⟨a', b'⟩ := g
  simp only [grant]
  by_cases ha : a = a'
  · subst ha
    by_cases hb : b = b'
    · subst hb
      simp
    · have hne : (a, b') ≠ (a, b) := fun h => hb (congrArg Prod.snd h).symm
      simp [hb, hne]
  · have hne : (a', b') ≠ (a, b) := fun h => ha (congrArg Prod.fst h).symm
    simp [ha, hne]

/-- **What a call comes to**: an effect or an error. -/
def Does {α : Type} (t : Tables) (number : Int64) (e : Option (List (ℤ × ℤ) × List (Purse × Int64)))
    (s : State) (x : Except Unit α × State) : Prop :=
  s.connection.started ≤ x.2.connection.started ∧
    match e with
    | none => x.1 = .error ()
    | some (items, prices) => (∃ a, x.1 = .ok a) ∧ Effect t number items prices s x.2

/-- A payment. -/
theorem does_pay (number : Int64) (row : Row) (s : State) :
    Does t number (row.paid.map fun price => ([], [(row.purse, price)])) s (pay number row s) := by
  cases hprice : row.paid with
  | none =>
    rw [pay, hprice]
    exact ⟨le_rfl, rfl⟩
  | some price =>
    rw [pay, hprice]
    exact ⟨le_rfl, ⟨.success, rfl⟩, rfl, fun a b => by simp [Act.modify_bind_apply], rfl⟩

theorem does_grant (number : Int64) (g : ℤ × ℤ) (s : State) :
    Does t number (some ([g], [])) s ((Act.modify (grant t number g) : Op Unit) s) :=
  ⟨le_rfl, ⟨(), rfl⟩, effect_grant g⟩

theorem does_nothing {α : Type} (number : Int64) (a : α) (s : State) :
    Does t number (some ([], [])) s ((pure a : Op α) s) :=
  ⟨le_rfl, ⟨a, rfl⟩, Effect.refl s⟩

/-- One call after another. -/
theorem Does.bind {α β : Type} {e e' : Option (List (ℤ × ℤ) × List (Purse × Int64))} {x : Op α}
    {f : α → Op β} (hx : Does t number e s (x s)) (hf : ∀ a u, Does t number e' u (f a u)) :
    Does t number (e.bind fun y => e'.map fun z => (y.1 ++ z.1, y.2 ++ z.2)) s ((x >>= f) s) := by
  rcases hxs : x s with ⟨r, u⟩
  rw [hxs] at hx
  obtain ⟨hle, hx⟩ := hx
  cases e with
  | none =>
    cases hx
    rw [Act.bind_error hxs]
    exact ⟨hle, rfl⟩
  | some y =>
    obtain ⟨⟨a, ha⟩, heffect⟩ := hx
    cases ha
    rw [Act.bind_ok hxs]
    obtain ⟨hle', hf⟩ := hf a u
    refine ⟨hle.trans hle', ?_⟩
    cases e' with
    | none => exact hf
    | some z => exact ⟨hf.1, heffect.trans hf.2⟩

/-- The parts of a bag. -/
def parts (t : Tables) (type : ℤ) (depth : ℕ) (goodsids : List (ℤ × ℤ)) :
    Option (List (ℤ × ℤ) × List (Purse × Int64)) :=
  (goodsids.mapM (part t type depth)).map fun l => (l.flatMap Prod.fst, l.flatMap Prod.snd)

theorem parts_cons (g : ℤ × ℤ) (goodsids : List (ℤ × ℤ)) : parts t type depth (g :: goodsids) =
    (part t type depth g).bind fun y => (parts t type depth goodsids).map fun z =>
      (y.1 ++ z.1, y.2 ++ z.2) := by
  rw [parts, parts, List.mapM_cons]
  cases part t type depth g with
  | none => rfl
  | some y => cases goodsids.mapM (part t type depth) <;> rfl

/-- The loop over the contents of a bag. -/
theorem does_each (ih : ∀ id s, Does t number (expand t type depth id) s (getbaginfo t number type depth id s))
    (goodsids : List (ℤ × ℤ)) (s : State) :
    Does t number (parts t type depth goodsids) s (Act.each goodsids (fun g =>
      if g.1 = warehousetype.bag then do
        let _ ← getbaginfo t number type depth g.2
        pure ()
      else Act.modify (grant t number g)) s) := by
  induction goodsids generalizing s with
  | nil => exact ⟨le_rfl, ⟨(), rfl⟩, Effect.refl s⟩
  | cons g goodsids ihl =>
    rw [Act.each_cons, parts_cons]
    refine Does.bind ?_ fun _ u => ihl u
    unfold part
    split_ifs with hbag
    · -- a bag in the bag, whose answer is not looked at
      have := (ih g.2 s).bind (f := fun _ => pure ()) fun _ u => does_nothing number () u
      cases hexpand : expand t type depth g.2 with
      | none =>
        rw [hexpand] at this
        exact this
      | some y =>
        rw [hexpand] at this
        simpa using this
    · exact does_grant number g s

/-- What comes after the start of the transaction. -/
theorem Does.of_transaction {α : Type} {e : Option (List (ℤ × ℤ) × List (Purse × Int64))}
    {x : Except Unit α × State}
    (h : Does t number e { s with connection := s.connection.transaction } x) :
    Does t number e s x ∧ s.connection.started < x.2.connection.started := by
  obtain ⟨hle, h⟩ := h
  have hlt : s.connection.started < x.2.connection.started := hle
  refine ⟨⟨hlt.le, ?_⟩, hlt⟩
  cases e with
  | none => exact h
  | some y => exact ⟨h.1, h.2.money, h.2.stock, h.2.looked⟩

/-- A call with room for others. -/
theorem does_succ (ih : ∀ id s, Does t number (expand t type depth id) s (getbaginfo t number type depth id s))
    (id : ℤ) (s : State) :
    Does t number (expand t type (depth + 1) id) s (getbaginfo t number type (depth + 1) id s) ∧
      s.connection.started < (getbaginfo t number type (depth + 1) id s).2.connection.started := by
  rw [getbaginfo, Act.modify_bind_apply]
  refine Does.of_transaction ?_
  generalize { s with connection := s.connection.transaction } = s₁
  rw [expand]
  cases hrow : t.get type id with
  | none => exact ⟨le_rfl, rfl⟩
  | some row =>
    simp only [Option.bind_eq_bind, Option.bind_some]
    by_cases hbag : row.type = warehousetype.bag
    · rw [if_pos hbag, if_pos hbag]
      cases hstore : t.store_bag row.cfgid with
      | none => exact ⟨le_rfl, rfl⟩
      | some storeinfo =>
        cases storeinfo with
        | none => exact ⟨le_rfl, ⟨_, rfl⟩, Effect.refl s₁⟩
        | some goodsids =>
          have := (does_each ih goodsids s₁).bind (f := fun _ => pay number row)
            fun _ u => does_pay number row u
          rw [parts] at this
          change Does t number ((goodsids.mapM (part t type depth)).bind fun parts =>
            row.paid.bind fun price => some (parts.flatMap Prod.fst,
              parts.flatMap Prod.snd ++ [(row.purse, price)])) s₁ _
          cases hparts : goodsids.mapM (part t type depth) with
          | none =>
            rw [hparts] at this
            exact this
          | some l =>
            rw [hparts] at this
            cases hprice : row.paid with
            | none =>
              rw [hprice] at this
              exact this
            | some price =>
              rw [hprice] at this
              simpa using this
    · rw [if_neg hbag, if_neg hbag]
      have := (does_grant (t := t) number (row.type, row.cfgid) s₁).bind (f := fun _ => pay number row)
        fun _ u => does_pay number row u
      cases hprice : row.paid with
      | none =>
        rw [hprice] at this
        exact this
      | some price =>
        rw [hprice] at this
        exact this

/-- **`getbaginfo` adds the contents and takes the prices of their levels.** -/
theorem does_getbaginfo (t : Tables) (number : Int64) (type : ℤ) (depth : ℕ) (id : ℤ) (s : State) :
    Does t number (expand t type depth id) s (getbaginfo t number type depth id s) := by
  induction depth generalizing id s with
  | zero => exact ⟨le_rfl, rfl⟩
  | succ depth ih => exact (does_succ ih id s).1

/-- The answer is a success but for an empty bag. -/
theorem getbaginfo_code {code : Code} (hrow : t.get type id = some row)
    (h : (getbaginfo t number type (depth + 1) id s).1 = .ok code) :
    code = .success ↔ ¬ row.Empty t := by
  have hpay : ∀ {c : Code} {s : State}, (pay number row s).1 = .ok c → c = .success := by
    intro c s hc
    cases hprice : row.paid with
    | none =>
      rw [pay, hprice] at hc
      cases hc
    | some price =>
      rw [pay, hprice] at hc
      cases hc
      rfl
  rw [getbaginfo, Act.modify_bind_apply, hrow] at h
  dsimp only at h
  by_cases hbag : row.type = warehousetype.bag
  · rw [if_pos hbag] at h
    cases hstore : t.store_bag row.cfgid with
    | none =>
      rw [hstore] at h
      cases h
    | some storeinfo =>
      rw [hstore] at h
      cases storeinfo with
      | none =>
        cases h
        exact ⟨fun hc => (by cases hc), fun hc => absurd ⟨hbag, hstore⟩ hc⟩
      | some goodsids =>
        have hfull : ¬ row.Empty t := fun he => by
          rw [Row.Empty, hstore] at he
          cases he.2
        refine ⟨fun _ => hfull, fun _ => ?_⟩
        dsimp only at h
        rcases heach : Act.each goodsids (fun g =>
          if g.1 = warehousetype.bag then do
            let _ ← getbaginfo t number type depth g.2
            pure ()
          else Act.modify (grant t number g))
          { s with connection := s.connection.transaction } with ⟨r, u⟩
        cases r with
        | error e =>
          rw [Act.bind_error heach] at h
          cases h
        | ok a =>
          rw [Act.bind_ok heach] at h
          exact hpay h
  · rw [if_neg hbag, Act.modify_bind_apply] at h
    exact ⟨fun _ he => hbag he.1, fun _ => hpay h⟩

/-! ## A purchase as it should be -/

/-- A balance, as an integer. -/
def worth (balance : Option Int64) : ℤ := (balance.map Int64.toInt).getD 0

/-- How many copies an entry stands for. -/
def copies : Option Number → ℚ
  | some (.int i) => i.toInt
  | some (.flt q) => q
  | _ => 0

/-- **The entry is bought**: the balance had the price, it is taken once, and each of the
contents is there as often as was bought. -/
structure Bought (t : Tables) (number : Int64) (type id : ℤ) (s u : State) (row : Row) (price : Int64)
    (items : List (ℤ × ℤ)) : Prop where
  entry : t.get type id = some row
  unit : tested type row = some price
  contents : ∃ depth prices, expand t type depth id = some (items, prices)
  covered : number.toInt * price.toInt ≤ worth (s.money.balance row.purse)
  balance : ∀ p, worth (u.money.balance p) = worth (s.money.balance p) -
    if p = row.purse then number.toInt * price.toInt else 0
  removed : ∃ l, u.money.removed = s.money.removed ++ l ∧ l.map (fun x => (x.1, x.2.toInt)) =
    if number.toInt * price.toInt = 0 then [] else [(row.purse, number.toInt * price.toInt)]
  stock : ∀ a b, copies (u.stock a b) = copies (s.stock a b) + number.toInt * items.count (a, b)

/-- **A purchase fails and leaves everything as it was, or the entry is bought.** -/
def Proper (t : Tables) (m : Msg) (s : State) (x : Except Unit Code × State) : Prop :=
  (x.1 ≠ .ok .success ∧ x.2 = s) ∨ (x.1 = .ok .success ∧ ∃ id type row price items,
    m.id = some id ∧ m.type = some type ∧ Bought t m.count type id s x.2 row price items)

/-- **An item is added in full** `k` times. -/
def Full (t : Tables) (looked : ℤ → Bool) (number : Int64) (k : ℕ) (g : ℤ × ℤ) (x : Option Number) :
    Prop :=
  copies ((added t looked number g.1 g.2)^[k] x) = copies x + number.toInt * k

variable {looked : ℤ → Bool} {g : ℤ × ℤ} {x : Option Number} {n : ℕ}

/-- Props and materials up to what doubles have. -/
theorem added_goods (hk : t.known g.1 g.2 = true)
    (hg : g.1 = warehousetype.prop ∨ g.1 = warehousetype.material) (hn : 0 < number.toInt) {i : Int64}
    (h0 : 0 ≤ i.toInt) (h : i.toInt + number.toInt * n ≤ 2 ^ 53) :
    ∃ j : Int64, (added t looked number g.1 g.2)^[n] (some (.int i)) = some (.int j) ∧
      j.toInt = i.toInt + number.toInt * n := by
  induction n with
  | zero => exact ⟨i, rfl, by simp⟩
  | succ n ih =>
    have hmul : 0 ≤ number.toInt * (n : ℤ) := mul_nonneg hn.le (Int.natCast_nonneg n)
    rw [Nat.cast_succ, mul_add, mul_one] at h
    obtain ⟨j, hj, hjv⟩ := ih (by omega)
    refine ⟨j + number, ?_, ?_⟩
    · rw [Function.iterate_succ_apply', hj, added, if_pos hk, if_pos hg, if_neg (by omega), Option.map_some,
        Option.getD_some, Number.ceilSum_int (by omega) (by omega) (by omega) (by omega) (by omega) (by omega),
        Warehouse.reread_int]
    · rw [Number.toInt_add (by omega) (by omega), hjv, Nat.cast_succ, mul_add, mul_one]
      omega

/-- **Props and materials are added in full** while their total is at most `2 ^ 53`. -/
theorem full_goods (hk : t.known g.1 g.2 = true)
    (hg : g.1 = warehousetype.prop ∨ g.1 = warehousetype.material) (hn : 0 < number.toInt)
    (hx : x = none ∨ ∃ i : Int64, x = some (.int i) ∧ 0 ≤ i.toInt)
    (h : copies x + number.toInt * n ≤ 2 ^ 53) : Full t looked number n g x := by
  rcases hx with rfl | ⟨i, rfl, h0⟩
  · cases n with
    | zero => simp [Full]
    | succ n =>
      -- the first is a new entry
      have hfirst : added t looked number g.1 g.2 none = some (.int number) := by
        rw [added, if_pos hk, if_pos hg, if_neg (by omega)]
        rfl
      have hle : number.toInt + number.toInt * (n : ℤ) ≤ 2 ^ 53 := by
        simp only [copies, zero_add] at h
        push_cast at h
        have : ((number.toInt + number.toInt * (n : ℤ) : ℤ) : ℚ) ≤ ((2 ^ 53 : ℤ) : ℚ) := by
          push_cast
          linarith
        exact_mod_cast this
      obtain ⟨j, hj, hjv⟩ : ∃ j : Int64, (added t looked number g.1 g.2)^[n] (some (.int number)) = some (.int j) ∧
          j.toInt = number.toInt + number.toInt * n := added_goods hk hg hn hn.le hle
      rw [Full, Function.iterate_succ_apply, hfirst, hj, copies, hjv]
      simp only [copies]
      push_cast
      ring
  · have hle : i.toInt + number.toInt * (n : ℤ) ≤ 2 ^ 53 := by
      simp only [copies] at h
      exact_mod_cast h
    obtain ⟨j, hj, hjv⟩ : ∃ j : Int64, (added t looked number g.1 g.2)^[n] (some (.int i)) = some (.int j) ∧
        j.toInt = i.toInt + number.toInt * n := added_goods hk hg hn h0 hle
    rw [Full, hj, copies, hjv]
    simp only [copies]
    push_cast
    rfl

/-- Other kinds and unknown ids are not added at all. -/
theorem full_other (hg : t.known g.1 g.2 = false ∨ g.1 ≠ warehousetype.prop ∧
      g.1 ≠ warehousetype.material ∧ g.1 ≠ warehousetype.chip) (hn : 0 < n) :
    Full t looked number n g x ↔ number = 0 := by
  have hsame : added t looked number g.1 g.2 = id := by
    funext y
    unfold added
    rcases hg with hk | ⟨hprop, hmaterial, hchip⟩
    · rw [if_neg (by simp [hk])]
      rfl
    · simp only [hprop, hmaterial, hchip, or_self, if_false, ite_self, id]
  have hcast : (n : ℚ) ≠ 0 := by exact_mod_cast hn.ne'
  rw [Full, hsame, Function.iterate_id, id, left_eq_add, mul_eq_zero_iff_right hcast, Int.cast_eq_zero]
  exact ⟨fun h => Int64.toInt_inj.mp h, fun h => by rw [h, Int64.toInt_zero]⟩

/-- What is added to a chip each time. -/
theorem added_chip (hk : t.known g.1 g.2 = true) (hg : g.1 = warehousetype.chip) (i : Int64) :
    added t looked number g.1 g.2 (some (.int i)) =
      some (.int (i + if looked g.2 then 1 else number)) := by
  have hkind : ¬ (g.1 = warehousetype.prop ∨ g.1 = warehousetype.material) := by
    rw [hg]
    decide
  rw [added, if_pos hk, if_neg hkind, if_pos hg]
  rfl

/-- **Chips are added in full** but for those that are looked at, which grow by one each
time, whatever the number. -/
theorem full_chip (hk : t.known g.1 g.2 = true) (hg : g.1 = warehousetype.chip) {i : Int64}
    (hpos : 0 < number.toInt) (hfit : i.toInt + number.toInt * n < 2 ^ 63) (hn : 0 < n) :
    Full t looked number n g (some (.int i)) ↔ (looked g.2 = true → number = 1) := by
  obtain ⟨k, hkdef⟩ : ∃ k : Int64, k = if looked g.2 then 1 else number := ⟨_, rfl⟩
  have hone : (1 : Int64).toInt = 1 := rfl
  have hk0 : 0 < k.toInt ∧ k.toInt ≤ number.toInt := by
    rw [hkdef]
    split <;> omega
  have hadd : ∀ m : ℕ, m ≤ n → ∃ j : Int64,
      (added t looked number g.1 g.2)^[m] (some (.int i)) = some (.int j) ∧
        j.toInt = i.toInt + k.toInt * m := by
    intro m
    induction m with
    | zero => exact fun _ => ⟨i, rfl, by simp⟩
    | succ m ih =>
      intro hm
      obtain ⟨j, hj, hjv⟩ := ih (by omega)
      have hlo := Int64.le_toInt i
      have hm0 : 0 ≤ k.toInt * (m : ℤ) := mul_nonneg hk0.1.le (Int.natCast_nonneg m)
      have hle : k.toInt * ((m + 1 : ℕ) : ℤ) ≤ number.toInt * n :=
        mul_le_mul hk0.2 (by exact_mod_cast hm) (Int.natCast_nonneg _) hpos.le
      have hsucc : k.toInt * ((m + 1 : ℕ) : ℤ) = k.toInt * m + k.toInt := by
        push_cast
        ring
      refine ⟨j + k, ?_, ?_⟩
      · rw [Function.iterate_succ_apply', hj, added_chip hk hg, hkdef]
      · rw [Number.toInt_add (by omega) (by omega), hjv, hsucc]
        omega
  obtain ⟨j, hj, hjv⟩ := hadd n le_rfl
  have hcast : (n : ℚ) ≠ 0 := by exact_mod_cast hn.ne'
  rw [Full, hj, copies, copies, hjv]
  push_cast
  rw [add_right_inj, mul_left_inj' hcast, Int.cast_inj, Int64.toInt_inj, hkdef]
  by_cases hlooked : looked g.2 = true
  · rw [if_pos hlooked]
    exact ⟨fun h _ => h.symm, fun h => (h hlooked).symm⟩
  · rw [if_neg hlooked]
    exact ⟨fun _ h => absurd h hlooked, fun _ => rfl⟩

/-- **What may be bought**: the price fits, the balance has it, the entry unfolds, the
levels below cost nothing and everything is added in full. -/
structure Buyable (t : Tables) (depth : ℕ) (number : Int64) (type id : ℤ) (s : State) (row : Row)
    (price : Int64) : Prop where
  fits : (number * price).toInt = number.toInt * price.toInt
  covered : number.toInt * price.toInt ≤ worth (s.money.balance row.purse)
  full : ¬ row.Empty t
  contents : ∃ items below, expand t type (depth + 1) id = some (items, below ++ [(row.purse, price)]) ∧
    (∀ x ∈ below, s.money.stores x.1 (x.2 * number) = false) ∧
    ∀ g ∈ items, Full t s.looked number (items.count g) g (s.stock g.1 g.2)

/-- The price that is tested is paid. -/
theorem paid_of_tested (hrow : t.get type id = some row)
    (h : tested type row = some price) : row.paid = some price := by
  unfold tested at h
  split_ifs at h with hbag
  · have hnone : row.saleprice = none := by
      refine t.nosale id row ?_
      rw [Tables.get, if_neg (by rw [hbag]; decide), if_neg (by rw [hbag]; decide)] at hrow
      exact hrow
    rw [Row.paid, hnone, h]
    rfl
  · rw [Row.paid, h]
    rfl

/-! ### Money -/

/-- What is not stored changes nothing. -/
theorem rem_of_not_stores (h : m.stores p k = false) : m.rem p k = m := by
  have hserve : ((removal p).serve (m.balance p) k).2 = m.balance p := by
    simp only [Money.stores, Bool.and_eq_false_iff, decide_eq_false_iff_not, not_lt,
      Option.isSome_eq_false_iff, Option.isNone_iff_eq_none] at h
    rcases h with hk | hnone
    · exact Warehouse.serve_of_not_pos _ _ hk
    · rw [hnone]
      exact Warehouse.serve_none _ _
  rw [Money.rem, hserve, Function.update_eq_self, h]
  rfl

/-- A removal leaves the rows that are there. -/
theorem isSome_rem (m : Money) (p q : Purse) (k : Int64) :
    ((m.rem p k).balance q).isSome = (m.balance q).isSome := by
  by_cases hq : q = p
  · subst hq
    have hserve : ((removal q).serve (m.balance q) k).2.isSome = (m.balance q).isSome := by
      cases m.balance q with
      | none => rw [Warehouse.serve_none]
      | some b =>
        unfold Warehouse.Request.serve
        split_ifs <;> rfl
    simpa [Money.rem] using hserve
  · simp [Money.rem, hq]

theorem stores_rem (m : Money) (p q : Purse) (k l : Int64) : (m.rem p k).stores q l = m.stores q l := by
  rw [Money.stores, isSome_rem, Money.stores]

/-- The removals of some prices are those that are stored at first. -/
theorem removed_pays (number : Int64) (prices : List (Purse × Int64)) (m : Money) :
    (pays number prices m).removed = m.removed ++
      (prices.map fun x => (x.1, x.2 * number)).filter fun x => m.stores x.1 x.2 := by
  induction prices generalizing m with
  | nil => simp [pays]
  | cons x prices ih =>
    rw [pays, List.foldl_cons, ← pays, ih]
    simp only [stores_rem, List.map_cons, List.filter_cons]
    cases hstores : m.stores x.1 (x.2 * number) with
    | false => simp [Money.rem, hstores]
    | true => simp [Money.rem, hstores]

theorem pays_of_not_stores (h : ∀ x ∈ prices, m.stores x.1 (x.2 * number) = false) :
    pays number prices m = m := by
  induction prices with
  | nil => rfl
  | cons x prices ih =>
    rw [pays, List.foldl_cons, rem_of_not_stores (h x List.mem_cons_self)]
    exact ih fun y hy => h y (List.mem_cons_of_mem x hy)

/-- A removal that the balance covers. -/
theorem worth_rem (h0 : 0 ≤ k.toInt) (hle : k.toInt ≤ worth (m.balance p)) (q : Purse) :
    worth ((m.rem p k).balance q) = worth (m.balance q) - if q = p then k.toInt else 0 := by
  by_cases hq : q = p
  · subst hq
    rcases h0.lt_or_eq with hpos | hzero
    · cases hb : m.balance q with
      | none =>
        rw [hb] at hle
        simp only [worth, Option.map_none, Option.getD_none] at hle
        omega
      | some b =>
        rw [hb] at hle
        simp only [worth, Option.map_some, Option.getD_some] at hle
        have hlt := Int64.toInt_lt b
        have hsub : (b - k).toInt = b.toInt - k.toInt := Number.toInt_sub (by omega) (by omega)
        have hremoves : (removal q).removes = true := by cases q <;> rfl
        have hserve : ((m.rem q k).balance q) = some ((removal q).result b k) := by
          simp only [Money.rem, Function.update_self, hb, Warehouse.serve_of_pos _ _ hpos]
        rw [hserve, if_pos rfl, Warehouse.Request.result, if_pos hremoves]
        simp only [worth, Option.map_some, Option.getD_some]
        split_ifs with hleft
        · exact hsub
        · simp only [Int64.toInt_zero]
          omega
    · -- a removal of nothing is not stored
      have hstores : m.stores q k = false := by
        simp [Money.stores, ← hzero]
      rw [rem_of_not_stores hstores, if_pos rfl]
      omega
  · rw [if_neg hq]
    simp [Money.rem, hq]

/-- What the test of the price lets through. -/
theorem enough_spec (h : enough m p k = true) : 0 ≤ k.toInt ∧ (0 < k.toInt → m.stores p k = true) := by
  have hcheck : 0 ≤ k.toInt := by
    by_contra hneg
    have hlt : (Number.int k).lt (.int 0) = true := by
      rw [Number.lt_int, Int64.toInt_zero]
      exact decide_eq_true (by omega)
    cases p <;> simp [enough, Warehouse.matchgold, Warehouse.matchkhorium, Warehouse.check, hlt] at h
  refine ⟨hcheck, fun hpos => ?_⟩
  have hne : k ≠ 0 := by
    rintro rfl
    exact absurd hpos (by decide)
  have hsome : (m.balance p).isSome := by
    cases hb : m.balance p with
    | some b => rfl
    | none =>
      cases p <;> simp [enough, Warehouse.matchgold, Warehouse.matchkhorium,
        Warehouse.check_int k hcheck, hne, hb] at h
  rw [Money.stores, hsome, decide_eq_true hpos]
  rfl

/-! ### The two directions -/

theorem pays_concat (number : Int64) (below : List (Purse × Int64)) (x : Purse × Int64) (m : Money) :
    pays number (below ++ [x]) m = (pays number below m).rem x.1 (x.2 * number) := by
  rw [pays, List.foldl_append, List.foldl_cons, List.foldl_nil, pays]

/-- **What may be bought is bought.** -/
theorem Buyable.bought (h : Buyable t depth number type id s row price)
    (hrow : t.get type id = some row) (hprice : tested type row = some price)
    (henough : enough s.money row.purse (number * price) = true) :
    ∃ u items, getbaginfo t number type (depth + 1) id s = (.ok .success, u) ∧
      Bought t number type id s u row price items := by
  obtain ⟨items, below, hexpand, hbelow, hadded⟩ := h.contents
  have hdoes := (does_getbaginfo t number type (depth + 1) id s).2
  rw [hexpand] at hdoes
  obtain ⟨⟨code, hcode⟩, heffect⟩ := hdoes
  have hsuccess := (getbaginfo_code hrow hcode).mpr h.full
  obtain ⟨h0, hstores⟩ := enough_spec henough
  -- the levels below take nothing, so the own price is all
  have hmoney := heffect.money
  rw [pays_concat, pays_of_not_stores hbelow, Int64.mul_comm] at hmoney
  refine ⟨_, items, Prod.ext (by rw [hcode, hsuccess]) rfl, hrow, hprice, ⟨_, _, hexpand⟩, h.covered, ?_, ?_, ?_⟩
  · intro p
    rw [hmoney, worth_rem h0 (by rw [h.fits]; exact h.covered), h.fits]
  · rw [hmoney]
    by_cases hzero : number.toInt * price.toInt = 0
    · refine ⟨[], ?_, by rw [if_pos hzero]; rfl⟩
      have : s.money.stores row.purse (number * price) = false := by
        simp [Money.stores, h.fits, hzero]
      rw [rem_of_not_stores this, List.append_nil]
    · refine ⟨[(row.purse, number * price)], ?_, ?_⟩
      · rw [Money.rem, hstores (by rw [h.fits] at h0 ⊢; omega)]
        rfl
      · rw [if_neg hzero, List.map_singleton, h.fits]
  · intro a b
    rw [heffect.stock]
    rcases Nat.eq_zero_or_pos (items.count (a, b)) with hcount | hcount
    · simp [hcount]
    · exact hadded (a, b) (List.count_pos_iff.mp hcount)

/-- A product that wraps around to zero is one of zero, where it could be a number. -/
theorem mul_eq_zero_of_toInt (hzero : (number * price).toInt = 0)
    (hlo : -2 ^ 63 ≤ number.toInt * price.toInt) (hhi : number.toInt * price.toInt < 2 ^ 63) :
    number.toInt * price.toInt = 0 := by
  rw [← Number.toInt_mul hlo hhi, hzero]

/-- **What is bought could be**: the removals say that the price fits and that no level
below has one. -/
theorem Bought.buyable {u : State}
    (hcall : getbaginfo t number type (depth + 1) id s = (.ok .success, u))
    (henough : enough s.money row.purse (number * price) = true)
    (h : Bought t number type id s u row price items) : Buyable t depth number type id s row price := by
  have hfull : ¬ row.Empty t := (getbaginfo_code h.entry (congrArg Prod.fst hcall)).mp rfl
  have hdoes := (does_getbaginfo t number type (depth + 1) id s).2
  rw [hcall] at hdoes
  cases hexpand : expand t type (depth + 1) id with
  | none =>
    rw [hexpand] at hdoes
    cases hdoes
  | some x =>
    obtain ⟨items', prices⟩ := x
    rw [hexpand] at hdoes
    obtain ⟨-, heffect⟩ := hdoes
    obtain ⟨below, price', hpaid, rfl⟩ := expand_last h.entry hfull hexpand
    rw [paid_of_tested h.entry h.unit] at hpaid
    cases hpaid
    obtain ⟨depth', prices', hcontents⟩ := h.contents
    obtain ⟨rfl, -⟩ := expand_unique hcontents hexpand
    obtain ⟨h0, hstores⟩ := enough_spec henough
    -- the removals that are stored
    obtain ⟨l, hl, hremoved⟩ := h.removed
    rw [heffect.money, removed_pays, List.append_cancel_left_eq, List.map_append, List.filter_append,
      List.map_singleton, Int64.mul_comm] at hl
    have hexact : (number * price).toInt = number.toInt * price.toInt ∧
        (below.map fun x => (x.1, x.2 * number)).filter (fun x => s.money.stores x.1 x.2) = [] := by
      rcases h0.lt_or_eq with hpos | hzero
      · rw [List.filter_cons_of_pos (by exact hstores hpos), List.filter_nil] at hl
        subst hl
        by_cases hz : number.toInt * price.toInt = 0
        · rw [if_pos hz] at hremoved
          simp at hremoved
        · rw [if_neg hz, List.map_append, List.map_singleton] at hremoved
          obtain ⟨hnil, hlast⟩ := List.append_eq_singleton_iff.mp hremoved |>.resolve_right (by simp)
          exact ⟨congrArg Prod.snd (List.singleton_inj.mp hlast), List.map_eq_nil_iff.mp hnil⟩
      · have hno : s.money.stores row.purse (number * price) = false := by
          simp [Money.stores, ← hzero]
        rw [List.filter_cons_of_neg (by simpa using hno), List.filter_nil, List.append_nil] at hl
        subst hl
        by_cases hz : number.toInt * price.toInt = 0
        · rw [if_pos hz] at hremoved
          exact ⟨by omega, List.map_eq_nil_iff.mp hremoved⟩
        · -- another level would have to take the price, which is too much for one removal
          rw [if_neg hz] at hremoved
          obtain ⟨y, -, hy⟩ := List.map_eq_singleton_iff.mp hremoved
          have hval : y.2.toInt = number.toInt * price.toInt := congrArg Prod.snd hy
          have hlo := Int64.le_toInt y.2
          have hhi := Int64.toInt_lt y.2
          exact absurd (mul_eq_zero_of_toInt hzero.symm (by omega) (by omega)) hz
    refine ⟨hexact.1, h.covered, hfull, items, below, hexpand, fun x hx => ?_, fun g hg => ?_⟩
    · have := List.filter_eq_nil_iff.mp hexact.2 _ (List.mem_map_of_mem hx)
      simpa using this
    · have hstock := h.stock g.1 g.2
      rwa [heffect.stock] at hstock

/-- **When a purchase is as it should be**: what gets past the test of the price may be
bought. -/
theorem purchase_iff (t : Tables) (depth : ℕ) (m : Msg) (s : State) :
    Proper t m s (purchase t depth m s) ↔
      ∀ id type row price, m.id = some id → m.type = some type → 1 ≤ type → type ≤ 3 →
        t.get type id = some row → tested type row = some price →
        enough s.money row.purse (m.count * price) = true →
        Buyable t depth m.count type id s row price := by
  constructor
  · intro h id type row price hid htype h1 h3 hrow hprice henough
    have hcall : purchase t depth m s = getbaginfo t m.count type (depth + 1) id s := by
      simp [purchase, hid, htype, not_lt.mpr h1, not_lt.mpr h3, hrow, hprice, henough]
    rw [hcall] at h
    rcases h with ⟨-, hsame⟩ | ⟨hsuccess, id', type', row', price', items, hid', htype', hbought⟩
    · -- the transaction is another one
      have hlt := (does_succ (does_getbaginfo t m.count type depth) id s).2
      rw [hsame] at hlt
      omega
    · rw [hid] at hid'
      rw [htype] at htype'
      cases hid'
      cases htype'
      have hentry := hbought.entry
      rw [hrow] at hentry
      cases hentry
      have hunit := hbought.unit
      rw [hprice] at hunit
      cases hunit
      exact hbought.buyable (Prod.ext hsuccess rfl) henough
  · intro h
    -- whatever is refused before the purchase begins leaves the state alone
    have hfail : ∀ code : Code, code ≠ .success → purchase t depth m s = (.ok code, s) →
        Proper t m s (purchase t depth m s) := by
      intro code hcode heq
      rw [heq]
      exact Or.inl ⟨fun he => hcode (Except.ok.inj he), rfl⟩
    cases hid : m.id with
    | none => exact hfail .err_param (by decide) (by simp [purchase, hid])
    | some id =>
      cases htype : m.type with
      | none => exact hfail .err_param (by decide) (by simp [purchase, hid, htype])
      | some type =>
        by_cases hrange : 3 < type ∨ type < 1
        · exact hfail .err_param (by decide) (by simp [purchase, hid, htype, hrange])
        · cases hrow : t.get type id with
          | none =>
            exact hfail .cfgid_nofind (by decide) (by simp [purchase, hid, htype, hrange, hrow])
          | some row =>
            cases hprice : tested type row with
            | none =>
              have : purchase t depth m s = (.error (), s) := by
                simp [purchase, hid, htype, hrange, hrow, hprice]
              rw [this]
              exact Or.inl ⟨by simp, rfl⟩
            | some price =>
              cases henough : enough s.money row.purse (m.count * price) with
              | false =>
                exact hfail .gold_notEnough (by decide)
                  (by simp [purchase, hid, htype, hrange, hrow, hprice, henough])
              | true =>
                obtain ⟨u, items, hcall, hbought⟩ := (h id type row price hid htype (by omega)
                  (by omega) hrow hprice henough).bought hrow hprice henough
                have : purchase t depth m s = (.ok .success, u) := by
                  simp [purchase, hid, htype, hrange, hrow, hprice, henough, hcall]
                rw [this]
                exact Or.inr ⟨rfl, id, type, row, price, items, hid, htype, hbought⟩

/-- A mall with one special entry, a prop for a million khorium. -/
def onespecial : Tables where
  sale _ := none
  special id := if id = 2 then some ⟨warehousetype.prop, 10001, some 1000000, some 1000000, true⟩ else none
  bag _ := none
  nosale _ _ h := by cases h
  store_bag _ := none
  known _ cfgid := cfgid = 10001

/-- A player with ten khorium. -/
def poor : State where
  money := ⟨fun p => match p with
    | .gold => some 0
    | .khorium => some 10, []⟩
  stock _ _ := none
  looked _ := false
  connection := ⟨0, none, by simp⟩

/-- **Khorium is not tested**: the prop is bought for what the player has. -/
theorem purchase_short :
    ¬ Proper onespecial ⟨some 2, some 2, some 1⟩ poor (purchase onespecial 0 ⟨some 2, some 2, some 1⟩ poor) := by
  rintro (⟨hfail, -⟩ | ⟨-, id, type, row, price, items, hid, htype, hbought⟩)
  · exact hfail rfl
  · cases hid
    cases htype
    cases hbought.entry
    cases hbought.unit
    exact absurd hbought.covered (by decide)

end Mall

end Athena
