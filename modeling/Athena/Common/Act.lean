/-!
# Actions

A service call reads and writes a state and may raise an error. What it
did to the state before it raised stays done: there are no transactions.
-/

namespace Athena

/-- **An action**: a result or an error, and the state it leaves. -/
def Act (σ ε α : Type) : Type := σ → Except ε α × σ

namespace Act

variable {σ ε α β : Type} {s t u : σ}

instance : Monad (Act σ ε) where
  pure a := fun s => (.ok a, s)
  bind x f := fun s =>
    match x s with
    | (.ok a, t) => f a t
    | (.error e, t) => (.error e, t)

/-- `error(e)`. -/
def raise (e : ε) : Act σ ε α := fun s => (.error e, s)

/-- What touches no state. -/
def lift (x : Except ε α) : Act σ ε α := fun s => (x, s)

/-- The state as it is. -/
def get : Act σ ε σ := fun s => (.ok s, s)

def modify (f : σ → σ) : Act σ ε Unit := fun s => (.ok (), f s)

/-- `for _, value in ipairs(l) do f(value) end`. -/
def each (l : List α) (f : α → Act σ ε Unit) : Act σ ε Unit :=
  match l with
  | [] => pure ()
  | a :: l => do
    f a
    each l f

@[simp] theorem pure_apply (a : α) : (pure a : Act σ ε α) s = (.ok a, s) := rfl

@[simp] theorem raise_apply (e : ε) : (raise e : Act σ ε α) s = (.error e, s) := rfl

@[simp] theorem lift_apply (x : Except ε α) : (lift x : Act σ ε α) s = (x, s) := rfl

@[simp] theorem get_apply : (get : Act σ ε σ) s = (.ok s, s) := rfl

@[simp] theorem modify_apply (f : σ → σ) : (modify f : Act σ ε Unit) s = (.ok (), f s) := rfl

/-- What follows a success. -/
theorem bind_ok {x : Act σ ε α} {a : α} (h : x s = (.ok a, t)) (f : α → Act σ ε β) :
    (x >>= f) s = f a t := by
  simp only [bind, h]

/-- What follows an error. -/
theorem bind_error {x : Act σ ε α} {e : ε} (h : x s = (.error e, t)) (f : α → Act σ ε β) :
    (x >>= f) s = (.error e, t) := by
  simp only [bind, h]

/-- **A sequence succeeds where both parts do.** -/
theorem bind_eq_ok {x : Act σ ε α} {f : α → Act σ ε β} {b : β} :
    (x >>= f) s = (.ok b, u) ↔ ∃ a t, x s = (.ok a, t) ∧ f a t = (.ok b, u) := by
  simp only [bind]
  constructor
  · intro h
    split at h
    · rename_i a t hx
      exact ⟨a, t, hx, h⟩
    · simp at h
  · rintro ⟨a, t, hx, hf⟩
    rw [hx]
    exact hf

/-- What is lifted leaves the state alone. -/
theorem lift_bind_eq_ok {x : Except ε α} {f : α → Act σ ε β} {b : β} :
    (lift x >>= f) s = (.ok b, u) ↔ ∃ a, x = .ok a ∧ f a s = (.ok b, u) := by
  cases x with
  | ok a => simp [bind, lift]
  | error e => simp [bind, lift]

theorem lift_bind_ok {x : Except ε α} {a : α} (h : x = .ok a) (f : α → Act σ ε β) :
    (lift x >>= f) s = f a s := by
  rw [h]
  rfl

@[simp] theorem get_bind_apply (f : σ → Act σ ε β) : (get >>= f) s = f s s := rfl

@[simp] theorem modify_bind_apply (g : σ → σ) (f : Unit → Act σ ε β) :
    (modify g >>= f) s = f () (g s) := rfl

@[simp] theorem raise_bind_apply (e : ε) (f : α → Act σ ε β) :
    ((raise e : Act σ ε α) >>= f) s = (.error e, s) := rfl

/-- A result that is replaced leaves the same state. -/
theorem bind_pure_snd (x : Act σ ε α) (f : α → β) :
    ((x >>= fun a => pure (f a)) s).2 = (x s).2 := by
  simp only [bind]
  split
  · next heq =>
    rw [heq]
    rfl
  · next heq => rw [heq]

@[simp] theorem each_nil (f : α → Act σ ε Unit) : each [] f s = (.ok (), s) := rfl

theorem each_cons (a : α) (l : List α) (f : α → Act σ ε Unit) :
    each (a :: l) f = (f a >>= fun _ => each l f) := rfl

/-- A loop succeeds where each of its turns does. -/
theorem each_ok {l : List α} {f : α → Act σ ε Unit} (h : ∀ a ∈ l, ∀ s, ∃ t, f a s = (.ok (), t)) (s : σ) :
    ∃ t, each l f s = (.ok (), t) := by
  induction l generalizing s with
  | nil => exact ⟨s, rfl⟩
  | cons a l ih =>
    obtain ⟨t, ht⟩ := h a List.mem_cons_self s
    obtain ⟨u, hu⟩ := ih (fun b hb => h b (List.mem_cons_of_mem a hb)) t
    exact ⟨u, by rw [each_cons, bind_ok ht, hu]⟩

/-! ## What an action keeps

An error does not undo what was done, so what an action keeps it keeps either
way. -/

/-- **Kept**, whether the action succeeds or raises. -/
def Keeps (P : σ → Prop) (x : Act σ ε α) : Prop := ∀ s, P s → P (x s).2

variable {P : σ → Prop}

theorem keeps_pure (a : α) : Keeps P (pure a : Act σ ε α) := fun _ hs => hs

theorem keeps_raise (e : ε) : Keeps P (raise e : Act σ ε α) := fun _ hs => hs

theorem keeps_lift (x : Except ε α) : Keeps P (lift x : Act σ ε α) := fun _ hs => hs

theorem keeps_get : Keeps P (get : Act σ ε σ) := fun _ hs => hs

theorem keeps_modify {g : σ → σ} (h : ∀ s, P s → P (g s)) : Keeps P (modify g : Act σ ε Unit) :=
  h

/-- **What both parts of a sequence keep, the sequence keeps.** -/
theorem Keeps.bind {x : Act σ ε α} {f : α → Act σ ε β} (hx : Keeps P x)
    (hf : ∀ a, Keeps P (f a)) : Keeps P (x >>= f) := by
  intro s hs
  have hkept := hx s hs
  simp only [Bind.bind]
  split
  · next a t heq =>
    rw [heq] at hkept
    exact hf a t hkept
  · next e t heq =>
    rw [heq] at hkept
    exact hkept

/-- What each turn of a loop keeps, the loop keeps. -/
theorem Keeps.each {l : List α} {f : α → Act σ ε Unit} (h : ∀ a ∈ l, Keeps P (f a)) :
    Keeps P (each l f) := by
  induction l with
  | nil => exact keeps_pure ()
  | cons a l ih =>
    rw [each_cons]
    exact (h a List.mem_cons_self).bind fun _ => ih fun b hb => h b (List.mem_cons_of_mem a hb)

/-- The turns of a loop before one of them and those after it. -/
theorem each_append (l₁ l₂ : List α) (f : α → Act σ ε Unit) :
    each (l₁ ++ l₂) f = (each l₁ f >>= fun _ => each l₂ f) := by
  induction l₁ with
  | nil => rfl
  | cons a l₁ ih =>
    funext s
    rw [List.cons_append, each_cons, each_cons, ih]
    simp only [Bind.bind]
    split <;> rfl

end Act

end Athena
