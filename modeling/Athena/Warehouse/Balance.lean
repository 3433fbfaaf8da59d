import Athena.Warehouse.Model
import Mathlib.Algebra.BigOperators.Group.Finset.Basic
import Mathlib.Algebra.BigOperators.Group.List.Lemmas
/-!
# Whether an update is lost

A request reads the balance, waits, and stores the balance it computed from
what it read. Between the two the balance may have become another, and then
that update is lost. `Undisturbed` is the condition on the store that none
is: the balance still is the one that was read. Under it the balance is at
every moment the initial one with the requests that have stored theirs, and
between the requests with those that were answered with success
(`balance_exact`).
-/

namespace Athena

namespace Warehouse

open Lua

variable {C : Type} [DecidableEq C] {s t : State C} {e : Event C} {out tr : List (Out C)}
  {p : Purse} {r : Request} {c : C} {n b : Number}

/-! ## The law -/

/-- The integer in a number of a request. -/
def amount : Option Value → ℤ
  | some (.num (.int i)) => i.toInt
  | _ => 0

/-- What a request adds to balance `p`. -/
def Request.delta (r : Request) (number : Option Value) (p : Purse) : ℤ :=
  if r.purse = p then if r.removes then -amount number else amount number else 0

/-- What is added at the store. -/
def Out.stored (p : Purse) : Out C → ℤ
  | .wrote _ r n => r.delta (some (.num n)) p
  | _ => 0

/-- What is added by a request that succeeds. -/
def Out.succeeded (p : Purse) : Out C → ℤ
  | .answer _ r number (.returned true) => r.delta number p
  | _ => 0

/-- The integer a balance is; one that is not there is none. -/
def worth : Option Number → ℤ
  | some (.int i) => i.toInt
  | _ => 0

/-- No request is under way. -/
def Quiet (s : State C) : Prop := ∀ c, s.phase c = .absent ∨ s.phase c = .finished

/-- **No update is lost**: each balance is the initial one with all that
was stored, and when no request is under way, with all that succeeded. -/
structure Conserved (s₀ : State C) (tr : List (Out C)) (s : State C) : Prop where
  stored : ∀ p, worth (s.balance p) = worth (s₀.balance p) + (tr.map (Out.stored p)).sum
  succeeded : Quiet s → ∀ p,
    worth (s.balance p) = worth (s₀.balance p) + (tr.map (Out.succeeded p)).sum

/-- Requests with nonnegative integers, no removal of more than there is
when its turn comes. -/
def Proper (s : State C) : Event C → Prop
  | .call _ _ number => ∃ i : Int64, number = some (.num (.int i)) ∧ 0 ≤ i.toInt
  | .write c => ∀ r n b, s.phase c = .writing r n b → r.removes = true →
      amount (some (.num n)) ≤ worth (s.balance r.purse)
  | _ => True

/-- **Nothing comes between a read and its store**, a sum fits, and no
notice raises. -/
def Undisturbed (s : State C) : Event C → Prop
  | .write c => ∀ r n b, s.phase c = .writing r n b → s.balance r.purse = some b ∧
      (r.removes = false → worth (some b) + amount (some (.num n)) < 2 ^ 63)
  | .notified _ ok => ok = true
  | _ => True

/-! ## One event -/

/-- **What an event can do.** -/
inductive Does (s : State C) : Event C → State C → List (Out C) → Prop
  | refused {c : C} {r : Request} {number : Option Value} {answer : Bool}
      (absent : s.phase c = .absent) (checked : check number = .error answer) :
      Does s (.call c r number) (s.goto c .finished) [.answer c r number (.returned answer)]
  | begun {c : C} {r : Request} {number : Option Value} {n : Number}
      (absent : s.phase c = .absent) (checked : check number = .ok n) :
      Does s (.call c r number) (s.goto c (.reading r n)) []
  | reads {c : C} {r : Request} {n b : Number} (reading : s.phase c = .reading r n)
      (balance : s.balance r.purse = some b) : Does s (.read c) (s.goto c (.writing r n b)) []
  | missing {c : C} {r : Request} {n : Number} (reading : s.phase c = .reading r n)
      (balance : s.balance r.purse = none) :
      Does s (.read c) (s.goto c .finished) [.answer c r (some (.num n)) (.returned false)]
  | writes {c : C} {r : Request} {n b : Number} (writing : s.phase c = .writing r n b) :
      Does s (.write c) ((s.setvalue r.purse (r.compute b n)).goto c (.notifying r n))
        (.wrote c r n :: .sync r.purse.synctype (r.compute b n) ::
          (r.challenge.map fun id => .challenge id n).toList)
  | notified {c : C} {r : Request} {n : Number} {ok : Bool}
      (notifying : s.phase c = .notifying r n) :
      Does s (.notified c ok) (s.goto c .finished)
        [.answer c r (some (.num n)) (if ok then .returned true else .raised)]

/-- **Every event does one of these things.** -/
theorem does_of_step (h : step s e = some (t, out)) : Does s e t out := by
  cases e with
  | call c r number =>
    simp only [step] at h
    split at h
    · rename_i absent
      unfold begin at h
      split at h
      · rename_i checked
        cases h
        exact .refused absent checked
      · rename_i checked
        cases h
        exact .begun absent checked
    · cases h
  | read c =>
    simp only [step] at h
    split at h
    · rename_i reading
      unfold afterRead at h
      split at h
      · rename_i balance
        cases h
        exact .reads reading balance
      · rename_i balance
        cases h
        exact .missing reading balance
    · cases h
  | write c =>
    simp only [step] at h
    split at h
    · rename_i writing
      cases h
      exact .writes writing
    · cases h
  | notified c ok =>
    simp only [step] at h
    split at h
    · rename_i notifying
      cases h
      exact .notified notifying
    · cases h

/-- A request that goes on has the integer it came with, and one that is
answered with success at once has zero. -/
theorem check_int (i : Int64) (h : 0 ≤ i.toInt) :
    check (some (.num (.int i))) = if i = 0 then .error true else .ok (.int i) := by
  simp only [check, Number.lt_int, Number.eq_int]
  rw [if_neg (by simpa using h)]
  simp

/-- **The balance after the store is exact** when it still was the one the
request read and the result fits. -/
theorem compute_exact {i j : Int64} (hj : 0 ≤ j.toInt)
    (hrem : r.removes = true → j.toInt ≤ i.toInt)
    (hfit : r.removes = false → i.toInt + j.toInt < 2 ^ 63) :
    ∃ k : Int64, r.compute (.int i) (.int j) = .int k ∧
      k.toInt = i.toInt + if r.removes then -j.toInt else j.toInt := by
  have hi := Int64.le_toInt i
  have hi' := Int64.toInt_lt i
  cases hr : r.removes with
  | true =>
    have hle := hrem hr
    have hsub : (i - j).toInt = i.toInt - j.toInt := Number.toInt_sub (by omega) (by omega)
    simp only [Request.compute, hr, if_true, Number.sub_int, Number.floor_int, Number.max,
      Number.lt_int]
    split
    · exact ⟨i - j, rfl, by omega⟩
    · rename_i hpos
      simp only [Int64.toInt_zero, decide_eq_true_eq, not_lt] at hpos
      exact ⟨0, rfl, by simp only [Int64.toInt_zero]; omega⟩
  | false =>
    have hlt := hfit hr
    have hadd : (i + j).toInt = i.toInt + j.toInt := Number.toInt_add (by omega) hlt
    exact ⟨i + j, by simp [Request.compute, hr], by simpa using hadd⟩

/-! ## The books -/

/-- The number a request goes on with. -/
def Phase.number : Phase → Option Number
  | .reading _ n => some n
  | .writing _ n _ => some n
  | .notifying _ n => some n
  | _ => none

/-- What a request has stored and was not answered for yet. -/
def Phase.owed (p : Purse) : Phase → ℤ
  | .notifying r n => r.delta (some (.num n)) p
  | _ => 0

/-- **The books of the balances**: what was stored is what succeeded and
what the requests under way have stored. -/
structure Books (s₀ : State C) (tr : List (Out C)) (s : State C) : Prop where
  integral : ∀ p b, s.balance p = some b → ∃ i, b = .int i
  whole : ∀ c n, (s.phase c).number = some n → ∃ i : Int64, n = .int i ∧ 0 ≤ i.toInt
  stored : ∀ p, worth (s.balance p) = worth (s₀.balance p) + (tr.map (Out.stored p)).sum
  owed : ∃ L : Finset C, (∀ c ∉ L, ∀ p, (s.phase c).owed p = 0) ∧ ∀ p,
    (tr.map (Out.stored p)).sum =
      (tr.map (Out.succeeded p)).sum + ∑ c ∈ L, (s.phase c).owed p

variable {s₀ : State C} {q : Phase}

theorem goto_phase_self (s : State C) (c : C) (q : Phase) : (s.goto c q).phase c = q :=
  Function.update_self _ _ _

theorem goto_phase_of_ne {d : C} (h : d ≠ c) : (s.goto c q).phase d = s.phase d :=
  Function.update_of_ne h _ _

/-- The sum over the requests under way, after one of them has gone on. -/
theorem sum_owed_goto {L : Finset C} (hL : ∀ d ∉ L, (s.phase d).owed p = 0) :
    ∑ d ∈ insert c L, ((s.goto c q).phase d).owed p =
      ∑ d ∈ L, (s.phase d).owed p - (s.phase c).owed p + q.owed p := by
  have hmem : c ∈ insert c L := Finset.mem_insert_self c L
  have hsame : ∑ d ∈ insert c L, (s.phase d).owed p = ∑ d ∈ L, (s.phase d).owed p :=
    Finset.sum_insert_of_eq_zero_if_notMem (hL c)
  have hrest : ∑ d ∈ (insert c L).erase c, ((s.goto c q).phase d).owed p =
      ∑ d ∈ (insert c L).erase c, (s.phase d).owed p :=
    Finset.sum_congr rfl fun d hd => by rw [goto_phase_of_ne (Finset.ne_of_mem_erase hd)]
  rw [← hsame, ← Finset.add_sum_erase _ _ hmem, ← Finset.add_sum_erase _ (fun d => _) hmem, hrest,
    goto_phase_self]
  omega

/-- A request goes on: its balance changes by what the output says, and so
does what it is owed for. -/
theorem Books.goto (hb : Books s₀ tr s) {g : State C} (hphase : g.phase = s.phase)
    (hint : ∀ p b, g.balance p = some b → ∃ i, b = .int i)
    (hwhole : ∀ n, q.number = some n → ∃ i : Int64, n = .int i ∧ 0 ≤ i.toInt)
    (hstored : ∀ p, worth (g.balance p) = worth (s.balance p) + (out.map (Out.stored p)).sum)
    (howed : ∀ p, (out.map (Out.stored p)).sum + (s.phase c).owed p =
      (out.map (Out.succeeded p)).sum + q.owed p) : Books s₀ (tr ++ out) (g.goto c q) := by
  refine ⟨hint, fun d n hn => ?_, fun p => ?_, ?_⟩
  · by_cases hd : d = c
    · subst hd
      rw [goto_phase_self] at hn
      exact hwhole n hn
    · rw [goto_phase_of_ne hd, hphase] at hn
      exact hb.whole d n hn
  · rw [List.map_append, List.sum_append, ← add_assoc, ← hb.stored p]
    exact hstored p
  · obtain ⟨L, hL, hsum⟩ := hb.owed
    refine ⟨insert c L, fun d hd p => ?_, fun p => ?_⟩
    · obtain ⟨hne, hd⟩ := not_or.mp (fun h => hd (Finset.mem_insert.mpr h))
      rw [goto_phase_of_ne hne, hphase]
      exact hL d hd p
    · have hgo := sum_owed_goto (s := g) (c := c) (q := q) (p := p)
        (fun d hd => by rw [hphase]; exact hL d hd p)
      simp only [hphase] at hgo
      have := hsum p
      have := howed p
      rw [List.map_append, List.sum_append, List.map_append, List.sum_append, hgo]
      omega

/-- **One step keeps the books.** -/
theorem Books.step (hb : Books s₀ tr s) (h : Does s e t out) (hp : Proper s e)
    (hu : Undisturbed s e) : Books s₀ (tr ++ out) t := by
  cases h with
  | @refused c r number answer absent checked =>
    -- a request that ends at the check was for zero
    obtain ⟨i, rfl, hi⟩ := hp
    have hzero : r.delta (some (.num (.int i))) = fun _ => 0 := by
      rw [check_int i hi] at checked
      split at checked
      · rename_i hz
        subst hz
        funext p
        simp [Request.delta, amount]
      · cases checked
    refine hb.goto rfl hb.integral (by simp [Phase.number]) (fun p => ?_) fun p => ?_
    · simp [Out.stored]
    · cases answer <;> simp [Out.stored, Out.succeeded, Phase.owed, absent, hzero]
  | @begun c r number n absent checked =>
    obtain ⟨i, rfl, hi⟩ := hp
    rw [check_int i hi] at checked
    split at checked
    · cases checked
    · cases checked
      refine hb.goto rfl hb.integral (fun n hn => ?_) (fun _ => ?_) fun _ => ?_
      · cases hn
        exact ⟨i, rfl, hi⟩
      · simp
      · simp [Phase.owed, absent]
  | @reads c r n b reading balance =>
    refine hb.goto rfl hb.integral (fun m hm => ?_) (fun _ => by simp) fun p => ?_
    · exact hb.whole c m (by rw [reading]; exact hm)
    · simp [Phase.owed, reading]
  | @missing c r n reading balance =>
    refine hb.goto rfl hb.integral (by simp [Phase.number]) (fun p => ?_) fun p => ?_
    · simp [Out.stored]
    · simp [Out.stored, Out.succeeded, Phase.owed, reading]
  | @writes c r n b writing =>
    obtain ⟨hsame, hfit⟩ := hu r n b writing
    have hle := hp r n b writing
    obtain ⟨j, rfl, hj⟩ := hb.whole c n (by rw [writing]; rfl)
    obtain ⟨i, rfl⟩ := hb.integral r.purse b hsame
    rw [hsame] at hle
    obtain ⟨k, hk, hsum⟩ := compute_exact (r := r) hj hle hfit
    have hout : ∀ f : Out C → ℤ, (∀ x y, f (.sync x y) = 0) → (∀ x y, f (.challenge x y) = 0) →
        ((Out.wrote c r (.int j) :: .sync r.purse.synctype (r.compute (.int i) (.int j)) ::
          (r.challenge.map fun id => .challenge id (.int j)).toList).map f).sum =
        f (.wrote c r (.int j)) := by
      intro f h1 h2
      cases r.challenge <;> simp [h1, h2]
    refine hb.goto rfl (fun p b' hb' => ?_) (fun m hm => ?_) (fun p => ?_) fun p => ?_
    · by_cases hpurse : p = r.purse
      · subst hpurse
        simp only [State.setvalue, Function.update_self, hsame, Option.map_some, hk,
          Option.some.injEq] at hb'
        exact ⟨k, hb'.symm⟩
      · simp only [State.setvalue, Function.update_of_ne hpurse] at hb'
        exact hb.integral p b' hb'
    · cases hm
      exact ⟨j, rfl, hj⟩
    · rw [hout _ (fun _ _ => rfl) (fun _ _ => rfl)]
      by_cases hpurse : p = r.purse
      · subst hpurse
        simp only [State.setvalue, Function.update_self, hsame, Option.map_some, hk, worth, hsum,
          Out.stored, Request.delta, if_true, amount]
      · simp [State.setvalue, Function.update_of_ne hpurse, Out.stored, Request.delta,
          Ne.symm hpurse]
    · rw [hout _ (fun _ _ => rfl) (fun _ _ => rfl), hout _ (fun _ _ => rfl) (fun _ _ => rfl)]
      simp [writing, Phase.owed, Out.stored, Out.succeeded]
  | @notified c r n ok notifying =>
    have hok : ok = true := hu
    subst hok
    refine hb.goto rfl hb.integral (by simp [Phase.number]) (fun p => ?_) fun p => ?_
    · simp [Out.stored]
    · simp [Out.stored, Out.succeeded, Phase.owed, notifying]

omit [DecidableEq C] in
theorem books_initial (balance : Purse → Option Int64) :
    Books (initial (C := C) balance) [] (initial balance) := by
  refine ⟨fun p b hb => ?_, fun c n hn => ?_, fun p => by simp, ∅, fun _ _ _ => rfl, fun p => by simp⟩
  · obtain ⟨i, -, rfl⟩ := Option.map_eq_some_iff.mp hb
    exact ⟨i, rfl⟩
  · cases hn

omit [DecidableEq C] in
/-- **The books show that no update is lost.** -/
theorem Books.conserved (hb : Books s₀ tr s) : Conserved s₀ tr s := by
  refine ⟨hb.stored, fun hquiet p => ?_⟩
  obtain ⟨L, -, hsum⟩ := hb.owed
  have hnone : ∑ c ∈ L, (s.phase c).owed p = 0 := by
    refine Finset.sum_eq_zero fun c _ => ?_
    rcases hquiet c with h | h <;> rw [h] <;> rfl
  rw [hb.stored p, hsum p, hnone, add_zero]

/-- **No update is lost** in a run of proper requests with nothing between
a read and its store. -/
theorem balance_exact {balance : Purse → Option Int64} {labels : List (Event C × List (Out C))}
    (h : (system.restrict fun (s : State C) l => Proper s l.1 ∧ Undisturbed s l.1).Path
      (initial balance) labels t) : Conserved (initial balance) (labels.flatMap Prod.snd) t := by
  refine Books.conserved ?_
  refine h.invariant_history (P := fun ls s => Books (initial balance) (ls.flatMap Prod.snd) s)
    (l := []) ?_ (books_initial balance)
  rintro ls s ⟨e, out⟩ t ⟨hst, hp, hu⟩ hb
  rw [List.flatMap_append, List.flatMap_singleton]
  exact hb.step (does_of_step hst) hp hu

/-! ## Two runs -/

/-- A test for `Proper`. -/
def proper (s : State C) : Event C → Bool
  | .call _ _ (some (.num (.int i))) => 0 ≤ i.toInt
  | .call _ _ _ => false
  | .write c =>
    match s.phase c with
    | .writing r n _ => !r.removes || amount (some (.num n)) ≤ worth (s.balance r.purse)
    | _ => true
  | _ => true

/-- A test for `Undisturbed`. -/
def undisturbed (s : State C) : Event C → Bool
  | .write c =>
    match s.phase c with
    | .writing r n b => s.balance r.purse = some b &&
      (r.removes || decide (worth (some b) + amount (some (.num n)) < 2 ^ 63))
    | _ => true
  | .notified _ ok => ok
  | _ => true

omit [DecidableEq C] in
theorem proper_of_test (h : proper s e = true) : Proper s e := by
  cases e with
  | call c r number =>
    match number, h with
    | some (.num (.int i)), h => exact ⟨i, rfl, of_decide_eq_true h⟩
  | write c =>
    intro r n b hph hr
    simpa [proper, hph, hr] using h
  | _ => trivial

omit [DecidableEq C] in
theorem undisturbed_of_test (h : undisturbed s e = true) : Undisturbed s e := by
  cases e with
  | write c =>
    intro r n b hph
    simp only [undisturbed, hph, Bool.and_eq_true, decide_eq_true_eq, Bool.or_eq_true] at h
    exact ⟨h.1, fun hr => h.2.resolve_left (by simp [hr])⟩
  | notified c ok => exact h
  | _ => trivial

/-- Two requests, one after the other: 10 and 5 less 3 is 12. -/
theorem balance_exact_twelve :
    ∃ labels t, (system.restrict fun (s : State Bool) l => Proper s l.1 ∧ Undisturbed s l.1).Path
        (initial fun _ => some 10) labels t ∧
      Conserved (initial fun _ => some 10) (labels.flatMap Prod.snd) t ∧ Quiet t ∧
      worth (t.balance .gold) = 12 := by
  have hrun : ((System.exec step (fun s e => proper s e && undisturbed s e)
      (initial (C := Bool) fun _ => some 10)
      [.call false addgold (some (.num (.int 5))), .read false, .write false, .notified false true,
        .call true remgold (some (.num (.int 3))), .read true, .write true,
        .notified true true]).map fun r =>
      decide ((∀ c, r.1.phase c = .absent ∨ r.1.phase c = .finished) ∧
        worth (r.1.balance .gold) = 12)) = some true := by
    decide +kernel
  obtain ⟨⟨t, labels⟩, hr, hend⟩ := Option.map_eq_some_iff.mp hrun
  obtain ⟨hquiet, hworth⟩ := of_decide_eq_true hend
  have hpath := System.path_of_exec
    (T := system.restrict fun (s : State Bool) l => Proper s l.1 ∧ Undisturbed s l.1)
    (fun s e t out hok hst => ⟨hst, proper_of_test (Bool.and_eq_true_iff.mp hok).1,
      undisturbed_of_test (Bool.and_eq_true_iff.mp hok).2⟩) hr
  exact ⟨labels, t, hpath, balance_exact hpath, hquiet, hworth⟩

/-- **An update is lost.** Two `addgold` of 5 that both read the balance
before either stores it: both succeed, and 10 becomes 15. -/
theorem update_lost :
    ∃ labels t, (system.restrict fun (s : State Bool) l => Proper s l.1).Path
        (initial fun _ => some 10) labels t ∧ Quiet t ∧ worth (t.balance .gold) = 15 ∧
      ((labels.flatMap Prod.snd).map (Out.succeeded .gold)).sum = 10 ∧
      ¬ Conserved (initial fun _ => some 10) (labels.flatMap Prod.snd) t := by
  have hrun : ((System.exec step proper (initial (C := Bool) fun _ => some 10)
      [.call false addgold (some (.num (.int 5))), .call true addgold (some (.num (.int 5))),
        .read false, .read true, .write false, .write true, .notified false true,
        .notified true true]).map fun r =>
      decide ((∀ c, r.1.phase c = .absent ∨ r.1.phase c = .finished) ∧
        worth (r.1.balance .gold) = 15 ∧
        ((r.2.flatMap Prod.snd).map (Out.succeeded .gold)).sum = 10)) = some true := by
    decide +kernel
  obtain ⟨⟨t, labels⟩, hr, hend⟩ := Option.map_eq_some_iff.mp hrun
  obtain ⟨hquiet, hworth, hsum⟩ := of_decide_eq_true hend
  have hpath := System.path_of_exec
    (T := system.restrict fun (s : State Bool) l => Proper s l.1)
    (fun s e t out hok hst => ⟨hst, proper_of_test hok⟩) hr
  refine ⟨labels, t, hpath, hquiet, hworth, hsum, fun hcons => ?_⟩
  have hten : worth ((initial (C := Bool) fun _ => some 10).balance .gold) = 10 := by decide
  have heq := hcons.succeeded hquiet .gold
  rw [show worth (t.balance .gold) = 15 from hworth, hten,
    show ((labels.flatMap Prod.snd).map (Out.succeeded .gold)).sum = 10 from hsum] at heq
  omega

end Warehouse

end Athena
