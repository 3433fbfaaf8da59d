import Athena.Store.Cache
/-!
# The data services — deletion

`CMD.delete` of a table with an index sends `zrem` to `redispool`, which
has no such command and asserts that it has. The assertion fails after
the hash was deleted and before the statement is sent: no deletion from
such a table ever succeeds, its row stays in MySQL and its key in the
index, and readers that follow the index find an empty row.
-/

namespace Athena

namespace Store

open Lua

variable {E : Env} {s t : State} {c : Config} {tb : Str} {row : Row} {typ : Typ} {nosync : Bool}
variable {uid : Option Value} {i : ℕ}

theorem del_eq (key : Str) (hi : E.getconn uid = some i) : ∃ r,
    doRedis E (.del key) uid s = (.ok r, s.setDb i ((s.pool i).erase key)) :=
  ⟨_, doRedis_of_handler rfl hi rfl⟩

/-- **`redispool` has no `zrem`.** -/
theorem zrem_eq (key : Str) : doRedis E (.zrem key) uid s = (.error .assertion, s) := rfl

/-- **No row of a table with an index is ever deleted.** Whatever the
state, the call does not succeed. Where the keys of the row can be made it
fails at `zrem`, with the row's hash gone and everything else as it was:
the index and MySQL still have the row. A user's row is then answered
empty, as long as its index has members. -/
theorem delete_incomplete {ik : Str} (hc : E.configs typ tb = some c) (hik : c.indexkey = some ik) :
    (∀ b t, delete E tb row typ nosync s ≠ (.ok b, t)) ∧
    ∀ v a w b i, makeRediskey row c.key = .ok (some v) → v.text = .ok a →
      makeRediskey row ik = .ok (some w) → w.text = .ok b →
      E.getconn (ownerOf row "uid".toList typ) = some i →
      ∃ t, delete E tb row typ nosync s = (.error .assertion, t) ∧
        (t.pool i).lookup (tb ++ ':' :: a) = none ∧
        (∀ j k, j ≠ i ∨ k ≠ tb ++ ':' :: a → (t.pool j).lookup k = (s.pool j).lookup k) ∧
        t.mysql = s.mysql ∧
        ∀ (user : Int64) ms, E.getconn (some (uidValue user)) = some i → ms ≠ [] →
          (t.pool i).lookup (tb ++ indexWord ++ tostring (.int user)) = some (.zset ms) →
          getUserMulti E tb user (some v) t = (.ok (.one (some ∅)), t) := by
  have hname := E.name_eq hc
  constructor
  · intro b t h
    rw [delete, Act.bind_ok (configOf_eq hc)] at h
    obtain ⟨x, -, h⟩ := Act.lift_bind_eq_ok.mp h
    obtain ⟨key, -, h⟩ := Act.lift_bind_eq_ok.mp h
    obtain ⟨r, s1, -, h⟩ := Act.bind_eq_ok.mp h
    simp only [hik] at h
    obtain ⟨link, -, h⟩ := Act.lift_bind_eq_ok.mp h
    obtain ⟨index, -, h⟩ := Act.lift_bind_eq_ok.mp h
    obtain ⟨r', s2, hz, -⟩ := Act.bind_eq_ok.mp h
    rw [zrem_eq] at hz
    cases (Prod.mk.inj hz).1
  · intro v a w b i hv ha hw hb hi
    have hkey : hashKey tb (some v) = .ok (tb ++ ':' :: a) := by
      simp only [hashKey, textOf, ha, bind, Except.bind, pure, Except.pure]
    have hindex : indexName tb (some w) = .ok (tb ++ indexWord ++ b) := by
      simp only [indexName, textOf, hb, bind, Except.bind, pure, Except.pure]
    obtain ⟨r, hdel⟩ := del_eq (E := E) (s := s) (i := i) (tb ++ ':' :: a) hi
    refine ⟨s.setDb i ((s.pool i).erase (tb ++ ':' :: a)), ?_, ?_, ?_, rfl, ?_⟩
    · rw [delete, Act.bind_ok (configOf_eq hc), Act.lift_bind_ok hv, Act.lift_bind_ok hkey,
        Act.bind_ok hdel]
      simp only [hik]
      rw [Act.lift_bind_ok hw, Act.lift_bind_ok hindex, Act.bind_error (zrem_eq _)]
    · rw [State.setDb_pool_self, AList.lookup_erase]
    · intro j k hjk
      by_cases hj : j = i
      · subst hj
        rw [State.setDb_pool_self, AList.lookup_erase_ne (by simpa using hjk)]
      · rw [State.setDb_pool_of_ne hj]
    · intro user ms huser hms hz
      obtain ⟨m, ms, rfl⟩ := List.exists_cons_of_ne_nil hms
      have hgone : ((s.setDb i ((s.pool i).erase (tb ++ ':' :: a))).pool i).lookup (tb ++ ':' :: a) =
          none := by
        rw [State.setDb_pool_self, AList.lookup_erase]
      rw [getUserMulti, Act.bind_ok (zrange_of_zset huser hz), Reply.elems,
        if_neg (List.cons_ne_nil _ _)]
      simp only
      rw [Act.lift_bind_ok hkey, Act.bind_ok (readHash_of_none huser hgone)]
      rfl

/-- The login server after an account was added. -/
def accountState : State :=
  (add loginEnv "d_account".toList (accountRow "ann".toList "qq".toList 7) .common false
    ⟨fun _ => ∅, fun _ => []⟩).2

/-- It cannot be deleted. -/
theorem delete_incomplete_account :
    (¬ ∃ b t, delete loginEnv "d_account".toList (accountRow "ann".toList "qq".toList 7) .common false
      accountState = (.ok b, t)) ∧
    ∃ t, delete loginEnv "d_account".toList (accountRow "ann".toList "qq".toList 7) .common false
      accountState = (.error .assertion, t) ∧ t.mysql = accountState.mysql := by
  refine ⟨fun ⟨b, t, h⟩ => (delete_incomplete (by rfl) (by rfl)).1 b t h, ?_⟩
  obtain ⟨t, ht, -, -, hm, -⟩ : ∃ t, delete loginEnv "d_account".toList
      (accountRow "ann".toList "qq".toList 7) .common false accountState = (.error .assertion, t) ∧ _ :=
    (delete_incomplete (by rfl) (by rfl)).2 _ _ _ _ _ (by rfl) (by rfl) (by rfl) (by rfl) (by rfl)
  exact ⟨t, ht, hm⟩

/-- The call fails and the hash is gone; the index and MySQL still have
the account, and `get_common` now raises an error. -/
theorem account_not_deleted :
    let t := (delete loginEnv "d_account".toList (accountRow "ann".toList "qq".toList 7) .common false
      accountState).2
    (accountState.pool 1).lookup "d_account:ann:qq".toList =
        some (.hash (wireRow (accountRow "ann".toList "qq".toList 7))) ∧
      (delete loginEnv "d_account".toList (accountRow "ann".toList "qq".toList 7) .common false
        accountState).1 = .error .assertion ∧
      (t.pool 1).lookup "d_account:ann:qq".toList = none ∧
      (t.pool 1).lookup "d_account:index:7".toList = some (.zset ["ann:qq".toList]) ∧
      (t.mysql "d_account".toList).map (AList.lookup "sdkid".toList) = [some (.str "ann".toList)] ∧
      (getCommon loginEnv "d_account".toList t).1.isOk = false := by
  refine ⟨rfl, ?_⟩
  decide

end Store

end Athena
