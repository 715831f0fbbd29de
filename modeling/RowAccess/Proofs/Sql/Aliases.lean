import RowAccess.Proofs.Sql.Reachable

/-!
# Aliases of joins

A new join gets an alias that no other join and not the base has.  In a plain selection the
alias is the name of the table, perhaps with a number, so it holds no dot if the table's name
holds none, and a column qualified by it can be read again.

Main results:

- `JoinSet.eq_ofRequest_of_mem_ensure`: a request changes kinds or adds one join.
- `Query.stable_taken`, `Query.stable_fresh`: no join takes the alias of the base.
- `Query.stable_dotFree`: aliases of dot-free tables are dot-free.
-/

namespace RowAccess.Sql

theorem Join.aliasName_of_plain_eq {j j' : Join} (h : j.plain = j'.plain) :
    j.aliasName = j'.aliasName := by
  rw [← plain_aliasName, h, plain_aliasName]

theorem Join.table_of_plain_eq {j j' : Join} (h : j.plain = j'.plain) : j.table = j'.table := by
  have same : j.plain.table = j'.plain.table := by rw [h]
  exact same

/-- After a request each join is one that was there, its kind aside, or the new one. -/
theorem JoinSet.eq_ofRequest_of_mem_ensure {s : JoinSet} {r : JoinRequest} {preferred : String}
    {reserved : List String} {j' : Join} (h : j' ∈ (s.ensure r preferred reserved).1.joins) :
    (∃ j ∈ s.joins, j'.plain = j.plain) ∨
      j' = .ofRequest r (Text.freshName (reserved ++ s.aliases) preferred) := by
  cases hr : s.answer? r with
  | some found =>
    rw [ensure_of_answers hr] at h
    have plain : j'.plain ∈ (widenAnswer r s.joins).map Join.plain := List.mem_map_of_mem h
    rw [map_plain_widenAnswer] at plain
    obtain ⟨j, hj, same⟩ := List.mem_map.1 plain
    exact .inl ⟨j, hj, same.symm⟩
  | none =>
    rw [ensure_of_not_answers hr] at h
    rcases List.mem_append.1 h with earlier | new
    · exact .inl ⟨j', earlier, rfl⟩
    · exact .inr (List.mem_singleton.1 new)

namespace Query

/-- No further join takes the alias of the base, though an earlier one may have it: a plain
selection can be renamed. -/
theorem stable_taken (earlier : List String) :
    Stable fun q => q.aliasName ∈ q.joins.aliases → q.aliasName ∈ earlier where
  ensureJoin := by
    intro q r h taken
    obtain ⟨j', hj', same⟩ := List.mem_map.1 taken
    rcases JoinSet.eq_ofRequest_of_mem_ensure hj' with ⟨j, hj, plain⟩ | rfl
    · apply h
      exact List.mem_map.2 ⟨j, hj, (Join.aliasName_of_plain_eq plain.symm).trans same⟩
    · have fresh := Text.freshName_not_mem ([q.aliasName] ++ q.joins.aliases)
        (q.preferredAlias r)
      have base : Text.freshName ([q.aliasName] ++ q.joins.aliases) (q.preferredAlias r) =
          q.aliasName := same
      rw [base] at fresh
      exact absurd (List.mem_append_left _ (List.mem_singleton_self _)) fresh
  pushCondition := fun _ _ _ h _ _ => h
  openGroup := fun _ _ _ h _ => h

/-- No join takes the alias of the base. -/
theorem stable_fresh : Stable fun q => q.aliasName ∉ q.joins.aliases := by
  have none := stable_taken []
  simpa only [List.not_mem_nil, imp_false] using none

/-- In a plain selection aliases of dot-free tables are dot-free. -/
theorem stable_dotFree : Stable fun q => q.form = .select ∧
    ∀ j ∈ q.joins.joins, '.' ∉ j.table.toList → '.' ∉ j.aliasName.toList where
  ensureJoin := by
    rintro q r ⟨form, h⟩
    refine ⟨form, fun j' hj' table => ?_⟩
    rcases JoinSet.eq_ofRequest_of_mem_ensure hj' with ⟨j, hj, plain⟩ | rfl
    · rw [Join.table_of_plain_eq plain] at table
      rw [Join.aliasName_of_plain_eq plain]
      exact h j hj table
    · have preferred : q.preferredAlias r = r.table := by rw [preferredAlias, form]
      rw [Join.ofRequest, preferred]
      exact Text.dot_not_mem_freshName table _
  pushCondition := fun _ _ _ h _ _ => h
  openGroup := fun _ _ _ h _ => h

/-- The base of a statement stays what it is. -/
theorem stable_base (anchor : Anchor) : Stable fun q => q.base = anchor where
  ensureJoin := fun _ _ h => h
  pushCondition := fun _ _ _ h _ _ => h
  openGroup := fun _ _ _ h _ => h

end Query

end RowAccess.Sql
