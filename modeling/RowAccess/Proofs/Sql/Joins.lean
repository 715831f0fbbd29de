import RowAccess.Sql.Query

/-!
# What stays of the joins

A request for a join changes the kind of one join or adds a join at the end.  So the joins
of a statement only ever grow: each keeps its place, its alias, its table and its columns.
What was found among the joins once is therefore found again, whatever is requested later.

Main results:

- `JoinSet.extends_ensure`: a request keeps every join, its kind aside.
- `JoinSet.Extends.find?_some`: a join that was found by its table and what it hangs off is
  found again.
- `Query.links_ensureJoin`: the alias that a request returns is that of a join made for it.
-/

namespace RowAccess.Sql

/-! ## Joins, their kinds aside -/

/-- The join without what it does to rows that have no partner. -/
def Join.plain (j : Join) : Join := { j with kind := .inner }

@[simp] theorem Join.plain_aliasName (j : Join) : j.plain.aliasName = j.aliasName := rfl

@[simp] theorem Join.answers_plain (j : Join) (r : JoinRequest) :
    j.plain.answers r = j.answers r := rfl

/-- A join answers a request that has its table and its columns. -/
theorem Join.answers_iff (j : Join) (r : JoinRequest) :
    j.answers r = true ↔
      j.table = r.table ∧ j.left = r.left ∧ j.rightColumn = r.rightColumn := by
  simp [Join.answers, and_assoc]

namespace JoinSet

/-- One set has the joins of another in front, their kinds aside. -/
def Extends (s s' : JoinSet) : Prop := s.joins.map Join.plain <+: s'.joins.map Join.plain

namespace Extends

theorem refl (s : JoinSet) : s.Extends s := List.prefix_rfl

theorem trans {s s' s'' : JoinSet} (h : s.Extends s') (h' : s'.Extends s'') : s.Extends s'' :=
  List.IsPrefix.trans h h'

/-- Every join is still there. -/
theorem exists_mem {s s' : JoinSet} (h : s.Extends s') {j : Join} (hj : j ∈ s.joins) :
    ∃ j' ∈ s'.joins, j'.plain = j.plain := by
  have mem : j.plain ∈ s'.joins.map Join.plain := h.subset (List.mem_map_of_mem hj)
  rcases List.mem_map.1 mem with ⟨j', hj', same⟩
  exact ⟨j', hj', same⟩

/-- A search that does not look at kinds finds the same join again. -/
theorem find?_plain {s s' : JoinSet} (h : s.Extends s') {p : Join → Bool}
    (hp : ∀ j, p j.plain = p j) {j : Join} (hj : s.joins.find? p = some j) :
    ∃ j', s'.joins.find? p = some j' ∧ j'.plain = j.plain := by
  have search (t : JoinSet) :
      (t.joins.map Join.plain).find? p = (t.joins.find? p).map Join.plain := by
    rw [List.find?_map]
    congr 2
    funext i
    exact hp i
  rcases h with ⟨more, hmore⟩
  have found : (s'.joins.map Join.plain).find? p = some j.plain := by
    rw [← hmore, List.find?_append, search, hj]
    rfl
  rw [search] at found
  exact Option.map_eq_some_iff.1 found

/-- A join that was found by its table and what it hangs off is found again. -/
theorem find?_some {s s' : JoinSet} (h : s.Extends s') {table anchor : String} {j : Join}
    (hj : s.find? table anchor = some j) :
    ∃ j', s'.find? table anchor = some j' ∧ j'.plain = j.plain :=
  h.find?_plain (fun _ => rfl) hj

end Extends

/-- Widening changes the kind of a join only. -/
theorem map_plain_widenAnswer (r : JoinRequest) (joins : List Join) :
    (widenAnswer r joins).map Join.plain = joins.map Join.plain := by
  induction joins with
  | nil => rfl
  | cons j rest ih =>
    rw [widenAnswer]
    split
    · rfl
    · rw [List.map_cons, ih, List.map_cons]

/-- A request keeps every join, its kind aside. -/
theorem extends_ensure (s : JoinSet) (r : JoinRequest) (preferred : String)
    (reserved : List String) : s.Extends (s.ensure r preferred reserved).1 := by
  cases hr : s.answer? r with
  | some j =>
    have same : s.joins.map Join.plain =
        (s.ensure r preferred reserved).1.joins.map Join.plain := by
      rw [ensure_of_answers hr]
      exact (map_plain_widenAnswer r s.joins).symm
    exact ⟨[], (List.append_nil _).trans same⟩
  | none =>
    rw [ensure_of_not_answers hr, Extends, List.map_append]
    exact List.prefix_append _ _

/-- The alias that a request returns is that of a join that is what was asked for. -/
theorem exists_answers_ensure (s : JoinSet) (r : JoinRequest) (preferred : String)
    (reserved : List String) :
    ∃ j ∈ (s.ensure r preferred reserved).1.joins,
      j.answers r = true ∧ j.aliasName = (s.ensure r preferred reserved).2 := by
  cases hr : s.answer? r with
  | some j =>
    have mem := List.mem_of_find?_eq_some hr
    have answers : j.answers r = true := by
      have := List.find?_some hr
      exact this
    rcases (s.extends_ensure r preferred reserved).exists_mem mem with ⟨j', hj', same⟩
    refine ⟨j', hj', ?_, ?_⟩
    · rw [← Join.answers_plain, same, Join.answers_plain]
      exact answers
    · rw [ensure_of_answers hr, ← Join.plain_aliasName, same, Join.plain_aliasName]
  | none =>
    rw [ensure_of_not_answers hr]
    refine ⟨_, List.mem_append_right _ (List.mem_singleton_self _), ?_, rfl⟩
    rw [Join.answers_iff]
    exact ⟨rfl, rfl, rfl⟩

/-- Where no alias is used twice, a join is known by its alias. -/
theorem eq_of_aliasName_eq {s : JoinSet} (h : s.aliases.Nodup) {j j' : Join}
    (hj : j ∈ s.joins) (hj' : j' ∈ s.joins) (same : j.aliasName = j'.aliasName) : j = j' := by
  rcases s with ⟨joins⟩
  induction joins with
  | nil => exact absurd hj List.not_mem_nil
  | cons first rest ih =>
    rcases List.nodup_cons.1 h with ⟨fresh, distinct⟩
    have elsewhere {i : Join} (hi : i ∈ rest) : i.aliasName ≠ first.aliasName := by
      intro heq
      exact fresh (heq ▸ List.mem_map_of_mem hi)
    rcases List.mem_cons.1 hj with rfl | inRest
    · rcases List.mem_cons.1 hj' with rfl | inRest'
      · rfl
      · exact absurd same.symm (elsewhere inRest')
    · rcases List.mem_cons.1 hj' with rfl | inRest'
      · exact absurd same (elsewhere inRest)
      · exact ih distinct inRest inRest'

end JoinSet

/-! ## Joins of a statement -/

namespace Query

/-- The statement holds a join with the given alias that is what a request asks for. -/
def Links (q : Query) (r : JoinRequest) (aliasName : String) : Prop :=
  ∃ j ∈ q.joins.joins, j.answers r = true ∧ j.aliasName = aliasName

/-- The alias that a request returns is that of a join made for it. -/
theorem links_ensureJoin (q : Query) (r : JoinRequest) :
    (q.ensureJoin r).1.Links r (q.ensureJoin r).2 :=
  q.joins.exists_answers_ensure r _ _

/-- Links stay. -/
theorem Links.of_extends {q q' : Query} {r : JoinRequest} {aliasName : String}
    (h : q.Links r aliasName) (hx : q.joins.Extends q'.joins) : q'.Links r aliasName := by
  rcases h with ⟨j, hj, answers, rfl⟩
  rcases hx.exists_mem hj with ⟨j', hj', same⟩
  refine ⟨j', hj', ?_, ?_⟩
  · rw [← Join.answers_plain, same, Join.answers_plain]
    exact answers
  · rw [← Join.plain_aliasName, same, Join.plain_aliasName]

/-- A join that was found by its table and what it hangs off is found again. -/
theorem findJoin?_of_extends {q q' : Query} (hx : q.joins.Extends q'.joins)
    {table anchor aliasName : String} (h : q.findJoin? table anchor = some aliasName) :
    q'.findJoin? table anchor = some aliasName := by
  rcases Option.map_eq_some_iff.1 h with ⟨j, hj, rfl⟩
  rcases hx.find?_some hj with ⟨j', hj', same⟩
  rw [findJoin?, hj', Option.map_some, ← Join.plain_aliasName, same, Join.plain_aliasName]

end Query

end RowAccess.Sql
