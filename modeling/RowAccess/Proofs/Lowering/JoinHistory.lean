import RowAccess.Proofs.Lowering.Dedicated
import RowAccess.Proofs.Lowering.Runs

/-!
# The history of the joins

The joins of a statement that had none at first are the outcome of the requests that were made
since then: by the caller, by relationships and by compiles.  Aliases of different origins can
collide in any order, and the kind of a join is settled by no single request, so what is known of
the joins is said about the whole history.

Main results:

- `Query.joinHistory_after`: the joins after a run, and what the next request is answered with.
-/

namespace RowAccess

open Sql

namespace Sql.Query

/-- What is known of the joins of a statement that had none, after a run. -/
structure JoinHistory (q : Query) (steps : List Step) : Prop where
  /-- The base is what it was. -/
  base : (q.after steps).base = q.base
  /-- The joins are what the requests of the run make, one after the other. -/
  joins : (q.after steps).joins = (q.ensureAll (q.requests steps)).joins
  /-- No two joins share an alias, and none has that of the base. -/
  names : ((q.after steps).aliasName :: (q.after steps).joins.aliases).Nodup
  /-- No two joins are of the same table on the same columns. -/
  keys : ((q.after steps).joins.joins.map Join.key).Nodup
  /-- A join keeps rows without a partner exactly if any of the requests for it asked for that. -/
  kind : ∀ j ∈ (q.after steps).joins.joins,
    j.kind = .left ↔ ∃ r ∈ q.requests steps, r.key = j.key ∧ r.kind = .left
  /-- The next request is answered with the alias of the one join for it. -/
  answer : ∀ r, ∃ j ∈ ((q.after steps).ensureJoin r).1.joins.joins,
    j.key = r.key ∧ j.aliasName = ((q.after steps).ensureJoin r).2 ∧
      ∀ i ∈ ((q.after steps).ensureJoin r).1.joins.joins, i.key = r.key → i = j
  /-- Whatever is done later, the joins keep their places and their aliases. -/
  order : ∀ more, (q.after steps).joins.Extends (q.after (steps ++ more)).joins
  /-- Where the next request makes a join, its alias is the first name tried that is not in use,
  and no more names are tried than are in use, and one. -/
  search : ∀ r, (∀ j ∈ (q.after steps).joins.joins, j.key ≠ r.key) →
    ∃ k ≤ (q.after steps).names.length,
      ((q.after steps).ensureJoin r).2 =
          Text.candidate ((q.after steps).preferredAlias r) k ∧
        ((q.after steps).ensureJoin r).2 ∉ (q.after steps).names ∧
        ∀ i < k, Text.candidate ((q.after steps).preferredAlias r) i ∈ (q.after steps).names

/-- Whatever is done to a statement that has no joins yet, its joins keep their places, their
aliases are distinct, there is one for each table and columns, and it keeps rows without a partner
if any request for it asked for that. -/
theorem joinHistory_after {q : Query} (hq : q.joins = ∅) (steps : List Step) :
    q.JoinHistory steps := by
  have same := q.sameBase_after steps
  have served : (q.after steps).joins.Serves ((q.requests steps).reverse ++ []) := by
    refine q.serves_after ?_ steps
    rw [hq]
    exact JoinSet.serves_empty
  rw [List.append_nil] at served
  constructor
  · exact same.base
  · exact q.joins_after steps
  · have start : q.names.Nodup := by
      rw [names, hq]
      exact List.nodup_singleton _
    have named : (q.after steps).aliasName = q.aliasName := congrArg Anchor.aliasName same.base
    rw [joins_after, named]
    exact q.nodup_names_ensureAll start (q.requests steps)
  · exact served.distinct
  · intro j hj
    have asked (r : JoinRequest) : j.answers r = true ↔ r.key = j.key :=
      (j.answers_iff_key r).trans eq_comm
    simp only [served.kind j hj, List.mem_reverse, asked]
  · intro r
    have next := served.ensure r ((q.after steps).preferredAlias r) [(q.after steps).aliasName]
    obtain ⟨j, hj, answers, named⟩ := (q.after steps).links_ensureJoin r
    refine ⟨j, hj, (j.answers_iff_key r).1 answers, named, fun i hi key => ?_⟩
    exact next.eq_of_answers hi hj ((i.answers_iff_key r).2 key) answers
  · intro more
    rw [after_append]
    exact extends_after _ more
  · intro r absent
    have unanswered : (q.after steps).joins.answer? r = none :=
      List.find?_eq_none.2 fun j hj answers => absent j hj ((j.answers_iff_key r).1 answers)
    exact JoinSet.alias_ensure unanswered _ [(q.after steps).aliasName]

end Sql.Query

/-- A relationship to the tags of articles, a join of the same table on other columns, and a filter
for articles without a tag. -/
def tagSteps : List Step :=
  [.relate "tags" none "node__tags" .inner "nid" "entity_id",
    .join ⟨"node__tags", .inner, "node.vid", "revision_id"⟩,
    .compile ⟨articlesWithTags.resolver, .entity, {}⟩
      (FilterTree.all.addPredicate (.isNull "tags")) false]

/-- The filter asks for the join of the relationship and makes it keep articles without a tag; the
other join has a name with a number. -/
theorem Sql.Query.joinHistory_after_tagSteps :
    (Query.listing "node").joins = ∅ ∧ (Query.listing "node").JoinHistory tagSteps ∧
      ((Query.listing "node").after tagSteps).joins.joins =
        [⟨.left, "node__tags", "node__tags", "node.nid", "entity_id"⟩,
          ⟨.inner, "node__tags", "node__tags_2", "node.vid", "revision_id"⟩] :=
  ⟨rfl, joinHistory_after rfl tagSteps, rfl⟩

end RowAccess
