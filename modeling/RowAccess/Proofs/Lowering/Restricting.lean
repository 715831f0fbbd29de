import RowAccess.Proofs.Lowering.Dedicated
import RowAccess.Proofs.Sql.Widening

/-!
# What a filter does to the records of a caller

A filter adds conditions to a statement, and the conditions that are there stay.  It also asks
for joins.  Where the caller has the same join already, the two are one join, and it keeps rows
without a partner if either of them must.  So a filter can bring back records that a join of the
caller dropped: those without a row in the table of a dedicated field which the filter looks at
under an OR or checks for the null.

These are the only records that a filter brings back.

Main results:

- `Compiler.addsTo_compile`: a compile adds to a statement.
- `Compiler.returns_of_compile`: the records returned after a compile were returned before, but
  for those that a widened join brings back.
- `Compiler.widened_compile`: a record that is brought back.
-/

namespace RowAccess

open Sql

/-! ## Joins that a filter keeps rows for -/

namespace LookupScope

/-- One of the predicates of a filter asks for a join like the given one, and for rows without a
partner to be kept in it: it stands under an OR or checks for the null. -/
def Keeps (scope : LookupScope) (t : FilterTree) (j : Join) : Prop :=
  ∃ o ∈ t.occurrences false, (o.underOr = true ∨ o.predicate.op.isNullCheck = true) ∧
    ∃ r, scope.Requires o r ∧ j.answers r = true

variable {scope : LookupScope} {t : FilterTree} {requests : List JoinRequest}

/-- Among the requests of a filter is one that keeps rows in a join if one of its predicates asks
for that. -/
theorem Requested.keeps_iff (h : scope.Requested (t.occurrences false) requests) (j : Join) :
    (∃ r ∈ requests, j.answers r = true ∧ r.kind = .left) ↔ scope.Keeps t j := by
  constructor
  · rintro ⟨r, hr, answers, kind⟩
    obtain ⟨o, ho, requires | may⟩ := h.justified r hr
    · rw [requires.kind_eq, joinKind_eq_left_iff] at kind
      exact ⟨o, ho, kind, r, requires, answers⟩
    · rw [may.kind_eq] at kind
      cases kind
  · rintro ⟨o, ho, standing, r, requires, answers⟩
    refine ⟨r, h.needed o ho r requires, answers, ?_⟩
    rw [requires.kind_eq, joinKind_eq_left_iff]
    exact standing

end LookupScope

/-! ## Compiles -/

namespace Compiler

variable {c : Compiler} {t : FilterTree} {q : Query} {revisionScoped : Bool}
  {report : CompileReport}

/-- What a compile makes of the joins that are there. -/
theorem kind_compile (hq : q.Reachable) (hok : (c.compile t q revisionScoped).outcome = .ok report)
    {anchor : Anchor} (ha : c.anchor q = .ok anchor) {j j' : Join} (hj : j ∈ q.joins.joins)
    (hj' : j' ∈ (c.compile t q revisionScoped).query.joins.joins) (same : j'.plain = j.plain) :
    j'.kind = .left ↔
      j.kind = .left ∨ LookupScope.Keeps ⟨c, anchor, revisionScoped⟩ t j := by
  obtain ⟨requests, serves⟩ := hq.served
  obtain ⟨more, serves', requested⟩ := compile_requests ha serves hok
  rw [serves.kind_of_more serves' hj hj' same, requested.keeps_iff]

/-- Joins are never taken away. -/
theorem extends_compile (c : Compiler) (t : FilterTree) (hq : q.Reachable)
    (revisionScoped : Bool) :
    q.joins.Extends (c.compile t q revisionScoped).query.joins :=
  c.compile_stable (Query.stable_extends q.joins) t hq.root_mem (.refl _) revisionScoped

/-- The base stays what it is. -/
theorem base_compile (c : Compiler) (t : FilterTree) (hq : q.Reachable) (revisionScoped : Bool) :
    (c.compile t q revisionScoped).query.base = q.base :=
  c.compile_stable (Query.stable_base q.base) t hq.root_mem rfl revisionScoped

/-- No alias that a compile gives to a join is in use. -/
theorem fresh_compile (c : Compiler) (t : FilterTree) (hq : q.Reachable) (revisionScoped : Bool)
    {first added : List Join}
    (hjoins : (c.compile t q revisionScoped).query.joins.joins = first ++ added)
    (hfirst : first.map Join.aliasName = q.joins.aliases) {j : Join} (hj : j ∈ added) :
    j.aliasName ∉ q.names := by
  have distinct := (c.compile_reachable t hq revisionScoped).nodup_aliases
  have taken := c.compile_stable (Query.stable_taken q.joins.aliases) t hq.root_mem id
    revisionScoped
  rw [JoinSet.aliases, hjoins, List.map_append, hfirst] at distinct taken
  have new : j.aliasName ∈ added.map Join.aliasName := List.mem_map_of_mem hj
  have other : j.aliasName ∉ q.joins.aliases := fun old =>
    List.disjoint_of_nodup_append distinct old new
  have aliasName : (c.compile t q revisionScoped).query.aliasName = q.aliasName :=
    congrArg Anchor.aliasName (base_compile c t hq revisionScoped)
  rw [aliasName] at taken
  rw [Query.names, List.mem_cons]
  rintro (same | old)
  · rw [same] at new other
    exact other (taken (List.mem_append_right _ new))
  · exact other old

/-- A compile adds to a statement. -/
theorem addsTo_compile (hq : q.Reachable)
    (hok : (c.compile t q revisionScoped).outcome = .ok report) :
    q.AddsTo (c.compile t q revisionScoped).query := by
  obtain ⟨anchor, ha, items, grown, -⟩ := compile_ok hq.nested hok
  have base := base_compile c t hq revisionScoped
  refine ⟨congrArg Anchor.table base, congrArg Anchor.aliasName base, ?_, fun ρ => ?_⟩
  · obtain ⟨widened, added, hjoins, hwidened⟩ := (extends_compile c t hq revisionScoped).split
      fun j hj j' hj' same kept => (kind_compile hq hok ha hj hj' same).2 (.inl kept)
    exact ⟨widened, added, hjoins, hwidened, fun j hj =>
      fresh_compile c t hq revisionScoped hjoins (aliases_of_widens hwidened) hj⟩
  · rw [grown.truth_eq ρ hq.nested (c.compile_reachable t hq revisionScoped).nested]
    exact inf_le_left

/-- A record that a statement returns after a compile was returned before, if the conditions of
the statement look only at tables that it has.  The exception are records without a row in a
join of the caller that dropped such records and now keeps them, because the filter asks for the
same join under an OR or for a null check; no other join of the caller is changed. -/
theorem returns_of_compile (hq : q.Reachable)
    (hok : (c.compile t q revisionScoped).outcome = .ok report) :
    ∃ anchor, c.anchor q = .ok anchor ∧
      (∀ j ∈ q.joins.joins, ∃ j' ∈ (c.compile t q revisionScoped).query.joins.joins,
        j'.plain = j.plain ∧
          (j'.kind = .left ↔
            j.kind = .left ∨ LookupScope.Keeps ⟨c, anchor, revisionScoped⟩ t j)) ∧
      ∀ (engine : Engine) (db : Database) (record : Record), q.Scoped engine →
        (c.compile t q revisionScoped).query.Returns engine db record →
          q.Returns engine db record ∨
            ∃ j ∈ q.joins.joins, j.kind = .inner ∧
              LookupScope.Keeps ⟨c, anchor, revisionScoped⟩ t j ∧
              (c.compile t q revisionScoped).query.ReturnsWithout engine db j.aliasName
                record := by
  obtain ⟨anchor, ha, -⟩ := compile_ok hq.nested hok
  refine ⟨anchor, ha, fun j hj => ?_, fun engine db record names returned => ?_⟩
  · obtain ⟨j', hj', same⟩ := (extends_compile c t hq revisionScoped).exists_mem hj
    exact ⟨j', hj', same, kind_compile hq hok ha hj hj' same⟩
  · rcases (addsTo_compile hq hok).returns hq.nested hq.nodup_aliases names returned with
      before | ⟨j, hj, j', hj', widens, inner, left, reading⟩
    · exact .inl before
    · refine .inr ⟨j, hj, inner, ?_, reading⟩
      rcases (kind_compile hq hok ha hj hj' widens.plain).1 left with kept | keeps
      · rw [inner] at kept
        cases kept
      · exact keeps

end Compiler

/-! ## A record that is brought back -/

/-- A statement of a caller for the articles with a tag, but for the third one. -/
def taggedArticles : Query :=
  ((Query.select "node").ensureJoin ⟨"node__tags", .inner, "node.nid", "entity_id"⟩).1.pushCondition
    .root (.clause ⟨"node.nid", .compare .ne, .int 3⟩)

/-- Articles without a tag. -/
def noTag : FilterTree := FilterTree.all.addPredicate (.isNull "tags")

/-- A filter for the articles without a tag, put into the statement of the caller. -/
def noTagOfTagged : Compiled :=
  Compiler.compile ⟨articlesWithTags.resolver, .entity, {}⟩ noTag taggedArticles false

/-- A statement of a caller for the articles with one tag, which lacks the table of the tags. -/
def looseNews : Query :=
  (Query.select "node").pushCondition .root
    (.clause ⟨"node__tags.tags_value", .compare .eq, .text "news"⟩)

/-- A filter for the articles with that tag, put into the statement of the caller. -/
def newsOfLooseNews : Compiled :=
  Compiler.compile ⟨articlesWithTags.resolver, .entity, {}⟩
    (FilterTree.all.addPredicate (.equals "tags" (.text "news"))) looseNews false

theorem reachable_taggedArticles : taggedArticles.Reachable :=
  Query.stable_reachable.pushCondition _ _ _ (.join (.select "node") _) (by decide) rfl

theorem scoped_taggedArticles : taggedArticles.Scoped sameValues where
  clause := by
    intro g hg c hc s s' agree
    obtain rfl := List.mem_singleton.1 hg
    obtain rfl := Condition.clause.inj (List.mem_singleton.1 hc)
    exact agree.value_eq (by decide)
  expression := by
    intro g hg text htext
    obtain rfl := List.mem_singleton.1 hg
    cases List.mem_singleton.1 htext

theorem reachable_looseNews : looseNews.Reachable :=
  Query.stable_reachable.pushCondition _ _ _ (.select "node") (by decide) rfl

/-- The article without a tag is dropped by the join of the caller. -/
theorem not_returns_taggedArticles :
    ¬ taggedArticles.Returns sameValues oneTagged (numberedArticle 2) := by
  have nothing : scopes sameValues oneTagged taggedArticles.joins.joins
      [("node", numberedArticle 2)] = [] := rfl
  rintro ⟨-, s, hs, -⟩
  have none : s ∈ [] := nothing ▸ hs
  cases none

/-- The article without a tag is returned after the filter. -/
theorem returns_noTagOfTagged :
    noTagOfTagged.query.Returns sameValues oneTagged (numberedArticle 2) := by
  have nested : noTagOfTagged.query.conditions.Nested :=
    (Compiler.compile_reachable _ noTag reachable_taggedArticles false).nested
  have stored : numberedArticle 2 ∈ [numberedArticle 1, numberedArticle 2] := by simp
  have reading : [("node__tags", .absent), ("node", numberedArticle 2)] ∈
      scopes sameValues oneTagged noTagOfTagged.query.joins.joins
        [("node", numberedArticle 2)] := List.mem_singleton_self _
  exact ⟨stored, _, reading, ConditionSet.truth_eq _ nested⟩

/-- A condition on a table that the statement lacks is true of nothing. -/
theorem not_returns_looseNews :
    ¬ looseNews.Returns sameValues oneTagged (numberedArticle 1) := by
  rintro ⟨-, s, hs, holds⟩
  obtain rfl := List.mem_singleton.1 hs
  rw [ConditionSet.truth_eq _ reachable_looseNews.nested] at holds
  cases holds

/-- The filter brings the table that the statement lacks. -/
theorem returns_newsOfLooseNews :
    newsOfLooseNews.query.Returns sameValues oneTagged (numberedArticle 1) := by
  have nested : newsOfLooseNews.query.conditions.Nested :=
    (Compiler.compile_reachable _ _ reachable_looseNews false).nested
  have stored : numberedArticle 1 ∈ [numberedArticle 1, numberedArticle 2] := by simp
  have reading : _ ∈ scopes sameValues oneTagged newsOfLooseNews.query.joins.joins
      [("node", numberedArticle 1)] := List.mem_singleton_self _
  exact ⟨stored, _, reading, ConditionSet.truth_eq _ nested⟩

/-- The article without a tag is dropped before the filter and returned after it.  So is the
article with the tag where the table of the tags comes with the filter only. -/
theorem Compiler.widened_compile :
    (taggedArticles.Reachable ∧ taggedArticles.Scoped sameValues ∧
      noTagOfTagged.outcome = .ok ⟨1, ["node__tags"], [], false⟩ ∧
      ¬ taggedArticles.Returns sameValues oneTagged (numberedArticle 2) ∧
      noTagOfTagged.query.Returns sameValues oneTagged (numberedArticle 2)) ∧
    looseNews.Reachable ∧
      newsOfLooseNews.outcome = .ok ⟨1, ["node__tags"], [], false⟩ ∧
      ¬ looseNews.Returns sameValues oneTagged (numberedArticle 1) ∧
      newsOfLooseNews.query.Returns sameValues oneTagged (numberedArticle 1) :=
  ⟨⟨reachable_taggedArticles, scoped_taggedArticles, rfl, not_returns_taggedArticles,
      returns_noTagOfTagged⟩,
    reachable_looseNews, rfl, not_returns_looseNews, returns_newsOfLooseNews⟩

/-- The article without a tag is returned without a row of the table that the caller joined. -/
theorem Compiler.returns_of_compile_taggedArticles :
    taggedArticles.Reachable ∧ taggedArticles.Scoped sameValues ∧
    noTagOfTagged.outcome = .ok ⟨1, ["node__tags"], [], false⟩ ∧
    noTagOfTagged.query.Returns sameValues oneTagged (numberedArticle 2) ∧
    ∃ anchor, ∃ j ∈ taggedArticles.joins.joins, j.kind = .inner ∧
      LookupScope.Keeps ⟨⟨articlesWithTags.resolver, .entity, {}⟩, anchor, false⟩ noTag j ∧
      noTagOfTagged.query.ReturnsWithout sameValues oneTagged j.aliasName
        (numberedArticle 2) := by
  have done : noTagOfTagged.outcome = .ok ⟨1, ["node__tags"], [], false⟩ := rfl
  refine ⟨reachable_taggedArticles, scoped_taggedArticles, done, returns_noTagOfTagged, ?_⟩
  obtain ⟨anchor, -, -, returns⟩ := returns_of_compile reachable_taggedArticles done
  rcases returns sameValues oneTagged (numberedArticle 2) scoped_taggedArticles
    returns_noTagOfTagged with before | ⟨j, hj, inner, keeps, without⟩
  · exact absurd before not_returns_taggedArticles
  · exact ⟨anchor, j, hj, inner, keeps, without⟩

end RowAccess
