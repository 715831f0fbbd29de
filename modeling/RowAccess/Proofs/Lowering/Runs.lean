import RowAccess.Proofs.Lowering.Tracing
import RowAccess.Proofs.Sql.Traversal

/-!
# Runs

While a statement is built, joins are requested, relationships are registered and filters are
compiled, in any order and as often as the caller likes.  All three act on the joins by requests
only, and a compile acts on the conditions by the clauses of the fields that it looks up.  So a
whole run is known by the requests that were made in it and by the fields that were looked up.

Main results:

- `Query.joins_after`: the joins after a run are those that its requests make.
- `Query.depthFirstClauses_after`: a run adds the clauses of the fields that were looked up.
- `Query.stands_of_mem_lookups`: what was found for a field at any time still stands at the end.
-/

namespace RowAccess

open Sql

/-! ## Relationships as requests -/

namespace Sql.Query

/-- The names of the relationships with their aliases. -/
def relationships (q : Query) : List (String × String) :=
  match q.form with
  | .select => []
  | .listing relationships => relationships

/-- The table instance that a relationship hangs off: what an earlier one leads to, or the base of
a listing. -/
def origin? (q : Query) : Option String → Option Anchor
  | some earlier => q.relationship? earlier
  | none =>
    match q.form with
    | .select => none
    | .listing _ => some q.base

/-- The join that a relationship asks for, unless it is refused. -/
def relationRequest? (q : Query) (origin : Option String) (table : String) (kind : JoinKind)
    (leftColumn rightColumn : String) : Option JoinRequest :=
  (q.origin? origin).map fun anchor => ⟨table, kind, anchor.column leftColumn, rightColumn⟩

/-- A relationship is a request for a join whose alias is remembered under a name. -/
theorem addRelationship_eq (q : Query) (name : String) (origin : Option String) (table : String)
    (kind : JoinKind) (leftColumn rightColumn : String) :
    q.addRelationship name origin table kind leftColumn rightColumn =
      (q.relationRequest? origin table kind leftColumn rightColumn).map fun r =>
        ({ (q.ensureJoin r).1 with
            form := .listing ((name, (q.ensureJoin r).2) :: q.relationships) },
          (q.ensureJoin r).2) := by
  rw [addRelationship, relationRequest?, relationships]
  cases origin with
  | none =>
    rw [origin?]
    cases q.form with
    | select => rfl
    | listing relationships => rfl
  | some earlier =>
    rw [origin?]
    cases hform : q.form with
    | select =>
      rw [relationship?, hform]
      rfl
    | listing relationships =>
      simp only
      cases q.relationship? earlier with
      | none => rfl
      | some anchor => rfl

/-- Only a listing accepts relationships. -/
theorem form_of_relationRequest? {q : Query} {origin : Option String} {table : String}
    {kind : JoinKind} {leftColumn rightColumn : String} {r : JoinRequest}
    (h : q.relationRequest? origin table kind leftColumn rightColumn = some r) :
    q.form = .listing q.relationships := by
  obtain ⟨anchor, horigin, -⟩ := Option.map_eq_some_iff.1 h
  rw [relationships]
  cases hform : q.form with
  | listing relationships => rfl
  | select =>
    cases origin with
    | none =>
      rw [origin?, hform] at horigin
      cases horigin
    | some earlier =>
      rw [origin?, relationship?, hform] at horigin
      cases horigin

end Sql.Query

/-! ## Steps -/

/-- Something that is done to a statement. -/
inductive Step where
  /-- A join is requested. -/
  | join (r : JoinRequest)
  /-- A relationship is registered. -/
  | relate (name : String) (origin : Option String) (table : String) (kind : JoinKind)
      (leftColumn rightColumn : String)
  /-- A filter is compiled. -/
  | compile (c : Compiler) (t : FilterTree) (revisionScoped : Bool)

namespace Step

/-- The statement afterwards.  A relationship that is refused leaves it as it is. -/
def apply : Step → Query → Query
  | join r, q => (q.ensureJoin r).1
  | relate name origin table kind leftColumn rightColumn, q =>
    match q.addRelationship name origin table kind leftColumn rightColumn with
    | some related => related.1
    | none => q
  | compile c t revisionScoped, q => (c.compile t q revisionScoped).query

/-- The joins that are requested. -/
def requests : Step → Query → List JoinRequest
  | join r, _ => [r]
  | relate _ origin table kind leftColumn rightColumn, q =>
    (q.relationRequest? origin table kind leftColumn rightColumn).toList
  | compile c t revisionScoped, q => (c.trail t q revisionScoped).requests

/-- The fields that are looked up. -/
def lookups : Step → Query → List Lookup
  | join _, _ => []
  | relate .., _ => []
  | compile c t revisionScoped, q => (c.trail t q revisionScoped).lookups

/-- A relationship is refused, or its join is requested and the alias is remembered. -/
theorem relate_cases (name : String) (origin : Option String) (table : String) (kind : JoinKind)
    (leftColumn rightColumn : String) (q : Query) :
    ((relate name origin table kind leftColumn rightColumn).requests q = [] ∧
      (relate name origin table kind leftColumn rightColumn).apply q = q) ∨
    ∃ r, (relate name origin table kind leftColumn rightColumn).requests q = [r] ∧
      q.form = .listing q.relationships ∧
      (relate name origin table kind leftColumn rightColumn).apply q =
        { (q.ensureJoin r).1 with
          form := .listing ((name, (q.ensureJoin r).2) :: q.relationships) } := by
  rw [apply, requests, Query.addRelationship_eq]
  cases h : q.relationRequest? origin table kind leftColumn rightColumn with
  | none => exact .inl ⟨rfl, rfl⟩
  | some r => exact .inr ⟨r, rfl, Query.form_of_relationRequest? h, rfl⟩

/-- A step does not touch the base. -/
theorem sameBase_apply (s : Step) (q : Query) : q.SameBase (s.apply q) := by
  cases s with
  | join r => exact ⟨rfl, rfl⟩
  | relate name origin table kind leftColumn rightColumn =>
    rcases relate_cases name origin table kind leftColumn rightColumn q with
      ⟨-, refused⟩ | ⟨r, -, form, done⟩
    · rw [refused]
      exact .refl q
    · rw [done]
      refine ⟨rfl, ?_⟩
      funext other
      simp only [Query.preferredAlias, form]
      rfl
  | compile c t revisionScoped =>
    have bare : (c.compile t q revisionScoped).query.bare =
        q.bare.ensureAll (c.trail t q revisionScoped).requests :=
      (c.bare_compile t q revisionScoped).trans (c.trail_query t q revisionScoped)
    have same : q.bare.SameBase (c.compile t q revisionScoped).query.bare := by
      rw [bare]
      exact ⟨rfl, rfl⟩
    exact ⟨same.base, same.preferred⟩

/-- A step makes its requests and changes no join otherwise. -/
theorem joins_apply (s : Step) (q : Query) :
    (s.apply q).joins = (q.ensureAll (s.requests q)).joins := by
  cases s with
  | join r => rfl
  | relate name origin table kind leftColumn rightColumn =>
    rcases relate_cases name origin table kind leftColumn rightColumn q with
      ⟨nothing, refused⟩ | ⟨r, asked, -, done⟩
    · rw [nothing, refused]
      rfl
    · rw [asked, done]
      rfl
  | compile c t revisionScoped =>
    have joins : (c.compile t q revisionScoped).query.bare.joins =
        (q.bare.ensureAll (c.trail t q revisionScoped).requests).joins := by
      rw [c.bare_compile, c.trail_query]
    exact joins

/-- A relationship does not touch the conditions. -/
theorem conditions_relate (name : String) (origin : Option String) (table : String)
    (kind : JoinKind) (leftColumn rightColumn : String) (q : Query) :
    ((relate name origin table kind leftColumn rightColumn).apply q).conditions =
      q.conditions := by
  rcases relate_cases name origin table kind leftColumn rightColumn q with
    ⟨-, refused⟩ | ⟨r, -, -, done⟩
  · rw [refused]
  · rw [done]
    rfl

/-- The groups stay a tree. -/
theorem tree_apply (s : Step) {q : Query} (hq : q.conditions.Tree) :
    (s.apply q).conditions.Tree := by
  cases s with
  | join r => exact hq
  | relate name origin table kind leftColumn rightColumn =>
    rw [conditions_relate]
    exact hq
  | compile c t revisionScoped =>
    exact c.compile_stable Query.stable_tree t hq.nested.length_pos hq revisionScoped

/-- A step adds the clauses of the fields that are looked up. -/
theorem depthFirstClauses_apply (s : Step) {q : Query} (hq : q.conditions.Nested) :
    (s.apply q).conditions.depthFirstClauses =
      q.conditions.depthFirstClauses ++ (s.lookups q).filterMap Lookup.clause := by
  cases s with
  | join r => exact (List.append_nil _).symm
  | relate name origin table kind leftColumn rightColumn =>
    rw [conditions_relate]
    exact (List.append_nil _).symm
  | compile c t revisionScoped => exact c.depthFirstClauses_compile t revisionScoped hq

/-- What a step finds stands afterwards. -/
theorem stands_of_mem_lookups (s : Step) (q : Query) :
    ∀ l ∈ s.lookups q, l.Stands (s.apply q) := by
  cases s with
  | join r => exact List.forall_mem_nil _
  | relate name origin table kind leftColumn rightColumn => exact List.forall_mem_nil _
  | compile c t revisionScoped => exact c.stands_of_mem_trail t q revisionScoped

end Step

/-! ## Runs -/

namespace Sql.Query

/-- The statement after several steps. -/
def after (q : Query) (steps : List Step) : Query := steps.foldl (fun q s => s.apply q) q

/-- The joins that are requested in several steps, in order. -/
def requests : Query → List Step → List JoinRequest
  | _, [] => []
  | q, s :: steps => s.requests q ++ (s.apply q).requests steps

/-- The fields that are looked up in several steps, in order. -/
def lookups : Query → List Step → List Lookup
  | _, [] => []
  | q, s :: steps => s.lookups q ++ (s.apply q).lookups steps

theorem after_append (q : Query) (steps more : List Step) :
    q.after (steps ++ more) = (q.after steps).after more :=
  List.foldl_append

theorem requests_append (q : Query) (steps more : List Step) :
    q.requests (steps ++ more) = q.requests steps ++ (q.after steps).requests more := by
  induction steps generalizing q with
  | nil => rfl
  | cons s steps ih =>
    rw [List.cons_append, requests, requests, ih, List.append_assoc]
    rfl

/-- A run does not touch the base. -/
theorem sameBase_after (q : Query) (steps : List Step) : q.SameBase (q.after steps) := by
  induction steps generalizing q with
  | nil => exact .refl q
  | cons s steps ih => exact (s.sameBase_apply q).trans (ih (s.apply q))

/-- The joins after a run are those that its requests make, whatever was done to make them. -/
theorem joins_after (q : Query) (steps : List Step) :
    (q.after steps).joins = (q.ensureAll (q.requests steps)).joins := by
  induction steps generalizing q with
  | nil => rfl
  | cons s steps ih =>
    have first : q.SameBase (s.apply q) := s.sameBase_apply q
    have same : (q.ensureAll (s.requests q)).SameBase (s.apply q) := ⟨first.base, first.preferred⟩
    rw [requests, ensureAll_append]
    exact (ih (s.apply q)).trans (same.joins_ensureAll (s.joins_apply q) _)

/-- A run keeps every join, its kind aside. -/
theorem extends_after (q : Query) (steps : List Step) :
    q.joins.Extends (q.after steps).joins := by
  rw [joins_after]
  exact q.extends_ensureAll _

/-- The requests of a run are served. -/
theorem serves_after {q : Query} {earlier : List JoinRequest} (h : q.joins.Serves earlier)
    (steps : List Step) :
    (q.after steps).joins.Serves ((q.requests steps).reverse ++ earlier) := by
  rw [joins_after]
  exact serves_ensureAll h _

/-- The groups stay a tree. -/
theorem tree_after {q : Query} (hq : q.conditions.Tree) (steps : List Step) :
    (q.after steps).conditions.Tree := by
  induction steps generalizing q with
  | nil => exact hq
  | cons s steps ih => exact ih (s.tree_apply hq)

/-- A run adds the clauses of the fields that are looked up, in this order. -/
theorem depthFirstClauses_after {q : Query} (hq : q.conditions.Tree) (steps : List Step) :
    (q.after steps).conditions.depthFirstClauses =
      q.conditions.depthFirstClauses ++ (q.lookups steps).filterMap Lookup.clause := by
  induction steps generalizing q with
  | nil => exact (List.append_nil _).symm
  | cons s steps ih =>
    rw [lookups, List.filterMap_append, ← List.append_assoc, ← s.depthFirstClauses_apply hq.nested]
    exact ih (s.tree_apply hq)

/-- What was found at any time still stands at the end. -/
theorem stands_of_mem_lookups (q : Query) (steps : List Step) :
    ∀ l ∈ q.lookups steps, l.Stands (q.after steps) := by
  induction steps generalizing q with
  | nil => exact List.forall_mem_nil _
  | cons s steps ih =>
    intro l hl
    rcases List.mem_append.1 hl with first | rest
    · exact (s.stands_of_mem_lookups q l first).of_extends ((s.apply q).extends_after steps)
    · exact ih (s.apply q) l rest

end Sql.Query

end RowAccess
