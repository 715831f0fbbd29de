import RowAccess.Proofs.Lowering.Lookups

/-!
# What a compile looks up

A compile goes through a filter from left to right.  As far as joins and clauses are concerned, the
nesting of the filter does not matter: the fields of its predicates are looked up one after the
other.  This is so whether the compile ends well or not; what was done before an error stays.

Main results:

- `LookupScope.addNodes_follows`: the walk does to the joins what the lookups do.
- `LookupScope.addNodes_clauses`: the walk adds the clauses of the lookups, in depth-first order.
- `Compiler.bare_compile`, `Compiler.depthFirstClauses_compile`: so it is for a compile.
- `Compiler.errorOf_compile`: a compile fails where a lookup is refused.
-/

namespace RowAccess

open Sql

/-! ## The walk -/

/-- The work on a statement did to the joins what was looked up, and ended in the same way. -/
structure Trail.Follows (t : Trail) (r : Except Interrupted Progress) : Prop where
  query : t.query = (Progress.atEnd r).query.bare
  failure : t.failure = (errorOf r).map Interrupted.cause

namespace LookupScope

variable (scope : LookupScope)

/-- A predicate whose field is stored is looked up when it is added. -/
theorem addStored_follows (id : GroupId) (underOr : Bool) (p : Predicate) (storage : FieldStorage)
    (s : Progress) :
    (scope.lookUpStored ⟨p, underOr⟩ storage s.query.bare).Follows
      (scope.addStored id underOr p storage s) := by
  have reach : scope.reach s.query.bare storage (joinKind underOr p.op) =
      scope.reach s.query storage (joinKind underOr p.op) := rfl
  rw [lookUpStored, addStored]
  simp only [reach, Reach.place_bare, Progress.place]
  cases Lowering.clause p _ storage.caseSensitive scope.compiler.options with
  | ok c =>
    refine ⟨?_, rfl⟩
    rw [Progress.atEnd, Progress.query_noteJoin]
    rfl
  | error cause => exact ⟨rfl, rfl⟩

/-- A predicate that is added is looked up. -/
theorem addPredicate_follows (id : GroupId) (underOr : Bool) (p : Predicate) (s : Progress) :
    (scope.lookUp ⟨p, underOr⟩ s.query.bare).Follows (scope.addPredicate id underOr p s) := by
  rw [lookUp, addPredicate]
  cases p.path with
  | error e => exact ⟨rfl, rfl⟩
  | ok path =>
    simp only
    cases scope.compiler.resolver.storage? path.field path.property with
    | some storage => exact scope.addStored_follows id underOr p storage s
    | none =>
      simp only
      cases scope.compiler.backend with
      | entity => exact ⟨rfl, rfl⟩
      | listing relationship => exact ⟨rfl, rfl⟩

mutual

/-- The walk over a tree looks up the predicates of the tree. -/
theorem addTree_follows (scope : LookupScope) (id : GroupId) (underOr : Bool) :
    (t : FilterTree) → t.alwaysFalse = false → (s : Progress) →
      (scope.trail (t.occurrences underOr) s.query.bare).Follows (scope.addTree id underOr t s)
  | ⟨conjunction, children, never, cache⟩, may, s => by
    obtain rfl : never = false := may
    exact addNodes_follows scope id _ children s

/-- The walk over a child looks up its predicates. -/
theorem addNode_follows (scope : LookupScope) (id : GroupId) (underOr : Bool) :
    (n : FilterNode) → (s : Progress) →
      (scope.trail (n.occurrences underOr) s.query.bare).Follows (scope.addNode id underOr n s)
  | .leaf p, s => by
    rw [FilterNode.occurrences, trail_singleton]
    exact scope.addPredicate_follows id underOr p s
  | .tree t, s => by
    rw [addNode, FilterNode.occurrences]
    split
    next never =>
      rw [FilterTree.occurrences_of_alwaysFalse never]
      exact ⟨rfl, rfl⟩
    next never =>
      have may : t.alwaysFalse = false := by simpa using never
      split
      next hempty =>
        have none : t.children = [] := List.isEmpty_iff.1 hempty
        rw [FilterTree.occurrences_of_not_alwaysFalse may, none]
        exact ⟨rfl, rfl⟩
      next => exact addTree_follows scope _ underOr t may (s.openGroup id t.conjunction).1

/-- The walk over several children looks up their predicates, one after the other. -/
theorem addNodes_follows (scope : LookupScope) (id : GroupId) (underOr : Bool) :
    (ns : List FilterNode) → (s : Progress) →
      (scope.trail (FilterNode.occurrencesAll underOr ns) s.query.bare).Follows
        (scope.addNodes id underOr ns s)
  | [], s => ⟨rfl, rfl⟩
  | n :: ns, s => by
    have first := addNode_follows scope id underOr n s
    rw [FilterNode.occurrencesAll, trail_append, addNodes]
    cases hn : scope.addNode id underOr n s with
    | ok s' =>
      rw [hn] at first
      have query : (scope.trail (n.occurrences underOr) s.query.bare).query = s'.query.bare :=
        first.query
      rw [Trail.andThen_of_none first.failure, query]
      have rest := addNodes_follows scope id underOr ns s'
      exact ⟨rest.query, rest.failure⟩
    | error e =>
      rw [hn] at first
      rw [Trail.andThen_of_some first.failure]
      exact first

end

/-! ## Clauses -/

/-- The work on a group added items to it that hold the given clauses in depth-first order. -/
def Adds (s : Progress) (id : GroupId) (r : Except Interrupted Progress)
    (clauses : List Clause) : Prop :=
  ∃ items, s.query.conditions.Grows id items (Progress.atEnd r).query.conditions ∧
    ((Progress.atEnd r).query.conditions.parts items).flatMap WhereExpr.clauses = clauses

/-- The clause of a predicate whose field is stored is added to the group. -/
theorem addStored_clauses (id : GroupId) (underOr : Bool) (p : Predicate) (storage : FieldStorage)
    (s : Progress) :
    Adds s id (scope.addStored id underOr p storage s)
      (scope.lookUpStored ⟨p, underOr⟩ storage s.query.bare).clauses := by
  have reach : scope.reach s.query.bare storage (joinKind underOr p.op) =
      scope.reach s.query storage (joinKind underOr p.op) := rfl
  rw [lookUpStored, addStored]
  simp only [reach, Reach.place_bare, Progress.place]
  cases Lowering.clause p _ storage.caseSensitive scope.compiler.options with
  | ok c =>
    refine ⟨[.clause c], ?_, rfl⟩
    rw [Progress.atEnd, Progress.query_noteJoin, Progress.addClause, Query.pushCondition,
      Reach.conditions_place]
    exact .push _ id rfl
  | error cause =>
    refine ⟨[], ?_, rfl⟩
    rw [Progress.atEnd, Reach.conditions_place]
    exact .refl _ id

/-- The clause of a predicate is added to the group. -/
theorem addPredicate_clauses (id : GroupId) (underOr : Bool) (p : Predicate) (s : Progress) :
    Adds s id (scope.addPredicate id underOr p s)
      (scope.lookUp ⟨p, underOr⟩ s.query.bare).clauses := by
  rw [lookUp, addPredicate]
  cases p.path with
  | error e => exact ⟨[], .refl _ id, rfl⟩
  | ok path =>
    simp only
    cases scope.compiler.resolver.storage? path.field path.property with
    | some storage => exact scope.addStored_clauses id underOr p storage s
    | none =>
      simp only
      cases scope.compiler.backend with
      | entity => exact ⟨[], .refl _ id, rfl⟩
      | listing relationship => exact ⟨[], .refl _ id, rfl⟩

mutual

/-- The work on a tree adds to the group above the clauses of the tree. -/
theorem addTree_clauses (scope : LookupScope) {id : GroupId} (underOr : Bool) :
    (t : FilterTree) → t.alwaysFalse = false → {s : Progress} → s.query.conditions.Nested →
      id ∈ s.query.conditions →
        Adds s id
          (scope.addTree (s.openGroup id t.conjunction).2 underOr t
            (s.openGroup id t.conjunction).1)
          (scope.trail (t.occurrences underOr) s.query.bare).clauses
  | ⟨conjunction, children, never, cache⟩, may, s, hs, hid => by
    obtain rfl : never = false := may
    have inUse := s.query.conditions.mem_openGroup id conjunction
    have hopened := hs.openGroup hid conjunction
    have hs' := (addNodes_stable (Query.stable_nested.and_mem _) scope (fun _ hq => hq.2)
      (underOr || conjunction = .or) children (s.openGroup id conjunction).1 ⟨hopened, inUse⟩).1
    obtain ⟨items, grown, clauses⟩ := addNodes_clauses scope (underOr || conjunction = .or) children
      (s := (s.openGroup id conjunction).1) hopened inUse
    refine ⟨[.group (s.openGroup id conjunction).2], .nest hid grown, ?_⟩
    refine Eq.trans ?_ clauses
    exact (congrArg (List.flatMap WhereExpr.clauses) (grown.parts_opened hs')).trans
      (WhereExpr.flatMap_clauses_join _ _)

/-- The work on a child adds its clauses to the group. -/
theorem addNode_clauses (scope : LookupScope) {id : GroupId} (underOr : Bool) :
    (n : FilterNode) → {s : Progress} → s.query.conditions.Nested → id ∈ s.query.conditions →
      Adds s id (scope.addNode id underOr n s)
        (scope.trail (n.occurrences underOr) s.query.bare).clauses
  | .leaf p, s, _, _ => by
    rw [FilterNode.occurrences, trail_singleton]
    exact scope.addPredicate_clauses id underOr p s
  | .tree t, s, hs, hid => by
    rw [addNode, FilterNode.occurrences]
    split
    next never =>
      rw [FilterTree.occurrences_of_alwaysFalse never]
      exact ⟨[.expression alwaysFalse], .push _ id rfl, rfl⟩
    next never =>
      have may : t.alwaysFalse = false := by simpa using never
      split
      next hempty =>
        have none : t.children = [] := List.isEmpty_iff.1 hempty
        rw [FilterTree.occurrences_of_not_alwaysFalse may, none]
        exact ⟨[], .refl _ id, rfl⟩
      next => exact addTree_clauses scope underOr t may hs hid

/-- The work on several children adds their clauses to the group, one after the other. -/
theorem addNodes_clauses (scope : LookupScope) {id : GroupId} (underOr : Bool) :
    (ns : List FilterNode) → {s : Progress} → s.query.conditions.Nested →
      id ∈ s.query.conditions →
        Adds s id (scope.addNodes id underOr ns s)
          (scope.trail (FilterNode.occurrencesAll underOr ns) s.query.bare).clauses
  | [], s, _, _ => ⟨[], .refl _ id, rfl⟩
  | n :: ns, s, hs, hid => by
    have follows := scope.addNode_follows id underOr n s
    have kept := addNode_stable (Query.stable_nested.and_mem id) scope (fun _ hq => hq.2) underOr
      n s ⟨hs, hid⟩
    obtain ⟨xs, grown, clauses⟩ := addNode_clauses scope underOr n hs hid
    rw [FilterNode.occurrencesAll, trail_append, addNodes]
    cases hn : scope.addNode id underOr n s with
    | ok s₁ =>
      rw [hn] at follows kept grown clauses
      obtain ⟨hs₁, hid₁⟩ : s₁.query.conditions.Nested ∧ id ∈ s₁.query.conditions := kept
      have hs' := (addNodes_stable (Query.stable_nested.and_mem id) scope (fun _ hq => hq.2)
        underOr ns s₁ ⟨hs₁, hid₁⟩).1
      obtain ⟨ys, grown', clauses'⟩ := addNodes_clauses scope underOr ns hs₁ hid₁
      have query : (scope.trail (n.occurrences underOr) s.query.bare).query = s₁.query.bare :=
        follows.query
      refine ⟨xs ++ ys, grown.trans grown', ?_⟩
      -- The groups of the first child are new, so the later children leave them alone.
      have same := grown'.parts_eq hs₁ hs' fun child hchild =>
        ⟨Nat.lt_of_lt_of_le hid (grown.fresh child hchild).1, (grown.fresh child hchild).2⟩
      rw [ConditionSet.parts_append, List.flatMap_append, same, clauses',
        Trail.clauses_andThen follows.failure, query]
      exact congrArg (· ++ _) clauses
    | error e =>
      rw [hn] at follows grown clauses
      rw [Trail.andThen_of_some follows.failure]
      exact ⟨xs, grown, clauses⟩

end

end LookupScope

/-! ## Compiles -/

namespace LookupScope

variable (scope : LookupScope)

/-- The work on a whole filter looks up its predicates. -/
theorem addFilter_follows (t : FilterTree) (s : Progress) :
    (scope.trail (t.occurrences false) s.query.bare).Follows (scope.addFilter t s) := by
  have node := scope.addNode_follows .root false (.tree t) s
  rcases scope.addFilter_eq_or t s with same | ⟨s₁, s₂, hfilter, hnode, same⟩
  · rw [same]
    exact node
  · rw [hnode] at node
    rw [hfilter]
    exact ⟨node.query.trans (congrArg Query.bare same.symm), node.failure⟩

/-- The work on a whole filter adds its clauses to the root. -/
theorem addFilter_clauses (t : FilterTree) {s : Progress} (hs : s.query.conditions.Nested) :
    Adds s .root (scope.addFilter t s) (scope.trail (t.occurrences false) s.query.bare).clauses := by
  have node : Adds s .root (scope.addNode .root false (.tree t) s)
      (scope.trail (t.occurrences false) s.query.bare).clauses :=
    scope.addNode_clauses false (.tree t) hs hs.length_pos
  rcases scope.addFilter_eq_or t s with same | ⟨s₁, s₂, hfilter, hnode, same⟩
  · rw [same]
    exact node
  · rw [hnode] at node
    rw [hfilter, Adds, Progress.atEnd, same]
    exact node

end LookupScope

namespace Compiler

variable (c : Compiler) (t : FilterTree) (q : Query) (revisionScoped : Bool)

/-- The fields that a compile looks up. -/
def trail : Trail :=
  match c.anchor q with
  | .error e => { query := q.bare, failure := some e }
  | .ok anchor => LookupScope.trail ⟨c, anchor, revisionScoped⟩ (t.occurrences false) q.bare

/-- A compile does to the joins what is looked up, also where it fails. -/
theorem bare_compile :
    (c.compile t q revisionScoped).query.bare = (c.trail t q revisionScoped).query := by
  rw [compile, trail]
  cases c.anchor q with
  | error e => rfl
  | ok anchor =>
    simp only [Compiled.query_ofWalk]
    exact (LookupScope.addFilter_follows _ t { query := q }).query.symm

/-- A compile fails where a predicate is refused. -/
theorem errorOf_compile :
    errorOf (c.compile t q revisionScoped).outcome = (c.trail t q revisionScoped).failure := by
  rw [compile, trail]
  cases c.anchor q with
  | error e => rfl
  | ok anchor =>
    simp only [(LookupScope.addFilter_follows ⟨c, anchor, revisionScoped⟩ t { query := q }).failure]
    cases LookupScope.addFilter ⟨c, anchor, revisionScoped⟩ t { query := q } with
    | ok s => rfl
    | error e => rfl

variable {q}

/-- A compile adds the clauses of the predicates up to the one that is refused, if any. -/
theorem depthFirstClauses_compile (hq : q.conditions.Nested) :
    (c.compile t q revisionScoped).query.conditions.depthFirstClauses =
      q.conditions.depthFirstClauses ++ (c.trail t q revisionScoped).clauses := by
  have nested := c.compile_stable Query.stable_nested t hq.length_pos hq revisionScoped
  rw [compile] at nested ⊢
  rw [trail]
  cases ha : c.anchor q with
  | error e => exact (List.append_nil _).symm
  | ok anchor =>
    simp only [ha, Compiled.query_ofWalk] at nested ⊢
    obtain ⟨items, grown, clauses⟩ :=
      LookupScope.addFilter_clauses ⟨c, anchor, revisionScoped⟩ t (s := { query := q }) hq
    rw [grown.depthFirstClauses_eq hq nested, clauses]

variable (q)

/-- A compile makes the requests of its predicates and no other. -/
theorem trail_query :
    (c.trail t q revisionScoped).query = q.bare.ensureAll (c.trail t q revisionScoped).requests := by
  rw [trail]
  cases c.anchor q with
  | error e => rfl
  | ok anchor => exact LookupScope.trail_query _ _ _

/-- A compile does not touch the relationships. -/
theorem form_compile : (c.compile t q revisionScoped).query.form = q.form := by
  have form : (c.compile t q revisionScoped).query.bare.form = q.form := by
    rw [bare_compile, trail_query]
    rfl
  exact form

/-- What a compile found stands afterwards. -/
theorem stands_of_mem_trail :
    ∀ l ∈ (c.trail t q revisionScoped).lookups, l.Stands (c.compile t q revisionScoped).query := by
  have joins := congrArg Query.joins (c.bare_compile t q revisionScoped)
  intro l hl
  have stands : l.Stands (c.trail t q revisionScoped).query := by
    rw [trail] at hl ⊢
    cases ha : c.anchor q with
    | error e =>
      rw [ha] at hl
      cases hl
    | ok anchor =>
      rw [ha] at hl
      exact (LookupScope.trail_stands _ _ _ l hl).2
  refine stands.of_extends ?_
  rw [← joins]
  exact .refl _

end Compiler

end RowAccess
