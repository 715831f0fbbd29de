import RowAccess.Proofs.Filter.Pruning
import RowAccess.Proofs.Lowering.Steps
import RowAccess.Storage.TableMapping

/-!
# Listings skip, entities refuse

The two compilers walk a tree in the same way, but for a predicate whose field is not stored:
a listing leaves it out and an entity compiler fails.  So a listing does with a tree what an
entity compiler does with the tree from which these predicates were taken away, together
with the trees that have no children left.

The groups that are opened differ: a listing opens a group also for a tree all of whose
predicates it leaves out.  Such a group comes to nothing, so what is written is the same.

Main results:

- `LookupScope.addNodes_prune`: the walks over the children of a tree do the same work.
- `Compiler.listing_eq_entity_prune`: the two compilers differ by skipping only.
-/

namespace RowAccess

open Sql

/-! ## Fields that are not stored -/

/-- Whether a predicate names its field acceptably and the field is not stored. -/
def StorageResolver.lacks (r : StorageResolver) (p : Predicate) : Bool :=
  match p.path with
  | .ok path => (r.storage? path.field path.property).isNone
  | .error _ => false

/-- The field references of the predicates that are left out of a tree, from left to right. -/
def StorageResolver.skips (r : StorageResolver) (t : FilterTree) : List String :=
  (t.livePredicates.filter r.lacks).map Predicate.field

/-! ## Works that are alike -/

/-- Two works on a statement that differ in the conditions, in the journal and in what was left
out only. -/
structure Progress.Alike (s u : Progress) : Prop where
  query : u.query = { s.query with conditions := u.query.conditions }
  report : u.report = { s.report with skippedFields := [] }

namespace Progress.Alike

variable {s u : Progress}

theorem addClause (h : s.Alike u) (id id' : GroupId) (c : Clause) :
    (s.addClause id c).Alike (u.addClause id' c) where
  query := by
    simp only [Progress.addClause, Query.pushCondition]
    rw [h.query]
  report := by
    simp only [Progress.addClause, CompileReport.countClause]
    rw [h.report]

theorem addAlwaysFalse (h : s.Alike u) (id id' : GroupId) :
    (s.addAlwaysFalse id).Alike (u.addAlwaysFalse id') where
  query := by
    simp only [Progress.addAlwaysFalse, Query.pushCondition]
    rw [h.query]
  report := by
    simp only [Progress.addAlwaysFalse, CompileReport.countClause]
    rw [h.report]

/-- A group that only one work opens keeps the works alike. -/
theorem openGroup_left (h : s.Alike u) (id : GroupId) (conjunction : Conjunction) :
    (s.openGroup id conjunction).1.Alike u where
  query := h.query
  report := h.report

theorem openGroup (h : s.Alike u) (id id' : GroupId) (conjunction : Conjunction) :
    (s.openGroup id conjunction).1.Alike (u.openGroup id' conjunction).1 where
  query := by
    simp only [Progress.openGroup, Query.openGroup]
    rw [h.query]
  report := h.report

/-- So does a predicate that only one work leaves out. -/
theorem skip (h : s.Alike u) (field : String) : (s.skip field).Alike u where
  query := h.query
  report := h.report

theorem noteJoin (h : s.Alike u) (join : Option String) :
    (s.noteJoin join).Alike (u.noteJoin join) := by
  cases join with
  | none => exact h
  | some aliasName =>
    refine ⟨h.query, ?_⟩
    simp only [Progress.noteJoin, CompileReport.noteJoin]
    rw [h.report]
    split
    · rfl
    · rfl

/-- How a field is reached does not depend on the conditions. -/
theorem reach (h : s.Alike u) (tables : EntityTables) (storage : FieldStorage) (anchor : Anchor)
    (revisionScoped : Bool) (kind : JoinKind) :
    Reach.of u.query tables storage anchor revisionScoped kind =
      Reach.of s.query tables storage anchor revisionScoped kind := by
  rw [h.query]
  rfl

/-- Reaching a field keeps works alike and leads to the same column. -/
theorem place (h : s.Alike u) (storage : FieldStorage) (reach : Reach) :
    (s.place storage reach).1.Alike (u.place storage reach).1 ∧
      (u.place storage reach).2 = (s.place storage reach).2 := by
  have query := h.query
  cases reach with
  | present aliasName => exact ⟨⟨query, h.report⟩, rfl⟩
  | byJoin request =>
    refine ⟨⟨?_, h.report⟩, ?_⟩
    · simp only [Progress.place, Reach.place]
      rw [query]
      rfl
    · simp only [Progress.place, Reach.place]
      rw [query]
      rfl

end Progress.Alike

/-! ## The same work -/

/-- Two works of which each added to a group of its own, `id` and `id'`, what comes to the same
conditions, where the first has left out some fields; or two failures for the same cause. -/
inductive SameWork (s u : Progress) (id id' : GroupId) (skipped : List String) :
    Except Interrupted Progress → Except Interrupted Progress → Prop where
  | failed {e e' : Interrupted} (cause : e.cause = e'.cause) :
      SameWork s u id id' skipped (.error e) (.error e')
  | done {s' u' : Progress} {items items' : List Condition} (alike : s'.Alike u')
      (left : s'.report.skippedFields = s.report.skippedFields ++ skipped)
      (nested : s'.query.conditions.Nested) (nested' : u'.query.conditions.Nested)
      (grown : s.query.conditions.Grows id items s'.query.conditions)
      (grown' : u.query.conditions.Grows id' items' u'.query.conditions)
      (parts : s'.query.conditions.parts items = u'.query.conditions.parts items') :
      SameWork s u id id' skipped (.ok s') (.ok u')

/-- Works that are alike, each at a group of its own. -/
structure Ready (s u : Progress) (id id' : GroupId) : Prop where
  alike : s.Alike u
  nested : s.query.conditions.Nested
  nested' : u.query.conditions.Nested
  mem : id ∈ s.query.conditions
  mem' : id' ∈ u.query.conditions

namespace SameWork

variable {s u : Progress} {id id' : GroupId}

/-- Nothing was done but to leave out some fields. -/
theorem idle (ready : Ready s u id id') : SameWork s u id id' [] (.ok s) (.ok u) :=
  .done ready.alike (List.append_nil _).symm ready.nested ready.nested' (.refl _ id) (.refl _ id')
    rfl

/-- After the same work, more of the same work. -/
theorem trans {s₁ u₁ : Progress} {skipped more : List String}
    {r r' : Except Interrupted Progress} (ready : Ready s u id id')
    (first : SameWork s u id id' skipped (.ok s₁) (.ok u₁))
    (second : Ready s₁ u₁ id id' → SameWork s₁ u₁ id id' more r r') :
    SameWork s u id id' (skipped ++ more) r r' := by
  cases first with
  | done alike left nested nested' grown grown' parts =>
    have mem : id ∈ s₁.query.conditions := Nat.lt_of_lt_of_le ready.mem grown.length_le
    have mem' : id' ∈ u₁.query.conditions := Nat.lt_of_lt_of_le ready.mem' grown'.length_le
    cases second ⟨alike, nested, nested', mem, mem'⟩ with
    | failed cause => exact .failed cause
    | @done s₂ u₂ ys ys' alike₂ left₂ nested₂ nested₂' grown₂ grown₂' parts₂ =>
      -- The groups of the first work are new, so the second leaves them alone.
      have kept := grown₂.parts_eq nested nested₂ fun child hchild =>
        have new := grown.fresh child hchild
        ⟨Nat.lt_of_lt_of_le ready.mem new.1, new.2⟩
      have kept' := grown₂'.parts_eq nested' nested₂' fun child hchild =>
        have new := grown'.fresh child hchild
        ⟨Nat.lt_of_lt_of_le ready.mem' new.1, new.2⟩
      refine .done alike₂ ?_ nested₂ nested₂' (grown.trans grown₂) (grown'.trans grown₂') ?_
      · rw [left₂, left, List.append_assoc]
      · rw [ConditionSet.parts_append, ConditionSet.parts_append, kept, kept', parts, parts₂]

/-- The same work in two groups that were opened for it. -/
theorem nest (ready : Ready s u id id') {conjunction : Conjunction} {skipped : List String}
    {r r' : Except Interrupted Progress}
    (h : SameWork (s.openGroup id conjunction).1 (u.openGroup id' conjunction).1
      (s.openGroup id conjunction).2 (u.openGroup id' conjunction).2 skipped r r') :
    SameWork s u id id' skipped r r' := by
  cases h with
  | failed cause => exact .failed cause
  | @done s' u' items items' alike left nested nested' grown grown' parts =>
    refine .done alike left nested nested' (.nest ready.mem grown) (.nest ready.mem' grown') ?_
    calc s'.query.conditions.parts [.group (s.openGroup id conjunction).2]
        = (WhereExpr.join conjunction (s'.query.conditions.parts items)).toList :=
          grown.parts_opened nested
      _ = (WhereExpr.join conjunction (u'.query.conditions.parts items')).toList := by rw [parts]
      _ = u'.query.conditions.parts [.group (u.openGroup id' conjunction).2] :=
          (grown'.parts_opened nested').symm

/-- A group that was opened, but nothing was added to, comes to nothing. -/
theorem nest_left (ready : Ready s u id id') {conjunction : Conjunction} {skipped : List String}
    {r : Except Interrupted Progress}
    (h : SameWork (s.openGroup id conjunction).1 u (s.openGroup id conjunction).2 id' skipped r
      (.ok u)) :
    SameWork s u id id' skipped r (.ok u) := by
  cases h with
  | @done s' _ items items' alike left nested nested' grown grown' parts =>
    obtain rfl := grown'.eq_nil_of_same ready.mem'
    refine .done alike left nested nested' (.nest ready.mem grown) grown' ?_
    calc s'.query.conditions.parts [.group (s.openGroup id conjunction).2]
        = (WhereExpr.join conjunction (s'.query.conditions.parts items)).toList :=
          grown.parts_opened nested
      _ = u.query.conditions.parts [] := by
          rw [parts]
          rfl

/-- The journal does not count. -/
theorem logAbout {skipped : List String} {r : Except Interrupted Progress} {v : Progress}
    (h : SameWork s u id id' skipped r (.ok v)) (event : String)
    (details : List (String × String)) :
    SameWork s u id id' skipped r (.ok (v.logAbout event details)) := by
  cases h with
  | done alike left nested nested' grown grown' parts =>
    exact .done ⟨alike.query, alike.report⟩ left nested nested' grown grown' parts

end SameWork

/-! ## The walk -/

namespace LookupScope

/-- The same lookup by an entity compiler. -/
def strict (scope : LookupScope) : LookupScope :=
  { scope with compiler := { scope.compiler with backend := .entity } }

@[simp] theorem resolver_strict (scope : LookupScope) :
    scope.strict.compiler.resolver = scope.compiler.resolver := rfl

@[simp] theorem options_strict (scope : LookupScope) :
    scope.strict.compiler.options = scope.compiler.options := rfl

@[simp] theorem anchor_strict (scope : LookupScope) : scope.strict.anchor = scope.anchor := rfl

@[simp] theorem revisionScoped_strict (scope : LookupScope) :
    scope.strict.revisionScoped = scope.revisionScoped := rfl

/-- A single child is all there is to add. -/
theorem addNodes_singleton (scope : LookupScope) (id : GroupId) (underOr : Bool) (n : FilterNode)
    (s : Progress) : scope.addNodes id underOr [n] s = scope.addNode id underOr n s := by
  rw [addNodes]
  cases scope.addNode id underOr n s with
  | ok s => rfl
  | error e => rfl

/-- Children are added one after the other. -/
theorem addNodes_append (scope : LookupScope) (id : GroupId) (underOr : Bool)
    (ns ms : List FilterNode) (s : Progress) :
    scope.addNodes id underOr (ns ++ ms) s =
      (scope.addNodes id underOr ns s).bind (scope.addNodes id underOr ms) := by
  induction ns generalizing s with
  | nil => rfl
  | cons n ns ih =>
    rw [List.cons_append, addNodes, addNodes]
    cases scope.addNode id underOr n s with
    | ok s => exact ih s
    | error e => rfl

variable {scope : LookupScope} {relationship : Option String}

/-- A predicate whose field is stored is added by both. -/
theorem addStored_sameWork {s u : Progress} {id id' : GroupId} (ready : Ready s u id id')
    (underOr : Bool) (p : Predicate) (storage : FieldStorage) :
    SameWork s u id id' [] (scope.addStored id underOr p storage s)
      (scope.strict.addStored id' underOr p storage u) := by
  have sameReach := ready.alike.reach scope.compiler.resolver.tables storage scope.anchor
    scope.revisionScoped (joinKind underOr p.op)
  simp only [addStored, resolver_strict, options_strict, anchor_strict, revisionScoped_strict,
    sameReach]
  generalize Reach.of s.query scope.compiler.resolver.tables storage scope.anchor
    scope.revisionScoped (joinKind underOr p.op) = reach
  obtain ⟨placed, samePlace⟩ := ready.alike.place storage reach
  rw [samePlace]
  have conditions (v : Progress) : (v.place storage reach).1.query.conditions =
      v.query.conditions := Reach.conditions_place reach v.query storage
  split
  next c hc =>
    have pushed (v : Progress) (id : GroupId) : v.query.conditions.Grows id [.clause c]
        (((v.place storage reach).1.addClause id c).noteJoin
          (s.place storage reach).2.join).query.conditions := by
      rw [Progress.query_noteJoin, Progress.addClause, Query.pushCondition, conditions]
      exact .push _ id rfl
    refine .done ((placed.addClause id id' c).noteJoin _) ?_ ?_ ?_ (pushed s id) (pushed u id') rfl
    · rw [List.append_nil]
      cases (s.place storage reach).2.join with
      | none => rfl
      | some aliasName =>
        simp only [Progress.noteJoin, CompileReport.noteJoin]
        split
        · rfl
        · rfl
    all_goals rw [Progress.query_noteJoin, Progress.addClause, Query.pushCondition, conditions]
    · exact ready.nested.push id rfl
    · exact ready.nested'.push id' rfl
  next cause hc => exact .failed rfl

/-- A predicate is added by both, or its field is not stored and it was taken away. -/
theorem addPredicate_prune (listing : scope.compiler.backend = .listing relationship)
    {s u : Progress} {id id' : GroupId} (ready : Ready s u id id') (underOr : Bool)
    (p : Predicate) :
    SameWork s u id id' (([p].filter scope.compiler.resolver.lacks).map Predicate.field)
      (scope.addPredicate id underOr p s)
      (scope.strict.addNodes id' underOr
        ((FilterNode.leaf p).prune scope.compiler.resolver.lacks) u) := by
  cases hpath : p.path with
  | error e =>
    have kept : scope.compiler.resolver.lacks p = false := by
      rw [StorageResolver.lacks, hpath]
    rw [FilterNode.prune, if_neg (by rw [kept]; exact Bool.false_ne_true), addNodes_singleton,
      addNode, addPredicate, addPredicate, hpath]
    exact .failed rfl
  | ok path =>
    cases hstorage : scope.compiler.resolver.storage? path.field path.property with
    | some storage =>
      have kept : scope.compiler.resolver.lacks p = false := by
        rw [StorageResolver.lacks, hpath]
        simp only [hstorage, Option.isNone_some]
      rw [FilterNode.prune, if_neg (by rw [kept]; exact Bool.false_ne_true), addNodes_singleton,
        addNode, addPredicate, addPredicate, hpath, List.filter_cons_of_neg
          (by rw [kept]; exact Bool.false_ne_true)]
      simp only [resolver_strict, hstorage]
      exact addStored_sameWork ready underOr p storage
    | none =>
      have dropped : scope.compiler.resolver.lacks p = true := by
        rw [StorageResolver.lacks, hpath]
        simp only [hstorage, Option.isNone_none]
      rw [FilterNode.prune, if_pos dropped, addPredicate, hpath,
        List.filter_cons_of_pos dropped]
      simp only [hstorage, listing, addNodes]
      refine .done (ready.alike.skip _) ?_ ready.nested ready.nested' (.refl _ id)
        (.refl _ id') rfl
      have text : path.display = p.field := FieldPath.display_of_parse hpath
      rw [text]
      rfl

mutual

/-- A child is added by both, apart from what was taken away. -/
theorem addNode_prune {scope : LookupScope} {relationship : Option String}
    (listing : scope.compiler.backend = .listing relationship) {id id' : GroupId}
    (underOr : Bool) : (n : FilterNode) → {s u : Progress} → Ready s u id id' →
      SameWork s u id id'
        ((n.livePredicates.filter scope.compiler.resolver.lacks).map Predicate.field)
        (scope.addNode id underOr n s)
        (scope.strict.addNodes id' underOr (n.prune scope.compiler.resolver.lacks) u)
  | .leaf p, s, u, ready => addPredicate_prune listing ready underOr p
  | .tree t, s, u, ready => by
    rw [FilterNode.prune, FilterNode.livePredicates, addNode]
    by_cases never : t.alwaysFalse = true
    · rw [if_pos never, if_pos never, addNodes_singleton, addNode, if_pos never,
        FilterTree.livePredicates_of_alwaysFalse never]
      exact .done (ready.alike.addAlwaysFalse id id') (List.append_nil _).symm
        (ready.nested.push id rfl) (ready.nested'.push id' rfl) (.push _ id rfl) (.push _ id' rfl)
        rfl
    · rw [if_neg never, if_neg never]
      have may : t.alwaysFalse = false := by simpa using never
      by_cases hempty : t.isEmpty = true
      · have none : t.children = [] := List.isEmpty_iff.1 hempty
        have left : (t.prune scope.compiler.resolver.lacks).isEmpty = true := by
          rw [FilterTree.isEmpty, FilterTree.children_prune _ may, none]
          rfl
        rw [if_pos hempty, if_pos left, FilterTree.livePredicates_of_not_alwaysFalse may, none]
        exact .idle ready
      · rw [if_neg hempty]
        exact addTree_prune listing underOr t may ready

/-- A tree with children is added by both as a group of its own, unless all its children were
taken away; then the listing opens a group that comes to nothing. -/
theorem addTree_prune {scope : LookupScope} {relationship : Option String}
    (listing : scope.compiler.backend = .listing relationship) {id id' : GroupId}
    (underOr : Bool) : (t : FilterTree) → {s u : Progress} → t.alwaysFalse = false →
      Ready s u id id' →
      SameWork s u id id'
        ((t.livePredicates.filter scope.compiler.resolver.lacks).map Predicate.field)
        (scope.addTree (s.openGroup id t.conjunction).2 underOr t (s.openGroup id t.conjunction).1)
        (scope.strict.addNodes id' underOr
          (if (t.prune scope.compiler.resolver.lacks).isEmpty then []
            else [.tree (t.prune scope.compiler.resolver.lacks)]) u)
  | ⟨conjunction, children, never, cache⟩, s, u, may, ready => by
    obtain rfl : never = false := may
    have inUse := s.query.conditions.mem_openGroup id conjunction
    have opened := ready.nested.openGroup ready.mem conjunction
    rw [FilterTree.livePredicates_of_not_alwaysFalse rfl]
    by_cases left : FilterNode.pruneAll scope.compiler.resolver.lacks children = []
    · -- The group of the entity compiler stays as it is.
      have next : Ready (s.openGroup id conjunction).1 u (s.openGroup id conjunction).2 id' :=
        ⟨ready.alike.openGroup_left id conjunction, opened, ready.nested', inUse, ready.mem'⟩
      have below := addNodes_prune listing (underOr || conjunction = .or) children next
      rw [left] at below
      rw [if_pos (by rw [FilterTree.isEmpty, FilterTree.children_prune _ rfl, left]; rfl)]
      exact .nest_left ready below
    · have inUse' := u.query.conditions.mem_openGroup id' conjunction
      have opened' := ready.nested'.openGroup ready.mem' conjunction
      have next : Ready (s.openGroup id conjunction).1 (u.openGroup id' conjunction).1
          (s.openGroup id conjunction).2 (u.openGroup id' conjunction).2 :=
        ⟨ready.alike.openGroup id id' conjunction, opened, opened', inUse, inUse'⟩
      have below := addNodes_prune listing (underOr || conjunction = .or) children next
      have kept : ¬ (FilterTree.prune scope.compiler.resolver.lacks
          ⟨conjunction, children, false, cache⟩).isEmpty = true := by
        rw [FilterTree.isEmpty, FilterTree.children_prune _ rfl]
        simpa using left
      have walked : scope.strict.addTree (u.openGroup id' conjunction).2 underOr
          (FilterTree.prune scope.compiler.resolver.lacks ⟨conjunction, children, false, cache⟩)
          (u.openGroup id' conjunction).1 =
          scope.strict.addNodes (u.openGroup id' conjunction).2 (underOr || conjunction = .or)
            (FilterNode.pruneAll scope.compiler.resolver.lacks children)
            (u.openGroup id' conjunction).1 := by
        rw [FilterTree.prune, addTree, if_neg Bool.false_ne_true]
      rw [if_neg kept, addNodes_singleton, addNode, FilterTree.alwaysFalse_prune,
        if_neg Bool.false_ne_true, if_neg kept, FilterTree.conjunction_prune, walked]
      exact .nest ready below

/-- Several children are added by both, apart from what was taken away. -/
theorem addNodes_prune {scope : LookupScope} {relationship : Option String}
    (listing : scope.compiler.backend = .listing relationship) {id id' : GroupId}
    (underOr : Bool) : (ns : List FilterNode) → {s u : Progress} → Ready s u id id' →
      SameWork s u id id'
        (((FilterNode.livePredicatesAll ns).filter scope.compiler.resolver.lacks).map
          Predicate.field)
        (scope.addNodes id underOr ns s)
        (scope.strict.addNodes id' underOr
          (FilterNode.pruneAll scope.compiler.resolver.lacks ns) u)
  | [], s, u, ready => .idle ready
  | n :: ns, s, u, ready => by
    have first := addNode_prune listing underOr n ready
    rw [FilterNode.livePredicatesAll, List.filter_append, List.map_append, addNodes,
      FilterNode.pruneAll, addNodes_append]
    generalize scope.addNode id underOr n s = r at first ⊢
    generalize scope.strict.addNodes id' underOr (n.prune scope.compiler.resolver.lacks) u = r'
      at first ⊢
    cases r with
    | error e =>
      cases first with
      | failed cause => exact .failed cause
    | ok s₁ =>
      cases r' with
      | error e => cases first
      | ok u₁ => exact first.trans ready fun next => addNodes_prune listing underOr ns next

end

/-- A whole filter is added by both, apart from what was taken away. -/
theorem addFilter_prune (listing : scope.compiler.backend = .listing relationship)
    {s u : Progress} (ready : Ready s u .root .root) (t : FilterTree) :
    SameWork s u .root .root (scope.compiler.resolver.skips t) (scope.addFilter t s)
      (scope.strict.addFilter (t.prune scope.compiler.resolver.lacks) u) := by
  rw [StorageResolver.skips, addFilter, addFilter, FilterTree.alwaysFalse_prune]
  by_cases never : t.alwaysFalse = true
  · rw [if_pos never, if_pos never, FilterTree.livePredicates_of_alwaysFalse never]
    have falsified := ready.alike.addAlwaysFalse .root .root
    refine .done ⟨falsified.query, ?_⟩ (List.append_nil _).symm (ready.nested.push .root rfl)
      (ready.nested'.push .root rfl) (.push _ .root rfl) (.push _ .root rfl) rfl
    exact congrArg (fun report => { report with alwaysFalse := true }) falsified.report
  · rw [if_neg never, if_neg never]
    have may : t.alwaysFalse = false := by simpa using never
    by_cases hempty : t.isEmpty = true
    · have none : t.children = [] := List.isEmpty_iff.1 hempty
      have left : (t.prune scope.compiler.resolver.lacks).isEmpty = true := by
        rw [FilterTree.isEmpty, FilterTree.children_prune _ may, none]
        rfl
      rw [if_pos hempty, if_pos left, FilterTree.livePredicates_of_not_alwaysFalse may, none]
      exact .done ⟨ready.alike.query, ready.alike.report⟩ (List.append_nil _).symm ready.nested
        ready.nested' (.refl _ .root) (.refl _ .root) rfl
    · rw [if_neg hempty]
      have walked := addTree_prune listing false t may ready
      by_cases left : (t.prune scope.compiler.resolver.lacks).isEmpty = true
      · rw [if_pos left] at walked ⊢
        rw [addNodes] at walked
        exact walked.logAbout _ _
      · rw [if_neg left] at walked ⊢
        rw [addNodes_singleton, addNode, FilterTree.alwaysFalse_prune, if_neg never,
          if_neg left] at walked
        exact walked

end LookupScope

/-! ## Compiles -/

/-- Statements that differ in their conditions, and in these only so that the same is written. -/
theorem Sql.Query.render_eq {q q' : Query}
    (frame : q' = { q with conditions := q'.conditions })
    (parts : q.conditions.rootParts = q'.conditions.rootParts) : q.render = q'.render := by
  have written : q.conditions.render = q'.conditions.render := by
    rw [ConditionSet.render, ConditionSet.render, parts]
  rw [render, render, written, frame]
  rfl

/-- The same work fails for the same cause, or leaves statements that are written alike and
reports the same but for what was left out. -/
theorem Compiled.ofWalk_sameWork {q : Query} (hq : q.conditions.Nested) {skipped : List String}
    {r r' : Except Interrupted Progress}
    (h : SameWork { query := q } { query := q } .root .root skipped r r') :
    (∃ cause, (ofWalk r).outcome = .error cause ∧ (ofWalk r').outcome = .error cause) ∨
      ∃ report : CompileReport, report.skippedFields = [] ∧ (ofWalk r').outcome = .ok report ∧
        (ofWalk r).outcome = .ok { report with skippedFields := skipped } ∧
        (ofWalk r).query.render = (ofWalk r').query.render ∧
        (ofWalk r).query.joins = (ofWalk r').query.joins := by
  cases h with
  | @failed e e' cause =>
    refine .inl ⟨e.cause, rfl, ?_⟩
    rw [cause]
    rfl
  | @done s u items items' alike left nested nested' grown grown' parts =>
    have noted : s.report = { u.report with skippedFields := skipped } := by
      have all : s.report.skippedFields = skipped := left
      rw [alike.report, ← all]
    have written : s.query.conditions.rootParts = u.query.conditions.rootParts := by
      rw [grown.rootParts_eq hq nested, grown'.rootParts_eq hq nested', parts]
    have joined : u.query.joins = s.query.joins := by rw [alike.query]
    refine .inr ⟨u.report, ?_, rfl, congrArg Except.ok noted,
      Query.render_eq alike.query written, joined.symm⟩
    rw [alike.report]

/-- A listing does with a tree what an entity compiler does with the tree from which the
predicates on fields that are not stored were taken away: both fail for the same cause, or they
leave statements that are written alike, with the same joins, and report the same, but for the
fields that the listing left out. -/
theorem Compiler.listing_eq_entity_prune (resolver : StorageResolver) (options : CompileOptions)
    (t : FilterTree) {q : Query} (hq : q.Reachable) (revisionScoped : Bool) :
    (∃ cause,
        (compile ⟨resolver, .listing none, options⟩ t q revisionScoped).outcome = .error cause ∧
        (compile ⟨resolver, .entity, options⟩ (t.prune resolver.lacks) q
          revisionScoped).outcome = .error cause) ∨
      ∃ report : CompileReport, report.skippedFields = [] ∧
        (compile ⟨resolver, .entity, options⟩ (t.prune resolver.lacks) q
          revisionScoped).outcome = .ok report ∧
        (compile ⟨resolver, .listing none, options⟩ t q revisionScoped).outcome =
          .ok { report with skippedFields := resolver.skips t } ∧
        (compile ⟨resolver, .listing none, options⟩ t q revisionScoped).query.render =
          (compile ⟨resolver, .entity, options⟩ (t.prune resolver.lacks) q
            revisionScoped).query.render ∧
        (compile ⟨resolver, .listing none, options⟩ t q revisionScoped).query.joins =
          (compile ⟨resolver, .entity, options⟩ (t.prune resolver.lacks) q
            revisionScoped).query.joins := by
  have ready : Ready { query := q } { query := q } .root .root :=
    ⟨⟨rfl, rfl⟩, hq.nested, hq.nested, hq.root_mem, hq.root_mem⟩
  have listing : (LookupScope.mk ⟨resolver, .listing none, options⟩ q.base
      revisionScoped).compiler.backend = .listing none := rfl
  exact Compiled.ofWalk_sameWork hq.nested (LookupScope.addFilter_prune listing ready t)

/-! ## A field that is not stored -/

/-- Content with a status and no colour. -/
def colourless : TableMapping :=
  (TableMapping.ofTables "node" { baseTable := "node", idKey := "nid" }).withField
    (FieldDefinition.single "status" "value")

/-- Published content, or content of some colour and width, or of another colour. -/
def publishedOrColoured : FilterTree :=
  ((FilterTree.any.add (.tree ((FilterTree.all.add (.leaf (.equals "colour" (.text "red")))).add
    (.leaf (.equals "size.width" (.int 2)))))).add (.leaf (.equals "status" (.bool true)))).add
    (.leaf (.isNull "colour"))

/-- The listing leaves out three predicates, and the group of two of them is written nowhere. -/
theorem Compiler.listing_eq_entity_prune_colourless :
    (Query.listing "node").Reachable ∧
    colourless.resolver.skips publishedOrColoured = ["colour", "size.width", "colour"] ∧
    ∃ report : CompileReport, report.skippedFields = [] ∧
      (compile ⟨colourless.resolver, .entity, {}⟩
        (publishedOrColoured.prune colourless.resolver.lacks) (.listing "node") false).outcome =
        .ok report ∧
      (compile ⟨colourless.resolver, .listing none, {}⟩ publishedOrColoured (.listing "node")
        false).outcome = .ok { report with skippedFields := ["colour", "size.width", "colour"] } ∧
      (compile ⟨colourless.resolver, .listing none, {}⟩ publishedOrColoured (.listing "node")
        false).query.render =
        (compile ⟨colourless.resolver, .entity, {}⟩
          (publishedOrColoured.prune colourless.resolver.lacks) (.listing "node")
          false).query.render := by
  have skipped : colourless.resolver.skips publishedOrColoured =
      ["colour", "size.width", "colour"] := by decide
  refine ⟨.listing "node", skipped, ?_⟩
  rcases listing_eq_entity_prune colourless.resolver {} publishedOrColoured (.listing "node")
    false with ⟨cause, failed, -⟩ | ⟨report, none, entity, listing, written, -⟩
  · cases failed
  · rw [skipped] at listing
    exact ⟨report, none, entity, listing, written⟩

end RowAccess
