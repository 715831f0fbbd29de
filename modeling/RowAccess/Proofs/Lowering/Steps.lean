import RowAccess.Lowering.Compiler
import RowAccess.Proofs.Sql.Reachable

/-!
# What a compile does to a statement

A compile registers joins, opens groups and adds clauses and the false condition to groups that
are there.  A property of statements that these preserve therefore holds afterwards if it held
before, whether the compile ended well or with an error.

Main results:

- `LookupScope.addNodes_kept`: the walk over the children of a tree keeps such a property.
- `Compiler.compile_kept`: so does a compile.
- `Compiler.compile_stable`: it keeps what a caller keeps.
- `Compiler.compile_reachable`: a compile leads from reachable statements to reachable ones.
-/

namespace RowAccess

open Sql

/-- How far a statement had come when the work on it ended, well or not. -/
def Progress.atEnd : Except Interrupted Progress → Progress
  | .ok s => s
  | .error e => e.progress

theorem Compiled.query_ofWalk (r : Except Interrupted Progress) :
    (Compiled.ofWalk r).query = (Progress.atEnd r).query := by
  cases r with
  | ok s => rfl
  | error e => rfl

/-- Noting a join in the report leaves the statement alone. -/
@[simp] theorem Progress.query_noteJoin (s : Progress) (join : Option String) :
    (s.noteJoin join).query = s.query := by
  cases join with
  | none => rfl
  | some aliasName => rfl

/-- Reaching a field does not touch the conditions. -/
theorem Reach.conditions_place (reach : Reach) (q : Query) (storage : FieldStorage) :
    (reach.place q storage).1.conditions = q.conditions := by
  cases reach with
  | present aliasName => rfl
  | byJoin request => rfl

namespace LookupScope

variable {P : Query → Prop}

/-! ## Single steps -/

/-- Reaching a field requests a join at most. -/
theorem place_kept (hP : Query.Kept P) {s : Progress} (hs : P s.query)
    (storage : FieldStorage) (reach : Reach) : P (s.place storage reach).1.query := by
  cases reach with
  | present aliasName => exact hs
  | byJoin request => exact hP.ensureJoin s.query request hs

/-- A predicate adds a clause at most, after its field was reached. -/
theorem addPredicate_kept (hP : Query.Kept P) (scope : LookupScope) {id : GroupId}
    {s : Progress} (hid : id ∈ s.query.conditions) (hs : P s.query) (underOr : Bool)
    (p : Predicate) :
    P (Progress.atEnd (scope.addPredicate id underOr p s)).query := by
  rw [addPredicate]
  split
  next => exact hs
  next path _ =>
    split
    next storage _ =>
      have placed := place_kept hP hs storage
        (Reach.of s.query scope.compiler.resolver.tables storage scope.anchor
          scope.revisionScoped (joinKind underOr p.op))
      rw [addStored]
      split
      next c _ =>
        rw [Progress.atEnd, Progress.query_noteJoin]
        refine hP.clause _ id c placed ?_
        rw [Progress.place, Reach.conditions_place]
        exact hid
      next => exact placed
    next =>
      split
      next => exact hs
      next => exact hs

/-! ## The walk -/

mutual

/-- The walk over a tree keeps a property. -/
theorem addTree_kept {P : Query → Prop} (hP : Query.Kept P) (scope : LookupScope)
    {id : GroupId} (hid : ∀ q, P q → id ∈ q.conditions) (underOr : Bool) :
    (t : FilterTree) → (s : Progress) → P s.query →
      P (Progress.atEnd (scope.addTree id underOr t s)).query
  | ⟨_, children, _, _⟩, s, hs => addNodes_kept hP scope hid _ children s hs

/-- The walk over a child keeps a property. -/
theorem addNode_kept {P : Query → Prop} (hP : Query.Kept P) (scope : LookupScope)
    {id : GroupId} (hid : ∀ q, P q → id ∈ q.conditions) (underOr : Bool) :
    (n : FilterNode) → (s : Progress) → P s.query →
      P (Progress.atEnd (scope.addNode id underOr n s)).query
  | .leaf p, s, hs => addPredicate_kept hP scope (hid _ hs) hs underOr p
  | .tree t, s, hs => by
    rw [addNode]
    split
    next => exact hP.alwaysFalse _ id hs (hid _ hs)
    next =>
      split
      next => exact hs
      next =>
        -- The number of the group that is opened stays in use for the work below it.
        have opened := hP.openGroup _ id t.conjunction hs (hid _ hs)
        have inUse := s.query.conditions.mem_openGroup id t.conjunction
        have kept := addTree_kept (hP.and (Query.stable_mem _).kept) scope (fun _ hq => hq.2)
          underOr t (s.openGroup id t.conjunction).1 ⟨opened, inUse⟩
        exact kept.1

/-- The walk over several children keeps a property. -/
theorem addNodes_kept {P : Query → Prop} (hP : Query.Kept P) (scope : LookupScope)
    {id : GroupId} (hid : ∀ q, P q → id ∈ q.conditions) (underOr : Bool) :
    (ns : List FilterNode) → (s : Progress) → P s.query →
      P (Progress.atEnd (scope.addNodes id underOr ns s)).query
  | [], _, hs => hs
  | n :: ns, s, hs => by
    have first := addNode_kept hP scope hid underOr n s hs
    rw [addNodes]
    split
    next s' heq =>
      rw [heq] at first
      exact addNodes_kept hP scope hid underOr ns s' first
    next e heq =>
      rw [heq] at first
      exact first

end

/-- A whole filter is added as a child of the root is, apart from what is reported. -/
theorem addFilter_eq_or (scope : LookupScope) (t : FilterTree) (s : Progress) :
    scope.addFilter t s = scope.addNode .root false (.tree t) s ∨
      ∃ s₁ s₂, scope.addFilter t s = .ok s₁ ∧
        scope.addNode .root false (.tree t) s = .ok s₂ ∧ s₁.query = s₂.query := by
  rw [addFilter, addNode]
  split
  next => exact .inr ⟨_, _, rfl, rfl, rfl⟩
  next =>
    split
    next => exact .inr ⟨_, _, rfl, rfl, rfl⟩
    next => exact .inl rfl

/-- Adding a whole filter keeps a property. -/
theorem addFilter_kept (hP : Query.Kept P) (scope : LookupScope) {s : Progress}
    (hroot : GroupId.root ∈ s.query.conditions) (hs : P s.query) (t : FilterTree) :
    P (Progress.atEnd (scope.addFilter t s)).query := by
  have kept := addNode_kept (hP.and (Query.stable_mem .root).kept) scope (fun _ hq => hq.2) false
    (.tree t) s ⟨hs, hroot⟩
  rcases scope.addFilter_eq_or t s with same | ⟨s₁, s₂, hfilter, hnode, same⟩
  · rw [same]
    exact kept.1
  · rw [hnode] at kept
    rw [hfilter, Progress.atEnd, same]
    exact kept.1

/-! ## Stable properties -/

/-- The walk over a child keeps a stable property. -/
theorem addNode_stable (hP : Query.Stable P) (scope : LookupScope) {id : GroupId}
    (hid : ∀ q, P q → id ∈ q.conditions) (underOr : Bool) (n : FilterNode) (s : Progress)
    (hs : P s.query) : P (Progress.atEnd (scope.addNode id underOr n s)).query :=
  addNode_kept hP.kept scope hid underOr n s hs

/-- The walk over several children keeps a stable property. -/
theorem addNodes_stable (hP : Query.Stable P) (scope : LookupScope) {id : GroupId}
    (hid : ∀ q, P q → id ∈ q.conditions) (underOr : Bool) (ns : List FilterNode) (s : Progress)
    (hs : P s.query) : P (Progress.atEnd (scope.addNodes id underOr ns s)).query :=
  addNodes_kept hP.kept scope hid underOr ns s hs

end LookupScope

/-! ## Compiles -/

namespace Compiler

/-- A compile keeps a property that its steps preserve, also when it fails. -/
theorem compile_kept {P : Query → Prop} (hP : Query.Kept P) (c : Compiler) (t : FilterTree)
    {q : Query} (hroot : GroupId.root ∈ q.conditions) (hq : P q) (revisionScoped : Bool) :
    P (c.compile t q revisionScoped).query := by
  rw [compile]
  split
  next => exact hq
  next anchor _ =>
    rw [Compiled.query_ofWalk]
    have start : GroupId.root ∈ (Progress.mk q {} []).query.conditions := hroot
    exact LookupScope.addFilter_kept hP ⟨c, anchor, revisionScoped⟩ start hq t

/-- A compile keeps a stable property, also when it fails. -/
theorem compile_stable {P : Query → Prop} (hP : Query.Stable P) (c : Compiler) (t : FilterTree)
    {q : Query} (hroot : GroupId.root ∈ q.conditions) (hq : P q) (revisionScoped : Bool) :
    P (c.compile t q revisionScoped).query :=
  c.compile_kept hP.kept t hroot hq revisionScoped

/-- A compile leads from reachable statements to reachable ones, also when it fails. -/
theorem compile_reachable (c : Compiler) (t : FilterTree) {q : Query} (hq : q.Reachable)
    (revisionScoped : Bool) : (c.compile t q revisionScoped).query.Reachable :=
  c.compile_stable Query.stable_reachable t hq.root_mem hq revisionScoped

end Compiler

end RowAccess
