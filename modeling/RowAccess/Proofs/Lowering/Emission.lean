import RowAccess.Proofs.Lowering.Reporting

/-!
# How far a compile gets

A compile goes through the predicates of a filter until one is refused.  The predicates in front of
that one become clauses of the statement, as they would in a compile that succeeds; those behind it
become nothing.  So what is known of the clause of a predicate is known of every clause that a
compile adds, whether it succeeds or not.

Main results:

- `LookupScope.exists_emits_trail`: the predicates that were got to have their clauses.
- `LookupScope.exists_stores_of_mem_requests`: a join is asked for by a predicate on a stored field.
- `Compiler.exists_emits_compile`: so it is for a compile.
-/

namespace RowAccess

open Sql

namespace LookupScope

variable {scope : LookupScope}

/-! ## One predicate -/

/-- A predicate that is not refused has its clauses. -/
theorem emits_lookUp {o : Occurrence} {q : Query} (h : (scope.lookUp o q).failure = none) :
    scope.Emits (scope.lookUp o q).query o.predicate (scope.lookUp o q).clauses := by
  rcases scope.lookUp_cases o q with ⟨path, storage, hpath, hstorage, looked⟩ |
    ⟨path, relationship, hpath, hstorage, hbackend, looked⟩ | ⟨e, -, looked⟩
  · rw [looked, lookUpStored] at h ⊢
    obtain ⟨aliasName, column, reach⟩ :=
      scope.reaches_place q storage (joinKind o.underOr o.predicate.op)
    simp only [column] at h ⊢
    cases hclause : Lowering.clause o.predicate (Text.qualify aliasName storage.column)
        storage.caseSensitive scope.compiler.options with
    | error e => simp [hclause, errorOf] at h
    | ok c => exact .stored hpath hstorage reach hclause
  · rw [looked]
    exact .skipped hpath hstorage hbackend
  · rw [looked] at h
    cases h

/-- A predicate that is refused has no clause. -/
theorem clauses_lookUp_of_failure {o : Occurrence} {q : Query} {e : CompileError}
    (h : (scope.lookUp o q).failure = some e) : (scope.lookUp o q).clauses = [] := by
  rcases scope.lookUp_cases o q with ⟨path, storage, -, -, looked⟩ | ⟨-, -, -, -, -, looked⟩ |
    ⟨e', -, looked⟩
  · rw [looked, lookUpStored] at h ⊢
    generalize Lowering.clause o.predicate _ storage.caseSensitive scope.compiler.options = made
      at h ⊢
    cases made with
    | ok c => cases h
    | error e => rfl
  · rw [looked]
    rfl
  · rw [looked]
    rfl

/-- A predicate asks for the join of its field, which is stored. -/
theorem exists_stores_of_mem_requests_lookUp {o : Occurrence} {q : Query} {r : JoinRequest}
    (h : r ∈ (scope.lookUp o q).requests) :
    ∃ storage, scope.Stores o.predicate storage ∧
      (scope.reach q storage (joinKind o.underOr o.predicate.op)).request? = some r := by
  rcases scope.lookUp_cases o q with ⟨path, storage, hpath, hstorage, looked⟩ |
    ⟨-, -, -, -, -, looked⟩ | ⟨e, -, looked⟩
  · rw [looked, requests_lookUpStored, Option.mem_toList] at h
    exact ⟨storage, ⟨path, hpath, hstorage⟩, h⟩
  · rw [looked] at h
    cases h
  · rw [looked] at h
    cases h

/-! ## Several predicates -/

variable (scope)

/-- The predicates up to the one that is refused have their clauses. -/
theorem exists_emits_trail (os : List Occurrence) (q : Query) :
    ∃ handled rest emitted, os.map Occurrence.predicate = handled ++ rest ∧
      ((scope.trail os q).failure = none → rest = []) ∧
      (scope.trail os q).clauses = emitted.flatten ∧
      List.Forall₂ (scope.Emits (scope.trail os q).query) handled emitted := by
  induction os generalizing q with
  | nil => exact ⟨[], [], [], rfl, fun _ => rfl, rfl, .nil⟩
  | cons o os ih =>
    rw [trail]
    cases h : (scope.lookUp o q).failure with
    | some e =>
      rw [Trail.andThen_of_some h]
      refine ⟨[], (o :: os).map Occurrence.predicate, [], rfl, ?_, ?_, .nil⟩
      · intro succeeded
        rw [h] at succeeded
        cases succeeded
      · exact clauses_lookUp_of_failure h
    | none =>
      obtain ⟨handled, rest, emitted, split, complete, clauses, each⟩ :=
        ih (scope.lookUp o q).query
      have kept : (scope.lookUp o q).query.joins.Extends
          (scope.trail os (scope.lookUp o q).query).query.joins := by
        rw [trail_query scope os]
        exact Query.extends_ensureAll _ _
      refine ⟨o.predicate :: handled, rest, (scope.lookUp o q).clauses :: emitted, ?_, ?_, ?_, ?_⟩
      · rw [List.map_cons, split, List.cons_append]
      · rw [Trail.andThen_of_none h]
        exact complete
      · rw [Trail.clauses_andThen h, clauses, List.flatten_cons]
      · rw [Trail.andThen_of_none h]
        exact .cons ((emits_lookUp h).of_extends kept) each

/-- What is refused is refused for one of the predicates. -/
theorem exists_failure_of_trail {e : CompileError} (os : List Occurrence) (q : Query)
    (h : (scope.trail os q).failure = some e) :
    ∃ o ∈ os, ∃ q', (scope.lookUp o q').failure = some e := by
  induction os generalizing q with
  | nil => cases h
  | cons o os ih =>
    rw [trail] at h
    cases hfirst : (scope.lookUp o q).failure with
    | some e' =>
      rw [Trail.andThen_of_some hfirst] at h
      exact ⟨o, by simp, q, h⟩
    | none =>
      rw [Trail.andThen_of_none hfirst] at h
      obtain ⟨o', ho', refused⟩ := ih _ h
      exact ⟨o', by simp [ho'], refused⟩

/-- A join is asked for by a predicate on a stored field, where the joins stand at that moment. -/
theorem exists_stores_of_mem_requests (os : List Occurrence) (q : Query) :
    ∀ r ∈ (scope.trail os q).requests, ∃ o ∈ os, ∃ storage q', scope.Stores o.predicate storage ∧
      (scope.reach q' storage (joinKind o.underOr o.predicate.op)).request? = some r := by
  induction os generalizing q with
  | nil => simp [trail, Trail.requests]
  | cons o os ih =>
    intro r hr
    rw [trail] at hr
    have own (hr : r ∈ (scope.lookUp o q).requests) : ∃ o' ∈ o :: os, ∃ storage q',
        scope.Stores o'.predicate storage ∧
          (scope.reach q' storage (joinKind o'.underOr o'.predicate.op)).request? = some r := by
      obtain ⟨storage, stored, asked⟩ := exists_stores_of_mem_requests_lookUp hr
      exact ⟨o, by simp, storage, q, stored, asked⟩
    cases h : (scope.lookUp o q).failure with
    | some e =>
      rw [Trail.andThen_of_some h] at hr
      exact own hr
    | none =>
      rw [Trail.requests_andThen h] at hr
      rcases List.mem_append.1 hr with first | later
      · exact own first
      · obtain ⟨o', ho', found⟩ := ih _ r later
        exact ⟨o', by simp [ho'], found⟩

end LookupScope

/-! ## Compiles -/

namespace Compiler

variable (c : Compiler) (t : FilterTree) (revisionScoped : Bool)

/-- A compile adds the clauses of the predicates up to the one that is refused, if any. -/
theorem exists_emits_compile {q : Query} (hq : q.conditions.Nested) :
    ∃ handled rest emitted, t.livePredicates = handled ++ rest ∧
      (errorOf (c.compile t q revisionScoped).outcome = none → rest = []) ∧
      (c.compile t q revisionScoped).query.conditions.depthFirstClauses =
        q.conditions.depthFirstClauses ++ emitted.flatten ∧
      List.Forall₂ (fun p clauses => ∃ anchor, c.anchor q = .ok anchor ∧
        LookupScope.Emits ⟨c, anchor, revisionScoped⟩ (c.compile t q revisionScoped).query p
          clauses) handled emitted := by
  have joins := congrArg Query.joins (c.bare_compile t q revisionScoped)
  rw [errorOf_compile, c.depthFirstClauses_compile t revisionScoped hq]
  rw [trail] at joins ⊢
  cases ha : c.anchor q with
  | error e =>
    refine ⟨[], t.livePredicates, [], rfl, ?_, rfl, .nil⟩
    simp
  | ok anchor =>
    simp only [ha] at joins ⊢
    obtain ⟨handled, rest, emitted, split, complete, clauses, each⟩ :=
      LookupScope.exists_emits_trail ⟨c, anchor, revisionScoped⟩ (t.occurrences false) q.bare
    rw [FilterTree.map_predicate_occurrences] at split
    refine ⟨handled, rest, emitted, split, complete, by rw [clauses], ?_⟩
    refine each.imp fun p clauses emits => ⟨anchor, rfl, emits.of_extends ?_⟩
    rw [← joins]
    exact .refl _

/-- A join is asked for by a predicate of the filter on a stored field. -/
theorem exists_stores_of_mem_requests {q : Query} {r : JoinRequest}
    (h : r ∈ (c.trail t q revisionScoped).requests) :
    ∃ anchor, c.anchor q = .ok anchor ∧ ∃ o ∈ t.occurrences false, ∃ storage q',
      LookupScope.Stores ⟨c, anchor, revisionScoped⟩ o.predicate storage ∧
        (LookupScope.reach ⟨c, anchor, revisionScoped⟩ q' storage
          (LookupScope.joinKind o.underOr o.predicate.op)).request? = some r := by
  rw [trail] at h
  cases ha : c.anchor q with
  | error e => simp [ha, Trail.requests] at h
  | ok anchor =>
    simp only [ha] at h
    exact ⟨anchor, rfl, LookupScope.exists_stores_of_mem_requests _ _ _ r h⟩

end Compiler

end RowAccess
