import RowAccess.Proofs.Lowering.Anchoring
import RowAccess.Proofs.Lowering.Requests
import RowAccess.Proofs.Sql.Histories

/-!
# The fields that a filter looks up

The fields of several predicates are looked up one after the other, each where the joins stand at
that moment, until one is refused.  What was looked up is kept as a list beside the statement: which
joins were asked for, which column was found, and which clause was made of the predicate.  None of
it depends on the conditions of the statement.

Main results:

- `LookupScope.trail_query`: a statement is asked for joins and not changed otherwise.
- `Lookup.Stands.of_extends`: what was found stays.
- `LookupScope.trail_stands`: a field that was looked up is reached under the column that was found.
-/

namespace RowAccess

open Sql

/-- A statement without its conditions, on which the lookup of a field does not depend. -/
def Sql.Query.bare (q : Query) : Query := { q with conditions := ∅ }

/-! ## Requests for fields -/

/-- The request that is made to reach a field. -/
def Reach.request? : Reach → Option JoinRequest
  | present _ => none
  | byJoin request => some request

/-- Reaching a field makes its request and nothing else. -/
theorem Reach.place_query (reach : Reach) (q : Query) (storage : FieldStorage) :
    (reach.place q storage).1 = q.ensureAll reach.request?.toList := by
  cases reach with
  | present aliasName => rfl
  | byJoin request => rfl

/-- A field is reached in the same way without the conditions. -/
theorem Reach.place_bare (reach : Reach) (q : Query) (storage : FieldStorage) :
    reach.place q.bare storage =
      ((reach.place q storage).1.bare, (reach.place q storage).2) := by
  cases reach with
  | present aliasName => rfl
  | byJoin request => rfl

/-! ## Lookups -/

/-- Why something was refused, if it was. -/
def errorOf {ε α : Type} : Except ε α → Option ε
  | .ok _ => none
  | .error e => some e

theorem eq_ok_of_toOption {ε α : Type} {x : Except ε α} {a : α} (h : x.toOption = some a) :
    x = .ok a := by
  cases x with
  | ok b => rw [Option.some.inj h]
  | error e => cases h

/-- A predicate whose field was looked up. -/
structure Lookup where
  /-- Where the field was looked up. -/
  scope : LookupScope
  predicate : Predicate
  /-- The join that was asked for to reach it, if any. -/
  request : Option JoinRequest
  /-- The column that was found. -/
  column : String
  /-- The clause that the predicate became, unless its operand was refused. -/
  clause : Option Clause

/-- What came of several predicates, up to the first that is refused. -/
structure Trail where
  /-- The statement, without its conditions. -/
  query : Query
  lookups : List Lookup := []
  /-- Why the last predicate was refused. -/
  failure : Option CompileError := none

namespace Trail

/-- The requests that were made, in order. -/
def requests (t : Trail) : List JoinRequest := t.lookups.filterMap Lookup.request

/-- The clauses that were made, in order. -/
def clauses (t : Trail) : List Clause := t.lookups.filterMap Lookup.clause

/-- Goes on where nothing was refused. -/
def andThen (t : Trail) (next : Query → Trail) : Trail :=
  match t.failure with
  | some _ => t
  | none =>
    ⟨(next t.query).query, t.lookups ++ (next t.query).lookups, (next t.query).failure⟩

theorem andThen_of_some {t : Trail} {e : CompileError} (h : t.failure = some e)
    (next : Query → Trail) : t.andThen next = t := by
  rw [andThen, h]

theorem andThen_of_none {t : Trail} (h : t.failure = none) (next : Query → Trail) :
    t.andThen next =
      ⟨(next t.query).query, t.lookups ++ (next t.query).lookups, (next t.query).failure⟩ := by
  rw [andThen, h]

/-- The clauses of further predicates come behind. -/
theorem clauses_andThen {t : Trail} (h : t.failure = none) (next : Query → Trail) :
    (t.andThen next).clauses = t.clauses ++ (next t.query).clauses := by
  rw [andThen_of_none h]
  exact List.filterMap_append

/-- The requests for further predicates come behind. -/
theorem requests_andThen {t : Trail} (h : t.failure = none) (next : Query → Trail) :
    (t.andThen next).requests = t.requests ++ (next t.query).requests := by
  rw [andThen_of_none h]
  exact List.filterMap_append

theorem andThen_assoc (t : Trail) (next later : Query → Trail) :
    (t.andThen next).andThen later = t.andThen fun q => (next q).andThen later := by
  cases h : t.failure with
  | some e => rw [andThen_of_some h, andThen_of_some h, andThen_of_some h]
  | none =>
    rw [andThen_of_none h, andThen_of_none h]
    cases hnext : (next t.query).failure with
    | some e => simp [andThen, hnext]
    | none => simp [andThen, hnext, List.append_assoc]

end Trail

namespace LookupScope

variable (scope : LookupScope)

/-- How the table of a field is reached. -/
abbrev reach (q : Query) (storage : FieldStorage) (kind : JoinKind) : Reach :=
  Reach.of q scope.compiler.resolver.tables storage scope.anchor scope.revisionScoped kind

/-- Looks up the field of a predicate, which is stored, and makes its clause. -/
def lookUpStored (o : Occurrence) (storage : FieldStorage) (q : Query) : Trail :=
  let reach := scope.reach q storage (joinKind o.underOr o.predicate.op)
  let placed := reach.place q storage
  let made := Lowering.clause o.predicate placed.2.column storage.caseSensitive
    scope.compiler.options
  { query := placed.1
    lookups := [⟨scope, o.predicate, reach.request?, placed.2.column, made.toOption⟩]
    failure := errorOf made }

/-- Looks up the field of a predicate and makes its clause. -/
def lookUp (o : Occurrence) (q : Query) : Trail :=
  match o.predicate.path with
  | .error e => { query := q, failure := some (.filter e) }
  | .ok path =>
    match scope.compiler.resolver.storage? path.field path.property with
    | some storage => scope.lookUpStored o storage q
    | none =>
      match scope.compiler.backend with
      | .entity => { query := q, failure := some (.unknownField path.display) }
      | .listing _ => { query := q }

/-- The field of a predicate is stored, or the predicate is left out, or it is refused before
anything was asked for. -/
theorem lookUp_cases (o : Occurrence) (q : Query) :
    (∃ path storage, o.predicate.path = .ok path ∧
      scope.compiler.resolver.storage? path.field path.property = some storage ∧
        scope.lookUp o q = scope.lookUpStored o storage q) ∨
    (∃ path relationship, o.predicate.path = .ok path ∧
      scope.compiler.resolver.storage? path.field path.property = none ∧
        scope.compiler.backend = .listing relationship ∧ scope.lookUp o q = { query := q }) ∨
    ∃ e, (∀ field op, e ≠ .invalidOperand field op) ∧
      scope.lookUp o q = { query := q, failure := some e } := by
  rw [lookUp]
  cases hpath : o.predicate.path with
  | error e => exact .inr (.inr ⟨.filter e, by simp, rfl⟩)
  | ok path =>
    simp only
    cases hstorage : scope.compiler.resolver.storage? path.field path.property with
    | some storage => exact .inl ⟨path, storage, rfl, hstorage, rfl⟩
    | none =>
      simp only
      cases hbackend : scope.compiler.backend with
      | entity => exact .inr (.inr ⟨.unknownField path.display, by simp, rfl⟩)
      | listing relationship =>
        exact .inr (.inl ⟨path, relationship, rfl, hstorage, rfl, rfl⟩)

/-- Looks up the fields of several predicates, one after the other. -/
def trail : List Occurrence → Query → Trail
  | [], q => { query := q }
  | o :: os, q => (scope.lookUp o q).andThen (trail os)

theorem trail_singleton (o : Occurrence) (q : Query) :
    scope.trail [o] q = scope.lookUp o q := by
  rw [trail]
  cases h : (scope.lookUp o q).failure with
  | some e => rw [Trail.andThen_of_some h]
  | none =>
    rw [Trail.andThen_of_none h, trail, List.append_nil, ← h]

theorem trail_append (os more : List Occurrence) (q : Query) :
    scope.trail (os ++ more) q = (scope.trail os q).andThen (scope.trail more) := by
  induction os generalizing q with
  | nil => rfl
  | cons o os ih =>
    rw [List.cons_append, trail, trail, Trail.andThen_assoc]
    congr 1
    funext next
    exact ih next

/-! ## What was looked up -/

/-- A predicate whose field is stored makes the request to reach the field. -/
theorem requests_lookUpStored (o : Occurrence) (storage : FieldStorage) (q : Query) :
    (scope.lookUpStored o storage q).requests =
      (scope.reach q storage (joinKind o.underOr o.predicate.op)).request?.toList := by
  rw [lookUpStored, Trail.requests, List.filterMap_cons]
  cases (scope.reach q storage (joinKind o.underOr o.predicate.op)).request? <;> rfl

/-- A predicate makes its request and no other. -/
theorem lookUp_query (o : Occurrence) (q : Query) :
    (scope.lookUp o q).query = q.ensureAll (scope.lookUp o q).requests := by
  rcases scope.lookUp_cases o q with ⟨path, storage, -, -, looked⟩ | ⟨-, -, -, -, -, looked⟩ |
    ⟨e, -, looked⟩
  · rw [looked, requests_lookUpStored]
    exact Reach.place_query _ q storage
  · rw [looked]
    rfl
  · rw [looked]
    rfl

/-- Several predicates make their requests and no other. -/
theorem trail_query (os : List Occurrence) (q : Query) :
    (scope.trail os q).query = q.ensureAll (scope.trail os q).requests := by
  induction os generalizing q with
  | nil => rfl
  | cons o os ih =>
    rw [trail]
    cases h : (scope.lookUp o q).failure with
    | some e =>
      rw [Trail.andThen_of_some h]
      exact scope.lookUp_query o q
    | none =>
      rw [Trail.requests_andThen h, Query.ensureAll_append, ← lookUp_query, ← ih,
        Trail.andThen_of_none h]

end LookupScope

/-- What holds of a predicate whose field was looked up: the field is stored, in the statement it
is reached under the column that was found, and the clause is that of the predicate on this
column. -/
structure Lookup.Stands (l : Lookup) (q : Query) : Prop where
  reached : ∃ path storage aliasName, l.predicate.path = .ok path ∧
    l.scope.compiler.resolver.storage? path.field path.property = some storage ∧
      l.scope.Reaches q storage aliasName ∧ l.column = Text.qualify aliasName storage.column
  /-- What is asked for hangs off the anchor. -/
  request : ∀ r ∈ l.request, ∃ key, r.left = l.scope.anchor.column key
  clause : ∀ c ∈ l.clause, ∃ caseSensitive,
    Lowering.clause l.predicate l.column caseSensitive l.scope.compiler.options = .ok c

namespace Lookup.Stands

variable {l : Lookup} {q q' : Query}

/-- What was found stays. -/
theorem of_extends (h : l.Stands q) (hx : q.joins.Extends q'.joins) : l.Stands q' where
  reached := by
    obtain ⟨path, storage, aliasName, hpath, hstorage, reach, column⟩ := h.reached
    exact ⟨path, storage, aliasName, hpath, hstorage, reach.of_extends hx, column⟩
  request := h.request
  clause := h.clause

/-- The clause is about the column that was found. -/
theorem column_clause (h : l.Stands q) {c : Clause} (hc : c ∈ l.clause) : c.column = l.column := by
  obtain ⟨_, made⟩ := h.clause c hc
  exact Lowering.column_of_clause made

end Lookup.Stands

/-- Whatever is asked for to reach a field hangs off the anchor. -/
theorem Reach.left_of_request {q : Query} {tables : EntityTables} {storage : FieldStorage}
    {anchor : Anchor} {revisionScoped : Bool} {kind : JoinKind} {r : JoinRequest}
    (h : (Reach.of q tables storage anchor revisionScoped kind).request? = some r) :
    ∃ key, r.left = anchor.column key := by
  rw [Reach.of] at h
  split at h
  next =>
    obtain rfl := Option.some.inj h
    exact ⟨_, rfl⟩
  next =>
    simp only at h
    split at h
    next => cases h
    next =>
      split at h
      next => cases h
      next =>
        obtain rfl := Option.some.inj h
        exact ⟨_, rfl⟩

namespace LookupScope

variable (scope : LookupScope)

/-- The field of a predicate stands where it was looked up. -/
theorem lookUp_stands (o : Occurrence) (q : Query) :
    ∀ l ∈ (scope.lookUp o q).lookups, l.scope = scope ∧ l.Stands (scope.lookUp o q).query := by
  rcases scope.lookUp_cases o q with ⟨path, storage, hpath, hstorage, looked⟩ |
    ⟨-, -, -, -, -, looked⟩ | ⟨e, -, looked⟩
  · rw [looked]
    intro l hl
    obtain rfl := List.mem_singleton.1 hl
    obtain ⟨aliasName, column, reach⟩ :=
      scope.reaches_place q storage (joinKind o.underOr o.predicate.op)
    refine ⟨rfl, ⟨path, storage, aliasName, hpath, hstorage, reach, column⟩, ?_, ?_⟩
    · intro r hr
      exact Reach.left_of_request hr
    · intro c hc
      exact ⟨storage.caseSensitive, eq_ok_of_toOption hc⟩
  · rw [looked]
    exact List.forall_mem_nil _
  · rw [looked]
    exact List.forall_mem_nil _

/-- The fields of several predicates stand where they were looked up. -/
theorem trail_stands (os : List Occurrence) (q : Query) :
    ∀ l ∈ (scope.trail os q).lookups, l.scope = scope ∧ l.Stands (scope.trail os q).query := by
  induction os generalizing q with
  | nil => exact List.forall_mem_nil _
  | cons o os ih =>
    rw [trail]
    cases h : (scope.lookUp o q).failure with
    | some e =>
      rw [Trail.andThen_of_some h]
      exact scope.lookUp_stands o q
    | none =>
      rw [Trail.andThen_of_none h]
      intro l hl
      rcases List.mem_append.1 hl with first | rest
      · obtain ⟨own, stands⟩ := scope.lookUp_stands o q l first
        refine ⟨own, stands.of_extends ?_⟩
        rw [trail_query]
        exact Query.extends_ensureAll _ _
      · exact ih (scope.lookUp o q).query l rest

end LookupScope

end RowAccess
