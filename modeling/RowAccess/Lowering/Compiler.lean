import RowAccess.Lowering.Operand
import RowAccess.Lowering.Placement
import RowAccess.Filter.Tree

/-!
# Putting a filter into a statement

A compiler walks a filter tree and adds what it says to a statement: a group for each tree,
a clause for each predicate, a false condition for each tree that admits nothing, and the
joins that reach the fields.  An entity compiler refuses a field that is not stored; a
listing compiler leaves its predicate out and says so, and it can look fields up from a
relationship of the statement.

A join keeps rows without a partner when the predicate it is for must not drop them: under
an OR, where another predicate may admit them, and for null checks.

An error leaves the statement as far as it had come.

Main results:

- `Compiler.compile_alwaysFalse`: a tree that admits nothing adds the false condition to the
  root and nothing else.
- `Compiler.compile_unrestricted`: a tree without children leaves the statement as it is.
-/

namespace RowAccess

open Sql

/-! ## Reports -/

/-- What a compile added to a statement. -/
structure CompileReport where
  /-- The number of clauses and raw conditions. -/
  clauses : Nat := 0
  /-- The aliases of the joins that were needed, in the order of first use. -/
  joins : List String := []
  /-- The field references that were left out. -/
  skippedFields : List String := []
  alwaysFalse : Bool := false
  deriving DecidableEq

namespace CompileReport

/-- Whether no restriction was added. -/
def isUnrestricted (r : CompileReport) : Bool := r.clauses = 0 && !r.alwaysFalse

/-- Counts one more clause or raw condition. -/
def countClause (r : CompileReport) : CompileReport := { r with clauses := r.clauses + 1 }

/-- Notes the alias of a join, once. -/
def noteJoin (r : CompileReport) (aliasName : String) : CompileReport :=
  if aliasName ∈ r.joins then r else { r with joins := r.joins ++ [aliasName] }

/-- Notes that a field was left out. -/
def skip (r : CompileReport) (field : String) : CompileReport :=
  { r with skippedFields := r.skippedFields ++ [field] }

end CompileReport

/-! ## Compilers -/

/-- What becomes of fields that are not stored, and where fields are looked up from. -/
inductive Backend where
  /-- Every field must be stored, and fields are looked up from the base. -/
  | entity
  /-- Fields that are not stored are left out; fields are looked up from a relationship, or
  from the base. -/
  | listing (relationship : Option String)
  deriving DecidableEq

/-- Something that puts filters into statements. -/
structure Compiler where
  resolver : StorageResolver
  backend : Backend
  options : CompileOptions := {}

/-- The relationship that fields are looked up from. -/
def Compiler.relationship? (c : Compiler) : Option String :=
  match c.backend with
  | .entity => none
  | .listing relationship => relationship

/-- Makes a listing compiler look fields up from a relationship. -/
def Compiler.withRelationship (c : Compiler) (name : String) : Compiler :=
  { c with backend := .listing (some name) }

/-! ## Progress -/

/-- A statement while a filter is being added, with what was added so far. -/
structure Progress where
  query : Query
  report : CompileReport := {}
  log : List LogRecord := []

namespace Progress

/-- Adds a clause to a group. -/
def addClause (s : Progress) (id : GroupId) (c : Clause) : Progress :=
  { s with
    query := s.query.pushCondition id (.clause c)
    report := s.report.countClause }

/-- Adds the false condition to a group. -/
def addAlwaysFalse (s : Progress) (id : GroupId) : Progress :=
  { s with
    query := s.query.pushCondition id (.expression alwaysFalse)
    report := s.report.countClause }

/-- Opens a group under a group. -/
def openGroup (s : Progress) (parent : GroupId) (conjunction : Conjunction) :
    Progress × GroupId :=
  let opened := s.query.openGroup parent conjunction
  ({ s with query := opened.1 }, opened.2)

/-- Makes the column of a field reachable. -/
def place (s : Progress) (storage : FieldStorage) (reach : Reach) : Progress × Placement :=
  let placed := reach.place s.query storage
  ({ s with
      query := placed.1
      log := s.log ++ JoinSet.recordsSince s.query.joins placed.1.joins },
    placed.2)

/-- Notes the join that a clause needed. -/
def noteJoin (s : Progress) : Option String → Progress
  | some aliasName => { s with report := s.report.noteJoin aliasName }
  | none => s

/-- Adds a journal record about the base table. -/
def logAbout (s : Progress) (event : String) (details : List (String × String)) : Progress :=
  { s with log := s.log ++ [⟨.debug, event, details ++ [("table", s.query.table)]⟩] }

/-- Leaves a field out. -/
def skip (s : Progress) (field : String) : Progress :=
  let s := s.logAbout "compile.skip_field" [("field", field)]
  { s with report := s.report.skip field }

end Progress

/-- An error and how far the statement had come. -/
structure Interrupted where
  cause : CompileError
  progress : Progress

/-! ## The walk -/

/-- What stays the same during a compile. -/
structure LookupScope where
  compiler : Compiler
  /-- Where fields are looked up from. -/
  anchor : Anchor
  revisionScoped : Bool

namespace LookupScope

/-- Whether a join for a predicate must keep rows without a partner. -/
def joinKind (underOr : Bool) (op : Comparison) : JoinKind :=
  if underOr || op.isNullCheck then .left else .inner

/-- Adds a predicate whose field is stored. -/
def addStored (scope : LookupScope) (id : GroupId) (underOr : Bool) (p : Predicate)
    (storage : FieldStorage) (s : Progress) : Except Interrupted Progress :=
  let reach := Reach.of s.query scope.compiler.resolver.tables storage scope.anchor
    scope.revisionScoped (joinKind underOr p.op)
  let placed := s.place storage reach
  match Lowering.clause p placed.2.column storage.caseSensitive scope.compiler.options with
  | .ok c => .ok ((placed.1.addClause id c).noteJoin placed.2.join)
  | .error cause => .error ⟨cause, placed.1⟩

/-- Adds a predicate to a group. -/
def addPredicate (scope : LookupScope) (id : GroupId) (underOr : Bool) (p : Predicate)
    (s : Progress) : Except Interrupted Progress :=
  match p.path with
  | .error e => .error ⟨.filter e, s⟩
  | .ok path =>
    match scope.compiler.resolver.storage? path.field path.property with
    | some storage => scope.addStored id underOr p storage s
    | none =>
      match scope.compiler.backend with
      | .entity => .error ⟨.unknownField path.display, s⟩
      | .listing _ => .ok (s.skip path.display)

mutual

/-- Adds the children of a tree to the group opened for it. -/
def addTree (scope : LookupScope) (id : GroupId) (underOr : Bool) :
    FilterTree → Progress → Except Interrupted Progress
  | ⟨conjunction, children, _, _⟩, s =>
    addNodes scope id (underOr || conjunction = .or) children s

/-- Adds a child to the group of its parent. -/
def addNode (scope : LookupScope) (id : GroupId) (underOr : Bool) :
    FilterNode → Progress → Except Interrupted Progress
  | .leaf p, s => scope.addPredicate id underOr p s
  | .tree t, s =>
    if t.alwaysFalse then .ok (s.addAlwaysFalse id)
    else if t.isEmpty then .ok s
    else
      let opened := s.openGroup id t.conjunction
      addTree scope opened.2 underOr t opened.1

/-- Adds several children in order; the first error ends the work. -/
def addNodes (scope : LookupScope) (id : GroupId) (underOr : Bool) :
    List FilterNode → Progress → Except Interrupted Progress
  | [], s => .ok s
  | n :: ns, s =>
    match addNode scope id underOr n s with
    | .ok s => addNodes scope id underOr ns s
    | .error e => .error e

end

/-- Adds a whole filter to the root of a statement. -/
def addFilter (scope : LookupScope) (t : FilterTree) (s : Progress) :
    Except Interrupted Progress :=
  if t.alwaysFalse then
    let s := (s.logAbout "compile.always_false" []).addAlwaysFalse .root
    .ok { s with report := { s.report with alwaysFalse := true } }
  else if t.isEmpty then .ok (s.logAbout "compile.unrestricted" [])
  else
    let opened := s.openGroup .root t.conjunction
    scope.addTree opened.2 false t opened.1

end LookupScope

/-! ## Compiling -/

/-- What came of a compile. -/
structure Compiled where
  /-- The statement, also where the compile failed half-way. -/
  query : Query
  outcome : Except CompileError CompileReport
  log : List LogRecord

/-- The result of a walk. -/
def Compiled.ofWalk : Except Interrupted Progress → Compiled
  | .ok s => ⟨s.query, .ok s.report, s.log⟩
  | .error e => ⟨e.progress.query, .error e.cause, e.progress.log⟩

namespace Compiler

/-- Where a compiler looks fields up from in a statement. -/
def anchor (c : Compiler) (q : Query) : Except CompileError Anchor :=
  match c.relationship? with
  | none => .ok q.base
  | some name =>
    match q.relationship? name with
    | some anchor => .ok anchor
    | none => .error (.unknownRelationship name)

/-- Puts a filter into a statement.  An unknown relationship leaves the statement as it is. -/
def compile (c : Compiler) (t : FilterTree) (q : Query) (revisionScoped : Bool) : Compiled :=
  match c.anchor q with
  | .error e => ⟨q, .error e, []⟩
  | .ok anchor => .ofWalk (LookupScope.addFilter ⟨c, anchor, revisionScoped⟩ t { query := q })

/-- A tree that admits nothing adds the false condition to the root and nothing else. -/
theorem compile_alwaysFalse {c : Compiler} {t : FilterTree} {q : Query} {anchor : Anchor}
    (ht : t.alwaysFalse = true) (ha : c.anchor q = .ok anchor) (revisionScoped : Bool) :
    (c.compile t q revisionScoped).query
        = q.pushCondition .root (.expression alwaysFalse) ∧
      (c.compile t q revisionScoped).outcome = .ok ⟨1, [], [], true⟩ := by
  simp [compile, ha, LookupScope.addFilter, ht, Compiled.ofWalk, Progress.logAbout,
    Progress.addAlwaysFalse, CompileReport.countClause]

/-- A tree without children leaves the statement as it is. -/
theorem compile_unrestricted {c : Compiler} {t : FilterTree} {q : Query} {anchor : Anchor}
    (ht : t.alwaysFalse = false) (he : t.isEmpty = true) (ha : c.anchor q = .ok anchor)
    (revisionScoped : Bool) :
    (c.compile t q revisionScoped).query = q ∧
      (c.compile t q revisionScoped).outcome = .ok {} := by
  simp [compile, ha, LookupScope.addFilter, ht, he, Compiled.ofWalk, Progress.logAbout]

end Compiler

end RowAccess
