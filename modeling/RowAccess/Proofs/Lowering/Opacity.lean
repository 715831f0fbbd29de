import RowAccess.Lowering.Compiler
import RowAccess.Proofs.Filter.Operands
import RowAccess.Proofs.Sql.Blanking

/-!
# A compile looks at no operand

Two filters that differ in their operands only, and in no operand's kind or length, are
compiled alike: with the same error, or with statements of the same text, the same joins and
the same report.  What a user typed is found among the parameters and nowhere else.

The two runs are compared step by step.  They stay the same as long as the operands that
were added so far are blanked, and each step of the walk keeps it so.

Main results:

- `Lowering.clause_blank`: the clause of a predicate, its operand aside.
- `LookupScope.addNodes_blank`: the walk over the children of a tree.
- `Compiler.compile_opaque`: two compiles that differ in their parameters only.
-/

namespace RowAccess

open Sql

/-- Two outcomes that are the same when seen through a function are the same error, or results
that the function does not tell apart. -/
theorem cases_of_map_eq {ε α β : Type*} {f : α → β} {r r' : Except ε α}
    (h : r.map f = r'.map f) :
    (∃ e, r = .error e ∧ r' = .error e) ∨ ∃ a a', r = .ok a ∧ r' = .ok a' ∧ f a = f a' := by
  cases r with
  | error e =>
    cases r' with
    | error e' =>
      obtain rfl : e = e' := Except.error.inj h
      exact .inl ⟨e, rfl, rfl⟩
    | ok a' => cases h
  | ok a =>
    cases r' with
    | error e' => cases h
    | ok a' => exact .inr ⟨a, a', rfl, rfl, Except.ok.inj h⟩

/-! ## Predicates -/

theorem Predicate.value_mapValue_blank (p : Predicate) :
    (p.mapValue .blank).value = p.value.blank := by
  by_cases h : p.op.isNullCheck = true
  · rw [mapValue, make_of_isNullCheck h, p.null_of_isNullCheck h]
    rfl
  · exact value_mapValue _ (by simpa using h)

namespace Lowering

/-- Whether an operand is acceptable depends on its kind and its length. -/
theorem operand_blank (p : Predicate) :
    (operand (p.mapValue .blank)).map Value.blank = (operand p).map Value.blank := by
  have value := p.value_mapValue_blank
  simp only [operand, Predicate.op_mapValue, Predicate.field_mapValue, value]
  cases p.op with
  | between | notBetween =>
    -- A list is acceptable if it has two items, and blanking keeps their number.
    rcases p.value with _ | _ | _ | _ | _ | ⟨_ | ⟨low, _ | ⟨high, _ | ⟨more, rest⟩⟩⟩⟩ <;> rfl
  | inList | notInList =>
    cases p.value <;> simp [Except.map, Value.blank]
  | _ =>
    cases p.value <;> simp [Except.map, Value.blank]

/-- The clause of a comparison is the same up to its operand. -/
theorem clauseFor_blank (column : String) (caseSensitive : Bool) (options : CompileOptions)
    (op : Comparison) (v : Value) :
    (clauseFor column caseSensitive options op v.blank).blank =
      (clauseFor column caseSensitive options op v).blank := by
  cases v with
  | text s =>
    cases op with
    | eq | ne =>
      simp only [clauseFor, Value.blank]
      split <;> rfl
    | _ => rfl
  | list items => cases op <;> simp [clauseFor, Clause.blank, Value.blank]
  | _ => cases op <;> rfl

/-- The clause of a predicate is the same up to its operand. -/
theorem clause_blank (p : Predicate) (column : String) (caseSensitive : Bool)
    (options : CompileOptions) :
    (clause (p.mapValue .blank) column caseSensitive options).map Clause.blank =
      (clause p column caseSensitive options).map Clause.blank := by
  rw [clause, clause, Predicate.op_mapValue]
  rcases cases_of_map_eq (operand_blank p) with ⟨e, blanked, plain⟩ | ⟨w, v, blanked, plain, alike⟩
  · rw [blanked, plain]
  · have clauses : (clauseFor column caseSensitive options p.op w).blank =
        (clauseFor column caseSensitive options p.op v).blank := by
      rw [← clauseFor_blank, alike, clauseFor_blank]
    rw [blanked, plain]
    simp only [Except.map, clauses]

end Lowering

/-! ## Single steps -/

/-- A statement in the making with its operands blanked. -/
def Progress.blank (s : Progress) : Progress := { s with query := s.query.blank }

/-- How far the work had come, with the operands blanked. -/
def Progress.blankEnd : Except Interrupted Progress → Except Interrupted Progress
  | .ok s => .ok s.blank
  | .error e => .error ⟨e.cause, e.progress.blank⟩

namespace Progress

theorem blank_addClause (s : Progress) (id : GroupId) (c : Clause) :
    (s.addClause id c).blank = s.blank.addClause id c.blank := by
  rw [addClause, blank, s.query.blank_pushCondition]
  rfl

theorem blank_addAlwaysFalse (s : Progress) (id : GroupId) :
    (s.addAlwaysFalse id).blank = s.blank.addAlwaysFalse id := by
  rw [addAlwaysFalse, blank, s.query.blank_pushCondition]
  rfl

theorem openGroup_blank (s : Progress) (parent : GroupId) (conjunction : Conjunction) :
    s.blank.openGroup parent conjunction =
      ((s.openGroup parent conjunction).1.blank, (s.openGroup parent conjunction).2) := by
  rw [openGroup, blank, s.query.blank_openGroup]
  rfl

/-- The way to a field depends on the joins of a statement only. -/
theorem reach_blank (s : Progress) (tables : EntityTables) (storage : FieldStorage)
    (anchor : Anchor) (revisionScoped : Bool) (kind : JoinKind) :
    Reach.of s.blank.query tables storage anchor revisionScoped kind =
      Reach.of s.query tables storage anchor revisionScoped kind := rfl

theorem place_blank (s : Progress) (storage : FieldStorage) (reach : Reach) :
    s.blank.place storage reach =
      ((s.place storage reach).1.blank, (s.place storage reach).2) := by
  cases reach with
  | present aliasName => rfl
  | byJoin request => rfl

/-- Where two runs agree they open the same group. -/
theorem openGroup_of_blank_eq {s s' : Progress} (h : s.blank = s'.blank) (parent : GroupId)
    (conjunction : Conjunction) :
    (s.openGroup parent conjunction).1.blank = (s'.openGroup parent conjunction).1.blank ∧
      (s.openGroup parent conjunction).2 = (s'.openGroup parent conjunction).2 := by
  have both := s.openGroup_blank parent conjunction
  rw [h, openGroup_blank] at both
  obtain ⟨opened, number⟩ := Prod.mk.inj both
  exact ⟨opened.symm, number.symm⟩

theorem blank_logAbout (s : Progress) (event : String) (details : List (String × String)) :
    (s.logAbout event details).blank = s.blank.logAbout event details := rfl

theorem blank_noteJoin (s : Progress) (join : Option String) :
    (s.noteJoin join).blank = s.blank.noteJoin join := by
  cases join with
  | none => rfl
  | some aliasName => rfl

end Progress

namespace LookupScope

variable {scope : LookupScope}

/-- Two runs that agree so far agree after a stored predicate that differs in its operand. -/
theorem addStored_blank {id : GroupId} {underOr : Bool} {s s' : Progress}
    (h : s.blank = s'.blank) (p : Predicate) (storage : FieldStorage) :
    Progress.blankEnd (scope.addStored id underOr (p.mapValue .blank) storage s) =
      Progress.blankEnd (scope.addStored id underOr p storage s') := by
  have reach : Reach.of s.query scope.compiler.resolver.tables storage scope.anchor
      scope.revisionScoped (joinKind underOr p.op) =
        Reach.of s'.query scope.compiler.resolver.tables storage scope.anchor
          scope.revisionScoped (joinKind underOr p.op) := by
    rw [← Progress.reach_blank, h, Progress.reach_blank]
  simp only [addStored, Predicate.op_mapValue, reach]
  generalize Reach.of s'.query _ _ _ _ _ = reach
  have both : ((s.place storage reach).1.blank, (s.place storage reach).2) =
      ((s'.place storage reach).1.blank, (s'.place storage reach).2) := by
    rw [← Progress.place_blank, ← Progress.place_blank, h]
  obtain ⟨placed, column⟩ := Prod.mk.inj both
  rw [column]
  rcases cases_of_map_eq (Lowering.clause_blank p (s'.place storage reach).2.column
    storage.caseSensitive scope.compiler.options) with
      ⟨e, blanked, plain⟩ | ⟨c, c', blanked, plain, alike⟩
  · rw [blanked, plain]
    simp only [Progress.blankEnd, placed]
  · rw [blanked, plain]
    simp only [Progress.blankEnd, Progress.blank_noteJoin, Progress.blank_addClause, placed, alike]

/-- Two runs that agree so far agree after a predicate that differs in its operand. -/
theorem addPredicate_blank {id : GroupId} {underOr : Bool} {s s' : Progress}
    (h : s.blank = s'.blank) (p : Predicate) :
    Progress.blankEnd (scope.addPredicate id underOr (p.mapValue .blank) s) =
      Progress.blankEnd (scope.addPredicate id underOr p s') := by
  have path : (p.mapValue .blank).path = p.path := by
    rw [Predicate.path, Predicate.field_mapValue, Predicate.path]
  rw [addPredicate, addPredicate, path]
  cases p.path with
  | error e => simp only [Progress.blankEnd, h]
  | ok r =>
    simp only
    cases scope.compiler.resolver.storage? r.field r.property with
    | some storage => exact addStored_blank h p storage
    | none =>
      cases scope.compiler.backend with
      | entity => simp only [Progress.blankEnd, h]
      | listing relationship => exact congrArg (fun s => Except.ok (Progress.skip s r.display)) h

/-! ## The walk -/

mutual

/-- Two runs that agree so far agree after trees that differ in operands. -/
theorem addTree_blank {scope : LookupScope} {id : GroupId} {underOr : Bool} :
    (t : FilterTree) → {s s' : Progress} → s.blank = s'.blank →
      Progress.blankEnd (scope.addTree id underOr (t.mapValues .blank) s) =
        Progress.blankEnd (scope.addTree id underOr t s')
  | ⟨_, children, _, _⟩, _, _, h => addNodes_blank children h

/-- Two runs that agree so far agree after children that differ in operands. -/
theorem addNode_blank {scope : LookupScope} {id : GroupId} {underOr : Bool} :
    (n : FilterNode) → {s s' : Progress} → s.blank = s'.blank →
      Progress.blankEnd (scope.addNode id underOr (n.mapValues .blank) s) =
        Progress.blankEnd (scope.addNode id underOr n s')
  | .leaf p, _, _, h => addPredicate_blank h p
  | .tree t, s, s', h => by
    rw [FilterNode.mapValues, addNode, addNode, FilterTree.alwaysFalse_mapValues,
      FilterTree.isEmpty_mapValues, FilterTree.conjunction_mapValues]
    split
    · simp only [Progress.blankEnd, Progress.blank_addAlwaysFalse, h]
    · split
      · simp only [Progress.blankEnd, h]
      · obtain ⟨opened, number⟩ := Progress.openGroup_of_blank_eq h id t.conjunction
        simp only [number]
        exact addTree_blank t opened

/-- Two runs that agree so far agree after several children that differ in operands. -/
theorem addNodes_blank {scope : LookupScope} {id : GroupId} {underOr : Bool} :
    (ns : List FilterNode) → {s s' : Progress} → s.blank = s'.blank →
      Progress.blankEnd (scope.addNodes id underOr (FilterNode.mapValuesAll .blank ns) s) =
        Progress.blankEnd (scope.addNodes id underOr ns s')
  | [], _, _, h => congrArg Except.ok h
  | n :: ns, s, s', h => by
    have first : Progress.blankEnd (scope.addNode id underOr (n.mapValues .blank) s) =
        Progress.blankEnd (scope.addNode id underOr n s') := addNode_blank n h
    rw [FilterNode.mapValuesAll, addNodes, addNodes]
    cases after : scope.addNode id underOr n s' with
    | error e =>
      cases before : scope.addNode id underOr (n.mapValues .blank) s with
      | error e' => rwa [before, after] at first
      | ok s₁ =>
        rw [before, after] at first
        cases first
    | ok s₁' =>
      cases before : scope.addNode id underOr (n.mapValues .blank) s with
      | error e' =>
        rw [before, after] at first
        cases first
      | ok s₁ =>
        rw [before, after] at first
        exact addNodes_blank ns (Except.ok.inj first)

end

/-- Two runs that agree at first agree after whole filters that differ in operands. -/
theorem addFilter_blank {s s' : Progress} (h : s.blank = s'.blank) (t : FilterTree) :
    Progress.blankEnd (scope.addFilter (t.mapValues .blank) s) =
      Progress.blankEnd (scope.addFilter t s') := by
  rw [addFilter, addFilter, FilterTree.alwaysFalse_mapValues, FilterTree.isEmpty_mapValues,
    FilterTree.conjunction_mapValues]
  split
  · have denied : ((s.logAbout "compile.always_false" []).addAlwaysFalse .root).blank =
        ((s'.logAbout "compile.always_false" []).addAlwaysFalse .root).blank := by
      rw [Progress.blank_addAlwaysFalse, Progress.blank_addAlwaysFalse, Progress.blank_logAbout,
        Progress.blank_logAbout, h]
    exact congrArg
      (fun r : Progress => Except.ok { r with report := { r.report with alwaysFalse := true } })
      denied
  · split
    · simp only [Progress.blankEnd, Progress.blank_logAbout, h]
    · obtain ⟨opened, number⟩ := Progress.openGroup_of_blank_eq h .root t.conjunction
      simp only [number]
      exact addTree_blank t opened

end LookupScope

/-! ## Compiling -/

/-- What came of a compile with the operands of the statement blanked. -/
def Compiled.blank (r : Compiled) : Compiled := { r with query := r.query.blank }

namespace Compiler

/-- A filter and its blanked form are compiled alike, operands aside. -/
theorem compile_blank (c : Compiler) (t : FilterTree) (q : Query) (revisionScoped : Bool) :
    (c.compile (t.mapValues .blank) q revisionScoped).blank =
      (c.compile t q revisionScoped).blank := by
  rw [compile, compile]
  cases c.anchor q with
  | error e => rfl
  | ok anchor =>
    have same : Progress.blankEnd (LookupScope.addFilter ⟨c, anchor, revisionScoped⟩
          (t.mapValues .blank) { query := q }) =
        Progress.blankEnd (LookupScope.addFilter ⟨c, anchor, revisionScoped⟩ t { query := q }) :=
      LookupScope.addFilter_blank rfl t
    -- What came of a walk, once blanked, is a function of where the walk ended, once blanked.
    have ends (r : Except Interrupted Progress) :
        (Compiled.ofWalk r).blank = Compiled.ofWalk (Progress.blankEnd r) := by
      cases r <;> rfl
    simp only [ends, same]

/-- Filters that differ only in operands of the same kind and length are compiled alike: with
the same error or the same report, to statements of the same text with the same joins, whose
parameters have the same number. -/
theorem compile_opaque {t u : FilterTree} (h : t.mapValues .blank = u.mapValues .blank)
    (c : Compiler) (q : Query) (revisionScoped : Bool) :
    (c.compile t q revisionScoped).outcome = (c.compile u q revisionScoped).outcome ∧
    (c.compile t q revisionScoped).query.render.sql =
      (c.compile u q revisionScoped).query.render.sql ∧
    (c.compile t q revisionScoped).query.joins = (c.compile u q revisionScoped).query.joins ∧
    (c.compile t q revisionScoped).query.render.params.length =
      (c.compile u q revisionScoped).query.render.params.length := by
  have same : (c.compile t q revisionScoped).blank = (c.compile u q revisionScoped).blank := by
    rw [← c.compile_blank t, h, c.compile_blank u]
  have statements : (c.compile t q revisionScoped).query.blank =
      (c.compile u q revisionScoped).query.blank := congrArg Compiled.query same
  have outcomes : (c.compile t q revisionScoped).blank.outcome =
      (c.compile u q revisionScoped).blank.outcome := by rw [same]
  have joins : (c.compile t q revisionScoped).query.blank.joins =
      (c.compile u q revisionScoped).query.blank.joins := by rw [statements]
  refine ⟨outcomes, ?_, joins, ?_⟩
  · rw [← Query.sql_render_blank, statements, Query.sql_render_blank]
  · rw [← Query.length_params_render_blank, statements, Query.length_params_render_blank]

/-- A search for a title that looks like a statement of its own. -/
def hostileSearch : FilterTree :=
  (FilterTree.all.addPredicate (.equals "title" (.text "x'; DROP TABLE node --"))).addPredicate
    (.equals "nid" (.list [.text "1) OR (1 = 1", .int 2]))

/-- A search for a title like any other. -/
def plainSearch : FilterTree :=
  (FilterTree.all.addPredicate (.equals "title" (.text "About us"))).addPredicate
    (.equals "nid" (.list [.int 1, .int 2]))

/-- Nodes with their title and number, both in the base table. -/
def nodeSearch : Compiler where
  resolver :=
    { tables := { baseTable := "node", idKey := "nid" }
      storage? := fun field _ => some ⟨"node", none, field, false, false⟩ }
  backend := .entity

/-- The search that looks like a statement is written as the other one is. -/
theorem compile_opaque_hostileSearch :
    hostileSearch.mapValues .blank = plainSearch.mapValues .blank ∧
    (nodeSearch.compile hostileSearch (.select "node") false).outcome =
      (nodeSearch.compile plainSearch (.select "node") false).outcome ∧
    (nodeSearch.compile hostileSearch (.select "node") false).query.render.sql =
      (nodeSearch.compile plainSearch (.select "node") false).query.render.sql ∧
    (nodeSearch.compile hostileSearch (.select "node") false).query.joins =
      (nodeSearch.compile plainSearch (.select "node") false).query.joins ∧
    (nodeSearch.compile hostileSearch (.select "node") false).query.render.params.length =
      (nodeSearch.compile plainSearch (.select "node") false).query.render.params.length :=
  have alike : hostileSearch.mapValues .blank = plainSearch.mapValues .blank := by decide
  ⟨alike, compile_opaque alike _ _ _⟩

end Compiler

end RowAccess
