import RowAccess.Proofs.Lowering.Emission

/-!
# Lists among the parameters

A parameter of a statement should be a scalar: a list as operand of a membership test or of a range
is spread over as many placeholders as it has items.  It is spread once, and only for these
operators, and of no other operator is the operand checked.  So a list is bound where a comparison
such as equality is given one, and where an item of a list is a list itself.

Main results:

- `Lowering.shapes_of_clause`: a clause binds values of the shapes that its predicate has.
- `Compiler.scalar_params_iff`: when the parameters of a statement are scalars, and what is refused.
- `Compiler.list_param_compile`: equality with a list is accepted.
-/

namespace RowAccess

open Sql

/-! ## What a predicate binds -/

namespace Predicate

/-- The values that a predicate gives its clause to bind: nothing for a null check, the items for
an operator that takes a list, and the operand as it is for any other. -/
def given (p : Predicate) : List Value :=
  if p.op.isNullCheck then [] else if p.op.takesList then Clause.items p.value else [p.value]

/-- Each value that the predicate gives is a scalar. -/
def GivesScalars (p : Predicate) : Prop := ∀ v ∈ p.given, v.isList = false

instance (p : Predicate) : Decidable p.GivesScalars :=
  inferInstanceAs (Decidable (∀ v ∈ p.given, v.isList = false))

/-- The predicate is a range with two bounds, or none. -/
def HasBounds (p : Predicate) : Prop :=
  p.op = .between ∨ p.op = .notBetween → ∃ low high, p.value = .list [low, high]

end Predicate

namespace Lowering

/-- A comparison binds the operand as it is, or a text where the operand is a text. -/
theorem shapes_clauseFor (column : String) (caseSensitive : Bool) (options : CompileOptions)
    (op : Comparison) (value : Value) :
    (clauseFor column caseSensitive options op value).operands.map Value.isList =
      (Clause.operands ⟨column, .compare op, value⟩).map Value.isList := by
  rcases clauseFor_eq_or column caseSensitive options op value with
    made | ⟨s, rfl, ⟨rfl, made⟩ | ⟨rfl, made⟩⟩
  · rw [made]
  · rw [made]
    rfl
  · rw [made]
    rfl

/-- With its operand, the comparison of a predicate binds what the predicate gives. -/
theorem operands_of_operand {p : Predicate} {value : Value} (h : operand p = .ok value)
    (column : String) : Clause.operands ⟨column, .compare p.op, value⟩ = p.given := by
  rw [operand] at h
  rw [Predicate.given]
  cases hop : p.op with
  | inList | notInList =>
    simp only [hop] at h
    obtain rfl := Except.ok.inj h
    cases p.value <;> rfl
  | between | notBetween =>
    simp only [hop] at h
    split at h
    next low high hv =>
      obtain rfl := Except.ok.inj h
      rw [hv]
      rfl
    next => cases h
  | _ =>
    simp only [hop] at h
    obtain rfl := Except.ok.inj h
    rfl

/-- A clause binds values of the shapes that its predicate gives. -/
theorem shapes_of_clause {p : Predicate} {column : String} {caseSensitive : Bool}
    {options : CompileOptions} {c : Clause}
    (h : clause p column caseSensitive options = .ok c) :
    c.operands.map Value.isList = p.given.map Value.isList := by
  obtain ⟨value, ho, rfl⟩ := exists_operand_of_clause h
  rw [shapes_clauseFor, operands_of_operand ho]

/-- A clause binds scalars if its predicate gives scalars. -/
theorem scalars_of_clause {p : Predicate} {column : String} {caseSensitive : Bool}
    {options : CompileOptions} {c : Clause}
    (h : clause p column caseSensitive options = .ok c) :
    (∀ v ∈ c.operands, v.isList = false) ↔ p.GivesScalars := by
  have shapes (values : List Value) :
      (∀ v ∈ values, v.isList = false) ↔ ∀ b ∈ values.map Value.isList, b = false := by simp
  rw [Predicate.GivesScalars, shapes, shapes_of_clause h, ← shapes]

/-- What becomes a clause is not a range without two bounds. -/
theorem hasBounds_of_clause {p : Predicate} {column : String} {caseSensitive : Bool}
    {options : CompileOptions} {c : Clause}
    (h : clause p column caseSensitive options = .ok c) : p.HasBounds := by
  intro range
  by_contra unbounded
  have refused : operand p = .error (.invalidOperand p.field p.op) := by
    refine (operand_eq_error_iff p _).2 ⟨rfl, range, fun low high hv => ?_⟩
    exact unbounded ⟨low, high, hv⟩
  rw [clause, refused] at h
  cases h

end Lowering

/-! ## Refusals -/

/-- An operand is refused for a range without two bounds on a stored field. -/
theorem LookupScope.refused_of_lookUp {scope : LookupScope} {o : Occurrence} {q : Query}
    {field : String} {op : Comparison}
    (h : (scope.lookUp o q).failure = some (.invalidOperand field op)) :
    field = o.predicate.field ∧ op = o.predicate.op ∧ ¬ o.predicate.HasBounds := by
  rcases scope.lookUp_cases o q with ⟨path, storage, -, -, looked⟩ | ⟨-, -, -, -, -, looked⟩ |
    ⟨e, other, looked⟩
  · rw [looked] at h
    simp only [lookUpStored, Lowering.clause] at h
    cases ho : Lowering.operand o.predicate with
    | ok value => simp [ho, Except.map, errorOf] at h
    | error e =>
      simp only [ho, Except.map, errorOf, Option.some.injEq] at h
      obtain ⟨same, range, unbounded⟩ := (Lowering.operand_eq_error_iff _ e).1 ho
      rw [h] at same
      injection same with hfield hop
      refine ⟨hfield, hop, fun bounds => ?_⟩
      obtain ⟨low, high, hv⟩ := bounds range
      exact unbounded low high hv
  · rw [looked] at h
    cases h
  · rw [looked] at h
    exact absurd (Option.some.inj h) (other field op)

/-! ## Clauses of a filter -/

namespace LookupScope

variable {scope : LookupScope} {q : Query}

/-- The clauses of a predicate bind scalars if the predicate gives scalars or is left out. -/
theorem Emits.scalars_iff {p : Predicate} {clauses : List Clause} (h : scope.Emits q p clauses) :
    (∀ v ∈ clauses.flatMap Clause.operands, v.isList = false) ↔
      ∀ storage, scope.Stores p storage → p.GivesScalars := by
  have made (storage : FieldStorage) (stored : scope.Stores p storage) := h.of_stores stored
  cases h with
  | @stored path storage aliasName c hpath hstorage reach hclause =>
    rw [List.flatMap_singleton, Lowering.scalars_of_clause hclause]
    exact ⟨fun gives _ _ => gives, fun gives => gives storage ⟨path, hpath, hstorage⟩⟩
  | skipped hpath hstorage hbackend =>
    refine iff_of_true (List.forall_mem_nil _) fun storage stored => ?_
    obtain ⟨aliasName, c, clause, -⟩ := made storage stored
    cases clause

/-- The clauses of several predicates bind scalars if each of them does. -/
theorem scalars_iff_of_emits {ps : List Predicate} {emitted : List (List Clause)}
    (h : List.Forall₂ (scope.Emits q) ps emitted) :
    (∀ v ∈ emitted.flatten.flatMap Clause.operands, v.isList = false) ↔
      ∀ p ∈ ps, ∀ storage, scope.Stores p storage → p.GivesScalars := by
  induction h with
  | nil => simp
  | cons first rest ih =>
    rw [List.flatten_cons, List.flatMap_append, List.forall_mem_append, first.scalars_iff, ih,
      List.forall_mem_cons]

/-- A predicate on a stored field has become a clause, so it is not a range without two bounds. -/
theorem Emits.hasBounds {p : Predicate} {clauses : List Clause} (h : scope.Emits q p clauses)
    {storage : FieldStorage} (stored : scope.Stores p storage) : p.HasBounds := by
  obtain ⟨aliasName, c, -, -, hclause⟩ := h.of_stores stored
  exact Lowering.hasBounds_of_clause hclause

/-- So it is for several predicates. -/
theorem hasBounds_of_emits {ps : List Predicate} {emitted : List (List Clause)}
    (h : List.Forall₂ (scope.Emits q) ps emitted) :
    ∀ p ∈ ps, ∀ storage, scope.Stores p storage → p.HasBounds := by
  induction h with
  | nil => simp
  | cons first rest ih =>
    exact List.forall_mem_cons.2 ⟨fun storage stored => first.hasBounds stored, ih⟩

end LookupScope

/-! ## Compiles -/

namespace Compiler

variable {c : Compiler} {t : FilterTree} {q : Query} {revisionScoped : Bool}

/-- Only an unknown relationship leaves nowhere to look fields up from. -/
theorem exists_of_anchor_eq_error {e : CompileError} (h : c.anchor q = .error e) :
    ∃ name, e = .unknownRelationship name := by
  unfold anchor at h
  split at h
  · cases h
  next name _ =>
    split at h
    · cases h
    · exact ⟨name, (Except.error.inj h).symm⟩

/-- An operand is refused for a range without two bounds, and for nothing else. -/
theorem exists_of_invalidOperand {field : String} {op : Comparison}
    (h : (c.compile t q revisionScoped).outcome = .error (.invalidOperand field op)) :
    ∃ p ∈ t.livePredicates, p.field = field ∧ p.op = op ∧ ¬ p.HasBounds := by
  have failure := c.errorOf_compile t q revisionScoped
  rw [h, errorOf, trail] at failure
  cases ha : c.anchor q with
  | error e =>
    obtain ⟨name, rfl⟩ := exists_of_anchor_eq_error ha
    simp [ha] at failure
  | ok anchor =>
    simp only [ha] at failure
    obtain ⟨o, ho, q', refused⟩ := LookupScope.exists_failure_of_trail _ _ _ failure.symm
    obtain ⟨rfl, rfl, unbounded⟩ := LookupScope.refused_of_lookUp refused
    refine ⟨o.predicate, ?_, rfl, rfl, unbounded⟩
    rw [← FilterTree.map_predicate_occurrences false]
    exact List.mem_map_of_mem ho

/-- If a compile into a statement without conditions succeeds, its parameters are scalars if and
only if each predicate on a stored field gives scalars, and each range on a stored field has two
bounds.  An operand is refused for a range without two bounds, and for nothing else. -/
theorem scalar_params_iff (hq : q.conditions = ∅) :
    (∀ report, (c.compile t q revisionScoped).outcome = .ok report →
      ∃ anchor, c.anchor q = .ok anchor ∧
        ((∀ v ∈ (c.compile t q revisionScoped).query.render.params, v.isList = false) ↔
          ∀ p ∈ t.livePredicates, ∀ storage,
            LookupScope.Stores ⟨c, anchor, revisionScoped⟩ p storage → p.GivesScalars) ∧
        ∀ p ∈ t.livePredicates, ∀ storage,
          LookupScope.Stores ⟨c, anchor, revisionScoped⟩ p storage → p.HasBounds) ∧
    ∀ field op, (c.compile t q revisionScoped).outcome = .error (.invalidOperand field op) →
      ∃ p ∈ t.livePredicates, p.field = field ∧ p.op = op ∧ ¬ p.HasBounds := by
  refine ⟨fun report hok => ?_, fun field op => exists_of_invalidOperand⟩
  have nested : q.conditions.Nested := by
    rw [hq]
    exact ConditionSet.nested_empty
  obtain ⟨anchor, ha, items, grown, lowered⟩ := compile_ok nested hok
  obtain ⟨emitted, each, flat⟩ := lowered.clauses
  have nested' := c.compile_stable Query.stable_nested t nested.length_pos nested revisionScoped
  have start : q.conditions.depthFirstClauses = [] := by
    rw [hq]
    rfl
  refine ⟨anchor, ha, ?_, LookupScope.hasBounds_of_emits each⟩
  rw [Query.params_render, grown.depthFirstClauses_eq nested nested', start, List.nil_append,
    flat]
  exact LookupScope.scalars_iff_of_emits each

/-! ## Lists that are bound -/

/-- Articles in a single table. -/
def plainArticles : TableMapping :=
  (TableMapping.ofTables "node" { baseTable := "node", idKey := "nid" }).withField
    (FieldDefinition.single "status" "value")

/-- A filter by status, put into a selection of articles. -/
def selectedByStatus (op : Comparison) (value : Value) : Compiled :=
  compile ⟨plainArticles.resolver, .entity, {}⟩
    (FilterTree.all.add (.leaf (.make "status" op value))) (Query.select "node") false

/-- Membership in two values binds the values. -/
theorem scalar_params_iff_membership :
    (Query.select "node").conditions = ∅ ∧
      (selectedByStatus .inList (.list [.int 1, .int 2])).outcome = .ok ⟨1, [], [], false⟩ ∧
      ∀ v ∈ (selectedByStatus .inList (.list [.int 1, .int 2])).query.render.params,
        v.isList = false := by
  have done : (selectedByStatus .inList (.list [.int 1, .int 2])).outcome =
      .ok ⟨1, [], [], false⟩ := rfl
  obtain ⟨anchor, -, scalars, -⟩ := (scalar_params_iff rfl).1 _ done
  refine ⟨rfl, done, scalars.2 fun p hp storage stored => ?_⟩
  obtain rfl := List.mem_singleton.1 hp
  decide

/-- Equality with a list of two values is accepted, and the list is bound to one placeholder. -/
theorem list_param_compile :
    (Query.select "node").conditions = ∅ ∧
      (selectedByStatus .eq (.list [.int 1, .int 2])).outcome = .ok ⟨1, [], [], false⟩ ∧
      (selectedByStatus .eq (.list [.int 1, .int 2])).query.render =
        ⟨"SELECT node.* FROM node node WHERE node.status = ?", [.list [.int 1, .int 2]]⟩ :=
  ⟨rfl, rfl, rfl⟩

end Compiler

end RowAccess
