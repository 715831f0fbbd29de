import RowAccess.Proofs.Lowering.Walk
import RowAccess.Storage.TableMapping

/-!
# Which record a clause is about

The clause of a predicate must be about the record that is filtered: its column belongs to
the table instance that the record is looked up from, or to a join of the field's table on
the key of that record.

A dedicated table is always joined so.  A shared table is not asked for by its key but by
its name and the alias that it hangs off, so a join of the same table on another column, as
a relationship to a parent makes it, is taken for it.  That is the only way in which a
clause comes to be about another record, and it depends on the first join of the table that
hangs off the anchor.

Main results:

- `LookupScope.ownRecord_iff`: a field is looked up in the record itself unless a join on
  another column is taken for its table.
- `Compiler.ownRecord_compile_iff`: so it is for every clause that a compile adds.
- `Compiler.parentRecord_compile`: a filter that is applied to a parent.
-/

namespace RowAccess

open Sql

namespace Lowering

variable {p : Predicate} {column : String} {caseSensitive : Bool} {options : CompileOptions}

/-- A comparison is put into a clause as it is, or a text is compared by its pattern. -/
theorem clauseFor_eq_or (column : String) (caseSensitive : Bool) (options : CompileOptions)
    (op : Comparison) (value : Value) :
    clauseFor column caseSensitive options op value = ⟨column, .compare op, value⟩ ∨
      ∃ s, value = .text s ∧
        (op = .eq ∧ clauseFor column caseSensitive options op value =
            ⟨column, .like options.likeEscape,
              .text (LikePattern.escapeText s options.likeEscape)⟩ ∨
          op = .ne ∧ clauseFor column caseSensitive options op value =
            ⟨column, .notLike options.likeEscape,
              .text (LikePattern.escapeText s options.likeEscape)⟩) := by
  simp only [clauseFor]
  split
  next s =>
    split
    · exact .inr ⟨s, rfl, .inl ⟨rfl, rfl⟩⟩
    · exact .inl rfl
  next s =>
    split
    · exact .inr ⟨s, rfl, .inr ⟨rfl, rfl⟩⟩
    · exact .inl rfl
  · exact .inl rfl

/-- A clause is about the column that it was made for. -/
theorem column_clauseFor (column : String) (caseSensitive : Bool) (options : CompileOptions)
    (op : Comparison) (value : Value) :
    (clauseFor column caseSensitive options op value).column = column := by
  rcases clauseFor_eq_or column caseSensitive options op value with
    made | ⟨s, -, ⟨-, made⟩ | ⟨-, made⟩⟩
  · rw [made]
  · rw [made]
  · rw [made]

/-- The clause of a predicate compares with an operand that was accepted. -/
theorem exists_operand_of_clause {c : Clause}
    (h : clause p column caseSensitive options = .ok c) :
    ∃ value, operand p = .ok value ∧
      c = clauseFor column caseSensitive options p.op value := by
  rw [clause] at h
  cases ho : operand p with
  | error e =>
    rw [ho] at h
    cases h
  | ok value =>
    rw [ho] at h
    exact ⟨value, rfl, (Except.ok.inj h).symm⟩

/-- The clause of a predicate is about the column of its field. -/
theorem column_of_clause {c : Clause} (h : clause p column caseSensitive options = .ok c) :
    c.column = column := by
  obtain ⟨value, -, rfl⟩ := exists_operand_of_clause h
  exact column_clauseFor column caseSensitive options p.op value

end Lowering

namespace LookupScope

variable (scope : LookupScope)

/-! ## The record itself -/

/-- The join of the table of a field on the key of the record. -/
def recordJoin (storage : FieldStorage) : JoinRequest :=
  if storage.dedicated then scope.dedicatedJoin storage else scope.sharedJoin storage

/-- Under the given alias a statement has the table of a field for the record itself: the
table that the record is looked up from, or a join on the key of the record. -/
def OwnRecord (q : Query) (storage : FieldStorage) (aliasName : String) : Prop :=
  (aliasName = scope.anchor.aliasName ∧
    (scope.recordJoin storage).table = scope.anchor.table) ∨
  q.Links (scope.recordJoin storage) aliasName

/-- The first join of a shared table that hangs off the anchor is not the one on the key of
the record. -/
def Misled (q : Query) (storage : FieldStorage) : Prop :=
  storage.dedicated = false ∧ scope.sharedTable storage ≠ scope.anchor.table ∧
    ∃ j, q.joins.find? (scope.sharedTable storage) scope.anchor.aliasName = some j ∧
      j.answers (scope.sharedJoin storage) = false

variable {scope}

theorem recordJoin_of_dedicated {storage : FieldStorage} (h : storage.dedicated = true) :
    scope.recordJoin storage = scope.dedicatedJoin storage :=
  if_pos h

theorem recordJoin_of_shared {storage : FieldStorage} (h : storage.dedicated = false) :
    scope.recordJoin storage = scope.sharedJoin storage := by
  rw [recordJoin, h]
  rfl

/-- No join is found for an anchor with a dot in its alias. -/
theorem find?_of_dotted {s : JoinSet} {table anchor : String} (h : '.' ∈ anchor.toList) :
    s.find? table anchor = none := by
  refine List.find?_eq_none.2 fun j _ hj => ?_
  rw [Bool.and_eq_true, Join.hangsOff, Bool.and_eq_true] at hj
  rcases hj with ⟨-, -, same⟩
  have front : (Text.splitDot j.left.toList).1 = anchor.toList := by
    rw [← of_decide_eq_true same, Text.splitAtDot, String.toList_ofList]
  rw [← front] at h
  exact Text.dot_not_mem_splitDot _ h

/-- A field is looked up in the record itself, unless a join on another column is taken for
its table. -/
theorem ownRecord_iff {q : Query} (hq : q.joins.aliases.Nodup) {storage : FieldStorage}
    {aliasName : String} (h : scope.Reaches q storage aliasName) :
    scope.OwnRecord q storage aliasName ↔ ¬ scope.Misled q storage := by
  cases h with
  | dedicated h link =>
    have own : scope.OwnRecord q storage aliasName := by
      right
      rw [recordJoin_of_dedicated h]
      exact link
    refine ⟨fun _ misled => ?_, fun _ => own⟩
    have both : true = false := h.symm.trans misled.1
    cases both
  | anchor h same =>
    have own : scope.OwnRecord q storage scope.anchor.aliasName := by
      left
      rw [recordJoin_of_shared h]
      exact ⟨rfl, same⟩
    exact ⟨fun _ misled => misled.2.1 same, fun _ => own⟩
  | found h other hfind =>
    rcases Option.map_eq_some_iff.1 hfind with ⟨j, hj, rfl⟩
    have mem := List.mem_of_find?_eq_some hj
    constructor
    · rintro (⟨-, same⟩ | ⟨j', hj', answers, sameAlias⟩) misled
      · rw [recordJoin_of_shared h] at same
        exact other same
      · -- Aliases are distinct, so the join on the key is the one that was found.
        obtain rfl := JoinSet.eq_of_aliasName_eq hq hj' mem sameAlias
        rcases misled with ⟨-, -, i, hi, unanswered⟩
        rw [hj] at hi
        obtain rfl := Option.some.inj hi
        rw [recordJoin_of_shared h, unanswered] at answers
        cases answers
    · intro led
      right
      rw [recordJoin_of_shared h]
      refine ⟨j, mem, ?_, rfl⟩
      by_contra unanswered
      exact led ⟨h, other, j, hj, by simpa using unanswered⟩
  | dotted h other hdot link =>
    have own : scope.OwnRecord q storage aliasName := by
      right
      rw [recordJoin_of_shared h]
      exact link
    refine ⟨fun _ misled => ?_, fun _ => own⟩
    rcases misled with ⟨-, -, j, hj, -⟩
    rw [find?_of_dotted hdot] at hj
    cases hj

end LookupScope

/-! ## Compiles -/

namespace Compiler

/-- Each clause that a compile adds is about the record itself, unless a join on another
column is taken for the table of its field. -/
theorem ownRecord_compile_iff {c : Compiler} {t : FilterTree} {q : Query}
    {revisionScoped : Bool} {report : CompileReport} (hq : q.Reachable)
    (hok : (c.compile t q revisionScoped).outcome = .ok report) :
    ∃ anchor, c.anchor q = .ok anchor ∧ ∃ emitted : List (List Clause),
      (c.compile t q revisionScoped).query.conditions.depthFirstClauses =
        q.conditions.depthFirstClauses ++ emitted.flatten ∧
      List.Forall₂ (fun p clauses => ∀ clause ∈ clauses, ∃ path storage aliasName,
        p.path = .ok path ∧ c.resolver.storage? path.field path.property = some storage ∧
        clause.column = Text.qualify aliasName storage.column ∧
        (LookupScope.OwnRecord ⟨c, anchor, revisionScoped⟩
            (c.compile t q revisionScoped).query storage aliasName ↔
          ¬ LookupScope.Misled ⟨c, anchor, revisionScoped⟩
            (c.compile t q revisionScoped).query storage))
        t.livePredicates emitted := by
  rcases compile_ok hq.nested hok with ⟨anchor, ha, items, grown, lowered⟩
  have hq' := c.compile_reachable t hq revisionScoped
  rcases lowered.clauses with ⟨emitted, hemitted, flat⟩
  refine ⟨anchor, ha, emitted, ?_, hemitted.imp fun p clauses h clause hclause => ?_⟩
  · rw [ConditionSet.depthFirstClauses, grown.rootParts_eq hq.nested hq'.nested,
      List.flatMap_append, flat]
    rfl
  · cases h with
    | @stored path storage aliasName c' hpath hstorage reach hlowered =>
      obtain rfl := List.mem_singleton.1 hclause
      exact ⟨path, storage, aliasName, hpath, hstorage, Lowering.column_of_clause hlowered,
        LookupScope.ownRecord_iff hq'.nodup_aliases reach⟩
    | skipped hpath hstorage hbackend => exact absurd hclause List.not_mem_nil

end Compiler

/-! ## A filter that is applied to a parent -/

/-- Articles with a data table, which holds whether an article is published. -/
def articlesWithData : TableMapping :=
  (TableMapping.ofTables "node"
    { baseTable := "node", idKey := "nid", dataTable := some "node_field_data" }).withField
    (FieldDefinition.single "status" "value").onDataTable

/-- A listing of articles with the data of the article above each as a relationship. -/
def listingWithParents : Query :=
  { (Query.ensureJoin (Query.listing "node")
      ⟨"node_field_data", .left, "node.parent_id", "nid"⟩).1 with
    form := .listing [("parent", "node_field_data")] }

/-- The filter for published articles, put into the listing. -/
def publishedWithParents : Compiled :=
  Compiler.compile ⟨articlesWithData.resolver, .entity, {}⟩
    (FilterTree.all.add (.leaf (.equals "status" (.int 1)))) listingWithParents false

/-- Where the fields of the listing are looked up. -/
def listingScope : LookupScope :=
  ⟨⟨articlesWithData.resolver, .entity, {}⟩, ⟨"node", "node"⟩, false⟩

theorem reachable_listingWithParents : listingWithParents.Reachable := by
  have related : (Query.listing "node").addRelationship "parent" none "node_field_data" .left
      "parent_id" "nid" = some (listingWithParents, "node_field_data") := rfl
  exact .relate (.listing "node") related

/-- The one clause that is added is about the parent: no alias of the listing has the data of
the record itself. -/
theorem Compiler.parentRecord_compile :
    listingWithParents.Reachable ∧ publishedWithParents.outcome = .ok ⟨1, [], [], false⟩ ∧
    publishedWithParents.query.conditions.depthFirstClauses =
      [⟨"node_field_data.status", .compare .eq, .int 1⟩] ∧
    ∃ storage, articlesWithData.resolver.storage? "status" none = some storage ∧
      ∀ aliasName, ¬ listingScope.OwnRecord publishedWithParents.query storage aliasName := by
  refine ⟨reachable_listingWithParents, rfl, rfl, _, rfl, ?_⟩
  rintro aliasName (⟨-, same⟩ | ⟨j, hj, answers, -⟩)
  · exact absurd same (by decide)
  · have only : publishedWithParents.query.joins.joins =
        [⟨.left, "node_field_data", "node_field_data", "node.parent_id", "nid"⟩] := rfl
    rw [only] at hj
    obtain rfl := List.mem_singleton.1 hj
    exact absurd answers (by decide)

/-- On the listing with parents, the one clause is about the parent because a join is taken for
another. -/
theorem Compiler.ownRecord_compile_iff_parents :
    listingWithParents.Reachable ∧ publishedWithParents.outcome = .ok ⟨1, [], [], false⟩ ∧
    ∃ emitted : List (List Clause),
      publishedWithParents.query.conditions.depthFirstClauses =
        listingWithParents.conditions.depthFirstClauses ++ emitted.flatten ∧
      List.Forall₂ (fun _ clauses => ∀ clause ∈ clauses, ∃ storage aliasName,
        clause.column = Text.qualify aliasName storage.column ∧
        (listingScope.OwnRecord publishedWithParents.query storage aliasName ↔
          ¬ listingScope.Misled publishedWithParents.query storage))
        [Predicate.equals "status" (.int 1)] emitted := by
  have done : publishedWithParents.outcome = .ok ⟨1, [], [], false⟩ := rfl
  obtain ⟨anchor, ha, emitted, added, each⟩ :=
    ownRecord_compile_iff reachable_listingWithParents done
  obtain rfl : (⟨"node", "node"⟩ : Anchor) = anchor := Except.ok.inj ha
  refine ⟨reachable_listingWithParents, done, emitted, added, ?_⟩
  refine each.imp fun p clauses h clause hclause => ?_
  rcases h clause hclause with ⟨path, storage, aliasName, -, -, column, own⟩
  exact ⟨storage, aliasName, column, own⟩

end RowAccess
