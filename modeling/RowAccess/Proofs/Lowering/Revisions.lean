import Mathlib.Tactic.MkIffOfInductiveProp
import RowAccess.Proofs.Lowering.Emission

/-!
# Joins and revisions

A record and its revisions have keys and tables of their own.  A join is within one scope if it puts
the table of current records under the key of the record, or the table of revisions under the key of
the revision.  Across scopes it is of no use: under the key of the record, the table of revisions
holds every old revision as well.

The table of a join and its key are chosen by different functions, and each falls back on the record
where the content type does not say what it is for revisions.  A dedicated field has its revisions
used only if there are both, so its joins are within one scope.  A shared table is joined without
such a check, and where a content type has one without the other, the join is across scopes.

Main results:

- `Query.exists_answers_of_mem_drop`: what a new join is for.
- `Join.withinScope_iff`: the join of a field is within one scope unless the field is torn.
- `Compiler.withinScope_compile_iff`: so it is for every join that a compile adds.
- `Compiler.acrossScopes_compile`: a content type with a table of revisions but no key for them.
-/

namespace RowAccess

open Sql

/-! ## Scopes of joins -/

namespace Sql.Join

/-- The join puts the table of current records under the key of the record. -/
structure OfRecord (j : Join) (tables : EntityTables) (storage : FieldStorage)
    (anchor : Anchor) : Prop where
  table : j.table = storage.table
  left : j.left = anchor.column tables.idKey
  right : j.rightColumn = if storage.dedicated then dedicatedEntityColumn else tables.idKey

/-- The join puts the table of revisions under the key of the revision. -/
structure OfRevision (j : Join) (tables : EntityTables) (storage : FieldStorage)
    (anchor : Anchor) : Prop where
  table : storage.revisionTable = some j.table
  key : ∃ key, tables.revisionKey = some key ∧ j.left = anchor.column key ∧
    j.rightColumn = if storage.dedicated then dedicatedRevisionColumn else key

/-- The table and the key of the join belong together. -/
def WithinScope (j : Join) (tables : EntityTables) (storage : FieldStorage)
    (anchor : Anchor) : Prop :=
  j.OfRecord tables storage anchor ∨ j.OfRevision tables storage anchor

end Sql.Join

/-- Of a field on a shared table, the revisions are looked up, and the content type says where they
are but not under which key, or under which key but not where. -/
@[mk_iff]
structure EntityTables.Tears (tables : EntityTables) (storage : FieldStorage)
    (revisionScoped : Bool) : Prop where
  shared : storage.dedicated = false
  wanted : revisionScoped = true
  halved :
    (tables.revisionKey = none ∧ ∃ table ∈ storage.revisionTable, table ≠ storage.table) ∨
      (storage.revisionTable = none ∧ ∃ key ∈ tables.revisionKey, key ≠ tables.idKey)

namespace Sql.Join

variable {scope : LookupScope} {j : Join} {storage : FieldStorage}

/-- The join of a dedicated field is within one scope. -/
theorem withinScope_of_dedicated (h : j.answers (scope.dedicatedJoin storage) = true)
    (own : storage.dedicated = true) :
    j.WithinScope scope.compiler.resolver.tables storage scope.anchor := by
  obtain ⟨table, left, right⟩ := (j.answers_iff _).1 h
  simp only [LookupScope.dedicatedJoin, Reach.dedicatedJoin] at table left right
  cases hr : Reach.usesRevisions scope.compiler.resolver.tables storage scope.revisionScoped with
  | false =>
    rw [hr] at table left right
    exact .inl ⟨table, left, by rw [own]; exact right⟩
  | true =>
    rw [hr] at table left right
    simp only [Reach.usesRevisions, Bool.and_eq_true, Option.isSome_iff_exists] at hr
    obtain ⟨⟨-, revisions, hrevisions⟩, key, hkey⟩ := hr
    refine .inr ⟨?_, key, hkey, ?_, ?_⟩
    · simp [table, FieldStorage.tableFor, hrevisions]
    · simp [left, EntityTables.joinKey, hkey]
    · simp [right, own]

/-- The join of a shared table is of the record if both its table and its key are the record's. -/
theorem ofRecord_iff_of_shared (h : j.answers (scope.sharedJoin storage) = true)
    (shared : storage.dedicated = false) :
    j.OfRecord scope.compiler.resolver.tables storage scope.anchor ↔
      storage.tableFor scope.revisionScoped = storage.table ∧
        scope.compiler.resolver.tables.joinKey scope.revisionScoped =
          scope.compiler.resolver.tables.idKey := by
  obtain ⟨table, left, right⟩ := (j.answers_iff _).1 h
  simp only [LookupScope.sharedJoin, Reach.sharedJoin] at table left right
  constructor
  · intro own
    refine ⟨table.symm.trans own.table, ?_⟩
    simpa [shared, right] using own.right
  · rintro ⟨sameTable, sameKey⟩
    refine ⟨table.trans sameTable, by rw [left, sameKey], ?_⟩
    simpa [shared, right] using sameKey

/-- It is of the revision if both are the revision's. -/
theorem ofRevision_iff_of_shared (h : j.answers (scope.sharedJoin storage) = true)
    (shared : storage.dedicated = false) :
    j.OfRevision scope.compiler.resolver.tables storage scope.anchor ↔
      storage.revisionTable = some (storage.tableFor scope.revisionScoped) ∧
        scope.compiler.resolver.tables.revisionKey =
          some (scope.compiler.resolver.tables.joinKey scope.revisionScoped) := by
  obtain ⟨table, left, right⟩ := (j.answers_iff _).1 h
  simp only [LookupScope.sharedJoin, Reach.sharedJoin] at table left right
  constructor
  · intro own
    obtain ⟨key, hkey, -, same⟩ := own.key
    refine ⟨table ▸ own.table, ?_⟩
    simpa [shared, right, hkey] using same.symm
  · rintro ⟨revisions, hkey⟩
    refine ⟨table ▸ revisions, _, hkey, left, ?_⟩
    simpa [shared] using right

/-- The join of a shared table is within one scope unless the field is torn. -/
theorem withinScope_iff_of_shared (h : j.answers (scope.sharedJoin storage) = true)
    (shared : storage.dedicated = false) :
    j.WithinScope scope.compiler.resolver.tables storage scope.anchor ↔
      ¬ scope.compiler.resolver.tables.Tears storage scope.revisionScoped := by
  rw [WithinScope, ofRecord_iff_of_shared h shared, ofRevision_iff_of_shared h shared,
    EntityTables.tears_iff, FieldStorage.tableFor, EntityTables.joinKey]
  -- What the content type has for revisions decides the table and the key.
  cases scope.revisionScoped with
  | false => simp
  | true =>
    cases storage.revisionTable with
    | none =>
      cases scope.compiler.resolver.tables.revisionKey with
      | none => simp
      | some key => simp [shared]
    | some revisions =>
      cases scope.compiler.resolver.tables.revisionKey with
      | none => simp [shared]
      | some key => simp

/-- The join of a field is within one scope unless the field is torn. -/
theorem withinScope_iff (h : j.answers (scope.recordJoin storage) = true) :
    j.WithinScope scope.compiler.resolver.tables storage scope.anchor ↔
      ¬ scope.compiler.resolver.tables.Tears storage scope.revisionScoped := by
  cases own : storage.dedicated with
  | true =>
    rw [LookupScope.recordJoin_of_dedicated own] at h
    refine iff_of_true (withinScope_of_dedicated h own) fun torn => ?_
    have shared := torn.shared
    rw [own] at shared
    cases shared
  | false =>
    rw [LookupScope.recordJoin_of_shared own] at h
    exact withinScope_iff_of_shared h own

end Sql.Join

/-- Whatever is asked for to reach a field is the join of the field, its kind aside. -/
theorem LookupScope.key_of_request {scope : LookupScope} {q : Query} {storage : FieldStorage}
    {kind : JoinKind} {r : JoinRequest} (h : (scope.reach q storage kind).request? = some r) :
    r.key = (scope.recordJoin storage).key := by
  unfold reach at h
  cases own : storage.dedicated with
  | true =>
    rw [Reach.of_dedicated own] at h
    rw [recordJoin_of_dedicated own, ← Option.some.inj h]
    rfl
  | false =>
    rw [recordJoin_of_shared own]
    simp only [Reach.of, own, Bool.false_eq_true, if_false] at h
    split at h
    · cases h
    · split at h
      · cases h
      · rw [← Option.some.inj h]
        rfl

/-! ## Compiles -/

namespace Compiler

variable (c : Compiler) (t : FilterTree) (q : Query) (revisionScoped : Bool)

/-- A join that a compile adds is that of the field of a predicate. -/
theorem exists_answers_of_mem_drop {j : Join}
    (h : j ∈ (c.compile t q revisionScoped).query.joins.joins.drop q.joins.joins.length) :
    ∃ anchor, c.anchor q = .ok anchor ∧ ∃ p ∈ t.livePredicates, ∃ storage,
      LookupScope.Stores ⟨c, anchor, revisionScoped⟩ p storage ∧
        j.answers (LookupScope.recordJoin ⟨c, anchor, revisionScoped⟩ storage) = true := by
  have joins := congrArg Query.joins (c.bare_compile t q revisionScoped)
  rw [trail_query] at joins
  have same : (c.compile t q revisionScoped).query.joins =
      (q.bare.ensureAll (c.trail t q revisionScoped).requests).joins := joins
  rw [same] at h
  obtain ⟨r, hr, answers⟩ := Query.exists_answers_of_mem_drop h
  obtain ⟨anchor, ha, o, ho, storage, q', stored, asked⟩ :=
    c.exists_stores_of_mem_requests t revisionScoped hr
  refine ⟨anchor, ha, o.predicate, ?_, storage, stored, ?_⟩
  · rw [← FilterTree.map_predicate_occurrences false]
    exact List.mem_map_of_mem ho
  · rw [j.answers_iff_key, ← LookupScope.key_of_request asked, ← j.answers_iff_key]
    exact answers

/-- Each join that a compile adds is that of the field of a predicate, and it is within one scope
unless the tables of the mapping tear that field. -/
theorem withinScope_compile_iff (m : TableMapping) (backend : Backend) (options : CompileOptions) :
    ∀ j ∈ (compile ⟨m.resolver, backend, options⟩ t q revisionScoped).query.joins.joins.drop
        q.joins.joins.length,
      ∃ anchor, Compiler.anchor ⟨m.resolver, backend, options⟩ q = .ok anchor ∧
        ∃ p ∈ t.livePredicates, ∃ path storage, p.path = .ok path ∧
          m.storage? path.field path.property = some storage ∧
          j.answers (LookupScope.recordJoin ⟨⟨m.resolver, backend, options⟩, anchor,
            revisionScoped⟩ storage) = true ∧
          (j.WithinScope m.tables storage anchor ↔ ¬ m.tables.Tears storage revisionScoped) := by
  intro j hj
  obtain ⟨anchor, ha, p, hp, storage, ⟨path, hpath, stored⟩, answers⟩ :=
    exists_answers_of_mem_drop _ t q revisionScoped hj
  exact ⟨anchor, ha, p, hp, path, storage, hpath, stored, answers, Join.withinScope_iff answers⟩

end Compiler

/-! ## Content types with revisions and without -/

/-- The content type keeps revisions, which have a table and a key, or it keeps none. -/
structure EntityTables.Paired (tables : EntityTables) : Prop where
  table : tables.revisionTable.isSome = tables.revisionKey.isSome
  data : tables.revisionDataTable.isSome = true → tables.revisionTable.isSome = true

/-- What is stored is a property of a field of the mapping. -/
theorem TableMapping.exists_of_storage? {m : TableMapping} {field : String}
    {property : Option String} {storage : FieldStorage}
    (stored : m.storage? field property = some storage) :
    ∃ f ∈ m.fields, ∃ property ∈ f.properties, ∃ caseSensitive,
      storage = if f.dedicated then m.dedicatedStorage f property caseSensitive
        else m.sharedStorage f property caseSensitive := by
  unfold storage? at stored
  cases hf : m.field? field with
  | none => simp [hf] at stored
  | some f =>
    simp only [hf, Option.bind_eq_bind, Option.bind_some, Option.bind_eq_some_iff] at stored
    obtain ⟨caseSensitive, has, same⟩ := stored
    refine ⟨f, List.mem_of_find?_eq_some hf, property.getD f.mainProperty, ?_, caseSensitive,
      (Option.some.inj same).symm⟩
    unfold FieldDefinition.caseSensitive? at has
    split at has
    next mem => exact mem
    next => cases has

/-- A field on a shared table has its revisions in the counterpart of that table. -/
theorem TableMapping.revisionTable_of_storage? {m : TableMapping} {field : String}
    {property : Option String} {storage : FieldStorage}
    (stored : m.storage? field property = some storage) (shared : storage.dedicated = false) :
    ∃ f ∈ m.fields, storage.revisionTable = (m.sharedTables f.table).2 := by
  obtain ⟨f, hf, property, -, caseSensitive, rfl⟩ := exists_of_storage? stored
  refine ⟨f, hf, ?_⟩
  split at shared
  · cases shared
  next own =>
    rw [if_neg own]
    rfl

/-- Such a content type tears no field. -/
theorem TableMapping.not_tears {m : TableMapping} (h : m.tables.Paired) {field : String}
    {property : Option String} {storage : FieldStorage}
    (stored : m.storage? field property = some storage) (revisionScoped : Bool) :
    ¬ m.tables.Tears storage revisionScoped := by
  intro torn
  obtain ⟨f, -, counterpart⟩ := revisionTable_of_storage? stored torn.shared
  have both : storage.revisionTable.isSome = m.tables.revisionKey.isSome := by
    rw [counterpart, ← h.table]
    cases f.table with
    | base => rfl
    | data =>
      have data := h.data
      cases hd : m.tables.revisionDataTable with
      | none => simp [sharedTables, hd]
      | some table => simpa [sharedTables, hd] using data
  rcases torn.halved with ⟨hk, revisions, hr, -⟩ | ⟨hr, key, hk, -⟩
  · rw [Option.mem_def] at hr
    simp [hr, hk] at both
  · rw [Option.mem_def] at hk
    simp [hr, hk] at both

/-- If a content type keeps revisions properly or not at all, each join that a compile adds is
within one scope. -/
theorem Compiler.withinScope_compile_of_paired {m : TableMapping} (h : m.tables.Paired)
    (backend : Backend) (options : CompileOptions) (t : FilterTree) (q : Query)
    (revisionScoped : Bool) :
    ∀ j ∈ (compile ⟨m.resolver, backend, options⟩ t q revisionScoped).query.joins.joins.drop
        q.joins.joins.length,
      ∃ anchor storage, Compiler.anchor ⟨m.resolver, backend, options⟩ q = .ok anchor ∧
        j.WithinScope m.tables storage anchor := by
  intro j hj
  obtain ⟨anchor, ha, p, hp, storage, ⟨path, hpath, stored⟩, answers⟩ :=
    exists_answers_of_mem_drop _ t q revisionScoped hj
  exact ⟨anchor, storage, ha, (Join.withinScope_iff answers).2 (m.not_tears h stored _)⟩

/-! ## A content type that is not -/

/-- Articles with a table of revisions and a key for them. -/
def revisedArticles : TableMapping :=
  (TableMapping.ofTables "node"
    { baseTable := "node", idKey := "nid", dataTable := some "node_field_data",
      revisionTable := some "node_revision", revisionDataTable := some "node_field_revision",
      revisionKey := some "vid" }).withField
    (FieldDefinition.single "status" "value").onDataTable

/-- Articles with a table of revisions but no key for them. -/
def unkeyedArticles : TableMapping :=
  (TableMapping.ofTables "node"
    { baseTable := "node", idKey := "nid", revisionTable := some "node_revision" }).withField
    (FieldDefinition.single "status" "value")

/-- The filter for published revisions, put into a selection from a table. -/
def publishedRevisions (m : TableMapping) (table : String) : Compiled :=
  Compiler.compile ⟨m.resolver, .entity, {}⟩
    (FilterTree.all.add (.leaf (.equals "status" (.int 1)))) (Query.select table) true

/-- The revisions of articles are joined on the key of the revision. -/
theorem Compiler.withinScope_compile_revisedArticles :
    (publishedRevisions revisedArticles "node_revision").query.joins.joins =
        [⟨.inner, "node_field_revision", "node_field_revision", "node_revision.vid", "vid"⟩] ∧
      ∃ storage, revisedArticles.storage? "status" none = some storage ∧
        Join.WithinScope ⟨.inner, "node_field_revision", "node_field_revision",
          "node_revision.vid", "vid"⟩ revisedArticles.tables storage
          ⟨"node_revision", "node_revision"⟩ := by
  have only : (publishedRevisions revisedArticles "node_revision").query.joins.joins =
      [⟨.inner, "node_field_revision", "node_field_revision", "node_revision.vid", "vid"⟩] := rfl
  refine ⟨only, ?_⟩
  obtain ⟨anchor, ha, p, hp, path, storage, hpath, stored, -, within⟩ :=
    withinScope_compile_iff (FilterTree.all.add (.leaf (.equals "status" (.int 1))))
      (Query.select "node_revision") true revisedArticles .entity {} _
      (only ▸ List.mem_singleton_self _)
  obtain rfl : (⟨"node_revision", "node_revision"⟩ : Anchor) = anchor := Except.ok.inj ha
  obtain rfl := List.mem_singleton.1 hp
  obtain rfl := Except.ok.inj hpath
  exact ⟨storage, stored, within.2 (revisedArticles.not_tears ⟨rfl, fun _ => rfl⟩ stored true)⟩

/-- Without a key for them, the revisions of articles are joined on the key of the record: every
old revision of the record meets the condition for it. -/
theorem Compiler.acrossScopes_compile :
    (publishedRevisions unkeyedArticles "node").query.joins.joins =
        [⟨.inner, "node_revision", "node_revision", "node.nid", "nid"⟩] ∧
      ∃ storage, unkeyedArticles.storage? "status" none = some storage ∧
        storage.revisionTable = some "node_revision" ∧ storage.table = "node" ∧
        ¬ Join.WithinScope ⟨.inner, "node_revision", "node_revision", "node.nid", "nid"⟩
          unkeyedArticles.tables storage ⟨"node", "node"⟩ := by
  refine ⟨rfl, _, rfl, rfl, rfl, ?_⟩
  rintro (record | revision)
  · exact absurd record.table (by decide)
  · obtain ⟨key, hkey, -⟩ := revision.key
    cases hkey

end RowAccess
