import RowAccess.Proofs.Lowering.Anchoring
import RowAccess.Proofs.Lowering.Requests
import RowAccess.Proofs.Sql.Aliases
import RowAccess.Proofs.Sql.Answer

/-!
# Records without a value in a dedicated field

A dedicated table has a row for each value of a field, so a record without a value has no row
in it.  The join of such a table drops the record, unless it was asked to keep it.  That is
harmless where a predicate on the field must hold which no missing value meets.

One predicate is met by a missing value and does not ask for anything to be kept: the value is
not among none.  Where a filter says nothing else of a dedicated field, the records without a
value are lost, although each of them meets the condition as it is written.

Main results:

- `Lowering.op_of_worth_null`: the predicates that a missing value meets.
- `Compiler.returns_compile_iff`: the records that a statement returns, and those lost by its
  joins.
- `Compiler.unreturned_compile`: a record that is lost.
-/

namespace RowAccess

open Sql

/-! ## Predicates that a missing value meets -/

/-- A clause that compares as a predicate does compares as its own predicate does. -/
theorem Lowering.op_clauseFor {column : String} {caseSensitive : Bool} {options : CompileOptions}
    {op op' : Comparison} {value : Value}
    (h : (clauseFor column caseSensitive options op value).op = .compare op') : op = op' := by
  rcases clauseFor_eq_or column caseSensitive options op value with
    made | ⟨s, -, ⟨-, made⟩ | ⟨-, made⟩⟩
  · rw [made] at h
    exact ClauseOp.compare.inj h
  · rw [made] at h
    cases h
  · rw [made] at h
    cases h

/-- Membership is compared with the operand as it is. -/
theorem Lowering.value_clauseFor_notInList (column : String) (caseSensitive : Bool)
    (options : CompileOptions) (value : Value) :
    (clauseFor column caseSensitive options .notInList value).value = value := rfl

/-- A missing value meets a check for the null, and it is not among none. -/
theorem Lowering.op_of_worth_null {p : Predicate} {column : String} {caseSensitive : Bool}
    {options : CompileOptions} {c : Clause} {engine : Engine}
    (h : clause p column caseSensitive options = .ok c) (holds : c.worth engine .null = .yes) :
    p.op = .isNull ∨ p.op = .notInList ∧ p.value = .list [] := by
  obtain ⟨v, hoperand, rfl⟩ := exists_operand_of_clause h
  rcases Clause.op_of_worth_null holds with hop | ⟨hop, empty⟩
  · exact .inl (op_clauseFor hop)
  · have notIn := op_clauseFor hop
    refine .inr ⟨notIn, ?_⟩
    rw [notIn, value_clauseFor_notInList] at empty
    rw [operand, notIn] at hoperand
    -- A single value is compared as the list of it, which is not empty.
    cases hv : p.value <;> rw [hv] at hoperand <;> cases hoperand <;>
      simp_all [Clause.items, Value.list?]

/-! ## Dedicated tables -/

namespace TableMapping

variable (m : TableMapping)

/-- The table of its own that the field of a predicate has. -/
def dedicatedTable? (p : Predicate) : Option String :=
  match p.path with
  | .ok path =>
    (m.storage? path.field path.property).bind fun storage =>
      if storage.dedicated then some storage.table else none
  | .error _ => none

/-- The table is the dedicated table of one of the fields. -/
def isDedicated (table : String) : Bool :=
  m.fields.any fun f => f.dedicated && table = m.typeId ++ "__" ++ f.name

/-- All that a filter says of the field of a dedicated table is that its value is not among
none, and it says so under no OR. -/
structure Idle (t : FilterTree) (table : String) : Prop where
  used : ∃ o ∈ t.occurrences false, m.dedicatedTable? o.predicate = some table
  vacuous : ∀ o ∈ t.occurrences false, m.dedicatedTable? o.predicate = some table →
    o.underOr = false ∧ o.predicate.op = .notInList ∧ o.predicate.value = .list []

/-- A dedicated table has a row for a record. -/
def HasRow (engine : Engine) (db : Database) (record : Record) (table : String) : Prop :=
  ∃ row ∈ db.rows table, engine.joins (record m.tables.idKey) (row dedicatedEntityColumn) = true

/-- Each record of the base table has a row in the other shared table. -/
def CompleteIn (engine : Engine) (db : Database) : Prop :=
  ∀ record ∈ db.rows m.tables.baseTable, ∀ table, m.tables.dataTable = some table →
    ∃ row ∈ db.rows table, engine.joins (record m.tables.idKey) (row m.tables.idKey) = true

variable {m}

/-- The table of its own that a field has is named after the content type and the field. -/
theorem dedicatedTable?_eq_some {p : Predicate} {table : String}
    (h : m.dedicatedTable? p = some table) :
    ∃ path f, p.path = .ok path ∧ m.field? path.field = some f ∧ f.dedicated = true ∧
      table = m.typeId ++ "__" ++ f.name := by
  unfold dedicatedTable? at h
  cases hpath : p.path with
  | error e =>
    rw [hpath] at h
    cases h
  | ok path =>
    rw [hpath] at h
    obtain ⟨storage, hstorage, stored⟩ := Option.bind_eq_some_iff.1 h
    obtain ⟨f, hf, dedicated, named⟩ := storage?_eq_some hstorage
    split at stored
    next own =>
      obtain rfl := Option.some.inj stored
      rw [dedicated] at own
      rw [if_pos own] at named
      exact ⟨path, f, rfl, hf, own, named⟩
    next => cases stored

/-- The name of a dedicated table has no dot if the name of the content type has none. -/
theorem dot_not_mem_dedicatedTable {p : Predicate} {table : String}
    (htype : '.' ∉ m.typeId.toList) (h : m.dedicatedTable? p = some table) :
    '.' ∉ table.toList := by
  obtain ⟨path, f, hpath, hf, -, rfl⟩ := dedicatedTable?_eq_some h
  have field : '.' ∉ f.name.toList := by
    rw [name_of_field? hf]
    exact FieldPath.dot_not_mem_field_of_parse hpath
  simp [htype, field]

end TableMapping

/-! ## A filter in a fresh selection -/

namespace TableMapping

variable (m : TableMapping) (options : CompileOptions) (t : FilterTree)
  (aliasName : Option String)

/-- What comes of a filter in a fresh selection from the base table. -/
def selection : Compiled :=
  Compiler.compile ⟨m.resolver, .entity, options⟩ t (.select m.tables.baseTable aliasName) false

/-- The name that columns of the base table are qualified by. -/
def baseAlias : String := aliasName.getD m.tables.baseTable

/-- Where the fields of the selection are looked up. -/
def selectionScope : LookupScope :=
  ⟨⟨m.resolver, .entity, options⟩, ⟨m.baseAlias aliasName, m.tables.baseTable⟩, false⟩

/-- The request for a table on the number of the record. -/
def recordRequest (table : String) (kind : JoinKind) (column : String) : JoinRequest :=
  ⟨table, kind, Text.qualify (m.baseAlias aliasName) m.tables.idKey, column⟩

variable {m options t aliasName}

theorem answers_recordRequest_iff {j : Join} {table : String} {kind : JoinKind}
    {column : String} :
    j.answers (m.recordRequest aliasName table kind column) = true ↔
      j.table = table ∧ j.left = Text.qualify (m.baseAlias aliasName) m.tables.idKey ∧
        j.rightColumn = column :=
  j.answers_iff _

theorem reachable_fresh : (Query.select m.tables.baseTable aliasName).Reachable :=
  .rename (.select m.tables.baseTable) rfl (m.baseAlias aliasName)

theorem reachable_selection : (m.selection options t aliasName).query.Reachable :=
  Compiler.compile_reachable _ t reachable_fresh false

theorem base_selection :
    (m.selection options t aliasName).query.base = ⟨m.baseAlias aliasName, m.tables.baseTable⟩ :=
  Compiler.compile_stable (Query.stable_base _) _ t reachable_fresh.root_mem rfl false

/-- A predicate on a dedicated field asks for its table on the number of the record. -/
theorem requires_iff {o : Occurrence} {r : JoinRequest} :
    (m.selectionScope options aliasName).Requires o r ↔
      ∃ table, m.dedicatedTable? o.predicate = some table ∧
        r = m.recordRequest aliasName table
          (LookupScope.joinKind o.underOr o.predicate.op) dedicatedEntityColumn := by
  constructor
  · rintro ⟨⟨path, hpath, hstorage⟩, own⟩
    rename_i storage
    refine ⟨storage.table, ?_, rfl⟩
    have stored : m.storage? path.field path.property = some storage := hstorage
    simp [dedicatedTable?, hpath, stored, own]
  · rintro ⟨table, h, rfl⟩
    unfold dedicatedTable? at h
    cases hpath : o.predicate.path with
    | error e =>
      rw [hpath] at h
      cases h
    | ok path =>
      rw [hpath] at h
      obtain ⟨storage, hstorage, stored⟩ := Option.bind_eq_some_iff.1 h
      split at stored
      next own =>
        obtain rfl := Option.some.inj stored
        exact .dedicated ⟨path, hpath, hstorage⟩ own
      next => cases stored

/-- Any other predicate asks for the data table on the number of the record, if for anything. -/
theorem eq_recordRequest_of_mayRequest {o : Occurrence} {r : JoinRequest}
    (h : (m.selectionScope options aliasName).MayRequest o r) :
    ∃ table, m.tables.dataTable = some table ∧
      r = m.recordRequest aliasName table .inner m.tables.idKey := by
  obtain ⟨⟨path, hpath, hstorage⟩, shared, other⟩ := h
  rename_i storage
  obtain ⟨f, hf, dedicated, named⟩ := storage?_eq_some hstorage
  rw [← dedicated, shared] at named
  have elsewhere : storage.table ≠ m.tables.baseTable := other
  cases hdata : m.tables.dataTable with
  | none =>
    cases hf : f.table <;> simp [sharedTables, hf, hdata] at named <;> exact absurd named elsewhere
  | some table =>
    cases hf : f.table with
    | base =>
      simp [sharedTables, hf] at named
      exact absurd named elsewhere
    | data =>
      simp [sharedTables, hf, hdata] at named
      exact ⟨table, rfl, by rw [← named]; rfl⟩

/-- The joins of the selection are those that its predicates ask for. -/
theorem requests_selection {report : CompileReport}
    (hok : (m.selection options t aliasName).outcome = .ok report) :
    ∃ requests, (m.selection options t aliasName).query.joins.Serves requests ∧
      (m.selectionScope options aliasName).Requested (t.occurrences false) requests := by
  obtain ⟨new, serves, requested⟩ :=
    Compiler.compile_requests (c := ⟨m.resolver, .entity, options⟩)
      (q := .select m.tables.baseTable aliasName) rfl JoinSet.serves_empty hok
  rw [List.append_nil] at serves
  exact ⟨new, serves, requested⟩

/-- Every request of the selection is for a table on the number of the record. -/
theorem eq_recordRequest {requests : List JoinRequest}
    (h : (m.selectionScope options aliasName).Requested (t.occurrences false) requests)
    {r : JoinRequest} (hr : r ∈ requests) :
    ∃ table kind column, r = m.recordRequest aliasName table kind column := by
  obtain ⟨o, -, requires | may⟩ := h.justified r hr
  · obtain ⟨table, -, rfl⟩ := requires_iff.1 requires
    exact ⟨_, _, _, rfl⟩
  · obtain ⟨table, -, rfl⟩ := eq_recordRequest_of_mayRequest may
    exact ⟨_, _, _, rfl⟩

/-- The joins of the selection look at the number of the record. -/
theorem left_of_mem_joins {report : CompileReport}
    (hok : (m.selection options t aliasName).outcome = .ok report) {j : Join}
    (hj : j ∈ (m.selection options t aliasName).query.joins.joins) :
    j.left = Text.qualify (m.baseAlias aliasName) m.tables.idKey := by
  obtain ⟨requests, serves, requested⟩ := requests_selection hok
  obtain ⟨r, hr, answers⟩ := serves.asked j hj
  obtain ⟨table, kind, column, rfl⟩ := eq_recordRequest requested hr
  exact (answers_recordRequest_iff.1 answers).2.1

/-- The alias of a dedicated table has no dot if the name of the content type has none. -/
theorem dot_not_mem_aliasName (htype : '.' ∉ m.typeId.toList) {j : Join}
    (hj : j ∈ (m.selection options t aliasName).query.joins.joins) {p : Predicate}
    (htable : m.dedicatedTable? p = some j.table) : '.' ∉ j.aliasName.toList :=
  (Compiler.compile_stable Query.stable_dotFree _ t reachable_fresh.root_mem ⟨rfl, nofun⟩
    false).2 j hj (dot_not_mem_dedicatedTable htype htable)

section Selection

variable {report : CompileReport} (hbase : '.' ∉ (m.baseAlias aliasName).toList)
  (hok : (m.selection options t aliasName).outcome = .ok report)
include hbase hok

/-- The joins of the selection hang off the base. -/
theorem isStar_selection : (m.selection options t aliasName).query.IsStar where
  hangs := by
    intro j hj
    have base : (m.selection options t aliasName).query.aliasName = m.baseAlias aliasName :=
      congrArg Anchor.aliasName base_selection
    rw [Join.hangsOff, left_of_mem_joins hok hj, base, Text.splitAtDot_qualify hbase]
    simp
  fresh := Compiler.compile_stable Query.stable_fresh _ t reachable_fresh.root_mem
    List.not_mem_nil false
  distinct := reachable_selection.nodup_aliases

/-- A join of the selection looks for the partners of a record by its number. -/
theorem link_selection {j : Join} (hj : j ∈ (m.selection options t aliasName).query.joins.joins)
    (record : Record) :
    (m.selection options t aliasName).query.link record j = record m.tables.idKey := by
  have base : (m.selection options t aliasName).query.aliasName = m.baseAlias aliasName :=
    congrArg Anchor.aliasName base_selection
  rw [Query.link, left_of_mem_joins hok hj, base, Scope.value,
    Text.splitAtDot_qualify hbase]
  simp

/-- A join of the selection finds a row for a record if the table has one for its number. -/
theorem partners_ne_nil_iff {j : Join}
    (hj : j ∈ (m.selection options t aliasName).query.joins.joins) {engine : Engine}
    {db : Database} {record : Record} :
    j.partners engine db ((m.selection options t aliasName).query.link record j) ≠ [] ↔
      ∃ row ∈ db.rows j.table,
        engine.joins (record m.tables.idKey) (row j.rightColumn) = true := by
  rw [link_selection hbase hok hj, Join.partners, Ne, List.filter_eq_nil_iff]
  simp

end Selection

/-! ## Records that are lost -/

/-- If the conditions of the selection are true in a reading, so is the clause of each predicate
under no OR, on the column that its field is reached by. -/
theorem clause_of_true {report : CompileReport}
    (hok : (m.selection options t aliasName).outcome = .ok report) {ρ : Assignment Ternary}
    (holds : (m.selection options t aliasName).query.conditions.truth ρ = .yes) {p : Predicate}
    (hp : ⟨p, false⟩ ∈ t.occurrences false) {table : String}
    (htable : m.dedicatedTable? p = some table) :
    ∃ storage alias' c, (m.selectionScope options aliasName).Stores p storage ∧
      storage.dedicated = true ∧
      (m.selection options t aliasName).query.Links
        ((m.selectionScope options aliasName).dedicatedJoin storage) alias' ∧
      Lowering.clause p (Text.qualify alias' storage.column) storage.caseSensitive options = .ok c ∧
      ρ.clause c = .yes := by
  have nested : (Query.select m.tables.baseTable aliasName).conditions.Nested :=
    reachable_fresh.nested
  obtain ⟨anchor, ha, items, grown, lowered⟩ := Compiler.compile_ok nested hok
  obtain rfl : (⟨m.baseAlias aliasName, m.tables.baseTable⟩ : Anchor) = anchor :=
    Except.ok.inj ha
  have whole : (m.selection options t aliasName).query.conditions.truth ρ = _ ⊓ _ :=
    grown.truth_eq ρ nested reachable_selection.nested
  have top : (m.selection options t aliasName).query.conditions.truth ρ = ⊤ := holds
  rw [whole, inf_eq_top_iff, Conjunction.fold_and_eq_top_iff] at top
  obtain ⟨clauses, emits, worth⟩ := lowered.of_true
    (fun e he => top.2 _ (List.mem_map_of_mem he)) hp
  cases emits with
  | skipped hpath hstorage hbackend => cases hbackend
  | @stored path storage alias' c hpath hstorage reach hclause =>
    have stored : (m.selectionScope options aliasName).Stores p storage := ⟨path, hpath, hstorage⟩
    have own : storage.dedicated = true := by
      have found : m.storage? path.field path.property = some storage := hstorage
      by_contra shared
      simp [dedicatedTable?, hpath, found, shared] at htable
    exact ⟨storage, alias', c, stored, own, reach.link_of_dedicated own, hclause,
      worth c (List.mem_singleton_self c)⟩

/-- Where a table has no row for a record that the loosened selection returns, and its join drops
such records, the filter says no more of the table than that values are not among none. -/
theorem idle_of_partners_eq_nil {report : CompileReport} (htype : '.' ∉ m.typeId.toList)
    (hbase : '.' ∉ (m.baseAlias aliasName).toList)
    (hok : (m.selection options t aliasName).outcome = .ok report) {engine : Engine}
    {db : Database} {tables : String → Bool} {record : Record}
    (returned : ((m.selection options t aliasName).query.loosen tables).Returns engine db record)
    {j : Join} (hj : j ∈ (m.selection options t aliasName).query.joins.joins)
    (hkind : j.kind = .inner)
    (unmatched : j.partners engine db ((m.selection options t aliasName).query.link record j) = [])
    {o : Occurrence} (ho : o ∈ t.occurrences false)
    (htable : m.dedicatedTable? o.predicate = some j.table)
    (hcolumn : j.rightColumn = dedicatedEntityColumn) :
    o.underOr = false ∧ o.predicate.op = .notInList ∧ o.predicate.value = .list [] := by
  obtain ⟨requests, serves, requested⟩ := requests_selection hok
  -- The request of the predicate is served by the join, so it did not ask to keep records.
  have requires := requested.needed o ho _ (requires_iff.2 ⟨j.table, htable, rfl⟩)
  have answers (kind : JoinKind) :
      j.answers (m.recordRequest aliasName j.table kind dedicatedEntityColumn) = true :=
    answers_recordRequest_iff.2 ⟨rfl, left_of_mem_joins hok hj, hcolumn⟩
  have standing := LookupScope.joinKind_eq_inner_iff.1
    (serves.kind_of_inner hj hkind requires (answers _))
  obtain ⟨p, underOr⟩ := o
  obtain ⟨rfl, notCheck⟩ : underOr = false ∧ p.op.isNullCheck = false := standing
  refine ⟨rfl, ?_⟩
  obtain ⟨-, s, hs, holds⟩ := returned
  obtain ⟨storage, alias', c, stored, own, ⟨j', hj', answers', rfl⟩, hclause, worth⟩ :=
    clause_of_true hok holds ho htable
  -- The clause is on the join, which stands for a missing row.
  obtain rfl : j = j' := by
    have asked : (m.selectionScope options aliasName).Requires ⟨p, false⟩ _ :=
      .dedicated stored own
    obtain ⟨table, htable', request⟩ := requires_iff.1 asked
    obtain rfl : j.table = table := Option.some.inj (htable.symm.trans htable')
    refine serves.eq_of_answers hj hj' (answers .inner) ?_
    have sameKey := congrArg JoinRequest.key request
    rw [Join.answers_iff_key] at answers' ⊢
    exact answers'.trans sameKey
  have missing := (isStar_selection hbase hok).lookup_absent hs hj unmatched
  have value : s.value c.column = .null := by
    rw [Lowering.column_of_clause hclause]
    exact Scope.value_qualify_absent missing (dot_not_mem_aliasName htype hj htable) _
  have met : c.worth engine .null = .yes := by
    rw [← value]
    exact worth
  rcases Lowering.op_of_worth_null hclause met with null | vacuous
  · rw [null] at notCheck
    cases notCheck
  · exact vacuous

/-- The table of which a filter says no more than that values are not among none has a join that
drops records. -/
theorem Idle.exists_inner {report : CompileReport} {table : String} (idle : m.Idle t table)
    (hok : (m.selection options t aliasName).outcome = .ok report) :
    ∃ j ∈ (m.selection options t aliasName).query.joins.joins, j.table = table ∧
      j.rightColumn = dedicatedEntityColumn ∧ j.kind = .inner := by
  obtain ⟨requests, serves, requested⟩ := requests_selection hok
  obtain ⟨o, ho, htable⟩ := idle.used
  obtain ⟨j, hj, answers⟩ :=
    serves.answered _ (requested.needed o ho _ (requires_iff.2 ⟨table, htable, rfl⟩))
  obtain ⟨rfl, -, column⟩ := answers_recordRequest_iff.1 answers
  refine ⟨j, hj, rfl, column, ?_⟩
  cases hkind : j.kind with
  | inner => rfl
  | left =>
    -- Some predicate asked to keep records, but those on the table do not.
    obtain ⟨r, hr, answers', kind⟩ := (serves.kind j hj).1 hkind
    obtain ⟨o', ho', requires | may⟩ := requested.justified r hr
    · obtain ⟨table', htable', rfl⟩ := requires_iff.1 requires
      obtain rfl : j.table = table' := (answers_recordRequest_iff.1 answers').1
      obtain ⟨standing, op, -⟩ := idle.vacuous o' ho' htable'
      have kind' : LookupScope.joinKind o'.underOr o'.predicate.op = .left := kind
      rw [standing, op] at kind'
      cases kind'
    · obtain ⟨table', -, rfl⟩ := eq_recordRequest_of_mayRequest may
      cases kind

/-- A record that is returned has a row in each table of which the filter says no more than that
values are not among none. -/
theorem Idle.hasRow_of_returns {report : CompileReport} {table : String} (idle : m.Idle t table)
    (hbase : '.' ∉ (m.baseAlias aliasName).toList)
    (hok : (m.selection options t aliasName).outcome = .ok report) {engine : Engine}
    {db : Database} {record : Record}
    (returned : (m.selection options t aliasName).query.Returns engine db record) :
    m.HasRow engine db record table := by
  obtain ⟨j, hj, rfl, column, hkind⟩ := idle.exists_inner hok
  have found := (isStar_selection hbase hok).partners_ne_nil returned hj hkind
  rw [partners_ne_nil_iff hbase hok hj, column] at found
  exact found

/-- If a record that the loosened selection returns has a row in each of those tables, every
join that drops records finds a row for it. -/
theorem partners_ne_nil_of_hasRow {report : CompileReport} (htype : '.' ∉ m.typeId.toList)
    (hbase : '.' ∉ (m.baseAlias aliasName).toList)
    (hok : (m.selection options t aliasName).outcome = .ok report) {engine : Engine}
    {db : Database} (complete : m.CompleteIn engine db) {tables : String → Bool}
    {record : Record}
    (returned : ((m.selection options t aliasName).query.loosen tables).Returns engine db record)
    (rows : ∀ table, m.Idle t table → m.HasRow engine db record table) {j : Join}
    (hj : j ∈ (m.selection options t aliasName).query.joins.joins) (hkind : j.kind = .inner) :
    j.partners engine db ((m.selection options t aliasName).query.link record j) ≠ [] := by
  intro unmatched
  refine absurd unmatched ?_
  rw [← ne_eq, partners_ne_nil_iff hbase hok hj]
  obtain ⟨requests, serves, requested⟩ := requests_selection hok
  obtain ⟨r, hr, answers⟩ := serves.asked j hj
  obtain ⟨o, ho, requires | may⟩ := requested.justified r hr
  · obtain ⟨table, htable, rfl⟩ := requires_iff.1 requires
    obtain ⟨rfl, -, column⟩ := answers_recordRequest_iff.1 answers
    have idle : m.Idle t j.table :=
      ⟨⟨o, ho, htable⟩, fun o' ho' htable' =>
        idle_of_partners_eq_nil htype hbase hok returned hj hkind unmatched ho' htable' column⟩
    rw [column]
    exact rows _ idle
  · obtain ⟨table, hdata, rfl⟩ := eq_recordRequest_of_mayRequest may
    obtain ⟨rfl, -, column⟩ := answers_recordRequest_iff.1 answers
    have base : (m.selection options t aliasName).query.table = m.tables.baseTable :=
      congrArg Anchor.table base_selection
    have stored : record ∈ db.rows m.tables.baseTable := by
      rw [← base]
      exact returned.1
    rw [column]
    exact complete record stored _ hdata

end TableMapping

/-- A selection returns the records that it would return if the joins of dedicated tables kept
all records, but for those without a row in a table of which the filter says no more than that
values are not among none.  Names that are taken as aliases hold no dot, or a statement could not
refer to them. -/
theorem Compiler.returns_compile_iff {m : TableMapping} {options : CompileOptions}
    {t : FilterTree} {aliasName : Option String} {report : CompileReport}
    (htype : '.' ∉ m.typeId.toList) (hbase : '.' ∉ (m.baseAlias aliasName).toList)
    (hok : (m.selection options t aliasName).outcome = .ok report) {engine : Engine}
    {db : Database} (complete : m.CompleteIn engine db) (record : Record) :
    (m.selection options t aliasName).query.Returns engine db record ↔
      ((m.selection options t aliasName).query.loosen m.isDedicated).Returns engine db record ∧
        ∀ table, m.Idle t table → m.HasRow engine db record table := by
  constructor
  · intro returned
    exact ⟨Query.returns_loosen returned, fun table idle =>
      idle.hasRow_of_returns hbase hok returned⟩
  · rintro ⟨returned, rows⟩
    refine (Query.returns_iff_loosen (TableMapping.isStar_selection hbase hok)).2
      ⟨returned, fun j hj _ hkind => ?_⟩
    exact TableMapping.partners_ne_nil_of_hasRow htype hbase hok complete returned rows hj hkind

/-! ## A record that is lost -/

/-- Articles with tags, in a table of their own. -/
def articlesWithTags : TableMapping :=
  (TableMapping.ofTables "node" { baseTable := "node", idKey := "nid" }).withField
    (FieldDefinition.single "tags" "value").asDedicated

/-- Articles with a tag that is not among none. -/
def noTagExcluded : FilterTree :=
  FilterTree.all.add (.leaf (.make "tags" .notInList (.list [])))

/-- An article with a number and nothing else. -/
def numberedArticle (number : Int64) : Record :=
  fun column => if column = "nid" then .int number else .null

/-- Two articles, the first of which has a tag. -/
def oneTagged : Database where
  rows table :=
    if table = "node" then [numberedArticle 1, numberedArticle 2]
    else if table = "node__tags" then
      [fun column => if column = "entity_id" then .int 1 else .text "news"]
    else []

/-- An engine that knows which values are the same. -/
def sameValues : Engine where
  equal v w := v = w
  compares c v :=
    match c.op with
    | .compare .eq => if v = c.value then .yes else .no
    | .compare .ne => if v = c.value then .no else .yes
    | .compare .inList => if v ∈ Clause.items c.value then .yes else .no
    | .compare .notInList => if v ∈ Clause.items c.value then .no else .yes
    | _ => .unknown
  holds _ _ := .unknown

/-- The selection of the articles. -/
def withoutExcludedTag : Compiled := articlesWithTags.selection {} noTagExcluded none

/-- The article without a tag meets the condition, but its join drops it. -/
theorem Compiler.unreturned_compile :
    withoutExcludedTag.outcome = .ok ⟨1, ["node__tags"], [], false⟩ ∧
    (withoutExcludedTag.query.loosen articlesWithTags.isDedicated).Returns sameValues oneTagged
      (numberedArticle 2) ∧
    ¬ withoutExcludedTag.query.Returns sameValues oneTagged (numberedArticle 2) := by
  have stored : numberedArticle 2 ∈ oneTagged.rows "node" := by simp [oneTagged]
  have kept : scopes sameValues oneTagged
      (withoutExcludedTag.query.loosen articlesWithTags.isDedicated).joins.joins
      [("node", numberedArticle 2)] =
        [[("node__tags", .absent), ("node", numberedArticle 2)]] := rfl
  have dropped : scopes sameValues oneTagged withoutExcludedTag.query.joins.joins
      [("node", numberedArticle 2)] = [] := rfl
  have nested : withoutExcludedTag.query.conditions.Nested :=
    TableMapping.reachable_selection.nested
  refine ⟨rfl, ⟨stored, _, kept ▸ List.mem_singleton_self _, ?_⟩, ?_⟩
  · exact ConditionSet.truth_eq _ nested
  · rintro ⟨-, s, hs, -⟩
    have none : s ∈ [] := dropped ▸ hs
    cases none

/-- What it takes for the selection to return the second article. -/
theorem Compiler.returns_compile_iff_articles :
    '.' ∉ articlesWithTags.typeId.toList ∧ '.' ∉ (articlesWithTags.baseAlias none).toList ∧
    withoutExcludedTag.outcome = .ok ⟨1, ["node__tags"], [], false⟩ ∧
    articlesWithTags.CompleteIn sameValues oneTagged ∧
    (withoutExcludedTag.query.Returns sameValues oneTagged (numberedArticle 2) ↔
      (withoutExcludedTag.query.loosen articlesWithTags.isDedicated).Returns sameValues oneTagged
          (numberedArticle 2) ∧
        ∀ table, articlesWithTags.Idle noTagExcluded table →
          articlesWithTags.HasRow sameValues oneTagged (numberedArticle 2) table) := by
  have complete : articlesWithTags.CompleteIn sameValues oneTagged := by
    intro record _ table hdata
    cases hdata
  have done : withoutExcludedTag.outcome = .ok ⟨1, ["node__tags"], [], false⟩ := rfl
  exact ⟨by decide, by decide, done, complete,
    returns_compile_iff (by decide) (by decide) done complete (numberedArticle 2)⟩

end RowAccess
