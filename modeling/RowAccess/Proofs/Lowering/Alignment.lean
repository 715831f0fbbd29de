import RowAccess.Proofs.Lowering.Literals
import RowAccess.Proofs.Lowering.Revisions
import RowAccess.Proofs.Lowering.Scalars
import RowAccess.Proofs.Lowering.Scoping
import RowAccess.Proofs.Sql.Names

/-!
# Placeholders of compiled statements

The text of a statement and its parameters are written apart from each other.  They belong together
because a compile makes only clauses that are written with as many placeholders as they bind
operands, on columns whose names hold no quotes and no question marks, with an escape character that
does not end its quotes.  Compiles may fail half-way, and the statement may be joined and renamed in
between: each clause has its own operands for its own placeholders.

Main results:

- `Lowering.aligned_of_clause`: a predicate becomes a clause with as many placeholders as operands.
- `TableMapping.inert_resolver`: a mapping makes its names of those that it is given.
- `Compiler.inert_of_mem_requests`: a compile asks for joins by these names.
- `Query.Sound.apply`: one more step keeps names inert and clauses aligned.
- `Query.Filtered.reads_render`: each clause of a statement gets its own operands.
-/

namespace RowAccess

open Sql Sql.Reading

/-! ## The clause of a predicate -/

namespace Lowering

variable {p : Predicate} {column : String} {caseSensitive : Bool} {options : CompileOptions}

/-- A pattern is written with the escape character of the options. -/
theorem escape_clauseFor (column : String) (caseSensitive : Bool) (options : CompileOptions)
    (op : Comparison) (value : Value) :
    ∀ e ∈ (clauseFor column caseSensitive options op value).op.escape?, e = options.likeEscape := by
  rcases clauseFor_eq_or column caseSensitive options op value with
    made | ⟨s, -, ⟨-, made⟩ | ⟨-, made⟩⟩
  · rw [made]
    exact nofun
  · rw [made]
    rintro e ⟨⟩
    rfl
  · rw [made]
    rintro e ⟨⟩
    rfl

/-- A pattern is written with as many placeholders as the comparison that it stands for. -/
theorem arity_clauseFor (column : String) (caseSensitive : Bool) (options : CompileOptions)
    (op : Comparison) (value : Value) :
    (clauseFor column caseSensitive options op value).arity =
      Clause.arity ⟨column, .compare op, value⟩ := by
  rcases clauseFor_eq_or column caseSensitive options op value with
    made | ⟨s, -, ⟨rfl, made⟩ | ⟨rfl, made⟩⟩
  · rw [made]
  · rw [made]
    rfl
  · rw [made]
    rfl

/-- A comparison binds as many operands as it is written with placeholders: an operand that is not of
the right shape was refused. -/
theorem length_operands_of_operand {value : Value} (h : operand p = .ok value) (column : String) :
    (Clause.operands ⟨column, .compare p.op, value⟩).length =
      Clause.arity ⟨column, .compare p.op, value⟩ := by
  rw [operand] at h
  cases hop : p.op with
  | between | notBetween =>
    simp only [hop] at h
    split at h
    next low high _ =>
      obtain rfl := Except.ok.inj h
      rfl
    next => cases h
  | _ => rfl

/-- A predicate becomes a clause that is written with as many placeholders as it binds operands. -/
theorem aligned_of_clause {c : Clause} (h : clause p column caseSensitive options = .ok c)
    (inert : Inert column) (valid : options.validate = .ok ()) : c.Aligned := by
  have same := column_of_clause h
  have shapes := congrArg List.length (shapes_of_clause h)
  obtain ⟨value, ho, rfl⟩ := exists_operand_of_clause h
  rw [List.length_map, List.length_map, ← operands_of_operand ho column] at shapes
  constructor
  · refine Clause.holds_text ?_ fun quote => ?_
    · rw [same]
      exact inert.holds
    · have escape := escape_clauseFor column caseSensitive options p.op value _ quote
      exact escape_ne_quote valid escape.symm
  · rw [shapes, length_operands_of_operand ho, arity_clauseFor]

end Lowering

/-! ## Names of a mapping -/

/-- The names that say where a property of a field is stored. -/
structure FieldStorage.Inert (storage : FieldStorage) : Prop where
  table : Sql.Inert storage.table
  revisionTable : ∀ table ∈ storage.revisionTable, Sql.Inert table
  column : Sql.Inert storage.column

/-- The names that a compile may write have no quotes and question marks. -/
structure StorageResolver.Inert (r : StorageResolver) : Prop where
  idKey : Sql.Inert r.tables.idKey
  revisionKey : ∀ key ∈ r.tables.revisionKey, Sql.Inert key
  stored : ∀ field property storage, r.storage? field property = some storage → storage.Inert

theorem FieldStorage.Inert.tableFor {storage : FieldStorage} (h : storage.Inert)
    (revisionScoped : Bool) : Sql.Inert (storage.tableFor revisionScoped) := by
  have tables := h.revisionTable
  rw [FieldStorage.tableFor]
  cases revisionScoped with
  | false => exact h.table
  | true =>
    cases hr : storage.revisionTable with
    | none => exact h.table
    | some table => exact tables table hr

theorem StorageResolver.Inert.joinKey {r : StorageResolver} (h : r.Inert) (revisionScoped : Bool) :
    Sql.Inert (r.tables.joinKey revisionScoped) := by
  have keys := h.revisionKey
  rw [EntityTables.joinKey]
  cases revisionScoped with
  | false => exact h.idKey
  | true =>
    cases hk : r.tables.revisionKey with
    | none => exact h.idKey
    | some key => exact keys key hk

/-- The names that a mapping is given. -/
def TableMapping.names (m : TableMapping) : List String :=
  [m.typeId, m.tables.baseTable, m.tables.idKey] ++ m.tables.dataTable.toList ++
    m.tables.revisionTable.toList ++ m.tables.revisionDataTable.toList ++
    m.tables.revisionKey.toList ++ m.fields.flatMap fun f => f.name :: f.properties.names

namespace TableMapping

variable {m : TableMapping}

/-- The name of a dedicated table is made of that of the content type and that of the field. -/
theorem inert_dedicatedStorage (typeId : Sql.Inert m.typeId) {f : FieldDefinition}
    (name : Sql.Inert f.name) {property : String} (hproperty : Sql.Inert property)
    (caseSensitive : Bool) : (m.dedicatedStorage f property caseSensitive).Inert where
  table := (typeId.append (by decide)).append name
  revisionTable := by
    intro table htable
    obtain ⟨-, -, rfl⟩ := Option.map_eq_some_iff.1 htable
    exact (typeId.append (by decide)).append name
  column := (name.append (by decide)).append hproperty

/-- A shared table has the name that it was given. -/
theorem inert_sharedStorage (tables : ∀ shared, Sql.Inert (m.sharedTables shared).1)
    (revisions : ∀ shared, ∀ table ∈ (m.sharedTables shared).2, Sql.Inert table)
    {f : FieldDefinition} (name : Sql.Inert f.name) {property : String}
    (hproperty : Sql.Inert property) (caseSensitive : Bool) :
    (m.sharedStorage f property caseSensitive).Inert where
  table := tables f.table
  revisionTable := revisions f.table
  column := by
    rw [sharedStorage]
    split
    · exact name
    · exact (name.append (by decide)).append hproperty

/-- A mapping makes its names of those that it is given. -/
theorem inert_resolver (h : ∀ name ∈ m.names, Sql.Inert name) : m.resolver.Inert := by
  simp only [names, List.forall_mem_append, List.forall_mem_cons, List.forall_mem_flatMap,
    Option.mem_toList] at h
  obtain ⟨⟨⟨⟨⟨⟨typeId, baseTable, idKey, -⟩, dataTable⟩, revisionTable⟩, revisionDataTable⟩,
    revisionKey⟩, fields⟩ := h
  have tables (shared : SharedTable) : Sql.Inert (m.sharedTables shared).1 := by
    cases shared with
    | base => exact baseTable
    | data =>
      rw [sharedTables]
      cases hd : m.tables.dataTable with
      | none => exact baseTable
      | some table => exact dataTable table hd
  have revisions (shared : SharedTable) :
      ∀ table ∈ (m.sharedTables shared).2, Sql.Inert table := by
    cases shared with
    | base => exact revisionTable
    | data =>
      rw [sharedTables]
      cases hd : m.tables.revisionDataTable with
      | none => exact revisionTable
      | some table =>
        rintro _ ⟨⟩
        exact revisionDataTable table hd
  refine ⟨idKey, revisionKey, fun field property storage stored => ?_⟩
  obtain ⟨f, hf, property, hproperty, caseSensitive, rfl⟩ := exists_of_storage? stored
  obtain ⟨name, properties⟩ := fields f hf
  split
  · exact inert_dedicatedStorage typeId name (properties _ hproperty) caseSensitive
  · exact inert_sharedStorage tables revisions name (properties _ hproperty) caseSensitive

end TableMapping

/-! ## Joins of a compile -/

namespace LookupScope

variable {scope : LookupScope}

/-- The join of a field is asked for by names of the mapping and the alias of the anchor. -/
theorem inert_recordJoin (resolver : scope.compiler.resolver.Inert)
    (anchor : Inert scope.anchor.aliasName) {storage : FieldStorage} (stored : storage.Inert) :
    (scope.recordJoin storage).Inert := by
  have left (revisions : Bool) :
      Inert (scope.anchor.column (scope.compiler.resolver.tables.joinKey revisions)) :=
    anchor.qualify (resolver.joinKey revisions)
  cases own : storage.dedicated with
  | true =>
    rw [recordJoin_of_dedicated own]
    refine ⟨stored.tableFor _, left _, ?_⟩
    simp only [dedicatedJoin, Reach.dedicatedJoin]
    split
    · decide
    · decide
  | false =>
    rw [recordJoin_of_shared own]
    exact ⟨stored.tableFor _, left _, resolver.joinKey _⟩

/-- The clauses of a predicate are aligned. -/
theorem Emits.aligned {q : Query} {p : Predicate} {clauses : List Clause}
    (h : scope.Emits q p clauses) (hq : q.Inert) (known : scope.anchor.aliasName ∈ q.names)
    (resolver : scope.compiler.resolver.Inert)
    (valid : scope.compiler.options.validate = .ok ()) : ∀ c ∈ clauses, c.Aligned := by
  cases h with
  | skipped hpath hstorage hbackend => exact List.forall_mem_nil _
  | stored hpath hstorage reach hclause =>
    have column := (hq.names _ (reach.mem_names known)).qualify
      (resolver.stored _ _ _ hstorage).column
    exact List.forall_mem_singleton.2 (Lowering.aligned_of_clause hclause column valid)

end LookupScope

namespace Compiler

variable {c : Compiler} {q : Query}

/-- A compile asks for joins by names of the mapping and of the statement. -/
theorem inert_of_mem_requests (resolver : c.resolver.Inert) (hq : q.Inert) (t : FilterTree)
    (revisionScoped : Bool) : ∀ r ∈ (c.trail t q revisionScoped).requests, r.Inert := by
  intro r hr
  obtain ⟨anchor, ha, o, ho, storage, q', ⟨path, hpath, hstorage⟩, asked⟩ :=
    c.exists_stores_of_mem_requests t revisionScoped hr
  have known := hq.names _ (mem_names_of_anchor ha)
  have inert : (LookupScope.recordJoin ⟨c, anchor, revisionScoped⟩ storage).Inert :=
    LookupScope.inert_recordJoin resolver known (resolver.stored _ _ _ hstorage)
  have key := LookupScope.key_of_request asked
  simp only [JoinRequest.key, Prod.mk.injEq] at key
  obtain ⟨table, left, right⟩ := key
  exact ⟨table ▸ inert.table, left ▸ inert.left, right ▸ inert.rightColumn⟩

/-- The clauses of several predicates are aligned. -/
theorem aligned_of_emits (resolver : c.resolver.Inert) (valid : c.options.validate = .ok ())
    {q' : Query} (hq' : q'.Inert)
    (known : ∀ anchor, c.anchor q = .ok anchor → anchor.aliasName ∈ q'.names)
    {revisionScoped : Bool} {ps : List Predicate} {emitted : List (List Clause)}
    (each : List.Forall₂ (fun p clauses => ∃ anchor, c.anchor q = .ok anchor ∧
      LookupScope.Emits ⟨c, anchor, revisionScoped⟩ q' p clauses) ps emitted) :
    ∀ clause ∈ emitted.flatten, clause.Aligned := by
  induction each with
  | nil => exact List.forall_mem_nil _
  | cons first rest ih =>
    obtain ⟨anchor, ha, emits⟩ := first
    rw [List.flatten_cons]
    exact List.forall_mem_append.2 ⟨emits.aligned hq' (known anchor ha) resolver valid, ih⟩

end Compiler

/-! ## Statements whose conditions come from compiles -/

/-- A step with inert names; of a compile, the options were accepted. -/
def Step.Inert : Step → Prop
  | join r => r.Inert
  | relate _ _ table _ leftColumn rightColumn =>
    Sql.Inert table ∧ Sql.Inert leftColumn ∧ Sql.Inert rightColumn
  | compile c _ _ => c.resolver.Inert ∧ c.options.validate = .ok ()

namespace Step

/-- Such a step asks for joins by inert names. -/
theorem Inert.requests {s : Step} (hs : s.Inert) {q : Query} (hq : q.Inert) :
    ∀ r ∈ s.requests q, r.Inert := by
  cases s with
  | join r => exact List.forall_mem_singleton.2 hs
  | relate name origin table kind leftColumn rightColumn =>
    obtain ⟨inertTable, inertLeft, inertRight⟩ := hs
    intro r hr
    obtain ⟨anchor, horigin, rfl⟩ := Option.map_eq_some_iff.1 (Option.mem_toList.1 hr)
    have known := hq.names _ (Query.mem_names_of_origin? horigin)
    exact ⟨inertTable, known.qualify inertLeft, inertRight⟩
  | compile c t revisionScoped => exact Compiler.inert_of_mem_requests hs.1 hq t revisionScoped

/-- So the names of the statement stay inert. -/
theorem Inert.apply {s : Step} (hs : s.Inert) {q : Query} (hq : q.Inert) : (s.apply q).Inert := by
  have base := (s.sameBase_apply q).base
  have all := hq.ensureAll (hs.requests hq)
  refine ⟨?_, ?_, ?_⟩
  · rw [show (s.apply q).table = q.table from congrArg Anchor.table base]
    exact hq.table
  · rw [show (s.apply q).aliasName = q.aliasName from congrArg Anchor.aliasName base]
    exact hq.aliasName
  · rw [s.joins_apply]
    exact all.joins

end Step

namespace Sql.Query

/-- The statements that get their conditions from compiles, whatever else is done to them. -/
inductive Filtered : Query → Prop where
  | fresh {q : Query} (hq : q.Fresh) (table : Sql.Inert q.table)
      (aliasName : Sql.Inert q.aliasName) : Filtered q
  | rename {q : Query} (hq : q.Filtered) (hform : q.form = .select) {aliasName : String}
      (h : Sql.Inert aliasName) : Filtered { q with aliasName := aliasName }
  /-- A group is opened, which stays empty. -/
  | group {q q' : Query} (hq : q.Filtered) {parent id : GroupId} {conjunction : Conjunction}
      (h : q.addGroup parent conjunction = .ok (q', id)) : Filtered q'
  | step {q : Query} (hq : q.Filtered) {s : Step} (hs : s.Inert) : Filtered (s.apply q)

/-- The names in a statement are inert, its clauses are aligned, and the only raw condition is the
false one. -/
structure Sound (q : Query) : Prop where
  inert : q.Inert
  tree : q.conditions.Tree
  clauses : ∀ c ∈ q.conditions.clauses, c.Aligned
  raw : ∀ text, .expression text ∈ q.conditions.items → text = alwaysFalse

/-- A compile adds no raw condition but the false one. -/
theorem kept_raw :
    Kept fun q => ∀ text, .expression text ∈ q.conditions.items → text = alwaysFalse where
  ensureJoin := fun _ _ hq => hq
  clause := by
    intro q id c hq hid text htext
    rcases List.mem_cons.1 ((ConditionSet.items_push_perm hid _).mem_iff.1 htext) with own | earlier
    · cases own
    · exact hq text earlier
  alwaysFalse := by
    intro q id hq hid text htext
    rcases List.mem_cons.1 ((ConditionSet.items_push_perm hid _).mem_iff.1 htext) with own | earlier
    · injection own
    · exact hq text earlier
  openGroup := by
    intro q parent conjunction hq hp text htext
    rcases List.mem_cons.1 ((ConditionSet.items_openGroup_perm hp _).mem_iff.1 htext) with
      own | earlier
    · cases own
    · exact hq text earlier

namespace Sound

variable {q : Query}

/-- A step keeps a statement sound, also a compile that fails. -/
theorem apply (h : q.Sound) {s : Step} (hs : s.Inert) : (s.apply q).Sound where
  inert := hs.apply h.inert
  tree := s.tree_apply h.tree
  clauses := by
    cases s with
    | join r => exact h.clauses
    | relate name origin table kind leftColumn rightColumn =>
      rw [Step.conditions_relate]
      exact h.clauses
    | compile c t revisionScoped =>
      have tree := (Step.compile c t revisionScoped).tree_apply h.tree
      have known := (Step.compile c t revisionScoped).names_subset q
      obtain ⟨handled, rest, emitted, -, -, added, each⟩ :=
        c.exists_emits_compile t revisionScoped h.tree.nested
      intro clause hclause
      have mem : clause ∈ (c.compile t q revisionScoped).query.conditions.depthFirstClauses :=
        tree.mem_clauses_iff.1 hclause
      rw [added] at mem
      rcases List.mem_append.1 mem with earlier | new
      · exact h.clauses clause (h.tree.mem_clauses_iff.2 earlier)
      · refine Compiler.aligned_of_emits hs.1 hs.2 (Step.Inert.apply hs h.inert) ?_ each clause new
        intro anchor ha
        exact known (Compiler.mem_names_of_anchor ha)
  raw := by
    cases s with
    | join r => exact h.raw
    | relate name origin table kind leftColumn rightColumn =>
      rw [Step.conditions_relate]
      exact h.raw
    | compile c t revisionScoped =>
      exact c.compile_kept kept_raw t h.tree.nested.length_pos h.raw revisionScoped

/-- A group that is opened by hand stays empty. -/
theorem openGroup (h : q.Sound) {parent : GroupId} (hp : parent ∈ q.conditions)
    (conjunction : Conjunction) : (q.openGroup parent conjunction).1.Sound where
  inert := ⟨h.inert.table, h.inert.aliasName, h.inert.joins⟩
  tree := h.tree.openGroup hp conjunction
  clauses := by
    intro c hc
    refine h.clauses c ?_
    rw [ConditionSet.clauses_eq] at hc ⊢
    exact ((ConditionSet.items_openGroup_perm hp conjunction).filterMap _).mem_iff.1 hc
  raw := kept_raw.openGroup q parent conjunction h.raw hp

/-- The conditions of a sound statement are aligned. -/
theorem aligned (h : q.Sound) : q.conditions.Aligned where
  clauses := by
    intro g hg c hc
    refine h.clauses c ?_
    rw [ConditionSet.clauses]
    exact List.mem_flatMap.2 ⟨g, hg, List.mem_filterMap.2 ⟨_, hc, rfl⟩⟩
  raw := by
    intro g hg text htext
    obtain rfl := h.raw text (List.mem_flatMap.2 ⟨g, hg, htext⟩)
    decide

end Sound

namespace Filtered

variable {q : Query}

/-- So does a statement after several steps. -/
theorem after (h : q.Filtered) {steps : List Step} (hs : ∀ s ∈ steps, s.Inert) :
    (q.after steps).Filtered := by
  induction steps generalizing q with
  | nil => exact h
  | cons s steps ih =>
    obtain ⟨first, rest⟩ := List.forall_mem_cons.1 hs
    exact ih (h.step first) rest

/-- A statement that gets its conditions from compiles is sound. -/
theorem sound (h : q.Filtered) : q.Sound := by
  induction h with
  | @fresh q hq table aliasName =>
    have start : q.joins = ∅ ∧ q.conditions = ∅ := by
      cases hq with
      | select table aliasName => exact ⟨rfl, rfl⟩
      | listing table => exact ⟨rfl, rfl⟩
    obtain ⟨joins, conditions⟩ := start
    refine ⟨⟨table, aliasName, ?_⟩, ?_, ?_, ?_⟩
    · rw [joins]
      exact nofun
    · rw [conditions]
      exact ConditionSet.tree_empty
    · rw [conditions]
      exact nofun
    · rw [conditions]
      exact nofun
  | rename hq hform h ih =>
    exact ⟨⟨ih.inert.table, h, ih.inert.joins⟩, ih.tree, ih.clauses, ih.raw⟩
  | group hq h ih =>
    obtain ⟨hp, rfl⟩ := addGroup_ok h
    exact ih.openGroup hp _
  | step hq hs ih => exact ih.apply hs

/-- There are as many question marks outside quotes as parameters, and from left to right the text
is read as the clauses of the statement, each once and each with its own operands for its own
placeholders. -/
theorem reads_render (h : q.Filtered) :
    holes q.render.sql = q.render.params.length ∧
      q.conditions.depthFirstClauses.Perm q.conditions.clauses ∧
      Reads (fill (tokens q.render.sql) q.render.params) q.conditions.depthFirstClauses := by
  have sound := h.sound
  have written := sound.inert.carries_render sound.aligned sound.tree.nested
  rw [q.params_render]
  exact ⟨written.holds.holes_eq, sound.tree.depthFirstClauses_perm, written.reads⟩

end Filtered

end Sql.Query

/-! ## A statement with all kinds of operands -/

/-- Articles with a title whose case does not count, and a price. -/
def pricedArticles : TableMapping :=
  ((TableMapping.ofTables "node" { baseTable := "node", idKey := "nid" }).withField
    (FieldDefinition.single "title" "value").caseInsensitive).withField
    (FieldDefinition.single "price" "value")

/-- Filters by title and price, with the question mark as escape character.  The second one is
refused half-way. -/
def pricingSteps : List Step :=
  [.compile ⟨pricedArticles.resolver, .entity, { likeEscape := '?' }⟩
      ((((FilterTree.any.addPredicate (.equals "title" (.text "50% off?"))).addPredicate
        (.make "price" .inList (.list [.int 1, .int 2]))).addPredicate
        (.make "price" .inList (.list []))).addPredicate (.isNull "title")) false,
    .compile ⟨pricedArticles.resolver, .entity, {}⟩
      ((FilterTree.all.addPredicate (.make "price" .between (.list [.int 3, .int 4]))).addPredicate
        (.make "price" .between (.int 5))) false]

/-- The escape character between quotes takes no parameter. -/
theorem Sql.Query.reads_render_pricingSteps :
    ((Query.select "node" (some "n")).after pricingSteps).Filtered ∧
      ((Query.select "node" (some "n")).after pricingSteps).render =
        ⟨"SELECT n.* FROM node n WHERE (n.title LIKE ? ESCAPE '?' OR n.price IN (?, ?) OR 1 = 0 OR " ++
            "n.title IS NULL) AND n.price BETWEEN ? AND ?",
          [.text "50?% off??", .int 1, .int 2, .int 3, .int 4]⟩ ∧
      holes ((Query.select "node" (some "n")).after pricingSteps).render.sql = 5 := by
  have resolver : pricedArticles.resolver.Inert := TableMapping.inert_resolver (by decide)
  have steps : ∀ s ∈ pricingSteps, s.Inert :=
    List.forall_mem_cons.2 ⟨⟨resolver, rfl⟩, List.forall_mem_singleton.2 ⟨resolver, rfl⟩⟩
  have fresh : (Query.select "node" (some "n")).Filtered :=
    .fresh (.select "node" (some "n")) (by decide) (by decide)
  exact ⟨fresh.after steps, by rfl, (fresh.after steps).reads_render.1⟩

end RowAccess
