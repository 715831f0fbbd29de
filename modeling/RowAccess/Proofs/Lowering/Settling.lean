import RowAccess.Proofs.Lowering.Runs

/-!
# Fields keep their columns

The table of a field is found among the joins in two ways: a dedicated table by what the join is
for, a shared table as the first join of it that hangs off the anchor.  Either way the join that is
found once is found ever after, because joins are only added behind the others.  So a field that is
looked up again gets the column that it got before, and a filter that is compiled again finds all
that it needs.

Main results:

- `LookupScope.Reaches.unique`: a field is reached under one alias at a time.
- `LookupScope.trail_again`: predicates whose fields were looked up before need no further join.
- `Query.settled_after`: what stays the same during the life of a statement.
-/

namespace RowAccess

open Sql

/-! ## One alias at a time -/

namespace LookupScope

variable {scope scope' : LookupScope} {q q' : Query} {storage : FieldStorage}
  {aliasName aliasName' : String}

/-- A field is reached under one alias at a time. -/
theorem Reaches.unique (distinct : (q.joins.joins.map Join.key).Nodup)
    (h : scope.Reaches q storage aliasName) (h' : scope.Reaches q storage aliasName') :
    aliasName = aliasName' := by
  cases h with
  | dedicated own link =>
    cases h' with
    | dedicated own' link' => exact link.unique distinct link'
    | anchor shared same => simp [own] at shared
    | found shared other hfind => simp [own] at shared
    | dotted shared other hdot link' => simp [own] at shared
  | anchor shared same =>
    cases h' with
    | dedicated own link => simp [own] at shared
    | anchor shared' same' => rfl
    | found shared' other hfind => exact absurd same other
    | dotted shared' other hdot link => exact absurd same other
  | found shared other hfind =>
    cases h' with
    | dedicated own link => simp [own] at shared
    | anchor shared' same => exact absurd same other
    | found shared' other' hfind' => exact Option.some.inj (hfind.symm.trans hfind')
    | dotted shared' other' hdot link =>
      rw [Query.findJoin?, find?_of_dotted hdot] at hfind
      cases hfind
  | dotted shared other hdot link =>
    cases h' with
    | dedicated own link' => simp [own] at shared
    | anchor shared' same => exact absurd same other
    | found shared' other' hfind =>
      rw [Query.findJoin?, find?_of_dotted hdot] at hfind
      cases hfind
    | dotted shared' other' hdot' link' => exact link.unique distinct link'

/-- How a field is reached depends on where fields are stored, on the anchor and on whether
revisions are wanted, not on the backend or the options. -/
theorem Reaches.of_same (h : scope.Reaches q storage aliasName)
    (resolver : scope.compiler.resolver = scope'.compiler.resolver)
    (anchor : scope.anchor = scope'.anchor)
    (revisions : scope.revisionScoped = scope'.revisionScoped) :
    scope'.Reaches q storage aliasName := by
  rcases scope with ⟨⟨resolver₁, backend, options⟩, anchor₁, revisionScoped⟩
  rcases scope' with ⟨⟨resolver₂, backend', options'⟩, anchor₂, revisionScoped'⟩
  obtain rfl : resolver₁ = resolver₂ := resolver
  obtain rfl : anchor₁ = anchor₂ := anchor
  obtain rfl : revisionScoped = revisionScoped' := revisions
  cases h with
  | dedicated own link => exact .dedicated own link
  | anchor shared same => exact .anchor shared same
  | found shared other hfind => exact .found shared other hfind
  | dotted shared other hdot link => exact .dotted shared other hdot link

end LookupScope

/-- Two predicates on a field that is looked up in the same way have the same column. -/
theorem Lookup.Stands.column_eq {l l' : Lookup} {q : Query}
    (distinct : (q.joins.joins.map Join.key).Nodup) (h : l.Stands q) (h' : l'.Stands q)
    (resolver : l.scope.compiler.resolver = l'.scope.compiler.resolver)
    (anchor : l.scope.anchor = l'.scope.anchor)
    (revisions : l.scope.revisionScoped = l'.scope.revisionScoped)
    (field : l.predicate.field = l'.predicate.field) : l.column = l'.column := by
  obtain ⟨path, storage, aliasName, hpath, hstorage, reach, column⟩ := h.reached
  obtain ⟨path', storage', aliasName', hpath', hstorage', reach', column'⟩ := h'.reached
  have samePath : l.predicate.path = l'.predicate.path := congrArg FieldPath.parse field
  rw [hpath, hpath'] at samePath
  obtain rfl := Except.ok.inj samePath
  rw [resolver, hstorage'] at hstorage
  obtain rfl := Option.some.inj hstorage
  rw [column, column', (reach.of_same resolver anchor revisions).unique distinct reach']

/-! ## Once more -/

namespace LookupScope

variable {scope : LookupScope} {q q' : Query} {history : List JoinRequest}

/-- What a statement has to be asked for, it had to be asked for before. -/
theorem request?_of_extends {storage : FieldStorage} {kind : JoinKind}
    (hx : q.joins.Extends q'.joins) {r : JoinRequest}
    (hr : (scope.reach q' storage kind).request? = some r) :
    (scope.reach q storage kind).request? = some r := by
  rw [reach, Reach.of] at hr ⊢
  split
  next own =>
    rw [if_pos own] at hr
    exact hr
  next shared =>
    rw [if_neg shared] at hr
    simp only at hr ⊢
    split
    next same =>
      rw [if_pos same] at hr
      exact hr
    next other =>
      rw [if_neg other] at hr
      cases hfind : q.findJoin? (storage.tableFor scope.revisionScoped) scope.anchor.aliasName with
      | none =>
        split at hr
        next => cases hr
        next => exact hr
      | some aliasName =>
        rw [Query.findJoin?_of_extends hx hfind] at hr
        cases hr

/-- A field that was reached before is reached again under the same column, and nothing has to be
done for it. -/
theorem place_again {storage : FieldStorage} {kind : JoinKind}
    (hx : ((scope.reach q storage kind).place q storage).1.joins.Extends q'.joins)
    (hs : q'.joins.Serves history)
    (hr : ∀ r ∈ (scope.reach q storage kind).request?, r ∈ history) :
    ((scope.reach q' storage kind).place q' storage).1 = q' ∧
      ((scope.reach q' storage kind).place q' storage).2.column =
        ((scope.reach q storage kind).place q storage).2.column := by
  obtain ⟨aliasName, column, reaches⟩ := scope.reaches_place q storage kind
  obtain ⟨aliasName', column', reaches'⟩ := scope.reaches_place q' storage kind
  have start := hx
  rw [Reach.place_query] at start
  have extended := (q.extends_ensureAll _).trans start
  have unchanged : ((scope.reach q' storage kind).place q' storage).1 = q' := by
    rw [Reach.place_query]
    refine Query.ensureAll_eq_self hs fun r asked => ?_
    exact hr r (request?_of_extends extended (Option.mem_toList.1 asked))
  refine ⟨unchanged, ?_⟩
  rw [unchanged] at reaches'
  rw [column, column', (reaches.of_extends hx).unique hs.distinct reaches']

/-- What came of predicates that were added again to a statement: nothing but their clauses, up to
the same refusal. -/
structure Repeats (first second : Trail) (q : Query) : Prop where
  query : second.query = q
  clauses : second.clauses = first.clauses
  failure : second.failure = first.failure

/-- A predicate whose field was reached before needs no further join. -/
theorem lookUpStored_again (o : Occurrence) (storage : FieldStorage)
    (hx : (scope.lookUpStored o storage q).query.joins.Extends q'.joins)
    (hs : q'.joins.Serves history)
    (hr : ∀ r ∈ (scope.lookUpStored o storage q).requests, r ∈ history) :
    Repeats (scope.lookUpStored o storage q) (scope.lookUpStored o storage q') q' := by
  rw [requests_lookUpStored] at hr
  obtain ⟨unchanged, column⟩ := place_again hx hs fun r asked => hr r (Option.mem_toList.2 asked)
  refine ⟨unchanged, ?_, ?_⟩
  · simp only [lookUpStored, Trail.clauses, List.filterMap_cons, column]
  · simp only [lookUpStored, column]

/-- A predicate whose field was looked up before needs no further join. -/
theorem lookUp_again (o : Occurrence) (hx : (scope.lookUp o q).query.joins.Extends q'.joins)
    (hs : q'.joins.Serves history) (hr : ∀ r ∈ (scope.lookUp o q).requests, r ∈ history) :
    Repeats (scope.lookUp o q) (scope.lookUp o q') q' := by
  rw [lookUp] at hx hr
  rw [lookUp, lookUp]
  cases hpath : o.predicate.path with
  | error e => exact ⟨rfl, rfl, rfl⟩
  | ok path =>
    rw [hpath] at hx hr
    simp only at hx hr ⊢
    cases hstorage : scope.compiler.resolver.storage? path.field path.property with
    | some storage =>
      rw [hstorage] at hx hr
      exact lookUpStored_again o storage hx hs hr
    | none =>
      simp only
      cases scope.compiler.backend with
      | entity => exact ⟨rfl, rfl, rfl⟩
      | listing relationship => exact ⟨rfl, rfl, rfl⟩

/-- Predicates whose fields were looked up before need no further join. -/
theorem trail_again (os : List Occurrence) (hx : (scope.trail os q).query.joins.Extends q'.joins)
    (hs : q'.joins.Serves history) (hr : ∀ r ∈ (scope.trail os q).requests, r ∈ history) :
    Repeats (scope.trail os q) (scope.trail os q') q' := by
  induction os generalizing q with
  | nil => exact ⟨rfl, rfl, rfl⟩
  | cons o os ih =>
    rw [trail] at hx hr
    rw [trail, trail]
    cases hfirst : (scope.lookUp o q).failure with
    | some e =>
      rw [Trail.andThen_of_some hfirst] at hx hr
      have first := lookUp_again o hx hs hr
      rw [Trail.andThen_of_some hfirst,
        Trail.andThen_of_some (first.failure.trans hfirst)]
      exact first
    | none =>
      rw [Trail.requests_andThen hfirst] at hr
      rw [Trail.andThen_of_none hfirst] at hx
      obtain ⟨asked, later⟩ := List.forall_mem_append.1 hr
      have grown : (scope.lookUp o q).query.joins.Extends
          (scope.trail os (scope.lookUp o q).query).query.joins := by
        rw [trail_query]
        exact Query.extends_ensureAll _ _
      have first := lookUp_again o (grown.trans hx) hs asked
      have rest := ih (q := (scope.lookUp o q).query) hx later
      have next := first.failure.trans hfirst
      constructor
      · rw [Trail.andThen_of_none next, first.query]
        exact rest.query
      · rw [Trail.clauses_andThen next, Trail.clauses_andThen hfirst, first.query, first.clauses,
          rest.clauses]
      · rw [Trail.andThen_of_none next, Trail.andThen_of_none hfirst, first.query]
        exact rest.failure

end LookupScope

/-- A filter that was compiled before adds its clauses again and does nothing else, as long as it is
looked up from the same anchor. -/
theorem Compiler.trail_again {c : Compiler} {t : FilterTree} {q q' : Query} {revisionScoped : Bool}
    {history : List JoinRequest} (ha : c.anchor q' = c.anchor q)
    (hx : (c.trail t q revisionScoped).query.joins.Extends q'.joins)
    (hs : q'.joins.Serves history) (hr : ∀ r ∈ (c.trail t q revisionScoped).requests, r ∈ history) :
    LookupScope.Repeats (c.trail t q revisionScoped) (c.trail t q' revisionScoped) q'.bare := by
  rw [trail] at hx hr
  rw [trail, trail, ha]
  cases hanchor : c.anchor q with
  | error e => exact ⟨rfl, rfl, rfl⟩
  | ok anchor =>
    rw [hanchor] at hx hr
    exact LookupScope.trail_again (t.occurrences false) hx hs hr

/-! ## The life of a statement -/

namespace Sql.Query

/-- What stays the same during a run. -/
structure Settled (q : Query) (steps : List Step) : Prop where
  /-- The clauses that were added are those of the predicates whose fields were looked up. -/
  clauses : (q.after steps).conditions.depthFirstClauses =
    q.conditions.depthFirstClauses ++ (q.lookups steps).filterMap Lookup.clause
  /-- A clause is that of its predicate on the column that was found. -/
  made : ∀ l ∈ q.lookups steps, ∀ c ∈ l.clause, c.column = l.column ∧ ∃ caseSensitive,
    Lowering.clause l.predicate l.column caseSensitive l.scope.compiler.options = .ok c
  /-- Predicates on the same field get the same column, if it is looked up from the same anchor,
  with or without revisions. -/
  columns : ∀ l ∈ q.lookups steps, ∀ l' ∈ q.lookups steps,
    l.scope.compiler.resolver = l'.scope.compiler.resolver → l.scope.anchor = l'.scope.anchor →
    l.scope.revisionScoped = l'.scope.revisionScoped → l.predicate.field = l'.predicate.field →
      l.column = l'.column
  /-- A filter that is compiled again from the same anchor adds the same clauses as the first time,
  ends in the same way, and changes nothing but the conditions. -/
  again : ∀ before c t revisionScoped behind,
    steps = before ++ .compile c t revisionScoped :: behind →
    c.anchor (q.after steps) = c.anchor (q.after before) →
      (c.compile t (q.after steps) revisionScoped).query.bare = (q.after steps).bare ∧
      errorOf (c.compile t (q.after steps) revisionScoped).outcome =
        errorOf (c.compile t (q.after before) revisionScoped).outcome ∧
      ∃ added,
        (c.compile t (q.after before) revisionScoped).query.conditions.depthFirstClauses =
          (q.after before).conditions.depthFirstClauses ++ added ∧
        (c.compile t (q.after steps) revisionScoped).query.conditions.depthFirstClauses =
          (q.after steps).conditions.depthFirstClauses ++ added

/-- A field keeps its column during the life of a statement, and a filter that is compiled again
needs no further join. -/
theorem settled_after {q : Query} (hq : q.Reachable) (steps : List Step) : q.Settled steps := by
  obtain ⟨earlier, served⟩ := hq.served
  have served' := serves_after served steps
  constructor
  · exact depthFirstClauses_after hq.tree steps
  · intro l hl c hc
    have stands := q.stands_of_mem_lookups steps l hl
    exact ⟨stands.column_clause hc, stands.clause c hc⟩
  · intro l hl l' hl' resolver anchor revisions field
    exact (q.stands_of_mem_lookups steps l hl).column_eq served'.distinct
      (q.stands_of_mem_lookups steps l' hl') resolver anchor revisions field
  · intro before c t revisionScoped behind split anchor
    have start := tree_after hq.tree before
    have done := tree_after hq.tree steps
    have asked : ∀ r ∈ (c.trail t (q.after before) revisionScoped).requests,
        r ∈ (q.requests steps).reverse ++ earlier := by
      intro r hr
      rw [split, requests_append, requests]
      simp [Step.requests, hr]
    have extended : (c.trail t (q.after before) revisionScoped).query.joins.Extends
        (q.after steps).joins := by
      rw [split, after_append, ← c.bare_compile]
      exact extends_after (c.compile t (q.after before) revisionScoped).query behind
    have repeats := Compiler.trail_again anchor extended served' asked
    refine ⟨?_, ?_, _, c.depthFirstClauses_compile t revisionScoped start.nested, ?_⟩
    · rw [c.bare_compile, repeats.query]
    · rw [c.errorOf_compile, c.errorOf_compile, repeats.failure]
    · rw [c.depthFirstClauses_compile t revisionScoped done.nested, repeats.clauses]

end Sql.Query

/-- Two filters on a field of a shared table, and a request of the caller for the same table on
another column in between. -/
def statusSteps : List Step :=
  [.compile ⟨articlesWithData.resolver, .entity, {}⟩
      (FilterTree.all.addPredicate (.equals "status" (.int 1))) false,
    .join ⟨"node_field_data", .left, "node.parent_id", "nid"⟩,
    .compile ⟨articlesWithData.resolver, .listing none, {}⟩
      (FilterTree.all.addPredicate (.make "status" .ne (.int 0))) false]

/-- Both filters are on the first join of the table. -/
theorem Sql.Query.settled_after_statusSteps :
    (Query.select "node").Reachable ∧ (Query.select "node").Settled statusSteps ∧
      ((Query.select "node").after statusSteps).joins.joins =
        [⟨.inner, "node_field_data", "node_field_data", "node.nid", "nid"⟩,
          ⟨.left, "node_field_data", "node_field_data_2", "node.parent_id", "nid"⟩] ∧
      ((Query.select "node").lookups statusSteps).map Lookup.column =
        ["node_field_data.status", "node_field_data.status"] :=
  ⟨.select "node", settled_after (.select "node") statusSteps, rfl, rfl⟩

end RowAccess
