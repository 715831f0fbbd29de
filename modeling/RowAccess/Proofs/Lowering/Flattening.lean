import RowAccess.Proofs.Lowering.Dedicated
import RowAccess.Proofs.Lowering.Reporting
import RowAccess.Proofs.Lowering.Settling

/-!
# What flattening does to a statement

A tree that is added to another is flattened: with one child it is replaced by that child, and
without children it is left out.  Had it been appended as it is, the compile would open more groups,
and the predicate of an only child might stand under one more OR.

Neither matters to what is written.  A group with at most one condition is written as the condition,
and an OR above a predicate only says which rows its join keeps.  So both statements have the same
WHERE, and the same joins under the same aliases; but a join may be wider without the flattening.

Main results:

- `LookupScope.trail_loosens`: predicates under more ORs are looked up in the same way, in joins
  that keep more rows.
- `FilterNode.Lowers.unique`: a child becomes the same conditions every time.
- `FilterTree.lowers_add`: flattening does not change the conditions that a tree becomes.
- `Compiler.compile_add`: nor what a compile leaves behind, apart from wider joins.
-/

namespace RowAccess

open Sql

/-- The tree with one more child, which is not simplified. -/
def FilterTree.append (t : FilterTree) (n : FilterNode) : FilterTree :=
  { t with children := t.children ++ [n] }

/-- A tree contributes itself, or what it has for children, which is one at most. -/
theorem FilterNode.contribution_tree (t : FilterTree) :
    (FilterNode.tree t).contribution = [.tree t] ∨
      t.alwaysFalse = false ∧ t.children.length ≤ 1 ∧
        (FilterNode.tree t).contribution = t.children := by
  rw [contribution]
  split
  next => exact .inl rfl
  next few =>
    rw [Bool.or_eq_true, not_or, decide_eq_true_iff] at few
    exact .inr ⟨by simpa using few.1, by omega, rfl⟩

/-! ## Predicates under more ORs -/

/-- The same predicate, which stands under an OR if the other does. -/
structure Occurrence.Loosens (o o' : Occurrence) : Prop where
  predicate : o'.predicate = o.predicate
  underOr : o.underOr = true → o'.underOr = true

theorem FilterNode.occurrencesAll_append (underOr : Bool) (ns ms : List FilterNode) :
    occurrencesAll underOr (ns ++ ms) = occurrencesAll underOr ns ++ occurrencesAll underOr ms := by
  induction ns with
  | nil => rfl
  | cons n ns ih => rw [List.cons_append, occurrencesAll, ih, occurrencesAll, List.append_assoc]

mutual

/-- Under an OR above, the predicates of a tree are the same. -/
theorem FilterTree.loosens_occurrences {u u' : Bool} (h : u = true → u' = true) :
    (t : FilterTree) →
      List.Forall₂ Occurrence.Loosens (t.occurrences u) (t.occurrences u')
  | ⟨conjunction, children, never, cache⟩ => by
    rw [FilterTree.occurrences, FilterTree.occurrences]
    split
    · exact .nil
    · refine FilterNode.loosens_occurrencesAll (fun under => ?_) children
      rcases Bool.or_eq_true_iff.1 under with above | own
      · rw [h above, Bool.true_or]
      · rw [own, Bool.or_true]

theorem FilterNode.loosens_occurrences {u u' : Bool} (h : u = true → u' = true) :
    (n : FilterNode) →
      List.Forall₂ Occurrence.Loosens (n.occurrences u) (n.occurrences u')
  | .leaf _ => .cons ⟨rfl, h⟩ .nil
  | .tree t => FilterTree.loosens_occurrences h t

theorem FilterNode.loosens_occurrencesAll {u u' : Bool} (h : u = true → u' = true) :
    (ns : List FilterNode) → List.Forall₂ Occurrence.Loosens
      (FilterNode.occurrencesAll u ns) (FilterNode.occurrencesAll u' ns)
  | [] => .nil
  | n :: ns =>
    List.rel_append (FilterNode.loosens_occurrences h n) (FilterNode.loosens_occurrencesAll h ns)

end

/-- What a tree contributes to another has the predicates of the tree, perhaps under fewer ORs. -/
theorem FilterNode.loosens_contribution (underOr : Bool) (t : FilterTree) :
    List.Forall₂ Occurrence.Loosens
      (FilterNode.occurrencesAll underOr (FilterNode.tree t).contribution)
      (t.occurrences underOr) := by
  rcases contribution_tree t with whole | ⟨may, -, children⟩
  · rw [whole, occurrencesAll, occurrencesAll, List.append_nil]
    exact FilterTree.loosens_occurrences id t
  · rw [children, FilterTree.occurrences_of_not_alwaysFalse may]
    exact loosens_occurrencesAll (fun above => by rw [above, Bool.true_or]) t.children

/-- With flattening the predicates of a tree are the same, perhaps under fewer ORs. -/
theorem FilterTree.loosens_add (t u : FilterTree) (underOr : Bool) :
    List.Forall₂ Occurrence.Loosens ((t.add (.tree u)).occurrences underOr)
      ((t.append (.tree u)).occurrences underOr) := by
  cases h : t.alwaysFalse with
  | true =>
    have never : (t.append (.tree u)).alwaysFalse = true := h
    rw [occurrences_of_alwaysFalse ((t.alwaysFalse_add _).trans h),
      occurrences_of_alwaysFalse never]
    exact .nil
  | false =>
    have may : (t.append (.tree u)).alwaysFalse = false := h
    rw [occurrences_of_not_alwaysFalse ((t.alwaysFalse_add _).trans h),
      occurrences_of_not_alwaysFalse may, conjunction_add, children_add, append,
      FilterNode.occurrencesAll_append, FilterNode.occurrencesAll_append,
      FilterNode.occurrencesAll, FilterNode.occurrencesAll, List.append_nil]
    exact List.rel_append (FilterNode.loosens_occurrencesAll id _)
      (FilterNode.loosens_contribution _ u)

/-- With flattening the predicates that count are the same. -/
theorem FilterTree.livePredicates_add (t u : FilterTree) :
    (t.add (.tree u)).livePredicates = (t.append (.tree u)).livePredicates := by
  rw [← map_predicate_occurrences false, ← map_predicate_occurrences false,
    ← List.forall₂_eq_eq_eq, List.forall₂_map_left_iff, List.forall₂_map_right_iff]
  exact (t.loosens_add u false).imp fun _ _ h => h.predicate.symm

/-! ## Looking up in wider joins -/

/-- The same way to reach a field, by a join that keeps more rows. -/
inductive Reach.Loosens : Reach → Reach → Prop where
  | present (aliasName : String) : Loosens (.present aliasName) (.present aliasName)
  | byJoin {r r' : JoinRequest} (h : r.Widens r') : Loosens (.byJoin r) (.byJoin r')

namespace Reach.Loosens

variable {reach reach' : Reach} {q q' : Query}

theorem requests (h : reach.Loosens reach') :
    List.Forall₂ JoinRequest.Widens reach.request?.toList reach'.request?.toList := by
  cases h with
  | present aliasName => exact .nil
  | byJoin h => exact .cons h .nil

/-- Both ways lead to the same column. -/
theorem place (h : reach.Loosens reach') (hq : q.Loosens q') (storage : FieldStorage) :
    (reach.place q storage).1.Loosens (reach'.place q' storage).1 ∧
      (reach'.place q' storage).2.column = (reach.place q storage).2.column := by
  cases h with
  | present aliasName => exact ⟨hq, rfl⟩
  | @byJoin r r' h =>
    obtain ⟨joins, aliasName⟩ := hq.ensureJoin h
    refine ⟨joins, ?_⟩
    rw [Reach.place, Reach.place]
    simp only [aliasName]

end Reach.Loosens

/-- The same lookups, in statements of which the second has joins that keep more rows. -/
structure Trail.Loosens (t t' : Trail) : Prop where
  query : t.query.Loosens t'.query
  requests : List.Forall₂ JoinRequest.Widens t.requests t'.requests
  clauses : t'.clauses = t.clauses
  failure : t'.failure = t.failure

theorem Trail.Loosens.andThen {t t' : Trail} {next next' : Query → Trail} (h : t.Loosens t')
    (later : ∀ q q' : Query, q.Loosens q' → (next q).Loosens (next' q')) :
    (t.andThen next).Loosens (t'.andThen next') := by
  cases hfirst : t.failure with
  | some e =>
    rw [andThen_of_some hfirst, andThen_of_some (h.failure.trans hfirst)]
    exact h
  | none =>
    have hfirst' := h.failure.trans hfirst
    have rest := later t.query t'.query h.query
    constructor
    · rw [andThen_of_none hfirst, andThen_of_none hfirst']
      exact rest.query
    · rw [requests_andThen hfirst, requests_andThen hfirst']
      exact List.rel_append h.requests rest.requests
    · rw [clauses_andThen hfirst, clauses_andThen hfirst', h.clauses, rest.clauses]
    · rw [andThen_of_none hfirst, andThen_of_none hfirst']
      exact rest.failure

namespace LookupScope

variable (scope : LookupScope) {q q' : Query}

/-- A field is reached in the same way. -/
theorem reach_loosens (h : q.Loosens q') (storage : FieldStorage) {kind kind' : JoinKind}
    (kept : kind = .left → kind' = .left) :
    (scope.reach q storage kind).Loosens (scope.reach q' storage kind') := by
  rw [reach, reach, Reach.of, Reach.of]
  split
  next => exact .byJoin ⟨rfl, kept⟩
  next =>
    simp only
    split
    next => exact .present _
    next =>
      rw [h.findJoin?_eq]
      split
      next aliasName _ => exact .present aliasName
      next => exact .byJoin (.refl _)

/-- A predicate under more ORs is looked up in the same way. -/
theorem lookUp_loosens {o o' : Occurrence} (ho : o.Loosens o') (h : q.Loosens q') :
    (scope.lookUp o q).Loosens (scope.lookUp o' q') := by
  rcases o with ⟨p, underOr⟩
  rcases o' with ⟨p', underOr'⟩
  obtain rfl : p' = p := ho.predicate
  rw [lookUp, lookUp]
  simp only
  cases p'.path with
  | error e => exact ⟨h, .nil, rfl, rfl⟩
  | ok path =>
    simp only
    cases scope.compiler.resolver.storage? path.field path.property with
    | some storage =>
      have kept : joinKind underOr p'.op = .left → joinKind underOr' p'.op = .left := by
        rw [joinKind_eq_left_iff, joinKind_eq_left_iff]
        exact Or.imp_left ho.underOr
      have reached := scope.reach_loosens h storage kept
      obtain ⟨query, column⟩ := reached.place h storage
      refine ⟨query, ?_, ?_, ?_⟩
      · simp only [requests_lookUpStored]
        exact reached.requests
      · simp only [lookUpStored, Trail.clauses, List.filterMap_cons, column]
      · simp only [lookUpStored, column]
    | none =>
      simp only
      cases scope.compiler.backend with
      | entity => exact ⟨h, .nil, rfl, rfl⟩
      | listing relationship => exact ⟨h, .nil, rfl, rfl⟩

/-- Predicates under more ORs are looked up in the same way. -/
theorem trail_loosens {os os' : List Occurrence} (hos : List.Forall₂ Occurrence.Loosens os os')
    (h : q.Loosens q') : (scope.trail os q).Loosens (scope.trail os' q') := by
  induction hos generalizing q q' with
  | nil => exact ⟨h, .nil, rfl, rfl⟩
  | cons first rest ih => exact (scope.lookUp_loosens first h).andThen fun _ _ => ih

/-! ## What a predicate becomes -/

variable {scope}

/-- A predicate becomes the same clauses every time. -/
theorem Emits.unique (distinct : (q.joins.joins.map Join.key).Nodup) {p : Predicate}
    {clauses clauses' : List Clause} (h : scope.Emits q p clauses) (h' : scope.Emits q p clauses') :
    clauses = clauses' := by
  cases h with
  | stored hpath hstorage reach hclause =>
    cases h' with
    | stored hpath' hstorage' reach' hclause' =>
      obtain rfl := Except.ok.inj (hpath.symm.trans hpath')
      obtain rfl := Option.some.inj (hstorage.symm.trans hstorage')
      obtain rfl := reach.unique distinct reach'
      rw [Except.ok.inj (hclause.symm.trans hclause')]
    | skipped hpath' hstorage' hbackend =>
      obtain rfl := Except.ok.inj (hpath.symm.trans hpath')
      cases hstorage.symm.trans hstorage'
  | skipped hpath hstorage hbackend =>
    cases h' with
    | stored hpath' hstorage' reach hclause =>
      obtain rfl := Except.ok.inj (hpath.symm.trans hpath')
      cases hstorage.symm.trans hstorage'
    | skipped hpath' hstorage' hbackend' => rfl

theorem Emits.length_le_one {p : Predicate} {clauses : List Clause} (h : scope.Emits q p clauses) :
    clauses.length ≤ 1 := by
  cases h with
  | stored hpath hstorage reach hclause => exact Nat.le_refl 1
  | skipped hpath hstorage hbackend => exact Nat.zero_le 1

end LookupScope

/-! ## What a tree becomes -/

/-- A single condition is not joined to anything. -/
theorem Sql.WhereExpr.toList_join {es : List WhereExpr} (h : es.length ≤ 1)
    (conjunction : Conjunction) : (join conjunction es).toList = es := by
  match es with
  | [] => rfl
  | [only] => rfl
  | _ :: _ :: _ => exact absurd h (by simp)

/-- Joining leaves one condition at most. -/
theorem Sql.WhereExpr.length_join_le_one (conjunction : Conjunction) (es : List WhereExpr) :
    (join conjunction es).toList.length ≤ 1 := by
  cases join conjunction es with
  | none => exact Nat.zero_le 1
  | some e => exact Nat.le_refl 1

section Lowers

variable {R : Predicate → List Clause → Prop}

mutual

/-- A child becomes the same conditions every time, if each predicate becomes the same clauses. -/
theorem FilterNode.Lowers.unique (functional : ∀ p clauses clauses', R p clauses → R p clauses' →
    clauses = clauses') {n : FilterNode} {es fs : List WhereExpr} :
    n.Lowers R es → n.Lowers R fs → es = fs
  | .leaf h, .leaf h' => by rw [functional _ _ _ h h']
  | .never _, .never _ => rfl
  | .never never, .tree may _ => by
    rw [never] at may
    cases may
  | .tree may _, .never never => by
    rw [never] at may
    cases may
  | .tree _ hs, .tree _ hs' => by rw [FilterNode.LowersAll.unique functional hs hs']

theorem FilterNode.LowersAll.unique (functional : ∀ p clauses clauses', R p clauses →
    R p clauses' → clauses = clauses') {ns : List FilterNode} {es fs : List WhereExpr} :
    FilterNode.LowersAll R ns es → FilterNode.LowersAll R ns fs → es = fs
  | .nil, .nil => rfl
  | .cons h hs, .cons h' hs' => by
    rw [FilterNode.Lowers.unique functional h h', FilterNode.LowersAll.unique functional hs hs']

end

variable (most : ∀ p clauses, R p clauses → clauses.length ≤ 1)
include most

/-- A child becomes one condition at most. -/
theorem FilterNode.Lowers.length_le_one {n : FilterNode} {es : List WhereExpr}
    (h : n.Lowers R es) : es.length ≤ 1 := by
  cases h with
  | leaf h =>
    rw [List.length_map]
    exact most _ _ h
  | never h => exact Nat.le_refl 1
  | tree may hs => exact WhereExpr.length_join_le_one _ _

theorem FilterNode.LowersAll.length_le {ns : List FilterNode} {es : List WhereExpr}
    (h : FilterNode.LowersAll R ns es) : es.length ≤ ns.length := by
  induction ns generalizing es with
  | nil =>
    cases h with
    | nil => exact Nat.le_refl 0
  | cons n ns ih =>
    cases h with
    | cons first rest =>
      have one := first.length_le_one most
      have others := ih rest
      rw [List.length_append, List.length_cons]
      omega

/-- A tree becomes what its contribution to another becomes. -/
theorem FilterNode.LowersAll.contribution {t : FilterTree} {es : List WhereExpr}
    (h : FilterNode.LowersAll R [.tree t] es) :
    FilterNode.LowersAll R (FilterNode.tree t).contribution es := by
  rcases FilterNode.contribution_tree t with whole | ⟨may, short, children⟩
  · rw [whole]
    exact h
  · rw [children]
    cases h with
    | cons first rest =>
      cases rest with
      | nil =>
        rw [List.append_nil]
        cases first with
        | never never => simp [may] at never
        | tree _ hs =>
          rw [WhereExpr.toList_join ((hs.length_le most).trans short)]
          exact hs

/-- Flattening does not change the conditions that a tree becomes. -/
theorem FilterTree.lowers_add {t u : FilterTree} {es : List WhereExpr}
    (h : (FilterNode.tree (t.append (.tree u))).Lowers R es) :
    (FilterNode.tree (t.add (.tree u))).Lowers R es := by
  have children (ns : List FilterNode) {es : List WhereExpr}
      (hs : FilterNode.LowersAll R (ns ++ [.tree u]) es) :
      FilterNode.LowersAll R (ns ++ (FilterNode.tree u).contribution) es := by
    induction ns generalizing es with
    | nil => exact hs.contribution most
    | cons n ns ih =>
      cases hs with
      | cons first rest => exact .cons first (ih rest)
  cases h with
  | never never => exact .never ((t.alwaysFalse_add _).trans never)
  | @tree _ inner may hs =>
    have joined : (t.append (.tree u)).conjunction = (t.add (.tree u)).conjunction :=
      (t.conjunction_add _).symm
    rw [joined]
    refine .tree ((t.alwaysFalse_add _).trans may) ?_
    rw [children_add]
    exact children t.children hs

end Lowers

/-! ## Compiles -/

/-- Conditions that come to the same are as many. -/
theorem Sql.ConditionSet.Tree.length_conditions_eq {s s' : ConditionSet} (h : s.Tree)
    (h' : s'.Tree) (same : s.rootParts = s'.rootParts) :
    s.conditions.length = s'.conditions.length := by
  rw [← h.conditionsAt_perm.length_eq, ← h'.conditionsAt_perm.length_eq,
    ← leaves_rootParts h.nested, ← leaves_rootParts h'.nested, same]

namespace Compiler

variable (c : Compiler) (t u : FilterTree) {q : Query} (revisionScoped : Bool)

/-- With flattening the same is looked up, in joins that keep no more rows. -/
theorem trail_add (q : Query) :
    (c.trail (t.add (.tree u)) q revisionScoped).Loosens
      (c.trail (t.append (.tree u)) q revisionScoped) := by
  rw [trail, trail]
  cases c.anchor q with
  | error e => exact ⟨.refl _, .nil, rfl, rfl⟩
  | ok anchor =>
    exact LookupScope.trail_loosens ⟨c, anchor, revisionScoped⟩ (t.loosens_add u false) (.refl _)

/-- With flattening a compile leaves the same joins, some of which may keep fewer rows. -/
theorem joins_compile_add (q : Query) :
    (c.compile (t.add (.tree u)) q revisionScoped).query.joins.Loosens
      (c.compile (t.append (.tree u)) q revisionScoped).query.joins := by
  have looked := (c.trail_add t u revisionScoped q).query.joins
  rw [← bare_compile, ← bare_compile] at looked
  exact looked

variable {report report' : CompileReport}

/-- With flattening the conditions of a statement come to the same. -/
theorem rootParts_compile_add (hq : q.Reachable)
    (hok : (c.compile (t.add (.tree u)) q revisionScoped).outcome = .ok report)
    (hok' : (c.compile (t.append (.tree u)) q revisionScoped).outcome = .ok report') :
    (c.compile (t.add (.tree u)) q revisionScoped).query.conditions.rootParts =
      (c.compile (t.append (.tree u)) q revisionScoped).query.conditions.rootParts := by
  obtain ⟨anchor, ha, items, grown, lowered⟩ := compile_ok hq.nested hok
  obtain ⟨anchor', ha', items', grown', lowered'⟩ := compile_ok hq.nested hok'
  obtain rfl := Except.ok.inj (ha.symm.trans ha')
  have flat := c.compile_reachable (t.add (.tree u)) hq revisionScoped
  have nested := c.compile_reachable (t.append (.tree u)) hq revisionScoped
  obtain ⟨history, served⟩ := flat.served
  have loosens := c.joins_compile_add t u revisionScoped q
  -- What a predicate becomes does not depend on the kinds of joins.
  have transferred := lowered'.mono fun _ _ emitted => emitted.of_extends loosens.extends_left
  have same := FilterNode.Lowers.unique
    (fun _ _ _ emitted emitted' => emitted.unique served.distinct emitted') lowered
    (FilterTree.lowers_add (fun _ _ emitted => emitted.length_le_one) transferred)
  rw [grown.rootParts_eq hq.nested flat.nested, grown'.rootParts_eq hq.nested nested.nested, same]

/-- With flattening a compile fails for the same cause, if it fails. -/
theorem errorOf_compile_add (q : Query) :
    errorOf (c.compile (t.append (.tree u)) q revisionScoped).outcome =
      errorOf (c.compile (t.add (.tree u)) q revisionScoped).outcome := by
  rw [errorOf_compile, errorOf_compile, (c.trail_add t u revisionScoped q).failure]

/-- With flattening a compile reports the same. -/
theorem report_compile_add (hq : q.Reachable)
    (hok : (c.compile (t.add (.tree u)) q revisionScoped).outcome = .ok report)
    (hok' : (c.compile (t.append (.tree u)) q revisionScoped).outcome = .ok report') :
    report' = report := by
  have count := ConditionSet.Tree.length_conditions_eq
    (c.compile_reachable (t.add (.tree u)) hq revisionScoped).tree
    (c.compile_reachable (t.append (.tree u)) hq revisionScoped).tree
    (c.rootParts_compile_add t u revisionScoped hq hok hok')
  have requested := (c.trail_add t u revisionScoped q).requests
  obtain ⟨clauses, joins, skipped, never⟩ := accounted_compile hq.root_mem hok
  obtain ⟨clauses', joins', skipped', never'⟩ := accounted_compile hq.root_mem hok'
  have sameClauses : report'.clauses = report.clauses := by omega
  have sameJoins : report'.joins = report.joins := by
    rw [joins', joins, (Query.Loosens.refl q.bare).answers_eq requested]
  have sameSkipped : report'.skippedFields = report.skippedFields := by
    rw [skipped', skipped, StorageResolver.skips, StorageResolver.skips,
      FilterTree.livePredicates_add]
  have sameNever : report'.alwaysFalse = report.alwaysFalse := by
    rw [never', never, FilterTree.alwaysFalse_add]
    rfl
  rcases report with ⟨n, aliases, fields, mark⟩
  rcases report' with ⟨n', aliases', fields', mark'⟩
  exact (CompileReport.mk.injEq ..).mpr ⟨sameClauses, sameJoins, sameSkipped, sameNever⟩

/-- A tree may be flattened when it is added to another.  A compile of the result fails for the same
cause as without flattening, or it writes the same conditions and reports the same.  In either case
it leaves the same joins under the same aliases, some of which may keep fewer rows. -/
theorem compile_add (hq : q.Reachable) :
    (c.compile (t.add (.tree u)) q revisionScoped).query.joins.Loosens
        (c.compile (t.append (.tree u)) q revisionScoped).query.joins ∧
      ((∃ cause, (c.compile (t.add (.tree u)) q revisionScoped).outcome = .error cause ∧
          (c.compile (t.append (.tree u)) q revisionScoped).outcome = .error cause) ∨
        ∃ report, (c.compile (t.add (.tree u)) q revisionScoped).outcome = .ok report ∧
          (c.compile (t.append (.tree u)) q revisionScoped).outcome = .ok report ∧
          (c.compile (t.add (.tree u)) q revisionScoped).query.conditions.render =
            (c.compile (t.append (.tree u)) q revisionScoped).query.conditions.render) := by
  refine ⟨c.joins_compile_add t u revisionScoped q, ?_⟩
  have failure := c.errorOf_compile_add t u revisionScoped q
  cases hok : (c.compile (t.add (.tree u)) q revisionScoped).outcome with
  | error cause =>
    cases hok' : (c.compile (t.append (.tree u)) q revisionScoped).outcome with
    | error cause' =>
      rw [hok, hok'] at failure
      obtain rfl := Option.some.inj failure
      exact .inl ⟨cause', rfl, rfl⟩
    | ok report =>
      rw [hok, hok'] at failure
      cases failure
  | ok report =>
    cases hok' : (c.compile (t.append (.tree u)) q revisionScoped).outcome with
    | error cause =>
      rw [hok, hok'] at failure
      cases failure
    | ok report' =>
      have same := c.report_compile_add t u revisionScoped hq hok hok'
      refine .inr ⟨report, rfl, congrArg Except.ok same, ?_⟩
      rw [ConditionSet.render, ConditionSet.render,
        c.rootParts_compile_add t u revisionScoped hq hok hok']

end Compiler

/-! ## An alternative on its own -/

/-- Articles with a tag that is not old. -/
def freshTagged : FilterTree := FilterTree.all.addPredicate (.make "tags" .ne (.text "old"))

/-- One alternative only: the articles with one tag. -/
def newsAlone : FilterTree := FilterTree.any.addPredicate (.equals "tags" (.text "news"))

/-- A filter, put into a selection of the articles. -/
def ofArticles (t : FilterTree) : Compiled :=
  Compiler.compile ⟨articlesWithTags.resolver, .entity, {}⟩ t (.select "node") false

/-- The alternative stands under its OR if it is appended as it is, so the join is wider; the
conditions are the same. -/
theorem Compiler.compile_add_newsAlone :
    (Query.select "node").Reachable ∧
    (ofArticles (freshTagged.add (.tree newsAlone))).query.joins.joins =
      [⟨.inner, "node__tags", "node__tags", "node.nid", "entity_id"⟩] ∧
    (ofArticles (freshTagged.append (.tree newsAlone))).query.joins.joins =
      [⟨.left, "node__tags", "node__tags", "node.nid", "entity_id"⟩] ∧
    ∃ report, (ofArticles (freshTagged.add (.tree newsAlone))).outcome = .ok report ∧
      (ofArticles (freshTagged.append (.tree newsAlone))).outcome = .ok report ∧
      (ofArticles (freshTagged.add (.tree newsAlone))).query.conditions.render =
        (ofArticles (freshTagged.append (.tree newsAlone))).query.conditions.render := by
  refine ⟨.select "node", rfl, rfl, ?_⟩
  obtain ⟨-, ⟨cause, failed, -⟩ | same⟩ :=
    compile_add ⟨articlesWithTags.resolver, .entity, {}⟩ freshTagged newsAlone false
      (.select "node")
  · cases failed
  · exact same

end RowAccess
