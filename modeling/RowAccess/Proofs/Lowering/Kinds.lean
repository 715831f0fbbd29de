import Mathlib.Logic.Relation
import RowAccess.Proofs.Lowering.Framing

/-!
# Why a join keeps rows without a partner

The join of a dedicated field may be asked for many times, by predicates all over the filter and by
the caller before.  It keeps rows without a partner if one of these requests asked for it, so the
kind of the join can be told from the filter as it is written: from the operators of the predicates
that are on fields in this join, and from the conjunctions of the trees on the way to each of them.

The way to a predicate is what is above it, and not what is beside it, so an OR elsewhere in the
filter has no influence, and neither has the order in which the predicates come.

Main results:

- `FilterNode.mem_occurrences_iff`: a predicate is taken to stand under an OR if there is one on the
  way to it.
- `FilterTree.Reorders.pathTo_iff`: the ways do not depend on the order of children.
- `JoinSet.Serves.kind_iff`: what made a join keep rows without a partner.
- `Compiler.kind_compile_iff`: so it is for the joins of dedicated fields after a compile.
-/

namespace RowAccess

open Sql

/-! ## The way to a predicate -/

/-- There is a way from a child to a predicate that counts, on which the trees join their children
by the given conjunctions, from the top down. -/
inductive FilterNode.PathTo (p : Predicate) : FilterNode → List Conjunction → Prop where
  | leaf : PathTo p (.leaf p) []
  | tree {t : FilterTree} {n : FilterNode} {path : List Conjunction} (may : t.alwaysFalse = false)
      (hn : n ∈ t.children) (h : n.PathTo p path) : PathTo p (.tree t) (t.conjunction :: path)

/-- There is a way from the root of a tree to a predicate that counts. -/
def FilterTree.PathTo (t : FilterTree) (p : Predicate) (path : List Conjunction) : Prop :=
  (FilterNode.tree t).PathTo p path

/-- A way leads over one of the children. -/
theorem FilterTree.pathTo_iff {t : FilterTree} {p : Predicate} {path : List Conjunction} :
    t.PathTo p path ↔ t.alwaysFalse = false ∧
      ∃ n ∈ t.children, ∃ rest, n.PathTo p rest ∧ path = t.conjunction :: rest := by
  constructor
  · intro h
    cases h with
    | @tree _ n rest may hn h => exact ⟨may, n, hn, rest, h, rfl⟩
  · rintro ⟨may, n, hn, rest, h, rfl⟩
    exact .tree may hn h

namespace FilterNode

theorem mem_occurrencesAll {o : Occurrence} {underOr : Bool} {ns : List FilterNode} :
    o ∈ occurrencesAll underOr ns ↔ ∃ n ∈ ns, o ∈ n.occurrences underOr := by
  induction ns with
  | nil => simp [occurrencesAll]
  | cons n ns ih => rw [occurrencesAll, List.mem_append, ih, List.exists_mem_cons_iff]

/-- An OR that is passed at a tree or behind it. -/
theorem under_or_iff {underOr : Bool} {conjunction : Conjunction} {path : List Conjunction} :
    (underOr = true ∨ .or ∈ conjunction :: path) ↔
      ((underOr || decide (conjunction = .or)) = true ∨ .or ∈ path) := by
  rw [List.mem_cons, Bool.or_eq_true, decide_eq_true_iff, or_assoc,
    @eq_comm _ Conjunction.or conjunction]

mutual

/-- To each predicate of a tree that counts there is a way. -/
theorem exists_pathTo_tree {o : Occurrence} {underOr : Bool} : (t : FilterTree) →
    o ∈ t.occurrences underOr → ∃ path, (FilterNode.tree t).PathTo o.predicate path ∧
      (o.underOr = true ↔ underOr = true ∨ .or ∈ path)
  | ⟨conjunction, children, never, cache⟩, h => by
    rw [FilterTree.occurrences] at h
    split at h
    next => cases h
    next may =>
      obtain ⟨n, hn, path, way, under⟩ := exists_pathTo_all children h
      refine ⟨conjunction :: path, .tree (by simpa using may) hn way, ?_⟩
      rw [under, under_or_iff]

/-- To each predicate of a child that counts there is a way. -/
theorem exists_pathTo {o : Occurrence} {underOr : Bool} : (n : FilterNode) →
    o ∈ n.occurrences underOr → ∃ path, n.PathTo o.predicate path ∧
      (o.underOr = true ↔ underOr = true ∨ .or ∈ path)
  | .leaf p, h => by
    obtain rfl := List.mem_singleton.1 h
    exact ⟨[], .leaf, (or_iff_left List.not_mem_nil).symm⟩
  | .tree t, h => exists_pathTo_tree t h

/-- To each predicate of several children that counts there is a way. -/
theorem exists_pathTo_all {o : Occurrence} {underOr : Bool} : (ns : List FilterNode) →
    o ∈ occurrencesAll underOr ns → ∃ n ∈ ns, ∃ path, n.PathTo o.predicate path ∧
      (o.underOr = true ↔ underOr = true ∨ .or ∈ path)
  | [], h => by cases h
  | n :: ns, h => by
    rcases List.mem_append.1 h with first | rest
    · exact ⟨n, List.mem_cons_self, exists_pathTo n first⟩
    · obtain ⟨m, hm, way⟩ := exists_pathTo_all ns rest
      exact ⟨m, List.mem_cons_of_mem _ hm, way⟩

end

/-- A predicate counts if there is a way to it. -/
theorem PathTo.mem_occurrences {o : Occurrence} {n : FilterNode} {path : List Conjunction}
    (h : n.PathTo o.predicate path) {underOr : Bool}
    (under : o.underOr = true ↔ underOr = true ∨ .or ∈ path) : o ∈ n.occurrences underOr := by
  induction h generalizing underOr with
  | leaf =>
    rw [or_iff_left List.not_mem_nil, ← Bool.eq_iff_iff] at under
    rw [occurrences, List.mem_singleton, ← under]
  | @tree t n path may hn h ih =>
    rw [occurrences, FilterTree.occurrences_of_not_alwaysFalse may, mem_occurrencesAll]
    exact ⟨n, hn, ih (under.trans under_or_iff)⟩

/-- A predicate is taken to stand under an OR if there is one on the way to it. -/
theorem mem_occurrences_iff {o : Occurrence} {n : FilterNode} {underOr : Bool} :
    o ∈ n.occurrences underOr ↔ ∃ path, n.PathTo o.predicate path ∧
      (o.underOr = true ↔ underOr = true ∨ .or ∈ path) :=
  ⟨exists_pathTo n, fun ⟨_, way, under⟩ => way.mem_occurrences under⟩

end FilterNode

/-! ## The order of children -/

/-- One tree is another with the children of one of its trees in a different order. -/
inductive FilterTree.Reorders : FilterTree → FilterTree → Prop where
  | children {t : FilterTree} {children : List FilterNode} (h : t.children.Perm children) :
      Reorders t { t with children := children }
  | deeper {t u u' : FilterTree} {before behind : List FilterNode}
      (hc : t.children = before ++ .tree u :: behind) (h : u.Reorders u') :
      Reorders t { t with children := before ++ .tree u' :: behind }

/-- The ways to predicates do not depend on the order of children. -/
theorem FilterTree.Reorders.pathTo_iff {t t' : FilterTree} (h : t.Reorders t') {p : Predicate}
    {path : List Conjunction} : t'.PathTo p path ↔ t.PathTo p path := by
  induction h generalizing path with
  | children h =>
    rw [FilterTree.pathTo_iff, FilterTree.pathTo_iff]
    simp only [h.mem_iff]
  | @deeper t u u' before behind hc h ih =>
    have same (rest : List Conjunction) : (FilterNode.tree u').PathTo p rest ↔
        (FilterNode.tree u).PathTo p rest := ih
    rw [FilterTree.pathTo_iff, FilterTree.pathTo_iff, hc]
    simp only [List.mem_append, List.mem_cons, or_and_right, exists_or, exists_eq_left, same]

/-- Nor do they if children are reordered several times. -/
theorem FilterTree.pathTo_iff_of_reordered {t t' : FilterTree}
    (h : Relation.ReflTransGen FilterTree.Reorders t t') {p : Predicate}
    {path : List Conjunction} : t'.PathTo p path ↔ t.PathTo p path := by
  induction h with
  | refl => exact Iff.rfl
  | tail _ step ih => exact step.pathTo_iff.trans ih

/-! ## Kinds of joins -/

/-- A join keeps rows without a partner if it did before, or if one of the further requests for it
asked for that. -/
theorem Sql.JoinSet.Serves.kind_iff {s s' : JoinSet} {requests more : List JoinRequest}
    (h : s.Serves requests) (h' : s'.Serves (more ++ requests)) (hx : s.Extends s') {j : Join}
    (hj : j ∈ s'.joins) :
    j.kind = .left ↔ (∃ i ∈ s.joins, i.plain = j.plain ∧ i.kind = .left) ∨
      ∃ r ∈ more, j.answers r = true ∧ r.kind = .left := by
  rw [h'.kind j hj]
  constructor
  · rintro ⟨r, hr, answers, kind⟩
    rcases List.mem_append.1 hr with new | old
    · exact .inr ⟨r, new, answers, kind⟩
    · -- What answered the request before is this very join.
      obtain ⟨i, hi, answered⟩ := h.answered r old
      obtain ⟨i', hi', plain⟩ := hx.exists_mem hi
      have answers' : i'.answers r = true := by
        rw [← Join.answers_plain, plain, Join.answers_plain]
        exact answered
      obtain rfl := h'.eq_of_answers hi' hj answers' answers
      exact .inl ⟨i, hi, plain.symm, (h.kind i hi).2 ⟨r, old, answered, kind⟩⟩
  · rintro (⟨i, hi, plain, left⟩ | ⟨r, hr, answers, kind⟩)
    · obtain ⟨r, hr, answers, kind⟩ := (h.kind i hi).1 left
      refine ⟨r, List.mem_append_right _ hr, ?_, kind⟩
      rw [← Join.answers_plain, ← plain, Join.answers_plain]
      exact answers
    · exact ⟨r, List.mem_append_left _ hr, answers, kind⟩

namespace LookupScope

/-- A predicate is on a dedicated field whose join is the given one. -/
def PlacedOn (scope : LookupScope) (p : Predicate) (j : Join) : Prop :=
  ∃ storage, scope.Stores p storage ∧ storage.dedicated = true ∧
    j.answers (scope.dedicatedJoin storage) = true

variable {scope : LookupScope}

/-- Which predicates are on a join depends on what the join is for. -/
theorem PlacedOn.of_key_eq {p : Predicate} {j j' : Join} (h : scope.PlacedOn p j)
    (same : j'.key = j.key) : scope.PlacedOn p j' := by
  obtain ⟨storage, stored, own, answers⟩ := h
  refine ⟨storage, stored, own, ?_⟩
  rw [j'.answers_iff_key, same, ← j.answers_iff_key]
  exact answers

/-- A predicate whose dedicated field is stored is on one join, and its clause on a column of
that. -/
theorem Emits.placed {q : Query} {requests : List JoinRequest} (served : q.joins.Serves requests)
    {p : Predicate} {clauses : List Clause} (h : scope.Emits q p clauses) {storage : FieldStorage}
    (stored : scope.Stores p storage) (own : storage.dedicated = true) :
    ∃ j ∈ q.joins.joins, (∀ i ∈ q.joins.joins, scope.PlacedOn p i ↔ i = j) ∧
      ∃ clause, clauses = [clause] ∧
        clause.column = Text.qualify j.aliasName storage.column := by
  obtain ⟨aliasName, clause, rfl, reach, hclause⟩ := h.of_stores stored
  obtain ⟨j, hj, answers, rfl⟩ := reach.link_of_dedicated own
  refine ⟨j, hj, fun i hi => ⟨?_, ?_⟩, clause, rfl, Lowering.column_of_clause hclause⟩
  · rintro ⟨storage', stored', -, answers'⟩
    obtain rfl := stored.unique stored'
    exact served.eq_of_answers hi hj answers' answers
  · rintro rfl
    exact ⟨storage, stored, own, answers⟩

/-- A filter asks for rows to be kept in a join for its predicates that are on the join: for null
checks, and where an OR is on the way to the predicate. -/
theorem keeps_iff_path {t : FilterTree} {j : Join} :
    scope.Keeps t j ↔ ∃ p path, t.PathTo p path ∧ scope.PlacedOn p j ∧
      (p.op.isNullCheck = true ∨ .or ∈ path) := by
  constructor
  · rintro ⟨o, ho, standing, r, requires, answers⟩
    obtain ⟨path, way, under⟩ := FilterNode.exists_pathTo_tree t ho
    rw [or_iff_right Bool.false_ne_true] at under
    cases requires with
    | @dedicated storage stored own =>
      rw [under] at standing
      exact ⟨o.predicate, path, way, ⟨storage, stored, own, answers⟩, standing.symm⟩
  · rintro ⟨p, path, way, ⟨storage, stored, own, answers⟩, standing⟩
    have under : decide (.or ∈ path) = true ↔ false = true ∨ .or ∈ path := by
      rw [decide_eq_true_iff, or_iff_right Bool.false_ne_true]
    have counts : ⟨p, decide (.or ∈ path)⟩ ∈ (FilterNode.tree t).occurrences false :=
      FilterNode.mem_occurrences_iff.2 ⟨path, way, under⟩
    refine ⟨_, counts, ?_, _, .dedicated stored own, answers⟩
    rw [decide_eq_true_iff]
    exact standing.symm

end LookupScope

namespace Compiler

variable {c : Compiler} {t : FilterTree} {q : Query} {revisionScoped : Bool}
  {report : CompileReport}

/-- Why a join keeps rows without a partner after a compile. -/
theorem kind_compile_iff (hq : q.Reachable)
    (hok : (c.compile t q revisionScoped).outcome = .ok report) {anchor : Anchor}
    (ha : c.anchor q = .ok anchor) {j : Join}
    (hj : j ∈ (c.compile t q revisionScoped).query.joins.joins) :
    j.kind = .left ↔ (∃ i ∈ q.joins.joins, i.plain = j.plain ∧ i.kind = .left) ∨
      ∃ p path, t.PathTo p path ∧ LookupScope.PlacedOn ⟨c, anchor, revisionScoped⟩ p j ∧
        (p.op.isNullCheck = true ∨ .or ∈ path) := by
  obtain ⟨requests, serves⟩ := hq.served
  obtain ⟨more, serves', requested⟩ := compile_requests ha serves hok
  rw [serves.kind_iff serves' (extends_compile c t hq revisionScoped) hj, requested.keeps_iff,
    LookupScope.keeps_iff_path]

/-- The joins of a statement have the same kinds after filters with the same ways to the same
predicates. -/
theorem kind_compile_eq {t' : FilterTree} {report' : CompileReport} (hq : q.Reachable)
    (hok : (c.compile t q revisionScoped).outcome = .ok report)
    (hok' : (c.compile t' q revisionScoped).outcome = .ok report')
    (ways : ∀ p path, t'.PathTo p path ↔ t.PathTo p path) {j j' : Join}
    (hj : j ∈ (c.compile t q revisionScoped).query.joins.joins)
    (hj' : j' ∈ (c.compile t' q revisionScoped).query.joins.joins) (same : j'.key = j.key) :
    j'.kind = j.kind := by
  obtain ⟨anchor, ha, -⟩ := compile_ok hq.nested hok
  -- A join that was there before is the same join in both statements.
  have before (t t' : FilterTree) {j j' : Join}
      (hj' : j' ∈ (c.compile t' q revisionScoped).query.joins.joins) (same : j'.key = j.key)
      (h : ∃ i ∈ q.joins.joins, i.plain = j.plain ∧ i.kind = .left) :
      ∃ i ∈ q.joins.joins, i.plain = j'.plain ∧ i.kind = .left := by
    obtain ⟨i, hi, plain, left⟩ := h
    obtain ⟨i', hi', plain'⟩ := (extends_compile c t' hq revisionScoped).exists_mem hi
    obtain ⟨history, served⟩ := (c.compile_reachable t' hq revisionScoped).served
    have key : i'.key = j'.key := (congrArg Join.key (plain'.trans plain)).trans same.symm
    obtain rfl := List.inj_on_of_nodup_map served.distinct hi' hj' key
    exact ⟨i, hi, plain'.symm, left⟩
  have left : j'.kind = .left ↔ j.kind = .left := by
    rw [kind_compile_iff hq hok ha hj, kind_compile_iff hq hok' ha hj']
    refine or_congr ⟨before t' t hj same.symm, before t t' hj' same⟩ ?_
    refine exists_congr fun p => exists_congr fun path => and_congr (ways p path) ?_
    exact and_congr_left fun _ => ⟨fun h => h.of_key_eq same.symm, fun h => h.of_key_eq same⟩
  cases h : j.kind with
  | left => exact left.2 h
  | inner =>
    cases h' : j'.kind with
    | inner => rfl
    | left =>
      rw [left.1 h'] at h
      cases h

/-- A dedicated field is in one join, which its clause is on.  After a compile that succeeds the
join keeps rows without a partner if it did before, or if one of the predicates that are on it is a
null check or has an OR on its own way from the top; otherwise it drops them.  Reordering the
children of the trees changes no kind. -/
theorem kinds_compile (hq : q.Reachable)
    (hok : (c.compile t q revisionScoped).outcome = .ok report) :
    ∃ anchor emitted, c.anchor q = .ok anchor ∧
      (c.compile t q revisionScoped).query.conditions.depthFirstClauses =
        q.conditions.depthFirstClauses ++ emitted.flatten ∧
      List.Forall₂ (fun p clauses => ∀ storage,
        LookupScope.Stores ⟨c, anchor, revisionScoped⟩ p storage → storage.dedicated = true →
          ∃ j ∈ (c.compile t q revisionScoped).query.joins.joins,
            (∀ i ∈ (c.compile t q revisionScoped).query.joins.joins,
              LookupScope.PlacedOn ⟨c, anchor, revisionScoped⟩ p i ↔ i = j) ∧
            (∃ clause, clauses = [clause] ∧
              clause.column = Text.qualify j.aliasName storage.column) ∧
            (j.kind = .left ↔ (∃ i ∈ q.joins.joins, i.plain = j.plain ∧ i.kind = .left) ∨
              ∃ p' path, t.PathTo p' path ∧
                LookupScope.PlacedOn ⟨c, anchor, revisionScoped⟩ p' j ∧
                (p'.op.isNullCheck = true ∨ .or ∈ path)))
        t.livePredicates emitted ∧
      ∀ t' report', Relation.ReflTransGen FilterTree.Reorders t t' →
        (c.compile t' q revisionScoped).outcome = .ok report' →
        ∀ j ∈ (c.compile t q revisionScoped).query.joins.joins,
          ∀ j' ∈ (c.compile t' q revisionScoped).query.joins.joins,
            j'.key = j.key → j'.kind = j.kind := by
  obtain ⟨anchor, ha, items, grown, lowered⟩ := compile_ok hq.nested hok
  have hq' := c.compile_reachable t hq revisionScoped
  obtain ⟨history, served⟩ := hq'.served
  obtain ⟨emitted, hemitted, flat⟩ := lowered.clauses
  refine ⟨anchor, emitted, ha, ?_, hemitted.imp ?_, ?_⟩
  · rw [grown.depthFirstClauses_eq hq.nested hq'.nested, flat]
  · intro p clauses emits storage stored own
    obtain ⟨j, hj, only, clause⟩ := emits.placed served stored own
    exact ⟨j, hj, only, clause, kind_compile_iff hq hok ha hj⟩
  · intro t' report' reordered hok' j hj j' hj' same
    exact kind_compile_eq hq hok hok' (fun p path => FilterTree.pathTo_iff_of_reordered reordered)
      hj hj' same

end Compiler

/-! ## An OR beside a predicate -/

/-- Articles with one of two tags. -/
def newsOrOld : FilterTree :=
  (FilterTree.any.addPredicate (.equals "tags" (.text "news"))).addPredicate
    (.equals "tags" (.text "old"))

/-- Articles with one of two tags by another author. -/
def newsOrOldByOthers : FilterTree :=
  (FilterTree.all.add (.tree newsOrOld)).addPredicate (.make "author" .ne (.int 4))

/-- The same, the author first. -/
def byOthersNewsOrOld : FilterTree :=
  (FilterTree.all.addPredicate (.make "author" .ne (.int 4))).add (.tree newsOrOld)

/-- A filter on tags and authors, put into a selection of the articles. -/
def ofAuthored (t : FilterTree) : Compiled :=
  Compiler.compile ⟨authoredArticles.resolver, .entity, {}⟩ t (.select "node") false

/-- The OR above the tags is not on the way to the author, so only the join of the tags keeps rows
without a partner, in whatever order the two come. -/
theorem Compiler.kinds_compile_newsOrOldByOthers :
    (Query.select "node").Reachable ∧
    (ofAuthored newsOrOldByOthers).outcome = .ok ⟨3, ["node__tags", "node__author"], [], false⟩ ∧
    (ofAuthored newsOrOldByOthers).query.joins.joins =
      [⟨.left, "node__tags", "node__tags", "node.nid", "entity_id"⟩,
        ⟨.inner, "node__author", "node__author", "node.nid", "entity_id"⟩] ∧
    (∃ emitted, (ofAuthored newsOrOldByOthers).query.conditions.depthFirstClauses =
        (Query.select "node").conditions.depthFirstClauses ++ emitted.flatten ∧
      List.Forall₂ (fun p clauses => ∀ storage, LookupScope.Stores
          ⟨⟨authoredArticles.resolver, .entity, {}⟩, ⟨"node", "node"⟩, false⟩ p storage →
        storage.dedicated = true →
          ∃ j ∈ (ofAuthored newsOrOldByOthers).query.joins.joins, ∃ clause, clauses = [clause] ∧
            clause.column = Text.qualify j.aliasName storage.column)
        newsOrOldByOthers.livePredicates emitted) ∧
    ∀ j ∈ (ofAuthored newsOrOldByOthers).query.joins.joins,
      ∀ j' ∈ (ofAuthored byOthersNewsOrOld).query.joins.joins,
        j'.key = j.key → j'.kind = j.kind := by
  have done : (ofAuthored newsOrOldByOthers).outcome =
      .ok ⟨3, ["node__tags", "node__author"], [], false⟩ := rfl
  have done' : (ofAuthored byOthersNewsOrOld).outcome =
      .ok ⟨3, ["node__author", "node__tags"], [], false⟩ := rfl
  have swapped : newsOrOldByOthers.Reorders byOthersNewsOrOld := .children (.swap _ _ [])
  obtain ⟨anchor, emitted, ha, added, each, reordered⟩ := kinds_compile (.select "node") done
  obtain rfl : (⟨"node", "node"⟩ : Anchor) = anchor := Except.ok.inj ha
  refine ⟨.select "node", done, rfl, ⟨emitted, added, each.imp ?_⟩,
    reordered byOthersNewsOrOld _ (.single swapped) done'⟩
  intro p clauses placed storage stored own
  obtain ⟨j, hj, -, clause, -⟩ := placed storage stored own
  exact ⟨j, hj, clause⟩

end RowAccess
