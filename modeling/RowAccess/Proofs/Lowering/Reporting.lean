import RowAccess.Proofs.Lowering.Skipping
import RowAccess.Proofs.Lowering.Tracing
import RowAccess.Proofs.Sql.Loosening
import RowAccess.Proofs.Sql.Traversal

/-!
# What a compile reports

A compile counts what it adds, notes the joins that its clauses need and lists the fields that it
leaves out.  It does so at several places of the walk, while the statement changes at others.  In
the end the report is what can be read off the statement and the filter: the clauses and raw
conditions that the statement has more than before, the aliases that the requests of the predicates
were answered with, in the order of first use, and the predicates whose fields are not stored.

Main results:

- `LookupScope.addNodes_reported`: what the walk over the children of a tree reports.
- `Compiler.accounted_compile`: so it is for a compile.
-/

namespace RowAccess

open Sql

/-! ## Counting conditions -/

namespace Sql.ConditionSet

/-- A clause or a raw condition is one condition more. -/
theorem length_conditions_push {s : ConditionSet} {id : GroupId} (hid : id ∈ s) {item : Condition}
    (hitem : isGroup item = false) :
    (s.push id item).conditions.length = s.conditions.length + 1 := by
  have more := (items_push_perm hid item).filter fun item => !isGroup item
  rw [List.filter_cons_of_pos (by simp [hitem])] at more
  exact more.length_eq

/-- A group is none. -/
theorem length_conditions_openGroup {s : ConditionSet} {parent : GroupId} (hp : parent ∈ s)
    (conjunction : Conjunction) :
    (s.openGroup parent conjunction).1.conditions.length = s.conditions.length := by
  have more := (items_openGroup_perm hp conjunction).filter fun item => !isGroup item
  rw [List.filter_cons_of_neg (by simp [isGroup])] at more
  exact more.length_eq

end Sql.ConditionSet

/-! ## Noting joins -/

/-- Names that are noted one after the other, each once. -/
def CompileReport.noted (names : List String) (more : List String) : List String :=
  more.foldl (fun names name => if name ∈ names then names else names ++ [name]) names

theorem CompileReport.noted_append (names more later : List String) :
    noted names (more ++ later) = noted (noted names more) later :=
  List.foldl_append

/-- Noting the join of a clause changes nothing else in a report. -/
theorem Progress.report_noteJoin (s : Progress) (join : Option String) :
    (s.noteJoin join).report =
      { s.report with joins := CompileReport.noted s.report.joins join.toList } := by
  cases join with
  | none => rfl
  | some aliasName =>
    rw [noteJoin, CompileReport.noteJoin, Option.toList_some, CompileReport.noted, List.foldl_cons,
      List.foldl_nil]
    split
    · rfl
    · rfl

/-- The join that a field needs has the alias that its request is answered with. -/
theorem Reach.join_place (reach : Reach) (q : Query) (storage : FieldStorage) :
    (reach.place q storage).2.join.toList = q.bare.answers reach.request?.toList := by
  cases reach with
  | present aliasName => rfl
  | byJoin request => rfl

/-! ## Fields that are left out -/

/-- The field references of those among several predicates whose fields are not stored. -/
def StorageResolver.omits (r : StorageResolver) (ps : List Predicate) : List String :=
  (ps.filter r.lacks).map Predicate.field

theorem StorageResolver.omits_append (r : StorageResolver) (ps more : List Predicate) :
    r.omits (ps ++ more) = r.omits ps ++ r.omits more := by
  rw [omits, List.filter_append, List.map_append]
  rfl

mutual

/-- The predicates that are looked up are those that count. -/
theorem FilterTree.map_predicate_occurrences (underOr : Bool) : (t : FilterTree) →
    (t.occurrences underOr).map Occurrence.predicate = t.livePredicates
  | ⟨conjunction, children, never, cache⟩ => by
    rw [FilterTree.occurrences, FilterTree.livePredicates]
    split
    · rfl
    · exact FilterNode.map_predicate_occurrencesAll _ children

theorem FilterNode.map_predicate_occurrences (underOr : Bool) : (n : FilterNode) →
    (n.occurrences underOr).map Occurrence.predicate = n.livePredicates
  | .leaf _ => rfl
  | .tree t => FilterTree.map_predicate_occurrences underOr t

theorem FilterNode.map_predicate_occurrencesAll (underOr : Bool) : (ns : List FilterNode) →
    (FilterNode.occurrencesAll underOr ns).map Occurrence.predicate =
      FilterNode.livePredicatesAll ns
  | [] => rfl
  | n :: ns => by
    rw [FilterNode.occurrencesAll, List.map_append, FilterNode.map_predicate_occurrences underOr n,
      FilterNode.map_predicate_occurrencesAll underOr ns, FilterNode.livePredicatesAll]

end

/-! ## The walk -/

namespace LookupScope

/-- What some work on a statement added to the report, if it looked up the given predicates. -/
structure Reported (scope : LookupScope) (s : Progress) (os : List Occurrence) (s' : Progress) :
    Prop where
  /-- What was counted was added. -/
  clauses : s'.report.clauses + s.query.conditions.conditions.length =
    s.report.clauses + s'.query.conditions.conditions.length
  joins : s'.report.joins = CompileReport.noted s.report.joins
    (s.query.bare.answers (scope.trail os s.query.bare).requests)
  skippedFields : s'.report.skippedFields =
    s.report.skippedFields ++ scope.compiler.resolver.omits (os.map Occurrence.predicate)
  alwaysFalse : s'.report.alwaysFalse = s.report.alwaysFalse

namespace Reported

variable {scope : LookupScope} {s s' s'' : Progress} {os more : List Occurrence}

theorem refl (scope : LookupScope) (s : Progress) : scope.Reported s [] s :=
  ⟨rfl, rfl, (List.append_nil _).symm, rfl⟩

/-- More work behind some that succeeded. -/
theorem trans (h : scope.Reported s os s')
    (follows : (scope.trail os s.query.bare).Follows (.ok s')) (h' : scope.Reported s' more s'') :
    scope.Reported s (os ++ more) s'' where
  clauses := by
    have first := h.clauses
    have second := h'.clauses
    omega
  joins := by
    have query : (scope.trail os s.query.bare).query = s'.query.bare := follows.query
    rw [h'.joins, h.joins, ← CompileReport.noted_append, trail_append,
      Trail.requests_andThen follows.failure, Query.answers_append, ← trail_query, query]
  skippedFields := by
    rw [h'.skippedFields, h.skippedFields, List.append_assoc, List.map_append,
      StorageResolver.omits_append]
  alwaysFalse := h'.alwaysFalse.trans h.alwaysFalse

/-- Work in a group that was opened for it. -/
theorem of_openGroup {id : GroupId} (hid : id ∈ s.query.conditions) {conjunction : Conjunction}
    (h : scope.Reported (s.openGroup id conjunction).1 os s') : scope.Reported s os s' where
  clauses := by
    have same : (s.openGroup id conjunction).1.query.conditions.conditions.length =
        s.query.conditions.conditions.length :=
      ConditionSet.length_conditions_openGroup hid conjunction
    rw [← same]
    exact h.clauses
  joins := h.joins
  skippedFields := h.skippedFields
  alwaysFalse := h.alwaysFalse

end Reported

variable {scope : LookupScope} {id : GroupId} {underOr : Bool}

/-- The false condition is counted. -/
theorem reported_addAlwaysFalse (scope : LookupScope) {s : Progress}
    (hid : id ∈ s.query.conditions) : scope.Reported s [] (s.addAlwaysFalse id) where
  clauses := by
    have one : (s.addAlwaysFalse id).query.conditions.conditions.length =
        s.query.conditions.conditions.length + 1 := ConditionSet.length_conditions_push hid rfl
    rw [one, Progress.addAlwaysFalse, CompileReport.countClause]
    exact Nat.succ_add_eq_add_succ _ _
  joins := rfl
  skippedFields := (List.append_nil _).symm
  alwaysFalse := rfl

/-- A predicate whose field is stored is counted, and the join that it needs is noted. -/
theorem addStored_reported {s s' : Progress} {p : Predicate} {path : FieldPath}
    {storage : FieldStorage} (hid : id ∈ s.query.conditions) (hpath : p.path = .ok path)
    (hstorage : scope.compiler.resolver.storage? path.field path.property = some storage)
    (hok : scope.addStored id underOr p storage s = .ok s') :
    scope.Reported s [⟨p, underOr⟩] s' := by
  have looked : scope.lookUp ⟨p, underOr⟩ s.query.bare =
      scope.lookUpStored ⟨p, underOr⟩ storage s.query.bare := by
    rw [lookUp, hpath]
    simp only [hstorage]
  have kept : scope.compiler.resolver.lacks p = false := by
    rw [StorageResolver.lacks, hpath]
    simp only [hstorage, Option.isNone_some]
  rw [addStored] at hok
  split at hok
  next c _ =>
    obtain rfl := Except.ok.inj hok
    have reach := Reach.conditions_place (Reach.of s.query scope.compiler.resolver.tables storage
      scope.anchor scope.revisionScoped (joinKind underOr p.op)) s.query storage
    constructor
    · have one : (s.query.conditions.push id (.clause c)).conditions.length =
          s.query.conditions.conditions.length + 1 := ConditionSet.length_conditions_push hid rfl
      rw [Progress.query_noteJoin, Progress.report_noteJoin, Progress.addClause,
        Query.pushCondition, Progress.place, reach, one, CompileReport.countClause]
      exact Nat.succ_add_eq_add_succ _ _
    · rw [Progress.report_noteJoin, trail_singleton, looked, requests_lookUpStored]
      exact congrArg (CompileReport.noted s.report.joins) (Reach.join_place _ s.query storage)
    · rw [Progress.report_noteJoin, List.map_singleton, StorageResolver.omits,
        List.filter_cons_of_neg (by simp [kept])]
      exact (List.append_nil _).symm
    · rw [Progress.report_noteJoin]
      rfl
  next => cases hok

/-- A predicate is counted, or its field is listed as left out. -/
theorem addPredicate_reported {s s' : Progress} {p : Predicate} (hid : id ∈ s.query.conditions)
    (hok : scope.addPredicate id underOr p s = .ok s') : scope.Reported s [⟨p, underOr⟩] s' := by
  rw [addPredicate] at hok
  split at hok
  next => cases hok
  next path hpath =>
    split at hok
    next storage hstorage => exact addStored_reported hid hpath hstorage hok
    next hstorage =>
      split at hok
      next => cases hok
      next relationship hbackend =>
        obtain rfl := Except.ok.inj hok
        have dropped : scope.compiler.resolver.lacks p = true := by
          rw [StorageResolver.lacks, hpath]
          simp only [hstorage, Option.isNone_none]
        refine ⟨rfl, ?_, ?_, rfl⟩
        · have looked : scope.lookUp ⟨p, underOr⟩ s.query.bare = { query := s.query.bare } := by
            rw [lookUp, hpath]
            simp only [hstorage, hbackend]
          rw [trail_singleton, looked]
          rfl
        · have text : path.display = p.field := FieldPath.display_of_parse hpath
          rw [List.map_singleton, StorageResolver.omits, List.filter_cons_of_pos dropped,
            List.map_cons, ← text]
          rfl

mutual

/-- What the walk over a child reports. -/
theorem addNode_reported {scope : LookupScope} {id : GroupId} {underOr : Bool} :
    (n : FilterNode) → {s s' : Progress} → id ∈ s.query.conditions →
      scope.addNode id underOr n s = .ok s' → scope.Reported s (n.occurrences underOr) s'
  | .leaf p, s, s', hid, hok => addPredicate_reported hid hok
  | .tree t, s, s', hid, hok => by
    rw [addNode] at hok
    rw [FilterNode.occurrences]
    split at hok
    next never =>
      obtain rfl := Except.ok.inj hok
      rw [FilterTree.occurrences_of_alwaysFalse never]
      exact scope.reported_addAlwaysFalse hid
    next never =>
      have may : t.alwaysFalse = false := by simpa using never
      split at hok
      next hempty =>
        obtain rfl := Except.ok.inj hok
        have none : t.children = [] := List.isEmpty_iff.1 hempty
        rw [FilterTree.occurrences_of_not_alwaysFalse may, none]
        exact .refl scope s
      next =>
        have inUse := s.query.conditions.mem_openGroup id t.conjunction
        exact (addTree_reported t may inUse hok).of_openGroup hid

/-- What the walk over a tree reports. -/
theorem addTree_reported {scope : LookupScope} {id : GroupId} {underOr : Bool} :
    (t : FilterTree) → t.alwaysFalse = false → {s s' : Progress} → id ∈ s.query.conditions →
      scope.addTree id underOr t s = .ok s' → scope.Reported s (t.occurrences underOr) s'
  | ⟨conjunction, children, never, cache⟩, may, s, s', hid, hok => by
    obtain rfl : never = false := may
    exact addNodes_reported children hid hok

/-- What the walk over several children reports. -/
theorem addNodes_reported {scope : LookupScope} {id : GroupId} {underOr : Bool} :
    (ns : List FilterNode) → {s s' : Progress} → id ∈ s.query.conditions →
      scope.addNodes id underOr ns s = .ok s' →
        scope.Reported s (FilterNode.occurrencesAll underOr ns) s'
  | [], s, s', _, hok => by
    obtain rfl := Except.ok.inj hok
    exact .refl scope s
  | n :: ns, s, s', hid, hok => by
    rw [addNodes] at hok
    split at hok
    next s₁ hfirst =>
      have follows := scope.addNode_follows id underOr n s
      have kept := addNode_stable ((Query.stable_extends s.query.joins).and_mem id) scope
        (fun _ hq => hq.2) underOr n s ⟨.refl _, hid⟩
      rw [hfirst] at follows kept
      exact (addNode_reported n hid hfirst).trans follows (addNodes_reported ns kept.2 hok)
    next => cases hok

end

/-- What the work on a whole filter reports. -/
theorem addFilter_reported {t : FilterTree} {q : Query} (hroot : GroupId.root ∈ q.conditions)
    {s' : Progress} (hok : scope.addFilter t { query := q } = .ok s') :
    s'.report.clauses + q.conditions.conditions.length = s'.query.conditions.conditions.length ∧
      s'.report.joins = CompileReport.noted []
        (q.bare.answers (scope.trail (t.occurrences false) q.bare).requests) ∧
      s'.report.skippedFields = scope.compiler.resolver.skips t ∧
      s'.report.alwaysFalse = t.alwaysFalse := by
  have start : GroupId.root ∈ (Progress.mk q {} []).query.conditions := hroot
  rw [addFilter] at hok
  split at hok
  next never =>
    obtain rfl := Except.ok.inj hok
    have logged : GroupId.root ∈
        (Progress.logAbout { query := q } "compile.always_false" []).query.conditions := hroot
    have counted := (scope.reported_addAlwaysFalse logged).clauses
    rw [FilterTree.occurrences_of_alwaysFalse never, StorageResolver.skips,
      FilterTree.livePredicates_of_alwaysFalse never]
    exact ⟨counted.trans (Nat.zero_add _), rfl, rfl, never.symm⟩
  next never =>
    have may : t.alwaysFalse = false := by simpa using never
    split at hok
    next hempty =>
      obtain rfl := Except.ok.inj hok
      have none : t.children = [] := List.isEmpty_iff.1 hempty
      rw [FilterTree.occurrences_of_not_alwaysFalse may, StorageResolver.skips,
        FilterTree.livePredicates_of_not_alwaysFalse may, none]
      exact ⟨Nat.zero_add _, rfl, rfl, may.symm⟩
    next =>
      have inUse := q.conditions.mem_openGroup .root t.conjunction
      have reported := (addTree_reported t may inUse hok).of_openGroup (s := { query := q }) start
      have left := reported.skippedFields
      rw [FilterTree.map_predicate_occurrences] at left
      exact ⟨reported.clauses.trans (Nat.zero_add _), reported.joins, left,
        reported.alwaysFalse.trans may.symm⟩

end LookupScope

/-! ## Compiles -/

namespace Compiler

variable {c : Compiler} {t : FilterTree} {q : Query} {revisionScoped : Bool}
  {report : CompileReport}

/-- What a report says about a statement before and after a compile. -/
structure Accounted (c : Compiler) (t : FilterTree) (q : Query) (revisionScoped : Bool)
    (report : CompileReport) : Prop where
  /-- What was counted was added. -/
  clauses : report.clauses + q.conditions.conditions.length =
    (c.compile t q revisionScoped).query.conditions.conditions.length
  /-- The joins are those that the requests were answered with. -/
  joins : report.joins =
    CompileReport.noted [] (q.bare.answers (c.trail t q revisionScoped).requests)
  skippedFields : report.skippedFields = c.resolver.skips t
  alwaysFalse : report.alwaysFalse = t.alwaysFalse

/-- The report of a compile that succeeds. -/
theorem accounted_compile (hroot : GroupId.root ∈ q.conditions)
    (hok : (c.compile t q revisionScoped).outcome = .ok report) :
    Accounted c t q revisionScoped report := by
  cases ha : c.anchor q with
  | error e =>
    rw [compile, ha] at hok
    cases hok
  | ok anchor =>
    cases hw : LookupScope.addFilter ⟨c, anchor, revisionScoped⟩ t { query := q } with
    | error e =>
      rw [compile, ha] at hok
      simp only [hw] at hok
      cases hok
    | ok s' =>
      have done : c.compile t q revisionScoped = ⟨s'.query, .ok s'.report, s'.log⟩ := by
        rw [compile, ha]
        simp only [hw]
        rfl
      rw [done] at hok
      obtain rfl := Except.ok.inj hok
      obtain ⟨clauses, joins, skipped, never⟩ := LookupScope.addFilter_reported hroot hw
      refine ⟨?_, ?_, skipped, never⟩
      · rw [done]
        exact clauses
      · rw [trail, ha]
        exact joins

end Compiler

end RowAccess
