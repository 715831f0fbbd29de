import Mathlib.Algebra.Group.Action.Defs
import Mathlib.Algebra.Order.BigOperators.Group.List
import Mathlib.Algebra.Order.Group.Nat
import RowAccess.Proofs.Filter.Operands
import RowAccess.Proofs.Lowering.Dedicated
import RowAccess.Proofs.Lowering.Emission
import RowAccess.Proofs.Sql.Lengths

/-!
# A report is exact

A report is what callers go by: it says how many conditions a compile added, which joins they need,
which fields were left out, and whether the statement was restricted at all.  Each of these can be
told from the statement before and after the compile.  In particular the report says that nothing
was restricted exactly if the statement is written as before.  One direction holds because a join is
asked for by a clause only; the other because a statement with further conditions is longer.

Main results:

- `Query.aliases_ensureAll`: the aliases of the joins are those of the answers, each noted once.
- `FilterNode.Lowers.leaves_ne_nil_of_mem`: what is written for a filter has conditions.
- `Compiler.length_requests_le`: a compile asks for no more joins than it adds conditions.
- `Compiler.exact_compile`: a report is exact.
-/

namespace RowAccess

open Sql

/-! ## Names that are noted once -/

namespace CompileReport

variable {names more : List String}

theorem noted_cons (names more : List String) (name : String) :
    noted names (name :: more) = noted (noted names [name]) more :=
  noted_append names [name] more

theorem noted_singleton_of_mem {name : String} (h : name ∈ names) : noted names [name] = names := by
  simp [noted, h]

theorem noted_singleton_of_not_mem {name : String} (h : name ∉ names) :
    noted names [name] = names ++ [name] := by
  simp [noted, h]

/-- The names that were noted are the earlier ones and the further ones. -/
theorem mem_noted {name : String} : name ∈ noted names more ↔ name ∈ names ∨ name ∈ more := by
  induction more generalizing names with
  | nil => simp [noted]
  | cons next more ih =>
    rw [noted_cons, ih]
    by_cases h : next ∈ names
    · rw [noted_singleton_of_mem h, List.mem_cons]
      constructor
      · rintro (earlier | later)
        · exact .inl earlier
        · exact .inr (.inr later)
      · rintro (earlier | rfl | later)
        · exact .inl earlier
        · exact .inl h
        · exact .inr later
    · rw [noted_singleton_of_not_mem h, List.mem_append, List.mem_singleton, List.mem_cons,
        or_assoc]

/-- No name is noted twice. -/
theorem nodup_noted (h : names.Nodup) : (noted names more).Nodup := by
  induction more generalizing names with
  | nil => exact h
  | cons next more ih =>
    rw [noted_cons]
    apply ih
    by_cases known : next ∈ names
    · rwa [noted_singleton_of_mem known]
    · rw [noted_singleton_of_not_mem known]
      simpa using h.concat known

/-- Where fewer names were known before, all that are new to one who knew more are noted, in the
same order. -/
theorem exists_noted_sublist {known : List String} (h : names ⊆ known) :
    ∃ fresh extra, noted known more = known ++ fresh ∧ noted names more = names ++ extra ∧
      fresh.Sublist extra := by
  induction more generalizing names known with
  | nil => exact ⟨[], [], by simp [noted], by simp [noted], .refl _⟩
  | cons next more ih =>
    rw [noted_cons known, noted_cons names]
    by_cases hknown : next ∈ known
    · rw [noted_singleton_of_mem hknown]
      by_cases hnames : next ∈ names
      · rw [noted_singleton_of_mem hnames]
        exact ih h
      · rw [noted_singleton_of_not_mem hnames]
        have still : names ++ [next] ⊆ known := by
          simpa [h] using hknown
        obtain ⟨fresh, extra, grown, grown', within⟩ := ih still
        refine ⟨fresh, next :: extra, grown, ?_, within.cons next⟩
        rw [grown', List.append_assoc, List.singleton_append]
    · have hnames : next ∉ names := fun hnext => hknown (h hnext)
      rw [noted_singleton_of_not_mem hknown, noted_singleton_of_not_mem hnames]
      have still : names ++ [next] ⊆ known ++ [next] := by
        rw [List.append_subset]
        exact ⟨List.subset_append_of_subset_left _ h, List.subset_append_right _ _⟩
      obtain ⟨fresh, extra, grown, grown', within⟩ := ih still
      refine ⟨next :: fresh, next :: extra, ?_, ?_, within.cons_cons next⟩
      · rw [grown, List.append_assoc, List.singleton_append]
      · rw [grown', List.append_assoc, List.singleton_append]

end CompileReport

/-! ## Aliases -/

namespace Sql.Query

/-- The alias that a request is answered with is in use, or it is that of a new join. -/
theorem aliases_ensureJoin (q : Query) (r : JoinRequest) :
    (q.ensureJoin r).1.joins.aliases =
      CompileReport.noted q.joins.aliases [(q.ensureJoin r).2] := by
  simp only [ensureJoin]
  cases hr : q.joins.answer? r with
  | some j =>
    have used : j.aliasName ∈ q.joins.aliases :=
      List.mem_map_of_mem (List.mem_of_find?_eq_some hr)
    rw [JoinSet.ensure_of_answers hr, CompileReport.noted_singleton_of_mem used]
    exact JoinSet.aliases_widenAnswer r q.joins.joins
  | none =>
    have unused := Text.freshName_not_mem ([q.aliasName] ++ q.joins.aliases) (q.preferredAlias r)
    rw [List.mem_append, not_or] at unused
    rw [JoinSet.ensure_of_not_answers hr, CompileReport.noted_singleton_of_not_mem unused.2]
    simp [JoinSet.aliases, Join.ofRequest]

/-- So it is with several requests. -/
theorem aliases_ensureAll (q : Query) (requests : List JoinRequest) :
    (q.ensureAll requests).joins.aliases =
      CompileReport.noted q.joins.aliases (q.answers requests) := by
  induction requests generalizing q with
  | nil => rfl
  | cons r requests ih =>
    rw [ensureAll_cons, ih, aliases_ensureJoin, answers]
    exact (CompileReport.noted_cons _ _ _).symm

end Sql.Query

/-! ## What is written for a filter -/

section Leaves

variable {R : Predicate → List Clause → Prop}

mutual

/-- Whatever a child becomes has conditions. -/
theorem FilterNode.Lowers.leaves_ne_nil_of_mem {n : FilterNode} {es : List WhereExpr} :
    n.Lowers R es → ∀ e ∈ es, e.leaves ≠ []
  | .leaf _ => by
    intro e he
    obtain ⟨c, -, rfl⟩ := List.mem_map.1 he
    simp [WhereExpr.leaves]
  | .never _ => by simp [WhereExpr.leaves]
  | @FilterNode.Lowers.tree _ t parts _ hs => by
    intro e he
    have below := FilterNode.LowersAll.leaves_ne_nil_of_mem hs
    have same := WhereExpr.flatMap_leaves_join t.conjunction parts
    rw [Option.mem_toList.1 he, Option.toList_some, List.flatMap_singleton] at same
    cases parts with
    | nil => simp [WhereExpr.join] at he
    | cons first rest =>
      rw [same, List.flatMap_cons]
      exact List.append_ne_nil_of_left_ne_nil (below first List.mem_cons_self) _

/-- Whatever several children become has conditions. -/
theorem FilterNode.LowersAll.leaves_ne_nil_of_mem {ns : List FilterNode} {es : List WhereExpr} :
    FilterNode.LowersAll R ns es → ∀ e ∈ es, e.leaves ≠ []
  | .nil => by simp
  | .cons h hs => by
    intro e he
    rcases List.mem_append.1 he with first | rest
    · exact h.leaves_ne_nil_of_mem e first
    · exact hs.leaves_ne_nil_of_mem e rest

end

mutual

/-- What holds of clauses and of the false condition holds of every condition that a child
becomes. -/
theorem FilterNode.Lowers.of_mem_leaves {P : Condition → Prop} (clause : ∀ c, P (.clause c))
    (never : P (.expression Sql.alwaysFalse)) {n : FilterNode} {es : List WhereExpr} :
    n.Lowers R es → ∀ item ∈ es.flatMap WhereExpr.leaves, P item
  | .leaf _ => by
    intro item hitem
    rw [List.flatMap_map] at hitem
    obtain ⟨c, -, hc⟩ := List.mem_flatMap.1 hitem
    obtain rfl := List.mem_singleton.1 hc
    exact clause c
  | .never _ => by
    intro item hitem
    rw [List.flatMap_singleton] at hitem
    obtain rfl := List.mem_singleton.1 hitem
    exact never
  | .tree _ hs => by
    rw [WhereExpr.flatMap_leaves_join]
    exact FilterNode.LowersAll.of_mem_leaves clause never hs

/-- So it is with several children. -/
theorem FilterNode.LowersAll.of_mem_leaves {P : Condition → Prop} (clause : ∀ c, P (.clause c))
    (never : P (.expression Sql.alwaysFalse)) {ns : List FilterNode} {es : List WhereExpr} :
    FilterNode.LowersAll R ns es → ∀ item ∈ es.flatMap WhereExpr.leaves, P item
  | .nil => by simp
  | .cons h hs => by
    intro item hitem
    rw [List.flatMap_append] at hitem
    rcases List.mem_append.1 hitem with first | rest
    · exact h.of_mem_leaves clause never item first
    · exact hs.of_mem_leaves clause never item rest

end

/-- A tree that admits nothing becomes something. -/
theorem FilterNode.Lowers.ne_nil_of_alwaysFalse {t : FilterTree} {es : List WhereExpr}
    (h : (FilterNode.tree t).Lowers R es) (never : t.alwaysFalse = true) : es ≠ [] := by
  cases h with
  | never _ => exact List.cons_ne_nil _ _
  | tree may _ =>
    rw [never] at may
    cases may

end Leaves

/-! ## Requests and clauses -/

namespace LookupScope

/-- What an entity compiler makes a clause of is stored. -/
theorem Emits.lacks_eq_false {scope : LookupScope} (hc : scope.compiler.backend = .entity)
    {q : Query} {p : Predicate} {clauses : List Clause} (h : scope.Emits q p clauses) :
    scope.compiler.resolver.lacks p = false := by
  cases h with
  | stored hpath hstorage _ _ =>
    rw [StorageResolver.lacks, hpath]
    simp only [hstorage, Option.isNone_some]
  | skipped _ _ hbackend =>
    rw [hc] at hbackend
    cases hbackend

variable (scope : LookupScope)

/-- A predicate that is not refused asks for a join only if it becomes a clause. -/
theorem length_requests_lookUp_le {o : Occurrence} {q : Query}
    (h : (scope.lookUp o q).failure = none) :
    (scope.lookUp o q).requests.length ≤ (scope.lookUp o q).clauses.length := by
  rcases scope.lookUp_cases o q with ⟨path, storage, -, -, looked⟩ | ⟨-, -, -, -, -, looked⟩ |
    ⟨e, -, looked⟩
  · rw [looked] at h ⊢
    have requests : (scope.lookUpStored o storage q).requests.length ≤ 1 := by
      rw [requests_lookUpStored]
      exact Option.length_toList_le
    simp only [lookUpStored] at h requests ⊢
    cases made : Lowering.clause o.predicate _ storage.caseSensitive scope.compiler.options with
    | ok c =>
      simp only [Trail.clauses, made] at requests ⊢
      exact requests
    | error e => simp [made, errorOf] at h
  · rw [looked]
    exact Nat.le_refl _
  · rw [looked]
    exact Nat.le_refl _

/-- So it is with several predicates. -/
theorem length_requests_trail_le (os : List Occurrence) (q : Query)
    (h : (scope.trail os q).failure = none) :
    (scope.trail os q).requests.length ≤ (scope.trail os q).clauses.length := by
  induction os generalizing q with
  | nil => exact Nat.le_refl _
  | cons o os ih =>
    rw [trail] at h ⊢
    cases hfirst : (scope.lookUp o q).failure with
    | some e =>
      rw [Trail.andThen_of_some hfirst, hfirst] at h
      cases h
    | none =>
      rw [Trail.andThen_of_none hfirst] at h
      rw [Trail.requests_andThen hfirst, Trail.clauses_andThen hfirst, List.length_append,
        List.length_append]
      exact Nat.add_le_add (scope.length_requests_lookUp_le hfirst) (ih _ h)

end LookupScope

namespace Compiler

variable {c : Compiler} {t : FilterTree} {q : Query} {revisionScoped : Bool}
  {report : CompileReport}

/-- A compile that succeeds asks for no more joins than it adds clauses. -/
theorem length_requests_le (hok : (c.compile t q revisionScoped).outcome = .ok report) :
    (c.trail t q revisionScoped).requests.length ≤ (c.trail t q revisionScoped).clauses.length := by
  have succeeded := c.errorOf_compile t q revisionScoped
  rw [hok] at succeeded
  rw [trail] at succeeded ⊢
  cases ha : c.anchor q with
  | error e =>
    rw [ha] at succeeded
    cases succeeded
  | ok anchor =>
    simp only [ha] at succeeded ⊢
    exact LookupScope.length_requests_trail_le _ _ _ succeeded.symm

/-- An entity compiler that succeeds leaves nothing out. -/
theorem skips_eq_nil (hc : c.backend = .entity) (hq : q.Reachable)
    (hok : (c.compile t q revisionScoped).outcome = .ok report) : c.resolver.skips t = [] := by
  obtain ⟨handled, rest, emitted, split, complete, -, each⟩ :=
    c.exists_emits_compile t revisionScoped hq.nested
  rw [hok] at complete
  obtain rfl := complete rfl
  rw [List.append_nil] at split
  rw [StorageResolver.skips, split, List.map_eq_nil_iff, List.filter_eq_nil_iff]
  clear split complete
  induction each with
  | nil => simp
  | cons first rest ih =>
    obtain ⟨anchor, -, emits⟩ := first
    have stored := emits.lacks_eq_false hc
    simpa [stored] using ih

/-! ## Written as before -/

/-- What a compile that succeeds added to the conditions of a statement. -/
structure Adds (c : Compiler) (t : FilterTree) (q : Query) (revisionScoped : Bool)
    (report : CompileReport) (parts : List WhereExpr) : Prop where
  /-- What was added stands behind what was there. -/
  rootParts : (c.compile t q revisionScoped).query.conditions.rootParts =
    q.conditions.rootParts ++ parts
  conditions : (c.compile t q revisionScoped).query.conditions.conditionsAt 0 =
    q.conditions.conditionsAt 0 ++ parts.flatMap WhereExpr.leaves
  count : report.clauses = (parts.flatMap WhereExpr.leaves).length
  /-- Nothing is added that would not be written. -/
  written : ∀ e ∈ parts, e.leaves ≠ []
  long : ∀ item ∈ parts.flatMap WhereExpr.leaves, 2 ≤ item.text.length
  /-- Every join was asked for by one of the conditions. -/
  requests : (c.trail t q revisionScoped).requests.length ≤ (parts.flatMap WhereExpr.leaves).length
  /-- A tree that admits nothing adds the false condition. -/
  never : t.alwaysFalse = true → parts ≠ []

/-- A compile that succeeds added some conditions. -/
theorem exists_adds (hq : q.Reachable)
    (hok : (c.compile t q revisionScoped).outcome = .ok report) :
    ∃ parts, Adds c t q revisionScoped report parts := by
  obtain ⟨anchor, -, items, grown, lowered⟩ := compile_ok hq.nested hok
  have hq' := c.compile_reachable t hq revisionScoped
  have behind := grown.conditionsAt_eq hq.nested hq'.nested
  have counted := (accounted_compile hq.root_mem hok).clauses
  have lengths := congrArg List.length behind
  rw [List.length_append, hq'.tree.conditionsAt_perm.length_eq,
    hq.tree.conditionsAt_perm.length_eq] at lengths
  refine ⟨_, grown.rootParts_eq hq.nested hq'.nested, behind, by omega,
    lowered.leaves_ne_nil_of_mem, ?_, ?_, lowered.ne_nil_of_alwaysFalse⟩
  · exact lowered.of_mem_leaves (P := fun item => 2 ≤ item.text.length)
      Clause.two_le_length_text (by decide)
  · have clauses := c.depthFirstClauses_compile t revisionScoped hq.nested
    rw [ConditionSet.depthFirstClauses_eq hq'.nested, ConditionSet.depthFirstClauses_eq hq.nested,
      behind, List.filterMap_append, List.append_cancel_left_eq] at clauses
    have fewer := length_requests_le hok
    rw [← clauses] at fewer
    exact fewer.trans (List.length_filterMap_le _ _)

namespace Adds

variable {parts : List WhereExpr}

/-- Where no condition was counted, the statement is written as before. -/
theorem render_eq (h : Adds c t q revisionScoped report parts) (none : report.clauses = 0) :
    (c.compile t q revisionScoped).query.render = q.render := by
  have leaves : parts.flatMap WhereExpr.leaves = [] := by
    rw [← List.length_eq_zero_iff, ← h.count]
    exact none
  have nothing : parts = [] := by
    cases parts with
    | nil => rfl
    | cons e rest =>
      rw [List.flatMap_cons, List.append_eq_nil_iff] at leaves
      exact absurd leaves.1 (h.written e List.mem_cons_self)
  have unasked : (c.trail t q revisionScoped).requests = [] := by
    have few := h.requests
    rw [leaves, List.length_nil, Nat.le_zero, List.length_eq_zero_iff] at few
    exact few
  have bare : (c.compile t q revisionScoped).query.bare = q.bare := by
    rw [bare_compile, trail_query, unasked]
    rfl
  have frame : (c.compile t q revisionScoped).query =
      { q with conditions := (c.compile t q revisionScoped).query.conditions } :=
    congrArg (fun b : Query =>
      { b with conditions := (c.compile t q revisionScoped).query.conditions }) bare
  symm
  apply Query.render_eq frame
  rw [h.rootParts, nothing, List.append_nil]

/-- Where a condition was counted, the statement is longer than before. -/
theorem length_sql_lt (h : Adds c t q revisionScoped report parts) (some : 0 < report.clauses) :
    q.render.sql.length < (c.compile t q revisionScoped).query.render.sql.length := by
  have joins : q.fromText.length ≤ (c.compile t q revisionScoped).query.fromText.length +
      (c.trail t q revisionScoped).requests.length := by
    have lost := q.bare.length_fromText_le_ensureAll (c.trail t q revisionScoped).requests
    rw [← trail_query, ← bare_compile] at lost
    exact lost
  have longer := Query.length_sql_render_le joins h.rootParts
  have two : 2 * (parts.flatMap WhereExpr.leaves).length ≤
      ((parts.flatMap WhereExpr.leaves).map fun item => item.text.length).sum := by
    have each := List.card_nsmul_le_sum
      ((parts.flatMap WhereExpr.leaves).map fun item => item.text.length) 2
      (List.forall_mem_map.2 h.long)
    rwa [List.length_map, smul_eq_mul, Nat.mul_comm] at each
  have requests := h.requests
  have count := h.count
  omega

/-- A report says that nothing was restricted exactly if the statement is written as before. -/
theorem isUnrestricted_iff (h : Adds c t q revisionScoped report parts)
    (never : report.alwaysFalse = t.alwaysFalse) :
    report.isUnrestricted = true ↔ (c.compile t q revisionScoped).query.render = q.render := by
  rw [CompileReport.isUnrestricted, Bool.and_eq_true, decide_eq_true_eq]
  constructor
  · intro unrestricted
    exact h.render_eq unrestricted.1
  · intro same
    have none : report.clauses = 0 := by
      by_contra some
      have longer := h.length_sql_lt (Nat.pos_of_ne_zero some)
      rw [same] at longer
      exact Nat.lt_irrefl _ longer
    refine ⟨none, ?_⟩
    rw [never, Bool.not_eq_true']
    by_contra denied
    have denied : t.alwaysFalse = true := by simpa using denied
    obtain ⟨e, rest, rfl⟩ := List.exists_cons_of_ne_nil (h.never denied)
    have positive := List.length_pos_iff.2 (h.written e List.mem_cons_self)
    have count := h.count
    rw [List.flatMap_cons, List.length_append] at count
    omega

end Adds

/-! ## Reports -/

/-- What a report says of a compile that succeeded, told from the statement before and after it. -/
structure Exact (c : Compiler) (t : FilterTree) (q : Query) (revisionScoped : Bool)
    (report : CompileReport) : Prop where
  /-- The clauses and raw conditions that were added are counted. -/
  clauses : ∃ added, (c.compile t q revisionScoped).query.conditions.conditionsAt 0 =
    q.conditions.conditionsAt 0 ++ added ∧ report.clauses = added.length
  /-- The joins that were added are listed in the order of registration. -/
  joins : ∃ added, (c.compile t q revisionScoped).query.joins.aliases = q.joins.aliases ++ added ∧
    added.Sublist report.joins
  nodup : report.joins.Nodup
  aliases : ∀ aliasName ∈ report.joins,
    aliasName ∈ (c.compile t q revisionScoped).query.joins.aliases
  /-- A listing lists the fields that it left out, as they are written; nothing else leaves any
  out. -/
  skippedFields : report.skippedFields =
    match c.backend with
    | .entity => []
    | .listing _ => (t.livePredicates.filter c.resolver.lacks).map Predicate.field
  alwaysFalse : report.alwaysFalse = t.alwaysFalse
  /-- Nothing was restricted exactly if the statement is written as before. -/
  unrestricted : report.isUnrestricted = true ↔
    (c.compile t q revisionScoped).query.render = q.render

/-- The report of a compile that succeeds is exact. -/
theorem exact_compile (hq : q.Reachable)
    (hok : (c.compile t q revisionScoped).outcome = .ok report) :
    Exact c t q revisionScoped report := by
  obtain ⟨parts, adds⟩ := exists_adds hq hok
  obtain ⟨-, joins, skipped, never⟩ := accounted_compile hq.root_mem hok
  have aliases : (c.compile t q revisionScoped).query.joins.aliases =
      CompileReport.noted q.joins.aliases
        (q.bare.answers (c.trail t q revisionScoped).requests) := by
    have asked := q.bare.aliases_ensureAll (c.trail t q revisionScoped).requests
    rw [← trail_query, ← bare_compile] at asked
    exact asked
  refine ⟨⟨_, adds.conditions, adds.count⟩, ?_, ?_, ?_, ?_, never, adds.isUnrestricted_iff never⟩
  · obtain ⟨added, noted, grown, listed, within⟩ :=
      CompileReport.exists_noted_sublist (List.nil_subset q.joins.aliases)
    rw [List.nil_append] at listed
    refine ⟨added, aliases.trans grown, ?_⟩
    rw [joins, listed]
    exact within
  · rw [joins]
    exact CompileReport.nodup_noted List.nodup_nil
  · intro aliasName listed
    rw [joins, CompileReport.mem_noted] at listed
    rw [aliases, CompileReport.mem_noted]
    exact .inr (listed.resolve_left List.not_mem_nil)
  · cases hc : c.backend with
    | entity => exact skipped.trans (skips_eq_nil hc hq hok)
    | listing relationship => exact skipped

/-! ## A field that is not listed -/

/-- A listing whose tags were joined on the revision. -/
def revisedListing : Query :=
  ((Query.listing "node").ensureJoin ⟨"node__tags", .inner, "node.vid", "revision_id"⟩).1

/-- Content with a tag or without a colour, or of some hue, which nothing is admitted of. -/
def taggedOrColourless : FilterTree :=
  ((FilterTree.any.addPredicate (.equals "tags" (.text "news"))).addPredicate
    (.isNull "colour")).add
      (.tree ((FilterTree.all.addPredicate (.equals "colour.hue" (.text "red"))).markAlwaysFalse
        true))

/-- The listing adds a condition on the tags and the false condition, for a join of its own, and
leaves out the colour. -/
theorem exact_compile_taggedOrColourless :
    revisedListing.Reachable ∧
    (compile ⟨articlesWithTags.resolver, .listing none, {}⟩ taggedOrColourless revisedListing
      false).outcome = .ok ⟨2, ["node__tags_2"], ["colour"], false⟩ ∧
    Exact ⟨articlesWithTags.resolver, .listing none, {}⟩ taggedOrColourless revisedListing false
      ⟨2, ["node__tags_2"], ["colour"], false⟩ := by
  have reachable : revisedListing.Reachable := .join (.listing "node") _
  have done : (compile ⟨articlesWithTags.resolver, .listing none, {}⟩ taggedOrColourless
      revisedListing false).outcome = .ok ⟨2, ["node__tags_2"], ["colour"], false⟩ := rfl
  exact ⟨reachable, done, exact_compile reachable done⟩

/-- A field that is not stored is not listed where nothing is admitted anyway. -/
theorem skippedFields_ne_taggedOrColourless :
    revisedListing.Reachable ∧
    ∃ report, (compile ⟨articlesWithTags.resolver, .listing none, {}⟩ taggedOrColourless
        revisedListing false).outcome = .ok report ∧
      report.skippedFields ≠
        (taggedOrColourless.predicates.filter articlesWithTags.resolver.lacks).map
          Predicate.field := by
  exact ⟨.join (.listing "node") _, _, rfl, by decide⟩

end Compiler

end RowAccess
