import Mathlib.Logic.Relation
import RowAccess.Proofs.Filter.Dependencies
import RowAccess.Proofs.Lowering.Restricting
import RowAccess.Proofs.Lowering.Tracing
import RowAccess.Proofs.Sql.Loosening
import RowAccess.Proofs.Sql.Traversal

/-!
# What a compile leaves alone

A compile may fail in the middle of a filter, when it has opened groups and joined tables for the
predicates before and perhaps for the refused predicate itself.  Nothing of this is taken back.  But
whatever it added is an addition: one item of the root, groups that can only be reached through this
item, and joins behind those of the caller, some of which may keep more rows than before.

Main results:

- `ConditionSet.Tree.exists_holds`: every group but the root is an item of an earlier one.
- `ConditionSet.ExtendedBy.of_grows`: an addition to the root is reached through what was added.
- `LookupScope.addFilter_grows`: a filter adds one item to the root at most, also where it fails.
- `Compiler.extension_compile`: a compile extends a statement, however it ends.
- `Restriction.extends_only`: so does restricting a statement, which keeps the cacheability of the
  caller if it fails.
-/

namespace RowAccess

open Sql

/-! ## Groups that an item leads to -/

namespace Sql.ConditionSet

/-- A group is an item of another. -/
def Holds (s : ConditionSet) (i j : Nat) : Prop :=
  ∃ g, s.groups[i]? = some g ∧ .group ⟨j⟩ ∈ g.items

/-- A group is reached from another by following items. -/
def Leads (s : ConditionSet) : Nat → Nat → Prop := Relation.ReflTransGen s.Holds

/-- Every group but the root is an item of an earlier one. -/
theorem Tree.exists_holds {s : ConditionSet} (h : s.Tree) {i : Nat} (hpos : 0 < i)
    (hi : i < s.groups.length) : ∃ j, j < i ∧ s.Holds j i := by
  have number : (⟨i⟩ : GroupId) ∈ (List.range' 1 (s.groups.length - 1)).map GroupId.mk :=
    List.mem_map_of_mem (List.mem_range'_1.2 ⟨hpos, by omega⟩)
  obtain ⟨item, hitem, isGroup⟩ := List.mem_filterMap.1 (h.once.mem_iff.2 number)
  obtain rfl : item = .group ⟨i⟩ := by
    cases item with
    | clause c => cases isGroup
    | expression text => cases isGroup
    | group id => rw [Option.some.inj isGroup]
  obtain ⟨g, hg, mem⟩ := List.mem_flatMap.1 hitem
  obtain ⟨j, hj⟩ := List.mem_iff_getElem?.1 hg
  exact ⟨j, (h.nested.later j g hj ⟨i⟩ mem).1, g, hj, mem⟩

/-- One set is another after at most one item was added to the root.  The other groups are as they
were, and the new ones are reached through the item. -/
structure ExtendedBy (s s' : ConditionSet) (added : Option Condition) : Prop where
  root : ∃ g, s.groups[0]? = some g ∧
    s'.groups[0]? = some { g with items := g.items ++ added.toList }
  others : ∀ i, 0 < i → i < s.groups.length → s'.groups[i]? = s.groups[i]?
  below : ∀ i, s.groups.length ≤ i → i < s'.groups.length →
    ∃ id, added = some (.group id) ∧ s'.Leads id.index i

/-- What was added to the root leads to all groups that were added. -/
theorem ExtendedBy.of_grows {s s' : ConditionSet} {added : Option Condition}
    (h : s.Grows .root added.toList s') (hs : s.Nested) (hs' : s'.Tree) :
    s.ExtendedBy s' added := by
  have pos := hs.length_pos
  have hroot : s.groups[0]? = some s.groups[0] := List.getElem?_eq_getElem pos
  refine ⟨⟨_, hroot, h.target _ hroot⟩, fun i hi => h.others i (Nat.ne_of_gt hi), ?_⟩
  intro i
  -- A new group is an item of the root or of a new group before it.
  induction i using Nat.strongRecOn with
  | ind i ih =>
    intro new inside
    obtain ⟨j, before, holds⟩ := hs'.exists_holds (Nat.lt_of_lt_of_le pos new) inside
    have known (old : Group) (hold : s.groups[j]? = some old)
        (hmem : .group ⟨i⟩ ∈ old.items) : False :=
      Nat.not_lt_of_ge new (hs.later j old hold ⟨i⟩ hmem).2
    obtain ⟨g, hg, mem⟩ := holds
    by_cases hj : s.groups.length ≤ j
    · obtain ⟨id, isGroup, leads⟩ := ih j before hj (before.trans inside)
      exact ⟨id, isGroup, leads.tail ⟨g, hg, mem⟩⟩
    · obtain rfl | behind := Nat.eq_zero_or_pos j
      · obtain rfl := Option.some.inj ((h.target _ hroot).symm.trans hg)
        rcases List.mem_append.1 mem with earlier | last
        · exact (known _ hroot earlier).elim
        · exact ⟨⟨i⟩, Option.mem_toList.1 last, .refl⟩
      · rw [h.others j (Nat.ne_of_gt behind) (by omega)] at hg
        exact (known g hg mem).elim

end Sql.ConditionSet

/-! ## Statements that were extended -/

/-- One statement is another that was only added to. -/
structure Sql.Query.Extension (q q' : Query) : Prop where
  base : q'.base = q.base
  form : q'.form = q.form
  joins : q.joins.WidensTo q'.joins
  conditions : ∃ added, q.conditions.ExtendedBy q'.conditions added

/-- A filter adds one item to the root at most, also where it fails. -/
theorem LookupScope.addFilter_grows (scope : LookupScope) (t : FilterTree) {s : Progress}
    (hs : s.query.conditions.Nested) :
    ∃ added : Option Condition, s.query.conditions.Grows .root added.toList
      (Progress.atEnd (scope.addFilter t s)).query.conditions := by
  rw [addFilter]
  split
  next => exact ⟨some (.expression alwaysFalse), .push _ .root rfl⟩
  next =>
    split
    next => exact ⟨none, .refl _ .root⟩
    next =>
      have inUse := s.query.conditions.mem_openGroup .root t.conjunction
      have opened := hs.openGroup hs.length_pos t.conjunction
      obtain ⟨items, grown, -⟩ := scope.addNodes_clauses (false || t.conjunction = .or) t.children
        (s := (s.openGroup .root t.conjunction).1) opened inUse
      refine ⟨some (.group (s.openGroup .root t.conjunction).2), ?_⟩
      rcases t with ⟨conjunction, children, never, cache⟩
      exact .nest hs.length_pos grown

namespace Compiler

variable (c : Compiler) (t : FilterTree) {q : Query} (revisionScoped : Bool)

/-- A compile extends a statement, however it ends. -/
theorem extension_compile (hq : q.Reachable) :
    q.Extension (c.compile t q revisionScoped).query where
  base := base_compile c t hq revisionScoped
  form := form_compile c t q revisionScoped
  joins := c.compile_stable (Query.stable_widened q.joins) t hq.root_mem (.refl _) revisionScoped
  conditions := by
    have tree := (c.compile_reachable t hq revisionScoped).tree
    obtain ⟨added, grown⟩ : ∃ added : Option Condition, q.conditions.Grows .root added.toList
        (c.compile t q revisionScoped).query.conditions := by
      rw [compile]
      split
      next => exact ⟨none, .refl _ .root⟩
      next anchor _ =>
        rw [Compiled.query_ofWalk]
        exact LookupScope.addFilter_grows ⟨c, anchor, revisionScoped⟩ t (s := { query := q })
          hq.nested
    exact ⟨added, .of_grows grown hq.nested tree⟩

/-- A relationship that the statement does not know changes nothing. -/
theorem compile_unknownRelationship {name : String} (hname : c.relationship? = some name)
    (unknown : q.relationship? name = none) :
    c.compile t q revisionScoped = ⟨q, .error (.unknownRelationship name), []⟩ := by
  have refused : c.anchor q = .error (.unknownRelationship name) := by
    rw [anchor, hname]
    simp only [unknown]
  rw [compile, refused]

end Compiler

/-! ## Restricting -/

namespace Restriction

variable {m : Type → Type} [Monad m] [LawfulMonad m] [Journal m]

/-- Whatever the handler answers, a statement is extended at most. -/
theorem extension_ofAnswer (compiler : Compiler) (request : RestrictionRequest) {query : Query}
    (hq : query.Reachable) (cache : Cacheability) (answer : Except AccessError FilterTree) :
    query.Extension (ofAnswer compiler request query cache answer).1.query := by
  cases answer with
  | error e =>
    obtain ⟨items, hroot⟩ := hq.nested.root
    have same : query.conditions.ExtendedBy query.conditions none :=
      .of_grows (.refl _ .root) hq.nested hq.tree
    exact ⟨rfl, rfl, .refl _, none, same⟩
  | ok tree =>
    have extended := compiler.extension_compile tree request.revisionScoped hq
    rw [ofAnswer]
    cases outcome : (compiler.compile tree query request.revisionScoped).outcome with
    | ok report =>
      rw [ofTree_ok outcome]
      exact extended
    | error e =>
      rw [ofTree_error outcome]
      exact extended

/-- A statement is only ever extended, also by a compile that fails, and an unknown relationship
does not change it at all.  Without a check, or if the handler fails, the caller keeps the statement
and the cacheability as they are; if the compile fails, the cacheability. -/
theorem extends_only {query : Query} (hq : query.Reachable) :
    (∀ (c : Compiler) (t : FilterTree) (revisionScoped : Bool),
      query.Extension (c.compile t query revisionScoped).query ∧
        ∀ name, c.relationship? = some name → query.relationship? name = none →
          (c.compile t query revisionScoped).query = query ∧
            (c.compile t query revisionScoped).outcome = .error (.unknownRelationship name)) ∧
      ∀ (handler : AccessHandler m) (c : Compiler) (request : RestrictionRequest)
        (cache : Cacheability),
        (request.skipAccess = true →
          apply handler c request query cache = pure ⟨query, cache, .ok none⟩) ∧
        (request.skipAccess = false →
          apply handler c request query cache = (do
            let answer ←
              handler.conditions (request.operation.getD viewOperation) request.account
            Journal.recordAll (ofAnswer c request query cache answer).2
            return (ofAnswer c request query cache answer).1)) ∧
        (∀ e, (ofAnswer c request query cache (.error e)).1 = ⟨query, cache, .error e.failure⟩) ∧
        ∀ answer, query.Extension (ofAnswer c request query cache answer).1.query ∧
          ∀ failure, (ofAnswer c request query cache answer).1.outcome = .error failure →
            (ofAnswer c request query cache answer).1.cache = cache := by
  refine ⟨fun c t revisionScoped => ⟨c.extension_compile t revisionScoped hq, ?_⟩, ?_⟩
  · intro name hname unknown
    rw [c.compile_unknownRelationship t revisionScoped hname unknown]
    exact ⟨rfl, rfl⟩
  · intro handler c request cache
    refine ⟨fun skip => skipped_eq handler c skip query cache, ?_, fun e => rfl, ?_⟩
    · intro checked
      exact apply_eq_ofAnswer handler c checked query cache
    · intro answer
      refine ⟨extension_ofAnswer c request hq cache answer, fun failure failed => ?_⟩
      exact cache_ofAnswer_of_error failed

end Restriction

/-! ## A range without an end -/

/-- Articles with tags and an author, each in a table of its own. -/
def authoredArticles : TableMapping :=
  articlesWithTags.withField (FieldDefinition.single "author" "id").asDedicated

/-- A statement of a caller for the articles with a tag, with a group of its own. -/
def groupedArticles : Query :=
  (taggedArticles.openGroup .root .or).1.pushCondition ⟨1⟩
    (.clause ⟨"node.nid", .compare .lt, .int 9⟩)

/-- Articles without a tag whose author is in a range; the range has no end. -/
def endlessRange : FilterTree :=
  ((FilterTree.all.addPredicate (.isNull "tags")).addPredicate
    (.make "author" .ne (.int 4))).addPredicate (.make "author" .between (.list [.int 3]))

/-- The filter, put into the statement of the caller as far as it goes. -/
def endlessOfGrouped : Compiled :=
  Compiler.compile ⟨authoredArticles.resolver, .entity, {}⟩ endlessRange groupedArticles false

theorem reachable_groupedArticles : groupedArticles.Reachable :=
  Query.stable_reachable.pushCondition _ _ _
    (Query.stable_reachable.openGroup _ _ _ reachable_taggedArticles (by decide)) (by decide) rfl

/-- The compile fails at the range.  By then a join of the caller is wider and another one is there,
for the refused predicate as well, and so is a group with two clauses. -/
theorem Restriction.extends_only_endlessRange :
    groupedArticles.Reachable ∧
    endlessOfGrouped.outcome = .error (.invalidOperand "author" .between) ∧
    endlessOfGrouped.query.joins.joins =
      [⟨.left, "node__tags", "node__tags", "node.nid", "entity_id"⟩,
        ⟨.inner, "node__author", "node__author", "node.nid", "entity_id"⟩] ∧
    endlessOfGrouped.query.conditions.groups =
      [⟨.and, [.clause ⟨"node.nid", .compare .ne, .int 3⟩, .group ⟨1⟩, .group ⟨2⟩]⟩,
        ⟨.or, [.clause ⟨"node.nid", .compare .lt, .int 9⟩]⟩,
        ⟨.and, [.clause ⟨"node__tags.tags_value", .compare .isNull, .null⟩,
          .clause ⟨"node__author.author_id", .compare .ne, .int 4⟩]⟩] ∧
    groupedArticles.Extension endlessOfGrouped.query ∧
    (Restriction.ofAnswer ⟨authoredArticles.resolver, .entity, {}⟩ {} groupedArticles rendered
      (.ok endlessRange)).1.cache = rendered := by
  have failed : endlessOfGrouped.outcome = .error (.invalidOperand "author" .between) := rfl
  obtain ⟨compiles, restricts⟩ :=
    extends_only (m := StateM (List LogRecord)) reachable_groupedArticles
  obtain ⟨extended, -⟩ := compiles ⟨authoredArticles.resolver, .entity, {}⟩ endlessRange false
  obtain ⟨-, -, -, answers⟩ := restricts ⟨.named "node", Registry.bus .empty, none, none⟩
    ⟨authoredArticles.resolver, .entity, {}⟩ {} rendered
  obtain ⟨-, kept⟩ := answers (.ok endlessRange)
  exact ⟨reachable_groupedArticles, failed, rfl, rfl, extended, kept _ rfl⟩

end RowAccess
