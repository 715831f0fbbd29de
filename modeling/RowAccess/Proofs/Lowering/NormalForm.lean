import Mathlib
import RowAccess.Proofs.Filter.Dependencies
import RowAccess.Proofs.Grant.Steps
import RowAccess.Proofs.Lowering.Refinement
import RowAccess.Proofs.Lowering.Reporting

/-!
# Filters that restrict something

A tree that is added to another is simplified, so that no tree below another is a mere wrapper.
Where filters come from makes no difference: what the permissions of an account come to is made by
the same operations, and so is what subscribers put in its place.

That is what makes it safe to take a compile that added nothing for a filter without a restriction.
If there were trees without children below others, a filter could be restricted to nothing at all
and still add no condition.

What holds of the answer of a subscriber, in whatever monad it runs, is said by `SatisfiesM`, which
comes with the whole library only.

Main results:

- `FilterTree.Normal.of_above`: below a tree in normal form there are no wrappers at any depth.
- `AccessHandler.built_conditions`: what a handler answers is made by the operations.
- `Compiler.restricts_compile`: a filter in normal form with a child adds a condition.
- `normalForm_restricts`: all of this together.
-/

namespace RowAccess

open Sql

/-! ## Trees below a tree -/

namespace FilterTree

/-- A tree is among the children of another. -/
def HasChild (t u : FilterTree) : Prop := .tree u ∈ t.children

/-- A tree is below another, at any depth. -/
def Above : FilterTree → FilterTree → Prop := Relation.TransGen HasChild

/-- Below a tree in normal form a tree admits nothing or has several children, and is in normal
form. -/
theorem Normal.of_above {t u : FilterTree} (ht : t.Normal) (h : t.Above u) :
    (u.alwaysFalse = true ∨ 2 ≤ u.children.length) ∧ u.Normal := by
  induction h with
  | single hu =>
    cases ht _ hu with
    | tree several below => exact ⟨several, below⟩
  | tail _ hu ih =>
    cases ih.2 _ hu with
    | tree several below => exact ⟨several, below⟩

end FilterTree

/-! ## Where filters come from -/

/-- What the permissions of an account come to is made by the operations. -/
theorem Grant.keptByFilters_built (account : Account) :
    KeptByFilters account FilterTree.Built where
  unrestricted := .contexts (.empty .or) _
  admitOwn := fun _ _ ht => .addLeaf (.contexts ht _) _
  inBundles := fun _ _ _ ht => .addLeaf ht _
  ownInBundles := fun _ _ _ _ ht =>
    .addTree ht (.contexts (.addLeaf (.addLeaf (.empty .and) _) _) _)
  denied := .mark (.contexts (.empty .or) _) true
  publishedOnly := fun _ _ ht => .addLeaf (.addTree (.contexts (.empty .and) _) ht) _
  ownUnpublished := fun _ _ => .addLeaf (.addLeaf (.contexts (.empty .and) _) _) _
  either := fun _ _ ht hu => .addTree (.addTree (.empty .or) ht) hu

/-- What a handler starts from is made by the operations. -/
theorem AccessHandler.built_initialTree {m : Type → Type} {h : AccessHandler m}
    {operation : String} {account : Account} {tree : FilterTree} {records : List LogRecord}
    (initial : h.initialTree operation account = .ok (tree, records)) : tree.Built := by
  rw [initialTree] at initial
  cases hmode : h.mode with
  | none =>
    simp only [hmode] at initial
    obtain rfl := (Prod.mk.inj (Except.ok.inj initial)).1
    exact .empty .and
  | some mode =>
    cases decided : Grant.decide mode operation h.contentType account with
    | error e =>
      simp only [hmode, decided] at initial
      cases initial
    | ok decision =>
      simp only [hmode, decided] at initial
      obtain rfl := (Prod.mk.inj (Except.ok.inj initial)).1
      have filtered : Grant.filter mode operation h.contentType account = .ok decision.tree := by
        rw [Grant.filter, decided]
        rfl
      exact (Grant.keptByFilters_built account).of_filter filtered

section Events

variable {m : Type → Type} [Monad m]

/-- A tree that is announced is answered by a tree that the operations make. -/
def EventBus.KeepsBuilt (bus : EventBus m) : Prop :=
  ∀ channel request t, t.Built → SatisfiesM FilterTree.Built (bus.dispatch channel request t)

variable [LawfulMonad m] [Journal m]

/-- Subscribers that use the operations only make such a tree of it. -/
theorem Registry.keepsBuilt_bus {r : Registry m}
    (kept : ∀ channel, ∀ subscriber ∈ r.subscribersOf channel, ∀ request t, t.Built →
      SatisfiesM FilterTree.Built (subscriber request t)) : r.bus.KeepsBuilt := by
  intro channel request t ht
  have answered : SatisfiesM FilterTree.Built (r.dispatch channel request t) := by
    rw [dispatch]
    split
    next => exact .pure ht
    next =>
      refine .bind .trivial fun _ _ => ?_
      exact List.satisfiesM_foldlM ht fun u hu subscriber hsub =>
        kept channel subscriber hsub request u hu
  exact answered

/-- What a handler answers is made by the operations. -/
theorem AccessHandler.built_conditions {h : AccessHandler m} (kept : h.bus.KeepsBuilt)
    (operation : String) (account : Option Account) :
    SatisfiesM (fun answer => ∀ t, answer = .ok t → t.Built) (h.conditions operation account) := by
  rw [conditions]
  split
  next => exact .pure nofun
  next tree records initial =>
    have built := built_initialTree initial
    refine .bind .trivial fun _ _ => .bind (p := FilterTree.Built) ?_ fun t ht => .pure ?_
    · rw [EventBus.announce]
      exact .bind (kept _ _ tree built) fun u hu => kept _ _ u hu
    · intro u hu
      obtain rfl := Except.ok.inj hu
      exact ht

end Events

/-! ## What a filter adds -/

section Leaves

variable {R : Predicate → List Clause → Prop}

mutual

/-- If no predicate is left out, a child in normal form becomes some conditions. -/
theorem FilterNode.Lowers.leaves_ne_nil (single : OneClauseEach R) {n : FilterNode}
    {es : List WhereExpr} : n.Lowers R es → n.Normal → es.flatMap WhereExpr.leaves ≠ []
  | .leaf h, _ => by
    obtain ⟨c, rfl⟩ := single _ _ h
    exact List.cons_ne_nil _ _
  | .never h, _ => List.cons_ne_nil _ _
  | .tree h hs, .tree several below => by
    rw [WhereExpr.flatMap_leaves_join]
    refine FilterNode.LowersAll.leaves_ne_nil single hs ?_ below
    rintro nothing
    rw [h, nothing] at several
    exact absurd several (by decide)

/-- So do several children of which the first is in normal form. -/
theorem FilterNode.LowersAll.leaves_ne_nil (single : OneClauseEach R) {ns : List FilterNode}
    {es : List WhereExpr} : FilterNode.LowersAll R ns es → ns ≠ [] → (∀ n ∈ ns, n.Normal) →
      es.flatMap WhereExpr.leaves ≠ []
  | .nil, nonempty, _ => absurd rfl nonempty
  | .cons h _, _, normal => by
    rw [List.flatMap_append]
    exact List.append_ne_nil_of_left_ne_nil
      (FilterNode.Lowers.leaves_ne_nil single h (normal _ List.mem_cons_self)) _

end

/-- A filter in normal form that admits nothing or has children becomes some conditions. -/
theorem FilterTree.leaves_ne_nil (single : OneClauseEach R) {t : FilterTree} (ht : t.Normal)
    (restricts : t.alwaysFalse = true ∨ t.children ≠ []) {es : List WhereExpr}
    (h : (FilterNode.tree t).Lowers R es) : es.flatMap WhereExpr.leaves ≠ [] := by
  cases h with
  | never never => exact List.cons_ne_nil _ _
  | tree may hs =>
    have nonempty : t.children ≠ [] := restricts.resolve_left (by simp [may])
    rw [WhereExpr.flatMap_leaves_join]
    exact hs.leaves_ne_nil single nonempty ht

end Leaves

namespace Compiler

/-- A filter in normal form that admits nothing or has children adds conditions, as many as are
reported. -/
theorem restricts_compile {c : Compiler} {t : FilterTree} {q : Query} {revisionScoped : Bool}
    {report : CompileReport} (hc : c.backend = .entity) (ht : t.Normal) (hq : q.Reachable)
    (restricts : t.alwaysFalse = true ∨ t.children ≠ [])
    (hok : (c.compile t q revisionScoped).outcome = .ok report) :
    ∃ added, (c.compile t q revisionScoped).query.conditions.conditionsAt 0 =
        q.conditions.conditionsAt 0 ++ added ∧
      added ≠ [] ∧ report.clauses = added.length ∧ report.isUnrestricted = false := by
  obtain ⟨anchor, -, items, grown, lowered⟩ := compile_ok hq.nested hok
  have hq' := c.compile_reachable t hq revisionScoped
  have nonempty :=
    FilterTree.leaves_ne_nil (LookupScope.Emits.oneClauseEach hc _) ht restricts lowered
  have behind := grown.conditionsAt_eq hq.nested hq'.nested
  have counted := (accounted_compile hq.root_mem hok).clauses
  have lengths := congrArg List.length behind
  rw [List.length_append, hq'.tree.conditionsAt_perm.length_eq,
    hq.tree.conditionsAt_perm.length_eq] at lengths
  have count : report.clauses =
      (((c.compile t q revisionScoped).query.conditions.parts items).flatMap
        WhereExpr.leaves).length := by
    omega
  have positive := List.length_pos_iff.2 nonempty
  refine ⟨_, behind, nonempty, count, ?_⟩
  rw [CompileReport.isUnrestricted, Bool.and_eq_false_iff]
  exact .inl (decide_eq_false (by omega))

end Compiler

/-- A tree that the operations make has no wrapper below it, at any depth, and so it is with what
permissions come to, with what subscribers make of a tree that is announced, and with what a handler
answers.  If such a tree admits nothing or has children, an entity compiler that succeeds adds
conditions for it, as many as it reports. -/
theorem normalForm_restricts {m : Type → Type} [Monad m] [LawfulMonad m] [Journal m] :
    (∀ t u : FilterTree, t.Built → t.Above u →
      u.alwaysFalse = true ∨ 2 ≤ u.children.length) ∧
    (∀ mode operation ty account t, Grant.filter mode operation ty account = .ok t → t.Built) ∧
    (∀ r : Registry m,
      (∀ channel, ∀ subscriber ∈ r.subscribersOf channel, ∀ request t, t.Built →
        SatisfiesM FilterTree.Built (subscriber request t)) → r.bus.KeepsBuilt) ∧
    (∀ (h : AccessHandler m) (operation : String) (account : Option Account), h.bus.KeepsBuilt →
      SatisfiesM (fun answer => ∀ t, answer = .ok t → t.Built) (h.conditions operation account)) ∧
    ∀ (c : Compiler) (t : FilterTree) (q : Query) (revisionScoped : Bool) (report : CompileReport),
      c.backend = .entity → t.Built → q.Reachable → t.alwaysFalse = true ∨ t.children ≠ [] →
      (c.compile t q revisionScoped).outcome = .ok report →
        ∃ added, (c.compile t q revisionScoped).query.conditions.conditionsAt 0 =
            q.conditions.conditionsAt 0 ++ added ∧
          added ≠ [] ∧ report.clauses = added.length ∧ report.isUnrestricted = false := by
  refine ⟨fun t u ht below => (ht.normal.of_above below).1, ?_, ?_, ?_, ?_⟩
  · intro mode operation ty account t filtered
    exact (Grant.keptByFilters_built account).of_filter filtered
  · intro r kept
    exact Registry.keepsBuilt_bus kept
  · intro h operation account kept
    exact AccessHandler.built_conditions kept operation account
  · intro c t q revisionScoped report hc ht hq restricts hok
    exact Compiler.restricts_compile hc ht.normal hq restricts hok

/-! ## Pages within pages -/

/-- Pages that are published or belong to the reader. -/
def readablePages : FilterTree :=
  (FilterTree.any.addPredicate (.equals "status" (.int 1))).addPredicate (.equals "uid" (.uint 7))

/-- The same tree, to which it was added itself, and marked as admitting nothing for a while. -/
def pagesWithinPages : FilterTree :=
  ((readablePages.markAlwaysFalse true).add (.tree readablePages)).markAlwaysFalse false

/-- A subscriber that puts the tree that is announced into a new one. -/
def wrapping : Registry (StateM (List LogRecord)) :=
  Registry.empty.subscribeAll fun _ t => pure (FilterTree.all.add (.tree t))

/-- The inner pages are no wrapper, and the whole adds four clauses. -/
theorem normalForm_restricts_pagesWithinPages :
    pagesWithinPages.Built ∧ pagesWithinPages.Above readablePages ∧
    (readablePages.alwaysFalse = true ∨ 2 ≤ readablePages.children.length) ∧
    wrapping.bus.KeepsBuilt ∧
    promotedArticles.Reachable ∧
    (Compiler.compile ⟨articleStorage, .entity, {}⟩ pagesWithinPages promotedArticles
      false).outcome = .ok ⟨4, [], [], false⟩ ∧
    ∃ added, (Compiler.compile ⟨articleStorage, .entity, {}⟩ pagesWithinPages promotedArticles
        false).query.conditions.conditionsAt 0 =
          promotedArticles.conditions.conditionsAt 0 ++ added ∧ added.length = 4 := by
  obtain ⟨below, -, subscribers, -, compiles⟩ :=
    normalForm_restricts (m := StateM (List LogRecord))
  have readable : readablePages.Built := .addLeaf (.addLeaf (.empty .or) _) _
  have built : pagesWithinPages.Built := .mark (.addTree (.mark readable true) readable) false
  have third : .tree readablePages ∈ pagesWithinPages.children :=
    List.mem_cons_of_mem _ (List.mem_cons_of_mem _ (List.mem_singleton_self _))
  have above : pagesWithinPages.Above readablePages := .single third
  have reachable : promotedArticles.Reachable :=
    Query.stable_reachable.pushCondition _ _ _ (.select "node") (by decide) rfl
  have done : (Compiler.compile ⟨articleStorage, .entity, {}⟩ pagesWithinPages promotedArticles
      false).outcome = .ok ⟨4, [], [], false⟩ := rfl
  have wrapped : wrapping.bus.KeepsBuilt := by
    refine subscribers wrapping fun channel subscriber hsub request t ht => ?_
    rw [wrapping, Registry.subscribeAll, Registry.subscribersOf_subscribe] at hsub
    split at hsub
    · obtain rfl := List.mem_singleton.1 hsub
      exact .pure (.addTree (.empty .and) ht)
    · cases hsub
  obtain ⟨added, behind, -, count, -⟩ :=
    compiles _ _ _ _ _ rfl built reachable (.inr (List.cons_ne_nil _ _)) done
  exact ⟨built, above, below _ _ built above, wrapped, reachable, done, added, behind, count.symm⟩

end RowAccess
