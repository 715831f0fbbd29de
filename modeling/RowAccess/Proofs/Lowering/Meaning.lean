import Mathlib.Data.List.Forall2
import RowAccess.Proofs.Filter.Shape
import RowAccess.Proofs.Sql.Valuation

/-!
# What a filter becomes in a statement

A filter tree becomes conditions by a recursion over the tree: a predicate becomes the
clauses that stand for it, a tree that admits nothing becomes the false condition, and every
other tree becomes the conjunction of what its children become.  The relation here says so
without mention of groups, joins or the order of work, and it is what a compile is shown to
do.

If every predicate becomes one clause, the conditions are worth what the tree is worth when
each predicate is worth its clause.

Main results:

- `FilterNode.Lowers.clauses`: the clauses are those of the predicates that count, in order.
- `FilterNode.Lowers.value_eq`: below the root, a child becomes one condition of its worth.
- `FilterTree.value_of_lowers`: a whole tree becomes conditions of its worth.
-/

namespace RowAccess

open Sql

/-! ## Becoming conditions -/

section Relation

variable (R : Predicate → List Clause → Prop)

mutual

/-- Which conditions a child becomes, if `R` says which clauses stand for a predicate. -/
inductive FilterNode.Lowers : FilterNode → List WhereExpr → Prop where
  | leaf {p : Predicate} {clauses : List Clause} (h : R p clauses) :
      Lowers (.leaf p) (clauses.map .clause)
  | never {t : FilterTree} (h : t.alwaysFalse = true) :
      Lowers (.tree t) [.expression Sql.alwaysFalse]
  | tree {t : FilterTree} {es : List WhereExpr} (h : t.alwaysFalse = false)
      (hs : LowersAll t.children es) :
      Lowers (.tree t) (WhereExpr.join t.conjunction es).toList

/-- Which conditions several children become. -/
inductive FilterNode.LowersAll : List FilterNode → List WhereExpr → Prop where
  | nil : LowersAll [] []
  | cons {n : FilterNode} {ns : List FilterNode} {es fs : List WhereExpr}
      (h : n.Lowers es) (hs : LowersAll ns fs) : LowersAll (n :: ns) (es ++ fs)

end

end Relation

mutual

/-- A weaker account of the clauses gives a weaker account of the conditions. -/
theorem FilterNode.Lowers.mono {R R' : Predicate → List Clause → Prop}
    (weaker : ∀ p clauses, R p clauses → R' p clauses) {n : FilterNode} {es : List WhereExpr} :
    n.Lowers R es → n.Lowers R' es
  | .leaf h => .leaf (weaker _ _ h)
  | .never h => .never h
  | .tree h hs => .tree h (FilterNode.LowersAll.mono weaker hs)

/-- A weaker account of the clauses gives a weaker account of the conditions. -/
theorem FilterNode.LowersAll.mono {R R' : Predicate → List Clause → Prop}
    (weaker : ∀ p clauses, R p clauses → R' p clauses) {ns : List FilterNode}
    {es : List WhereExpr} : FilterNode.LowersAll R ns es → FilterNode.LowersAll R' ns es
  | .nil => .nil
  | .cons h hs => .cons (h.mono weaker) (hs.mono weaker)

end

/-! ## The worth of a tree -/

section Worth

variable {α : Type*} [Lattice α] [BoundedOrder α]

mutual

/-- What a tree is worth, if its predicates that count are worth the given values from left
to right. -/
def FilterTree.value (worths : List α) : FilterTree → α
  | ⟨conjunction, children, never, _⟩ =>
    if never then ⊥
    else if children.isEmpty then ⊤
    else conjunction.fold (FilterNode.values worths children)

/-- What a child is worth. -/
def FilterNode.value (worths : List α) : FilterNode → α
  | .leaf _ => worths.headD ⊥
  | .tree t => t.value worths

/-- What each of several children is worth; each takes the values of its own predicates. -/
def FilterNode.values (worths : List α) : List FilterNode → List α
  | [] => []
  | n :: ns =>
    n.value (worths.take n.livePredicates.length) ::
      FilterNode.values (worths.drop n.livePredicates.length) ns

end

/-- A tree that admits nothing is false. -/
theorem FilterTree.value_of_alwaysFalse {t : FilterTree} (h : t.alwaysFalse = true)
    (worths : List α) : t.value worths = ⊥ := by
  rcases t with ⟨conjunction, children, never, cache⟩
  rw [value, if_pos h]

/-- A tree without children is true, unless it admits nothing. -/
theorem FilterTree.value_of_nil {t : FilterTree} (h : t.alwaysFalse = false)
    (hc : t.children = []) (worths : List α) : t.value worths = ⊤ := by
  rcases t with ⟨conjunction, children, never, cache⟩
  obtain rfl : never = false := h
  obtain rfl : children = [] := hc
  rfl

/-- Any other tree is worth what its children are worth together. -/
theorem FilterTree.value_of_children {t : FilterTree} (h : t.alwaysFalse = false)
    (hc : t.children ≠ []) (worths : List α) :
    t.value worths = t.conjunction.fold (FilterNode.values worths t.children) := by
  rcases t with ⟨conjunction, children, never, cache⟩
  obtain rfl : never = false := h
  have nonempty : children.isEmpty = false := by simpa using hc
  rw [value, nonempty]
  rfl

end Worth

/-! ## Clauses of predicates -/

section Clauses

variable {R : Predicate → List Clause → Prop}

mutual

/-- The clauses of a child are those of its predicates that count, from left to right. -/
theorem FilterNode.Lowers.clauses {n : FilterNode} {es : List WhereExpr} :
    n.Lowers R es → ∃ emitted, List.Forall₂ R n.livePredicates emitted ∧
      es.flatMap WhereExpr.clauses = emitted.flatten
  | @FilterNode.Lowers.leaf _ p clauses h => by
    refine ⟨[clauses], .cons h .nil, ?_⟩
    rw [List.flatten_singleton, List.flatMap_map]
    exact List.flatMap_singleton' clauses
  | .never h => by
    rw [FilterNode.livePredicates, FilterTree.livePredicates_of_alwaysFalse h]
    exact ⟨[], .nil, rfl⟩
  | .tree h hs => by
    rw [FilterNode.livePredicates, FilterTree.livePredicates_of_not_alwaysFalse h,
      WhereExpr.flatMap_clauses_join]
    exact FilterNode.LowersAll.clauses hs

/-- The clauses of several children are those of their predicates that count. -/
theorem FilterNode.LowersAll.clauses {ns : List FilterNode} {es : List WhereExpr} :
    FilterNode.LowersAll R ns es →
      ∃ emitted, List.Forall₂ R (FilterNode.livePredicatesAll ns) emitted ∧
        es.flatMap WhereExpr.clauses = emitted.flatten
  | .nil => ⟨[], .nil, rfl⟩
  | .cons h hs => by
    rcases FilterNode.Lowers.clauses h with ⟨xs, first, hxs⟩
    rcases FilterNode.LowersAll.clauses hs with ⟨ys, rest, hys⟩
    refine ⟨xs ++ ys, List.rel_append first rest, ?_⟩
    rw [List.flatMap_append, hxs, hys, List.flatten_append]

end

end Clauses

/-! ## Conditions of the same worth -/

/-- Every predicate becomes exactly one clause. -/
def OneClauseEach (R : Predicate → List Clause → Prop) : Prop :=
  ∀ p clauses, R p clauses → ∃ c, clauses = [c]

section Single

variable {R : Predicate → List Clause → Prop}

/-- If every predicate becomes one clause, the clauses stand for the predicates one by one. -/
theorem OneClauseEach.forall₂ (single : OneClauseEach R) {ps : List Predicate}
    {emitted : List (List Clause)} (h : List.Forall₂ R ps emitted) :
    List.Forall₂ (fun p c => R p [c]) ps emitted.flatten := by
  induction h with
  | nil => exact .nil
  | cons first rest ih =>
    rcases single _ _ first with ⟨c, rfl⟩
    exact .cons first ih

/-- If every predicate becomes one clause, those of a child stand for its predicates that
count, one by one. -/
theorem FilterNode.Lowers.forall₂_clauses (single : OneClauseEach R) {n : FilterNode}
    {es : List WhereExpr} (h : n.Lowers R es) :
    List.Forall₂ (fun p c => R p [c]) n.livePredicates (es.flatMap WhereExpr.clauses) := by
  rcases h.clauses with ⟨emitted, hemitted, flat⟩
  rw [flat]
  exact single.forall₂ hemitted

variable {α : Type*} [Lattice α] [BoundedOrder α]

mutual

/-- In normal form a child becomes one condition, and that is worth what the child is. -/
theorem FilterNode.Lowers.value_eq (single : OneClauseEach R) {ρ : Assignment α}
    (hρ : ρ.expression Sql.alwaysFalse = ⊥) {n : FilterNode} {es : List WhereExpr} :
    n.Lowers R es → n.Normal →
      ∃ e, es = [e] ∧ e.value ρ = n.value ((e.clauses).map ρ.clause)
  | .leaf h, _ => by
    rcases single _ _ h with ⟨c, rfl⟩
    exact ⟨.clause c, rfl, rfl⟩
  | .never h, _ => by
    refine ⟨.expression Sql.alwaysFalse, rfl, ?_⟩
    rw [FilterNode.value, FilterTree.value_of_alwaysFalse h]
    exact hρ
  | @FilterNode.Lowers.tree _ t inner h hs, .tree several below => by
    -- With two children or more, what they become is joined by a group of its own.
    rcases FilterNode.LowersAll.values_eq single hρ hs below with ⟨long, values⟩
    have two : 2 ≤ t.children.length := by
      rcases several with never | two
      · rw [h] at never
        cases never
      · exact two
    have nonempty : t.children ≠ [] := by
      intro hc
      rw [hc] at two
      exact absurd two (by decide)
    rw [← long] at two
    rcases inner with _ | ⟨first, _ | ⟨second, rest⟩⟩
    · exact absurd two (by decide)
    · exact absurd two (Nat.lt_irrefl 1)
    · refine ⟨.joined t.conjunction (first :: second :: rest), rfl, ?_⟩
      rw [WhereExpr.value, WhereExpr.valueAll_eq_map, WhereExpr.clauses,
        WhereExpr.clausesAll_eq_flatMap, FilterNode.value,
        FilterTree.value_of_children h nonempty, values]

/-- In normal form every one of several children becomes one condition of its worth. -/
theorem FilterNode.LowersAll.values_eq (single : OneClauseEach R) {ρ : Assignment α}
    (hρ : ρ.expression Sql.alwaysFalse = ⊥) {ns : List FilterNode} {es : List WhereExpr} :
    FilterNode.LowersAll R ns es → (∀ n ∈ ns, n.Normal) →
      es.length = ns.length ∧
        es.map (WhereExpr.value ρ) =
          FilterNode.values ((es.flatMap WhereExpr.clauses).map ρ.clause) ns
  | .nil, _ => ⟨rfl, rfl⟩
  | @FilterNode.LowersAll.cons _ n ns _ fs h hs, hn => by
    have own := h.forall₂_clauses single
    rcases FilterNode.Lowers.value_eq single hρ h (hn n List.mem_cons_self) with ⟨e, rfl, worth⟩
    obtain ⟨long, values⟩ := FilterNode.LowersAll.values_eq single hρ hs
      fun m hm => hn m (List.mem_cons_of_mem _ hm)
    rw [List.flatMap_singleton] at own
    have count : n.livePredicates.length = (e.clauses.map ρ.clause).length := by
      rw [own.length_eq, List.length_map]
    refine ⟨by rw [List.singleton_append, List.length_cons, long, List.length_cons], ?_⟩
    rw [List.singleton_append, List.map_cons, List.flatMap_cons, List.map_append,
      FilterNode.values, count, List.take_left, List.drop_left, worth, values]

end

/-- A whole tree in normal form becomes conditions that together are worth what the tree
is. -/
theorem FilterTree.value_of_lowers (single : OneClauseEach R) {ρ : Assignment α}
    (hρ : ρ.expression Sql.alwaysFalse = ⊥) {t : FilterTree} (ht : t.Normal)
    {es : List WhereExpr} (h : (FilterNode.tree t).Lowers R es) :
    Conjunction.and.fold (es.map (WhereExpr.value ρ)) =
      t.value ((es.flatMap WhereExpr.clauses).map ρ.clause) := by
  cases h with
  | never h =>
    rw [List.map_singleton, Conjunction.fold_singleton, value_of_alwaysFalse h]
    exact hρ
  | @tree _ inner h hs =>
    rcases FilterNode.LowersAll.values_eq single hρ hs ht with ⟨long, values⟩
    rw [WhereExpr.flatMap_clauses_join]
    by_cases hc : t.children = []
    · rw [hc] at long
      obtain rfl := List.length_eq_zero_iff.1 long
      rw [value_of_nil h hc]
      rfl
    · have joined := WhereExpr.map_value_join ρ t.conjunction inner
      rcases inner with _ | ⟨first, rest⟩
      · exact absurd (List.length_eq_zero_iff.1 long.symm) hc
      · rw [List.map_cons, Conjunction.fold?] at joined
        rcases Option.map_eq_some_iff.1 joined with ⟨e, he, worth⟩
        rw [he, Option.toList_some, List.map_singleton, Conjunction.fold_singleton, worth,
          value_of_children h hc, ← values, List.map_cons]

end Single

end RowAccess
