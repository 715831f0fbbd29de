import RowAccess.Proofs.Filter.Shape

/-!
# Trees without some predicates

A tree is pruned by taking away predicates, and then the trees below it that have no children
left.  What is below a tree that admits nothing is not looked at, and such a tree stays.  The
trees that stay are not simplified any further.

Main results:

- `FilterTree.livePredicates_prune`: the predicates that count are those that are not taken
  away.
-/

namespace RowAccess

/-! ## Pruning -/

mutual

/-- A tree without the predicates that `drops` names and without the trees below it that
have no children left. -/
def FilterTree.prune (drops : Predicate → Bool) : FilterTree → FilterTree
  | ⟨conjunction, children, never, cache⟩ =>
    ⟨conjunction, if never then children else FilterNode.pruneAll drops children, never, cache⟩

/-- What is left of a child. -/
def FilterNode.prune (drops : Predicate → Bool) : FilterNode → List FilterNode
  | .leaf p => if drops p then [] else [.leaf p]
  | .tree t =>
    if t.alwaysFalse then [.tree t]
    else if (t.prune drops).isEmpty then []
    else [.tree (t.prune drops)]

/-- What is left of several children. -/
def FilterNode.pruneAll (drops : Predicate → Bool) : List FilterNode → List FilterNode
  | [] => []
  | n :: ns => n.prune drops ++ FilterNode.pruneAll drops ns

end

namespace FilterTree

variable (drops : Predicate → Bool)

@[simp] theorem conjunction_prune (t : FilterTree) :
    (t.prune drops).conjunction = t.conjunction := by
  cases t
  rw [prune]

@[simp] theorem alwaysFalse_prune (t : FilterTree) :
    (t.prune drops).alwaysFalse = t.alwaysFalse := by
  cases t
  rw [prune]

/-- A tree that admits nothing is not looked into. -/
theorem prune_of_alwaysFalse {t : FilterTree} (h : t.alwaysFalse = true) : t.prune drops = t := by
  rcases t with ⟨conjunction, children, never, cache⟩
  obtain rfl : never = true := h
  rw [prune, if_pos rfl]

/-- The children of any other tree are pruned. -/
theorem children_prune {t : FilterTree} (h : t.alwaysFalse = false) :
    (t.prune drops).children = FilterNode.pruneAll drops t.children := by
  rcases t with ⟨conjunction, children, never, cache⟩
  obtain rfl : never = false := h
  rw [prune, if_neg Bool.false_ne_true]

end FilterTree

/-! ## What is left -/

theorem FilterNode.livePredicatesAll_append (ns ms : List FilterNode) :
    livePredicatesAll (ns ++ ms) = livePredicatesAll ns ++ livePredicatesAll ms := by
  induction ns with
  | nil => rfl
  | cons n ns ih =>
    rw [List.cons_append, livePredicatesAll, ih, livePredicatesAll, List.append_assoc]

mutual

/-- The predicates that count are those that are not taken away. -/
theorem FilterTree.livePredicates_prune (drops : Predicate → Bool) :
    (t : FilterTree) → (t.prune drops).livePredicates = t.livePredicates.filter fun p => !drops p
  | ⟨conjunction, children, true, cache⟩ => by
    rw [FilterTree.prune_of_alwaysFalse drops rfl, FilterTree.livePredicates_of_alwaysFalse rfl,
      List.filter_nil]
  | ⟨conjunction, children, false, cache⟩ => by
    rw [FilterTree.livePredicates_of_not_alwaysFalse (FilterTree.alwaysFalse_prune drops _),
      FilterTree.livePredicates_of_not_alwaysFalse rfl, FilterTree.children_prune drops rfl]
    exact FilterNode.livePredicatesAll_pruneAll drops children

/-- So it is for a child. -/
theorem FilterNode.livePredicatesAll_prune (drops : Predicate → Bool) :
    (n : FilterNode) → FilterNode.livePredicatesAll (n.prune drops) =
      n.livePredicates.filter fun p => !drops p
  | .leaf p => by
    by_cases h : drops p = true
    · simp [h, FilterNode.prune, FilterNode.livePredicates, FilterNode.livePredicatesAll]
    · simp [h, FilterNode.prune, FilterNode.livePredicates, FilterNode.livePredicatesAll]
  | .tree t => by
    have below := FilterTree.livePredicates_prune drops t
    rw [FilterNode.prune, FilterNode.livePredicates, ← below]
    split
    next never =>
      rw [FilterTree.prune_of_alwaysFalse drops never, FilterNode.livePredicatesAll,
        FilterNode.livePredicatesAll, List.append_nil, FilterNode.livePredicates]
    next may =>
      have never : t.alwaysFalse = false := by simpa using may
      split
      next hempty =>
        have none : (t.prune drops).children = [] := List.isEmpty_iff.1 hempty
        rw [FilterTree.livePredicates_of_not_alwaysFalse
          ((FilterTree.alwaysFalse_prune drops t).trans never), none]
      next =>
        rw [FilterNode.livePredicatesAll, FilterNode.livePredicatesAll, List.append_nil,
          FilterNode.livePredicates]

/-- So it is for several children. -/
theorem FilterNode.livePredicatesAll_pruneAll (drops : Predicate → Bool) :
    (ns : List FilterNode) → FilterNode.livePredicatesAll (FilterNode.pruneAll drops ns) =
      (FilterNode.livePredicatesAll ns).filter fun p => !drops p
  | [] => rfl
  | n :: ns => by
    rw [FilterNode.pruneAll, FilterNode.livePredicatesAll_append,
      FilterNode.livePredicatesAll_prune drops n, FilterNode.livePredicatesAll_pruneAll drops ns,
      FilterNode.livePredicatesAll, List.filter_append]

end

end RowAccess
