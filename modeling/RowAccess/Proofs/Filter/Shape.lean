import RowAccess.Filter.Tree

/-!
# The shape of filter trees

Filter trees are built by operations that simplify what is added.  The simplification goes
one level deep only, but it is applied at every addition, so no tree below another is ever a
mere wrapper: it admits nothing, or it joins at least two children.

Main results:

- `FilterTree.Built.normal`: every tree that the operations make is in this form.
- `FilterTree.livePredicates_of_alwaysFalse`: below a tree that admits nothing no
  predicate counts.
-/

namespace RowAccess

/-! ## How trees are built -/

/-- The trees that the operations of the library make, in any order, of any trees. -/
inductive FilterTree.Built : FilterTree → Prop where
  | empty (conjunction : Conjunction) : Built { conjunction := conjunction }
  | addLeaf {t : FilterTree} (ht : t.Built) (p : Predicate) : Built (t.add (.leaf p))
  | addTree {t u : FilterTree} (ht : t.Built) (hu : u.Built) : Built (t.add (.tree u))
  | mark {t : FilterTree} (ht : t.Built) (mark : Bool) : Built (t.markAlwaysFalse mark)
  | contexts {t : FilterTree} (ht : t.Built) (names : List String) : Built (t.addContexts names)
  | tags {t : FilterTree} (ht : t.Built) (names : List String) : Built (t.addTags names)
  | maxAge {t : FilterTree} (ht : t.Built) (age : MaxAge) : Built (t.mergeMaxAge age)
  /-- A tree that was read off the children of another. -/
  | child {t u : FilterTree} (ht : t.Built) (hu : .tree u ∈ t.children) : Built u

/-- A child that is no mere wrapper: a tree among the children admits nothing or has several
children, and so do the trees below it. -/
inductive FilterNode.Normal : FilterNode → Prop where
  | leaf (p : Predicate) : Normal (.leaf p)
  | tree {t : FilterTree} (several : t.alwaysFalse = true ∨ 2 ≤ t.children.length)
      (below : ∀ n ∈ t.children, n.Normal) : Normal (.tree t)

/-- A tree without mere wrappers below it. -/
def FilterTree.Normal (t : FilterTree) : Prop := ∀ n ∈ t.children, n.Normal

/-! ## The form is kept -/

/-- What a tree in normal form contributes to another is in normal form. -/
theorem FilterNode.normal_contribution {t : FilterTree} (ht : t.Normal) :
    ∀ n ∈ (FilterNode.tree t).contribution, n.Normal := by
  intro n hn
  rw [contribution] at hn
  split at hn
  next several =>
    obtain rfl := List.mem_singleton.1 hn
    have kept : t.alwaysFalse = true ∨ 2 ≤ t.children.length := by
      simpa using several
    exact .tree kept ht
  next => exact ht n hn

/-- Adding a node keeps the form if the node contributes nothing else. -/
theorem FilterTree.Normal.add {t : FilterTree} (ht : t.Normal) {n : FilterNode}
    (hn : ∀ m ∈ n.contribution, m.Normal) : (t.add n).Normal := by
  intro m hm
  rw [children_add] at hm
  rcases List.mem_append.1 hm with hm | hm
  · exact ht m hm
  · exact hn m hm

/-- Every tree that the operations make is in normal form. -/
theorem FilterTree.Built.normal {t : FilterTree} (h : t.Built) : t.Normal := by
  induction h with
  | empty conjunction =>
    intro n hn
    exact absurd hn List.not_mem_nil
  | addLeaf ht p ih =>
    refine ih.add fun m hm => ?_
    obtain rfl := List.mem_singleton.1 hm
    exact .leaf p
  | addTree ht hu iht ihu => exact iht.add (FilterNode.normal_contribution ihu)
  | mark ht mark ih => exact ih
  | contexts ht names ih => exact ih
  | tags ht names ih => exact ih
  | maxAge ht age ih => exact ih
  | child ht hu ih =>
    cases ih _ hu with
    | tree several below => exact below

/-! ## Predicates that count -/

mutual

/-- The predicates of a tree that are not below a tree that admits nothing, from left to
right. -/
def FilterTree.livePredicates : FilterTree → List Predicate
  | ⟨_, children, never, _⟩ => if never then [] else FilterNode.livePredicatesAll children

/-- The predicates of a child that count. -/
def FilterNode.livePredicates : FilterNode → List Predicate
  | .leaf p => [p]
  | .tree t => t.livePredicates

/-- The predicates of several children that count. -/
def FilterNode.livePredicatesAll : List FilterNode → List Predicate
  | [] => []
  | n :: ns => n.livePredicates ++ FilterNode.livePredicatesAll ns

end

theorem FilterTree.livePredicates_of_alwaysFalse {t : FilterTree} (h : t.alwaysFalse = true) :
    t.livePredicates = [] := by
  rcases t with ⟨conjunction, children, never, cache⟩
  rw [livePredicates, if_pos h]

theorem FilterTree.livePredicates_of_not_alwaysFalse {t : FilterTree}
    (h : t.alwaysFalse = false) :
    t.livePredicates = FilterNode.livePredicatesAll t.children := by
  rcases t with ⟨conjunction, children, never, cache⟩
  obtain rfl : never = false := h
  rfl

end RowAccess
