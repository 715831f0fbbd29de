import RowAccess.Filter.Tree

/-!
# Filters with other operands

The operands of a filter can be exchanged without a change to anything else: the fields, the
operators, the way children are joined and the dependencies stay.  Building a filter and
exchanging operands can be done in either order, so two filters that are built alike from
different operands are related by an exchange.

Main results:

- `FilterTree.cacheability_mapValues`: an exchange leaves the dependencies as they are.
- `FilterTree.mapValues_add`: an addition simplifies the same way before and after.
- `FilterTree.mapValues_eq_self_iff`: an exchange that moves no operand changes nothing.
-/

namespace RowAccess

/-! ## Exchanging operands -/

/-- The predicate with another operand; a null check stays without one. -/
def Predicate.mapValue (f : Value → Value) (p : Predicate) : Predicate :=
  make p.field p.op (f p.value)

mutual

/-- The tree with other operands. -/
def FilterTree.mapValues (f : Value → Value) : FilterTree → FilterTree
  | ⟨conjunction, children, never, cache⟩ =>
    ⟨conjunction, FilterNode.mapValuesAll f children, never, cache⟩

/-- The child with other operands. -/
def FilterNode.mapValues (f : Value → Value) : FilterNode → FilterNode
  | .leaf p => .leaf (p.mapValue f)
  | .tree t => .tree (t.mapValues f)

/-- Several children with other operands. -/
def FilterNode.mapValuesAll (f : Value → Value) : List FilterNode → List FilterNode
  | [] => []
  | n :: ns => n.mapValues f :: FilterNode.mapValuesAll f ns

end

section Exchange

variable (f : Value → Value)

@[simp] theorem Predicate.field_mapValue (p : Predicate) : (p.mapValue f).field = p.field :=
  make_field _ _ _

@[simp] theorem Predicate.op_mapValue (p : Predicate) : (p.mapValue f).op = p.op :=
  make_op _ _ _

theorem Predicate.value_mapValue {p : Predicate} (h : p.op.isNullCheck = false) :
    (p.mapValue f).value = f p.value :=
  make_of_not_isNullCheck h

theorem FilterNode.mapValuesAll_eq_map (ns : List FilterNode) :
    mapValuesAll f ns = ns.map (mapValues f) := by
  induction ns with
  | nil => rfl
  | cons n ns ih => rw [mapValuesAll, ih, List.map_cons]

@[simp] theorem FilterTree.conjunction_mapValues (t : FilterTree) :
    (t.mapValues f).conjunction = t.conjunction := by
  cases t; rfl

@[simp] theorem FilterTree.alwaysFalse_mapValues (t : FilterTree) :
    (t.mapValues f).alwaysFalse = t.alwaysFalse := by
  cases t; rfl

@[simp] theorem FilterTree.children_mapValues (t : FilterTree) :
    (t.mapValues f).children = t.children.map (FilterNode.mapValues f) := by
  cases t
  exact FilterNode.mapValuesAll_eq_map f _

@[simp] theorem FilterTree.isEmpty_mapValues (t : FilterTree) :
    (t.mapValues f).isEmpty = t.isEmpty := by
  simp [isEmpty]

/-! ## What an exchange leaves alone -/

mutual

/-- An exchange leaves the dependencies of a tree as they are. -/
theorem FilterTree.cacheability_mapValues :
    (t : FilterTree) → (t.mapValues f).cacheability = t.cacheability
  | ⟨conjunction, children, never, cache⟩ => by
    rw [FilterTree.mapValues, FilterTree.cacheability, FilterTree.cacheability,
      FilterNode.cacheabilityAll_mapValuesAll children]

/-- An exchange leaves the dependencies of a child as they are. -/
theorem FilterNode.cacheability_mapValues :
    (n : FilterNode) → (n.mapValues f).cacheability = n.cacheability
  | .leaf _ => rfl
  | .tree t => FilterTree.cacheability_mapValues t

/-- An exchange leaves the dependencies of several children as they are. -/
theorem FilterNode.cacheabilityAll_mapValuesAll :
    (ns : List FilterNode) →
      FilterNode.cacheabilityAll (FilterNode.mapValuesAll f ns) = FilterNode.cacheabilityAll ns
  | [] => rfl
  | n :: ns => by
    rw [FilterNode.mapValuesAll, FilterNode.cacheabilityAll, FilterNode.cacheabilityAll,
      FilterNode.cacheability_mapValues n, FilterNode.cacheabilityAll_mapValuesAll ns]

end

/-! ## Building -/

@[simp] theorem FilterTree.mapValues_addContexts (t : FilterTree) (names : List String) :
    (t.addContexts names).mapValues f = (t.mapValues f).addContexts names := by
  cases t; rfl

/-- An addition simplifies the same way before and after an exchange. -/
@[simp] theorem FilterTree.mapValues_add (t : FilterTree) (n : FilterNode) :
    (t.add n).mapValues f = (t.mapValues f).add (n.mapValues f) := by
  rcases t with ⟨conjunction, children, never, cache⟩
  cases n with
  | leaf p => simp [add, mapValues, FilterNode.mapValues, FilterNode.mapValuesAll_eq_map]
  | tree u =>
    -- What becomes of the tree depends on its mark and on how many children it has.
    rcases u with ⟨conjunction', _ | ⟨a, _ | ⟨b, rest⟩⟩, never', cache'⟩ <;> cases never' <;>
      simp [add, addTree, mapValues, FilterNode.mapValues, FilterNode.mapValuesAll_eq_map]

@[simp] theorem FilterTree.mapValues_addPredicate (t : FilterTree) (p : Predicate) :
    (t.addPredicate p).mapValues f = (t.mapValues f).addPredicate (p.mapValue f) :=
  t.mapValues_add f (.leaf p)

end Exchange

/-! ## The contexts of a filter -/

theorem FilterTree.mem_contexts_addContexts (name : String) (t : FilterTree) (names : List String) :
    name ∈ (t.addContexts names).cacheability.contexts ↔
      name ∈ names ∨ name ∈ t.cacheability.contexts := by
  rcases t with ⟨conjunction, children, never, cache⟩
  simp only [addContexts, cacheability, Cacheability.mem_contexts_merge,
    Cacheability.addContexts, NameSet.mem_insertAll]
  rw [or_comm (a := name ∈ cache.contexts), or_assoc]

theorem FilterTree.mem_contexts_addPredicate (name : String) (t : FilterTree) (p : Predicate) :
    name ∈ (t.addPredicate p).cacheability.contexts ↔ name ∈ t.cacheability.contexts := by
  rw [addPredicate, cacheability_add, FilterNode.cacheability,
    Cacheability.merge_empty]

theorem FilterTree.mem_contexts_addTree (name : String) (t u : FilterTree) :
    name ∈ (t.add (.tree u)).cacheability.contexts ↔
      name ∈ t.cacheability.contexts ∨ name ∈ u.cacheability.contexts := by
  rw [cacheability_add, FilterNode.cacheability, Cacheability.mem_contexts_merge]

/-! ## The predicates of a filter -/

mutual

/-- Every predicate of a tree from left to right. -/
def FilterTree.predicates : FilterTree → List Predicate
  | ⟨_, children, _, _⟩ => FilterNode.predicatesAll children

/-- Every predicate of a child. -/
def FilterNode.predicates : FilterNode → List Predicate
  | .leaf p => [p]
  | .tree t => t.predicates

/-- Every predicate of several children. -/
def FilterNode.predicatesAll : List FilterNode → List Predicate
  | [] => []
  | n :: ns => n.predicates ++ FilterNode.predicatesAll ns

end

theorem FilterNode.predicatesAll_eq_flatMap (ns : List FilterNode) :
    predicatesAll ns = ns.flatMap predicates := by
  induction ns with
  | nil => rfl
  | cons n ns ih => rw [predicatesAll, ih, List.flatMap_cons]

theorem FilterTree.predicates_eq (t : FilterTree) :
    t.predicates = t.children.flatMap FilterNode.predicates := by
  cases t
  exact FilterNode.predicatesAll_eq_flatMap _

@[simp] theorem FilterTree.predicates_addContexts (t : FilterTree) (names : List String) :
    (t.addContexts names).predicates = t.predicates := by
  cases t; rfl

/-- An addition neither loses nor reorders predicates. -/
@[simp] theorem FilterTree.predicates_add (t : FilterTree) (n : FilterNode) :
    (t.add n).predicates = t.predicates ++ n.predicates := by
  have contributed : n.contribution.flatMap FilterNode.predicates = n.predicates := by
    cases n with
    | leaf p => simp [FilterNode.contribution]
    | tree u =>
      rw [FilterNode.contribution]
      split
      next => simp
      next => rw [FilterNode.predicates, predicates_eq]
  rw [predicates_eq, children_add, List.flatMap_append, contributed, predicates_eq]

@[simp] theorem FilterTree.predicates_addPredicate (t : FilterTree) (p : Predicate) :
    (t.addPredicate p).predicates = t.predicates ++ [p] :=
  t.predicates_add (.leaf p)

section Fixed

variable {f : Value → Value}

mutual

/-- An exchange changes a tree unless it leaves every predicate of it alone. -/
theorem FilterTree.mapValues_eq_self_iff :
    (t : FilterTree) → t.mapValues f = t ↔ ∀ p ∈ t.predicates, p.mapValue f = p
  | ⟨conjunction, children, never, cache⟩ => by
    rw [FilterTree.mapValues, FilterTree.predicates,
      ← FilterNode.mapValuesAll_eq_self_iff children]
    simp

/-- An exchange changes a child unless it leaves every predicate of it alone. -/
theorem FilterNode.mapValues_eq_self_iff :
    (n : FilterNode) → n.mapValues f = n ↔ ∀ p ∈ n.predicates, p.mapValue f = p
  | .leaf p => by simp [FilterNode.mapValues, FilterNode.predicates]
  | .tree t => by
    rw [FilterNode.mapValues, FilterNode.predicates, ← FilterTree.mapValues_eq_self_iff t]
    simp

/-- An exchange changes several children unless it leaves every predicate of them alone. -/
theorem FilterNode.mapValuesAll_eq_self_iff :
    (ns : List FilterNode) →
      (FilterNode.mapValuesAll f ns = ns ↔
        ∀ p ∈ FilterNode.predicatesAll ns, p.mapValue f = p)
  | [] => by simp [FilterNode.mapValuesAll, FilterNode.predicatesAll]
  | n :: ns => by
    rw [FilterNode.mapValuesAll, FilterNode.predicatesAll, List.cons.injEq,
      FilterNode.mapValues_eq_self_iff n, FilterNode.mapValuesAll_eq_self_iff ns,
      List.forall_mem_append]

end

end Fixed

end RowAccess
