import RowAccess.Cacheability
import RowAccess.Filter.Predicate

/-!
# Filter trees

A filter is a tree of predicates joined by AND and OR.  A tree without children restricts
nothing, and a tree marked always-false admits nothing whatever its children are.  A tree
that is added to another is simplified first: without children it leaves only its
dependencies behind, and with one child it is replaced by that child.

Main results:

- `FilterTree.children_add`: the children after an addition.
- `FilterTree.cacheability_add`: an addition neither loses nor invents a dependency.
-/

namespace RowAccess

/-- How the children of a tree are joined. -/
inductive Conjunction where
  | and
  | or
  deriving DecidableEq

/-- The keyword of a conjunction. -/
def Conjunction.keyword : Conjunction → String
  | and => "AND"
  | or => "OR"

mutual

/-- A boolean combination of predicates, with the dependencies of the node itself. -/
structure FilterTree where
  /-- How the children are joined. -/
  conjunction : Conjunction := .and
  /-- The predicates and trees that are joined, in order. -/
  children : List FilterNode := []
  /-- Whether the tree admits nothing, whatever its children are. -/
  alwaysFalse : Bool := false
  /-- What this node depends on, apart from the trees below it. -/
  cache : Cacheability := ∅

/-- A child of a filter tree. -/
inductive FilterNode where
  | leaf (p : Predicate)
  | tree (t : FilterTree)

end

/-! ## Equality -/

mutual

/-- Decides whether two trees are equal, dependencies included. -/
def FilterTree.decEq : (a b : FilterTree) → Decidable (a = b)
  | ⟨conj, children, never, cache⟩, ⟨conj', children', never', cache'⟩ =>
    match FilterNode.decEqAll children children' with
    | isTrue h =>
      if h' : conj = conj' ∧ never = never' ∧ cache = cache' then
        isTrue (by obtain ⟨rfl, rfl, rfl⟩ := h'; subst h; rfl)
      else
        isFalse fun e => by
          injection e with e₁ _ e₃ e₄
          exact h' ⟨e₁, e₃, e₄⟩
    | isFalse h => isFalse fun e => h (FilterTree.mk.inj e).2.1

/-- Decides whether two children are equal. -/
def FilterNode.decEq : (a b : FilterNode) → Decidable (a = b)
  | .leaf p, .leaf q =>
    if h : p = q then isTrue (h ▸ rfl) else isFalse fun e => h (FilterNode.leaf.inj e)
  | .tree t, .tree u =>
    match FilterTree.decEq t u with
    | isTrue h => isTrue (h ▸ rfl)
    | isFalse h => isFalse fun e => h (FilterNode.tree.inj e)
  | .leaf _, .tree _ | .tree _, .leaf _ => isFalse nofun

/-- Decides whether two lists of children are equal. -/
def FilterNode.decEqAll : (as bs : List FilterNode) → Decidable (as = bs)
  | [], [] => isTrue rfl
  | [], _ :: _ | _ :: _, [] => isFalse nofun
  | a :: as, b :: bs =>
    match FilterNode.decEq a b, FilterNode.decEqAll as bs with
    | isTrue h, isTrue hs => isTrue (h ▸ hs ▸ rfl)
    | isFalse h, _ => isFalse fun e => h (List.cons.inj e).1
    | _, isFalse hs => isFalse fun e => hs (List.cons.inj e).2

end

instance : DecidableEq FilterTree := FilterTree.decEq
instance : DecidableEq FilterNode := FilterNode.decEq
instance : Inhabited FilterTree := ⟨{}⟩

/-! ## Dependencies -/

mutual

/-- What a tree depends on: its own dependencies and those of every tree below it. -/
def FilterTree.cacheability : FilterTree → Cacheability
  | ⟨_, children, _, cache⟩ => cache.merge (FilterNode.cacheabilityAll children)

/-- What a child depends on; a predicate depends on nothing. -/
def FilterNode.cacheability : FilterNode → Cacheability
  | .leaf _ => ∅
  | .tree t => t.cacheability

/-- What several children depend on together. -/
def FilterNode.cacheabilityAll : List FilterNode → Cacheability
  | [] => ∅
  | n :: ns => n.cacheability.merge (FilterNode.cacheabilityAll ns)

end

namespace FilterTree

/-! ## Operations -/

/-- The tree without children whose children will be joined by AND. -/
def all : FilterTree := { conjunction := .and }

/-- The tree without children whose children will be joined by OR. -/
def any : FilterTree := { conjunction := .or }

/-- Adds a tree.  One that restricts on its own or has several children is appended whole;
any other leaves its own dependencies behind, and its child if it has one. -/
def addTree (t u : FilterTree) : FilterTree :=
  if u.alwaysFalse then { t with children := t.children ++ [.tree u] }
  else
    match u.children with
    | [] => { t with cache := t.cache.merge u.cache }
    | [only] =>
      { t with children := t.children ++ [only], cache := t.cache.merge u.cache }
    | _ :: _ :: _ => { t with children := t.children ++ [.tree u] }

/-- Adds a predicate or a tree. -/
def add (t : FilterTree) : FilterNode → FilterTree
  | .leaf p => { t with children := t.children ++ [.leaf p] }
  | .tree u => t.addTree u

/-- Adds a predicate. -/
def addPredicate (t : FilterTree) (p : Predicate) : FilterTree := t.add (.leaf p)

/-- Sets or clears the mark that the tree admits nothing. -/
def markAlwaysFalse (t : FilterTree) (mark : Bool) : FilterTree :=
  { t with alwaysFalse := mark }

/-- Adds cache contexts to the node itself. -/
def addContexts (t : FilterTree) (names : List String) : FilterTree :=
  { t with cache := t.cache.addContexts names }

/-- Adds cache tags to the node itself. -/
def addTags (t : FilterTree) (names : List String) : FilterTree :=
  { t with cache := t.cache.addTags names }

/-- Restricts the cache lifetime of the node itself. -/
def mergeMaxAge (t : FilterTree) (age : MaxAge) : FilterTree :=
  { t with cache := t.cache.mergeMaxAge age }

/-- The number of direct children. -/
def count (t : FilterTree) : Nat := t.children.length

/-- Whether the tree has no children. -/
def isEmpty (t : FilterTree) : Bool := t.children.isEmpty

/-! ## What an addition changes -/

@[simp] theorem add_leaf (t : FilterTree) (p : Predicate) :
    t.add (.leaf p) = { t with children := t.children ++ [.leaf p] } := rfl

@[simp] theorem conjunction_add (t : FilterTree) (n : FilterNode) :
    (t.add n).conjunction = t.conjunction := by
  cases n with
  | leaf p => rfl
  | tree u =>
    simp only [add, addTree]
    split
    · rfl
    · split <;> rfl

@[simp] theorem alwaysFalse_add (t : FilterTree) (n : FilterNode) :
    (t.add n).alwaysFalse = t.alwaysFalse := by
  cases n with
  | leaf p => rfl
  | tree u =>
    simp only [add, addTree]
    split
    · rfl
    · split <;> rfl

end FilterTree

/-- The children that a node contributes to the tree it is added to. -/
def FilterNode.contribution : FilterNode → List FilterNode
  | .leaf p => [.leaf p]
  | .tree u => if u.alwaysFalse || 2 ≤ u.children.length then [.tree u] else u.children

/-- An addition appends the contribution of the added node. -/
theorem FilterTree.children_add (t : FilterTree) (n : FilterNode) :
    (t.add n).children = t.children ++ n.contribution := by
  cases n with
  | leaf p => rfl
  | tree u =>
    simp only [add, addTree, FilterNode.contribution]
    by_cases h : u.alwaysFalse = true
    · simp [h]
    · rcases hu : u.children with _ | ⟨a, _ | ⟨b, rest⟩⟩ <;> simp [h]

/-! ## Dependencies after an addition -/

theorem FilterNode.cacheabilityAll_append (ns ms : List FilterNode) :
    cacheabilityAll (ns ++ ms) = (cacheabilityAll ns).merge (cacheabilityAll ms) := by
  induction ns with
  | nil => simp [cacheabilityAll]
  | cons n ns ih => simp [cacheabilityAll, ih, Cacheability.merge_assoc]

theorem FilterTree.cacheability_eq (t : FilterTree) :
    t.cacheability = t.cache.merge (FilterNode.cacheabilityAll t.children) := by
  cases t; rw [cacheability]

/-- An addition neither loses nor invents a dependency, however the added node is
simplified. -/
theorem FilterTree.cacheability_add (t : FilterTree) (n : FilterNode) :
    (t.add n).cacheability = t.cacheability.merge n.cacheability := by
  have appended (m : FilterNode) :
      FilterTree.cacheability { t with children := t.children ++ [m] }
        = t.cacheability.merge m.cacheability := by
    simp [cacheability_eq, FilterNode.cacheabilityAll_append, FilterNode.cacheabilityAll,
      Cacheability.merge_assoc]
  cases n with
  | leaf p => exact appended (.leaf p)
  | tree u =>
    simp only [add, addTree]
    split
    · exact appended (.tree u)
    · split
      next hu =>
        simp only [cacheability_eq, FilterNode.cacheability, hu, FilterNode.cacheabilityAll,
          Cacheability.merge_empty, Cacheability.merge_assoc]
        rw [Cacheability.merge_comm u.cache]
      next only hu =>
        simp only [cacheability_eq, FilterNode.cacheability, hu, FilterNode.cacheabilityAll,
          FilterNode.cacheabilityAll_append, Cacheability.merge_empty,
          Cacheability.merge_assoc]
        rw [← Cacheability.merge_assoc u.cache, Cacheability.merge_comm u.cache,
          Cacheability.merge_assoc, Cacheability.merge_comm u.cache]
      next => exact appended (.tree u)

end RowAccess
