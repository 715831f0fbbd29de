import RowAccess.Filter.Tree

/-!
# Rows that a filter admits

A filter is meant for rows: a row has a value in some fields, and a tree of predicates
admits it or not.  Equality compares the stored value with the operand, membership looks it
up among the items of the operand.  What the other comparisons say about a row is left to a
parameter, so nothing here depends on an order of values.

Main results:

- `FilterTree.admits_eq`: a tree admits what all or any of its children admit.
- `FilterNode.all_contribution`, `FilterNode.any_contribution`: the simplification of an
  added tree does not change what it admits.
-/

namespace RowAccess

/-- A record as a filter sees it: the values of the fields that it has. -/
abbrev Row := String → Option Value

/-- What the comparisons other than equality and membership say about a row. -/
abbrev OtherComparisons := Predicate → Row → Bool

/-! ## Admission -/

/-- Whether a predicate admits a row. -/
def Predicate.admits (others : OtherComparisons) (row : Row) (p : Predicate) : Bool :=
  match p.op with
  | .eq => row p.field = some p.value
  | .inList => (p.value.list?.getD [p.value]).any fun v => row p.field = some v
  | _ => others p row

mutual

/-- Whether a tree admits a row.  A tree marked always-false admits none, and any other tree
without children admits them all. -/
def FilterTree.admits (others : OtherComparisons) (row : Row) : FilterTree → Bool
  | ⟨conjunction, children, never, _⟩ =>
    !never && (children.isEmpty ||
      match conjunction with
      | .and => FilterNode.allAdmit others row children
      | .or => FilterNode.anyAdmits others row children)

/-- Whether a child admits a row. -/
def FilterNode.admits (others : OtherComparisons) (row : Row) : FilterNode → Bool
  | .leaf p => p.admits others row
  | .tree t => t.admits others row

/-- Whether every one of several children admits a row. -/
def FilterNode.allAdmit (others : OtherComparisons) (row : Row) : List FilterNode → Bool
  | [] => true
  | n :: ns => n.admits others row && FilterNode.allAdmit others row ns

/-- Whether one of several children admits a row. -/
def FilterNode.anyAdmits (others : OtherComparisons) (row : Row) : List FilterNode → Bool
  | [] => false
  | n :: ns => n.admits others row || FilterNode.anyAdmits others row ns

end

section Admission

variable (others : OtherComparisons) (row : Row)

theorem FilterNode.allAdmit_eq_all (ns : List FilterNode) :
    allAdmit others row ns = ns.all (admits others row) := by
  induction ns with
  | nil => rfl
  | cons n ns ih => rw [allAdmit, ih, List.all_cons]

theorem FilterNode.anyAdmits_eq_any (ns : List FilterNode) :
    anyAdmits others row ns = ns.any (admits others row) := by
  induction ns with
  | nil => rfl
  | cons n ns ih => rw [anyAdmits, ih, List.any_cons]

/-- A tree admits what all or any of its children admit. -/
theorem FilterTree.admits_eq (t : FilterTree) :
    t.admits others row =
      (!t.alwaysFalse && (t.children.isEmpty ||
        match t.conjunction with
        | .and => t.children.all (FilterNode.admits others row)
        | .or => t.children.any (FilterNode.admits others row))) := by
  rcases t with ⟨conjunction, children, never, cache⟩
  cases conjunction with
  | and => simp only [FilterTree.admits, FilterNode.allAdmit_eq_all]
  | or => simp only [FilterTree.admits, FilterNode.anyAdmits_eq_any]

variable {others row}

/-- A tree marked always-false admits nothing. -/
theorem FilterTree.admits_of_alwaysFalse {t : FilterTree} (h : t.alwaysFalse = true) :
    t.admits others row = false := by
  rw [admits_eq, h]
  rfl

/-- A tree without children admits every row, unless it is marked. -/
theorem FilterTree.admits_of_nil {t : FilterTree} (h : t.alwaysFalse = false)
    (hc : t.children = []) : t.admits others row = true := by
  rw [admits_eq, h, hc]
  rfl

/-- A joint tree admits what all of its children admit. -/
theorem FilterTree.admits_of_and {t : FilterTree} (h : t.alwaysFalse = false)
    (hc : t.conjunction = .and) :
    t.admits others row = t.children.all (FilterNode.admits others row) := by
  rw [admits_eq, h, hc]
  cases t.children <;> rfl

/-- A tree of alternatives admits what any of its children admits. -/
theorem FilterTree.admits_of_or {t : FilterTree} (h : t.alwaysFalse = false)
    (hc : t.conjunction = .or) (hne : t.children ≠ []) :
    t.admits others row = t.children.any (FilterNode.admits others row) := by
  have nonempty : t.children.isEmpty = false := by simpa using hne
  rw [admits_eq, h, hc, nonempty]
  rfl

/-- A tree with one child admits what the child admits, however it is joined. -/
theorem FilterTree.admits_of_singleton {t : FilterTree} {n : FilterNode}
    (h : t.alwaysFalse = false) (hc : t.children = [n]) :
    t.admits others row = n.admits others row := by
  rw [admits_eq, h, hc]
  cases t.conjunction <;> simp

/-! ## Simplification -/

/-- Among joint children the contribution of a node stands for the node. -/
theorem FilterNode.all_contribution (n : FilterNode) :
    n.contribution.all (admits others row) = n.admits others row := by
  cases n with
  | leaf p => simp [contribution]
  | tree t =>
    by_cases h : t.alwaysFalse = true
    · simp [contribution, h]
    · have open' : t.alwaysFalse = false := by simpa using h
      rcases hc : t.children with _ | ⟨a, _ | ⟨b, rest⟩⟩
      · simp [contribution, open', hc, admits, FilterTree.admits_of_nil open' hc]
      · simp [contribution, open', hc, admits, FilterTree.admits_of_singleton open' hc]
      · simp [contribution, hc]

/-- Among alternatives the contribution of a node stands for the node, unless the node
contributes nothing because it restricts nothing. -/
theorem FilterNode.any_contribution {t : FilterTree} (h : t.children ≠ []) :
    (FilterNode.tree t).contribution.any (admits others row) = t.admits others row := by
  by_cases ha : t.alwaysFalse = true
  · simp [contribution, ha, admits]
  · have open' : t.alwaysFalse = false := by simpa using ha
    rcases hc : t.children with _ | ⟨a, _ | ⟨b, rest⟩⟩
    · exact absurd hc h
    · simp [contribution, open', hc, FilterTree.admits_of_singleton open' hc]
    · simp [contribution, hc, admits]

/-- A tree with children contributes something. -/
theorem FilterNode.contribution_ne_nil {t : FilterTree} (h : t.children ≠ []) :
    (FilterNode.tree t).contribution ≠ [] := by
  simp only [contribution]
  split
  · exact List.cons_ne_nil _ _
  · exact h

/-! ## Predicates made from a value -/

/-- Equality with a value that is no list holds where the field has that value. -/
theorem Predicate.admits_equals {field : String} {value : Value} (h : value.isList = false) :
    (Predicate.equals field value).admits others row = true ↔ row field = some value := by
  simp [admits, equals, defaultOp, h, make, Comparison.isNullCheck]

/-- Equality with a list of texts holds where the field has one of them. -/
theorem Predicate.admits_equals_ofTexts {field : String} {texts : List String} :
    (Predicate.equals field (.ofTexts texts)).admits others row = true ↔
      ∃ s ∈ texts, row field = some (.text s) := by
  simp [admits, equals, defaultOp, make, Value.isList, Value.ofTexts, Value.list?,
    Comparison.isNullCheck]

end Admission

end RowAccess
