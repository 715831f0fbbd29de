import RowAccess.Filter.Tree
import RowAccess.Sql.Clause

/-!
# The outline of a filter tree

A filter tree is written for a reader with one line per predicate.  The children of a tree
with several of them stand in parentheses, each indented by two columns, with the
conjunction on a line of its own, indented by four, between them.
-/

namespace RowAccess

namespace Outline

/-- Indents every line but the first by two columns. -/
def indentChars (cs : List Char) : List Char :=
  cs.flatMap fun c => if c = '\n' then ['\n', ' ', ' '] else [c]

/-- Indents every line of a text but the first by two columns. -/
def indent (s : String) : String := .ofList (indentChars s.toList)

/-- What stands between two children: the conjunction on a line of its own. -/
def separator (c : Conjunction) : String := "\n    " ++ c.keyword ++ "\n  "

/-- Several texts in parentheses; one text stands alone, and none leaves nothing. -/
def enclose (c : Conjunction) : List String → String
  | [] => ""
  | [only] => only
  | texts => "(\n  " ++ (separator c).intercalate (texts.map indent) ++ "\n)"

end Outline

mutual

/-- The outline of a tree; one that admits nothing is written as the false condition. -/
def FilterTree.display : FilterTree → String
  | ⟨conj, children, never, _⟩ =>
    if never then Sql.alwaysFalse
    else Outline.enclose conj (FilterNode.displayAll children)

/-- The outline of a child. -/
def FilterNode.display : FilterNode → String
  | .leaf p => p.display
  | .tree t => t.display

/-- The outlines of several children. -/
def FilterNode.displayAll : List FilterNode → List String
  | [] => []
  | n :: ns => n.display :: FilterNode.displayAll ns

end

theorem FilterNode.displayAll_eq_map (ns : List FilterNode) :
    FilterNode.displayAll ns = ns.map FilterNode.display := by
  induction ns with
  | nil => rfl
  | cons n ns ih => simp [FilterNode.displayAll, ih]

end RowAccess
