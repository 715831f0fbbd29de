import RowAccess.Sql.Condition

/-!
# The condition of a statement as an expression

The numbered groups of a `ConditionSet` describe one expression.  Groups that hold nothing
vanish, and a group with one part is that part.  The expression is then written with
parentheses around every joined group, while its operands are listed in the order of their
placeholders.

Main results:

- `WhereExpr.textAll_eq_map`, `WhereExpr.operandsAll_eq_flatMap`: the parts of a group are
  written and bound one after the other.
-/

namespace RowAccess.Sql

/-- A condition without numbered groups. -/
inductive WhereExpr where
  | clause (c : Clause)
  | expression (text : String)
  | joined (conjunction : Conjunction) (parts : List WhereExpr)

namespace WhereExpr

/-! ## Unfolding groups -/

/-- The parts of a group as one expression; one part stands alone. -/
def join (conjunction : Conjunction) : List WhereExpr → Option WhereExpr
  | [] => none
  | [only] => some only
  | parts => some (joined conjunction parts)

/-- An item as an expression, given what each group comes to. -/
def ofCondition? (groupExpr : Nat → Option WhereExpr) : Condition → Option WhereExpr
  | .clause c => some (clause c)
  | .expression text => some (expression text)
  | .group id => groupExpr id.index

/-- What is left of the items of a group, given what each group comes to. -/
def partsOf (groupExpr : Nat → Option WhereExpr) (items : List Condition) : List WhereExpr :=
  items.filterMap (ofCondition? groupExpr)

/-- What the groups from number `first` on come to.  A group contains later groups only, so
the later ones are unfolded first. -/
def ofGroups (first : Nat) : List Group → List (Option WhereExpr)
  | [] => []
  | g :: later =>
    let exprs := ofGroups (first + 1) later
    join g.conjunction (partsOf (lookupFrom (first + 1) exprs) g.items) :: exprs
where
  /-- What a group comes to, found in the results of the groups from a number on. -/
  lookupFrom (first : Nat) (exprs : List (Option WhereExpr)) (index : Nat) :
      Option WhereExpr :=
    if index < first then none else exprs[index - first]?.join

/-! ## Text and operands -/

/-- Parts with a conjunction between them. -/
def conjoin (conjunction : Conjunction) (texts : List String) : String :=
  (" " ++ conjunction.keyword ++ " ").intercalate texts

mutual

/-- The text of an expression; a joined group stands in parentheses. -/
def text : WhereExpr → String
  | clause c => c.text
  | expression t => t
  | joined conjunction parts => "(" ++ conjoin conjunction (textAll parts) ++ ")"

/-- The texts of several expressions. -/
def textAll : List WhereExpr → List String
  | [] => []
  | e :: es => text e :: textAll es

end

mutual

/-- The operands of an expression in the order of their placeholders. -/
def operands : WhereExpr → List Value
  | clause c => c.operands
  | expression _ => []
  | joined _ parts => operandsAll parts

/-- The operands of several expressions. -/
def operandsAll : List WhereExpr → List Value
  | [] => []
  | e :: es => operands e ++ operandsAll es

end

theorem textAll_eq_map (es : List WhereExpr) : textAll es = es.map text := by
  induction es with
  | nil => rfl
  | cons e es ih => simp [textAll, ih]

theorem operandsAll_eq_flatMap (es : List WhereExpr) : operandsAll es = es.flatMap operands := by
  induction es with
  | nil => rfl
  | cons e es ih => simp [operandsAll, ih]

end WhereExpr

/-- A text with placeholders and the values bound to them in order. -/
structure Rendered where
  sql : String
  params : List Value
  deriving DecidableEq

namespace ConditionSet

/-- What the items of the root come to; all of them must hold. -/
def rootParts (s : ConditionSet) : List WhereExpr :=
  match s.groups with
  | [] => []
  | root :: later =>
    WhereExpr.partsOf (WhereExpr.ofGroups.lookupFrom 1 (WhereExpr.ofGroups 1 later)) root.items

/-- The conditions as the body of a WHERE, or nothing if nothing is left of them. -/
def render (s : ConditionSet) : Option Rendered :=
  match s.rootParts with
  | [] => none
  | parts => some ⟨WhereExpr.conjoin .and (WhereExpr.textAll parts), WhereExpr.operandsAll parts⟩

end ConditionSet

end RowAccess.Sql
