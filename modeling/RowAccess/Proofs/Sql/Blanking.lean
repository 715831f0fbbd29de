import Mathlib.Data.List.Basic
import RowAccess.Sql.Query

/-!
# What the text of a statement shows of its operands

A value is blanked by forgetting everything but what kind of value it is and, for a list, how
many items it has.  Blanking all operands of a statement leaves its text and the number of its
parameters as they are, so no more of an operand than this reaches the text.

Main results:

- `Clause.text_blank`: the text of a clause.
- `ConditionSet.rootParts_blank`: the conditions after blanking are the blanked conditions.
- `Query.sql_render_blank`, `Query.length_params_render_blank`: the whole statement.
-/

namespace RowAccess

/-- The value that stands for all values of its kind; a list keeps its length only. -/
def Value.blank : Value → Value
  | null => null
  | bool _ => bool false
  | int _ => int 0
  | uint _ => uint 0
  | text _ => text ""
  | list items => list (List.replicate items.length null)

@[simp] theorem Value.length_items_blank (v : Value) :
    (Sql.Clause.items v.blank).length = (Sql.Clause.items v).length := by
  cases v <;> simp [Value.blank, Sql.Clause.items, Value.list?]

namespace Sql

/-! ## Clauses -/

/-- The clause with its operand blanked. -/
def Clause.blank (c : Clause) : Clause := { c with value := c.value.blank }

/-- The text of a clause shows how many operands there are. -/
@[simp] theorem Clause.text_blank (c : Clause) : c.blank.text = c.text := by
  rcases c with ⟨column, op, value⟩
  simp [text, blank]

/-- A clause binds as many operands as before. -/
@[simp] theorem Clause.length_operands_blank (c : Clause) :
    c.blank.operands.length = c.operands.length := by
  rcases c with ⟨column, op | escape | escape, value⟩
  · cases op <;> simp [operands, blank]
  · rfl
  · rfl

/-! ## Expressions -/

namespace WhereExpr

mutual

/-- The expression with its operands blanked. -/
def blank : WhereExpr → WhereExpr
  | clause c => clause c.blank
  | expression text => expression text
  | joined conjunction parts => joined conjunction (blankAll parts)

/-- Several expressions with their operands blanked. -/
def blankAll : List WhereExpr → List WhereExpr
  | [] => []
  | e :: es => blank e :: blankAll es

end

theorem blankAll_eq_map (es : List WhereExpr) : blankAll es = es.map blank := by
  induction es with
  | nil => rfl
  | cons e es ih => rw [blankAll, ih, List.map_cons]

mutual

/-- The text of an expression shows no operand. -/
theorem text_blank : (e : WhereExpr) → e.blank.text = e.text
  | clause c => c.text_blank
  | expression _ => rfl
  | joined conjunction parts => by
    rw [WhereExpr.blank, WhereExpr.text, WhereExpr.text, WhereExpr.textAll_blankAll parts]

/-- The texts of several expressions show no operand. -/
theorem textAll_blankAll : (es : List WhereExpr) →
    WhereExpr.textAll (WhereExpr.blankAll es) = WhereExpr.textAll es
  | [] => rfl
  | e :: es => by
    rw [WhereExpr.blankAll, WhereExpr.textAll, WhereExpr.textAll, WhereExpr.text_blank e,
      WhereExpr.textAll_blankAll es]

end

mutual

/-- An expression binds as many operands as before. -/
theorem length_operands_blank : (e : WhereExpr) →
    e.blank.operands.length = e.operands.length
  | clause c => c.length_operands_blank
  | expression _ => rfl
  | joined _ parts => WhereExpr.length_operandsAll_blankAll parts

/-- Several expressions bind as many operands as before. -/
theorem length_operandsAll_blankAll : (es : List WhereExpr) →
    (WhereExpr.operandsAll (WhereExpr.blankAll es)).length =
      (WhereExpr.operandsAll es).length
  | [] => rfl
  | e :: es => by
    simp only [WhereExpr.blankAll, WhereExpr.operandsAll, List.length_append,
      WhereExpr.length_operands_blank e, WhereExpr.length_operandsAll_blankAll es]

end

/-- Joining parts and blanking operands can be done in either order. -/
theorem join_map_blank (conjunction : Conjunction) (es : List WhereExpr) :
    join conjunction (es.map blank) = (join conjunction es).map blank := by
  match es with
  | [] => rfl
  | [only] => rfl
  | first :: second :: rest =>
    simp only [List.map_cons, join, Option.map_some, blank, blankAll_eq_map]

end WhereExpr

/-! ## Groups -/

/-- The item with its operand blanked. -/
def Condition.blank : Condition → Condition
  | clause c => clause c.blank
  | expression text => expression text
  | group id => group id

/-- The group with its operands blanked. -/
def Group.blank (g : Group) : Group := { g with items := g.items.map Condition.blank }

/-- The conditions with their operands blanked. -/
def ConditionSet.blank (s : ConditionSet) : ConditionSet := ⟨s.groups.map Group.blank⟩

namespace WhereExpr

/-- What the blanked items of a group come to, if each group comes to what it came to with its
operands blanked. -/
theorem partsOf_blank {before after : Nat → Option WhereExpr}
    (h : ∀ i, after i = (before i).map blank) (items : List Condition) :
    partsOf after (items.map Condition.blank) = (partsOf before items).map blank := by
  rw [partsOf, partsOf, List.filterMap_map, List.map_filterMap]
  refine List.filterMap_congr fun item _ => ?_
  cases item with
  | clause c => rfl
  | expression text => rfl
  | group id => exact h id.index

theorem lookupFrom_map_blank (first : Nat) (exprs : List (Option WhereExpr)) (i : Nat) :
    ofGroups.lookupFrom first (exprs.map (Option.map blank)) i =
      (ofGroups.lookupFrom first exprs i).map blank := by
  simp only [ofGroups.lookupFrom]
  split
  · rfl
  · rw [List.getElem?_map]
    cases exprs[i - first]? with
    | none => rfl
    | some found => rfl

/-- Unfolding groups and blanking operands can be done in either order. -/
theorem ofGroups_map_blank (first : Nat) (gs : List Group) :
    ofGroups first (gs.map Group.blank) = (ofGroups first gs).map (Option.map blank) := by
  induction gs generalizing first with
  | nil => rfl
  | cons g later ih =>
    rw [List.map_cons, ofGroups, ofGroups, ih, List.map_cons, Group.blank,
      partsOf_blank (lookupFrom_map_blank (first + 1) (ofGroups (first + 1) later)),
      join_map_blank]

end WhereExpr

/-- The conditions of a statement after blanking are the blanked conditions. -/
theorem ConditionSet.rootParts_blank (s : ConditionSet) :
    s.blank.rootParts = s.rootParts.map WhereExpr.blank := by
  rcases s with ⟨_ | ⟨root, later⟩⟩
  · rfl
  · simp only [blank, List.map_cons, rootParts, WhereExpr.ofGroups_map_blank]
    exact WhereExpr.partsOf_blank (WhereExpr.lookupFrom_map_blank 1 _) root.items

/-! ## Adding to a statement -/

theorem ConditionSet.blank_push (s : ConditionSet) (id : GroupId) (item : Condition) :
    (s.push id item).blank = s.blank.push id item.blank := by
  have pushed (g : Group) : (g.push item).blank = g.blank.push item.blank := by
    simp [Group.push, Group.blank]
  simp only [push, blank, ConditionSet.mk.injEq]
  apply List.ext_getElem?
  intro i
  simp only [List.getElem?_map, List.getElem?_modify]
  cases s.groups[i]? with
  | none => rfl
  | some g =>
    by_cases h : id.index = i
    · simp [h, pushed]
    · simp [h]

theorem ConditionSet.blank_openGroup (s : ConditionSet) (parent : GroupId)
    (conjunction : Conjunction) :
    s.blank.openGroup parent conjunction =
      ((s.openGroup parent conjunction).1.blank, (s.openGroup parent conjunction).2) := by
  have pushed := congrArg ConditionSet.groups (s.blank_push parent (.group ⟨s.groups.length⟩))
  simp only [openGroup, blank, List.map_append, List.length_map] at pushed ⊢
  rw [pushed]
  rfl

/-! ## Statements -/

namespace Query

/-- The statement with its operands blanked. -/
def blank (q : Query) : Query := { q with conditions := q.conditions.blank }

theorem blank_pushCondition (q : Query) (id : GroupId) (item : Condition) :
    (q.pushCondition id item).blank = q.blank.pushCondition id item.blank := by
  rw [pushCondition, blank, q.conditions.blank_push]
  rfl

theorem blank_openGroup (q : Query) (parent : GroupId) (conjunction : Conjunction) :
    q.blank.openGroup parent conjunction =
      ((q.openGroup parent conjunction).1.blank, (q.openGroup parent conjunction).2) := by
  rw [openGroup, blank, q.conditions.blank_openGroup]
  rfl

/-- The WHERE of a statement after blanking. -/
theorem render_conditions_blank (s : ConditionSet) :
    (s.blank.render.map Rendered.sql = s.render.map Rendered.sql) ∧
      s.blank.render.map (fun r => r.params.length) = s.render.map fun r => r.params.length := by
  rw [ConditionSet.render, s.rootParts_blank, ConditionSet.render]
  cases s.rootParts with
  | nil => exact ⟨rfl, rfl⟩
  | cons e es =>
    constructor
    · have texts := WhereExpr.textAll_blankAll (e :: es)
      rw [WhereExpr.blankAll_eq_map] at texts
      simp only [List.map_cons] at texts ⊢
      simp only [Option.map_some, texts]
    · have counts := WhereExpr.length_operandsAll_blankAll (e :: es)
      rw [WhereExpr.blankAll_eq_map] at counts
      simp only [List.map_cons] at counts ⊢
      simp only [Option.map_some, counts]

/-- The text of a statement shows no operand. -/
theorem sql_render_blank (q : Query) : q.blank.render.sql = q.render.sql := by
  obtain ⟨texts, -⟩ := render_conditions_blank q.conditions
  rw [render, render, blank]
  cases before : q.conditions.render <;> cases after : q.conditions.blank.render <;>
    simp_all [fromText]

/-- A statement has as many parameters as before. -/
theorem length_params_render_blank (q : Query) :
    q.blank.render.params.length = q.render.params.length := by
  obtain ⟨-, counts⟩ := render_conditions_blank q.conditions
  rw [render, render, blank]
  cases before : q.conditions.render <;> cases after : q.conditions.blank.render <;>
    simp_all

end Query

end Sql

end RowAccess
