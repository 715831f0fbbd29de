import Mathlib.Data.List.Perm.Basic
import RowAccess.Proofs.Sql.Reachable
import RowAccess.Proofs.Sql.Valuation

/-!
# Following the groups of a statement

The groups of a statement are numbered, and an item that is a group is only its number.  Following
these numbers from the root passes every clause and every raw condition that was ever added, and
none of them twice: each group but the root is an item exactly once, so what is below the items
of all groups, counted once, is what is below all groups but the root and the conditions
themselves.

Main results:

- `ConditionSet.Tree.push`, `ConditionSet.Tree.openGroup`: each group but the root stays an item
  exactly once.
- `ConditionSet.Tree.conditionsAt_perm`: depth-first order passes every condition once.
- `WhereExpr.spells_text`: an expression is written as its conditions in depth-first order, with
  nothing but brackets and conjunctions between them.
- `ConditionSet.Tree.depthFirstClauses_perm`: the clauses of a statement are those that depth-first
  order passes.
- `Query.params_render`: the parameters of a statement are the operands of its clauses.
-/

namespace RowAccess.Sql

/-! ## Single conditions -/

namespace Condition

/-- The number of the group that an item is. -/
def groupId? : Condition → Option GroupId
  | clause _ => none
  | expression _ => none
  | group id => some id

/-- The text of an item by itself; a group has none. -/
def text : Condition → String
  | clause c => c.text
  | expression text => text
  | group _ => ""

/-- The values that an item by itself binds. -/
def operands : Condition → List Value
  | clause c => c.operands
  | expression _ => []
  | group _ => []

end Condition

/-! ## Expressions -/

/-- What stands between conditions in a text. -/
def marks : List String := ["(", ")", " AND ", " OR "]

/-- A text is made of the texts of some conditions, each written once and in order, and of
brackets and conjunctions between them. -/
inductive Spells : String → List Condition → Prop where
  | nil : Spells "" []
  | mark {m text : String} {conditions : List Condition} (hm : m ∈ marks)
      (h : Spells text conditions) : Spells (m ++ text) conditions
  | condition {text : String} {conditions : List Condition} (c : Condition)
      (h : Spells text conditions) : Spells (c.text ++ text) (c :: conditions)

namespace Spells

theorem append {text text' : String} {conditions conditions' : List Condition}
    (h : Spells text conditions) (h' : Spells text' conditions') :
    Spells (text ++ text') (conditions ++ conditions') := by
  induction h with
  | nil =>
    rw [String.empty_append, List.nil_append]
    exact h'
  | mark hm _ ih =>
    rw [String.append_assoc]
    exact .mark hm ih
  | condition c _ ih =>
    rw [String.append_assoc, List.cons_append]
    exact .condition c ih

/-- A condition by itself. -/
theorem single (c : Condition) : Spells c.text [c] := by
  have alone := Spells.condition c .nil
  rw [String.append_empty] at alone
  exact alone

/-- A conjunction behind a text. -/
theorem append_conjunction {text : String} {conditions : List Condition}
    (h : Spells text conditions) (conjunction : Conjunction) :
    Spells (text ++ (" " ++ conjunction.keyword ++ " ")) conditions := by
  have between : " " ++ conjunction.keyword ++ " " ∈ marks := by
    cases conjunction with
    | and => decide
    | or => decide
  have behind := h.append (.mark between .nil)
  rw [String.append_empty, List.append_nil] at behind
  exact behind

/-- A text in brackets. -/
theorem brackets {text : String} {conditions : List Condition} (h : Spells text conditions) :
    Spells ("(" ++ text ++ ")") conditions := by
  have opening : "(" ∈ marks := by decide
  have closing : ")" ∈ marks := by decide
  have behind := (Spells.mark opening h).append (.mark closing .nil)
  rw [String.append_empty, List.append_nil] at behind
  exact behind

end Spells

namespace WhereExpr

mutual

/-- The clauses and raw conditions of an expression from left to right. -/
def leaves : WhereExpr → List Condition
  | clause c => [.clause c]
  | expression text => [.expression text]
  | joined _ parts => leavesAll parts

/-- The clauses and raw conditions of several expressions from left to right. -/
def leavesAll : List WhereExpr → List Condition
  | [] => []
  | e :: es => leaves e ++ leavesAll es

end

theorem leavesAll_eq_flatMap (es : List WhereExpr) : leavesAll es = es.flatMap leaves := by
  induction es with
  | nil => rfl
  | cons e es ih => rw [leavesAll, ih, List.flatMap_cons]

/-- Joining expressions neither loses nor reorders conditions. -/
theorem flatMap_leaves_join (conjunction : Conjunction) (es : List WhereExpr) :
    (join conjunction es).toList.flatMap leaves = es.flatMap leaves := by
  match es with
  | [] => rfl
  | [only] => rfl
  | first :: second :: rest =>
    rw [join_cons_cons, Option.toList_some, List.flatMap_singleton, leaves, leavesAll_eq_flatMap]

mutual

/-- The clauses of an expression are those among its conditions. -/
theorem clauses_eq : (e : WhereExpr) → e.clauses = e.leaves.filterMap ConditionSet.clause?
  | clause _ => rfl
  | expression _ => rfl
  | joined _ parts => clausesAll_eq parts

theorem clausesAll_eq : (es : List WhereExpr) →
    clausesAll es = (leavesAll es).filterMap ConditionSet.clause?
  | [] => rfl
  | e :: es => by
    rw [clausesAll, leavesAll, List.filterMap_append, clauses_eq e, clausesAll_eq es]

end

mutual

/-- The operands of an expression are those of its conditions, in order. -/
theorem operands_eq : (e : WhereExpr) → e.operands = e.leaves.flatMap Condition.operands
  | clause c => (List.append_nil c.operands).symm
  | expression _ => rfl
  | joined _ parts => operandsAll_eq parts

theorem operandsAll_eq : (es : List WhereExpr) →
    operandsAll es = (leavesAll es).flatMap Condition.operands
  | [] => rfl
  | e :: es => by
    rw [operandsAll, leavesAll, List.flatMap_append, operands_eq e, operandsAll_eq es]

end

mutual

/-- An expression is written as its conditions, each once and in order. -/
theorem spells_text : (e : WhereExpr) → Spells e.text e.leaves
  | clause c => .single (.clause c)
  | expression text => .single (.expression text)
  | joined conjunction parts => (spells_conjoin conjunction parts).brackets

/-- Several expressions are written as the conditions of them all. -/
theorem spells_conjoin (conjunction : Conjunction) : (es : List WhereExpr) →
    Spells (conjoin conjunction (textAll es)) (leavesAll es)
  | [] => .nil
  | [only] => by
    have alone : conjoin conjunction (textAll [only]) = only.text := String.intercalate_singleton
    rw [alone, leavesAll, leavesAll, List.append_nil]
    exact spells_text only
  | first :: second :: rest => by
    have later := spells_conjoin conjunction (second :: rest)
    have split : conjoin conjunction (textAll (first :: second :: rest)) =
        first.text ++ (" " ++ conjunction.keyword ++ " ") ++
          conjoin conjunction (textAll (second :: rest)) := String.intercalate_cons_cons
    rw [split, leavesAll]
    exact ((spells_text first).append_conjunction conjunction).append later

end

end WhereExpr

namespace ConditionSet

/-! ## Depth-first order -/

/-- The clauses and raw conditions in a group and in the groups below it, from first to last.
Only later groups can be items of a group. -/
def conditionsAt (s : ConditionSet) (i : Nat) : List Condition :=
  if hi : i < s.groups.length then
    s.groups[i].items.flatMap fun item =>
      match item with
      | .clause c => [.clause c]
      | .expression text => [.expression text]
      | .group id => if hlt : i < id.index then conditionsAt s id.index else []
  else []
termination_by s.groups.length - i

/-- The clauses and raw conditions that an item is or that are below it. -/
def below (s : ConditionSet) : Condition → List Condition
  | .clause c => [.clause c]
  | .expression text => [.expression text]
  | .group id => s.conditionsAt id.index

/-- The conditions in and below a group are those that its items are or that are below them. -/
theorem conditionsAt_eq {s : ConditionSet} (hs : s.Nested) {i : Nat} {g : Group}
    (hg : s.groups[i]? = some g) : s.conditionsAt i = g.items.flatMap s.below := by
  obtain ⟨hi, rfl⟩ := List.getElem?_eq_some_iff.1 hg
  rw [conditionsAt, dif_pos hi]
  refine List.flatMap_congr fun item hitem => ?_
  cases item with
  | clause c => rfl
  | expression text => rfl
  | group id => exact dif_pos (hs.later i _ hg id hitem).1

/-- A number that no group has stands for no conditions. -/
theorem conditionsAt_eq_nil {s : ConditionSet} {i : Nat} (h : s.groups.length ≤ i) :
    s.conditionsAt i = [] := by
  rw [conditionsAt, dif_neg (Nat.not_lt.2 h)]

/-- Unfolding a group to an expression keeps its conditions in order. -/
theorem leaves_exprAt {s : ConditionSet} (hs : s.Nested) (i : Nat) :
    (s.exprAt i).toList.flatMap WhereExpr.leaves = s.conditionsAt i := by
  -- Later groups first: the items of a group are behind it.
  induction hn : s.groups.length - i using Nat.strongRecOn generalizing i with
  | ind n ih =>
    by_cases hi : i < s.groups.length
    · have hg : s.groups[i]? = some s.groups[i] := List.getElem?_eq_getElem hi
      rw [exprAt_eq hs hg, conditionsAt_eq hs hg, WhereExpr.flatMap_leaves_join, parts,
        WhereExpr.partsOf, List.filterMap_eq_flatMap_toList, List.flatMap_assoc]
      refine List.flatMap_congr fun item hitem => ?_
      cases item with
      | clause c => rfl
      | expression text => rfl
      | group id =>
        obtain ⟨behind, inside⟩ := hs.later i _ hg id hitem
        exact ih (s.groups.length - id.index) (by omega) id.index rfl
    · have outside := Nat.le_of_not_lt hi
      rw [exprAt_eq_none outside, conditionsAt_eq_nil outside]
      rfl

/-- The parts of the root hold the conditions of the statement in depth-first order. -/
theorem leaves_rootParts {s : ConditionSet} (hs : s.Nested) :
    s.rootParts.flatMap WhereExpr.leaves = s.conditionsAt 0 := by
  obtain ⟨items, hroot⟩ := hs.root
  rw [← leaves_exprAt hs, exprAt_eq hs hroot, WhereExpr.flatMap_leaves_join, rootParts_eq hs,
    rootItems_eq hroot]

/-- An addition to the root adds its conditions behind the others. -/
theorem Grows.conditionsAt_eq {s s' : ConditionSet} {items : List Condition}
    (h : s.Grows .root items s') (hs : s.Nested) (hs' : s'.Nested) :
    s'.conditionsAt 0 = s.conditionsAt 0 ++ (s'.parts items).flatMap WhereExpr.leaves := by
  rw [← leaves_rootParts hs', h.rootParts_eq hs hs', List.flatMap_append, leaves_rootParts hs]

/-- The clauses in depth-first order are those among the conditions in that order. -/
theorem depthFirstClauses_eq {s : ConditionSet} (hs : s.Nested) :
    s.depthFirstClauses = (s.conditionsAt 0).filterMap clause? := by
  rw [depthFirstClauses, ← leaves_rootParts hs, ← WhereExpr.leavesAll_eq_flatMap,
    ← WhereExpr.clausesAll_eq, WhereExpr.clausesAll_eq_flatMap]

/-- The operands of several expressions are those of their clauses, in order. -/
theorem operandsAll_eq_flatMap_clauses (es : List WhereExpr) :
    WhereExpr.operandsAll es = (es.flatMap WhereExpr.clauses).flatMap Clause.operands := by
  rw [WhereExpr.operandsAll_eq, ← WhereExpr.clausesAll_eq_flatMap, WhereExpr.clausesAll_eq]
  induction WhereExpr.leavesAll es with
  | nil => rfl
  | cons condition conditions ih =>
    cases condition with
    | clause c => exact congrArg (c.operands ++ ·) ih
    | expression text => exact ih
    | group id => exact ih

/-! ## All items -/

/-- Every item, group by group. -/
def items (s : ConditionSet) : List Condition := s.groups.flatMap Group.items

/-- The items that are no groups. -/
def conditions (s : ConditionSet) : List Condition := s.items.filter fun item => !isGroup item

/-- An item added to one of several groups is one more item. -/
theorem items_modify_perm {gs : List Group} {i : Nat} (hi : i < gs.length) (item : Condition) :
    ((gs.modify i fun g => g.push item).flatMap Group.items).Perm
      (item :: gs.flatMap Group.items) := by
  induction gs generalizing i with
  | nil => exact absurd hi (Nat.not_lt_zero i)
  | cons g gs ih =>
    cases i with
    | zero =>
      rw [List.modify_zero_cons, List.flatMap_cons, List.flatMap_cons, Group.push,
        List.append_assoc]
      exact List.perm_middle
    | succ i =>
      rw [List.modify_succ_cons, List.flatMap_cons, List.flatMap_cons]
      have later := ih (Nat.lt_of_succ_lt_succ hi)
      exact (later.append_left g.items).trans List.perm_middle

/-- An item added to a group of the set is one more item. -/
theorem items_push_perm {s : ConditionSet} {id : GroupId} (hid : id ∈ s) (item : Condition) :
    (s.push id item).items.Perm (item :: s.items) :=
  items_modify_perm (mem_iff.1 hid) item

/-- A group opened under a group of the set is one more item. -/
theorem items_openGroup_perm {s : ConditionSet} {parent : GroupId} (hp : parent ∈ s)
    (conjunction : Conjunction) :
    (s.openGroup parent conjunction).1.items.Perm (.group ⟨s.groups.length⟩ :: s.items) := by
  have same : (s.openGroup parent conjunction).1.items =
      (s.push parent (.group ⟨s.groups.length⟩)).items := by
    rw [openGroup, items, List.flatMap_append, List.flatMap_singleton, List.append_nil]
    rfl
  rw [same]
  exact items_push_perm hp _

/-! ## Each group once -/

/-- The groups of a set are a tree: each group but the root is an item exactly once, of an earlier
group, and no item is a group that is not there. -/
structure Tree (s : ConditionSet) : Prop where
  nested : s.Nested
  once : (s.items.filterMap Condition.groupId?).Perm
    ((List.range' 1 (s.groups.length - 1)).map GroupId.mk)

theorem tree_empty : (∅ : ConditionSet).Tree := ⟨nested_empty, .nil⟩

/-- Clauses and raw conditions add no group. -/
theorem Tree.push {s : ConditionSet} (h : s.Tree) {id : GroupId} (hid : id ∈ s)
    {item : Condition} (hitem : isGroup item = false) : (s.push id item).Tree where
  nested := h.nested.push id hitem
  once := by
    have none : item.groupId? = none := by
      cases item with
      | clause c => rfl
      | expression text => rfl
      | group child => cases hitem
    have added := (items_push_perm hid item).filterMap Condition.groupId?
    rw [List.filterMap_cons_none none] at added
    rw [length_push]
    exact added.trans h.once

/-- A group that is opened gets the next number and is an item once. -/
theorem Tree.openGroup {s : ConditionSet} (h : s.Tree) {parent : GroupId} (hp : parent ∈ s)
    (conjunction : Conjunction) : (s.openGroup parent conjunction).1.Tree where
  nested := h.nested.openGroup hp conjunction
  once := by
    have pos := h.nested.length_pos
    have next : s.groups.length + 1 - 1 = s.groups.length - 1 + 1 := by omega
    have number : 1 + (s.groups.length - 1) = s.groups.length := by omega
    have isOpened : (Condition.group ⟨s.groups.length⟩).groupId? = some ⟨s.groups.length⟩ := rfl
    have added := (items_openGroup_perm hp conjunction).filterMap Condition.groupId?
    rw [List.filterMap_cons_some isOpened] at added
    rw [length_openGroup, next, List.range'_1_concat, List.map_append, List.map_singleton,
      number]
    exact added.trans ((h.once.cons _).trans (List.perm_append_singleton _ _).symm)

/-- What is below several items are the conditions among them and what is below the groups among
them. -/
theorem flatMap_below_perm (s : ConditionSet) (items : List Condition) :
    (items.flatMap s.below).Perm
      ((items.filter fun item => !isGroup item) ++
        (items.filterMap Condition.groupId?).flatMap fun id => s.conditionsAt id.index) := by
  induction items with
  | nil => exact .nil
  | cons item rest ih =>
    cases item with
    | clause c => exact ih.cons _
    | expression text => exact ih.cons _
    | group id =>
      have first := ih.append_left (s.conditionsAt id.index)
      refine first.trans ?_
      rw [← List.append_assoc]
      exact (List.perm_append_comm.append_right _).trans (.of_eq (List.append_assoc _ _ _))

/-- Following the groups from the root passes every clause and every raw condition once. -/
theorem Tree.conditionsAt_perm {s : ConditionSet} (h : s.Tree) :
    (s.conditionsAt 0).Perm s.conditions := by
  have pos := h.nested.length_pos
  -- What is in and below all groups, counted in two ways.
  let others : List Condition :=
    (List.range' 1 (s.groups.length - 1)).flatMap s.conditionsAt
  have byNumber : (List.range s.groups.length).flatMap s.conditionsAt =
      s.conditionsAt 0 ++ others := by
    have numbers : List.range s.groups.length = 0 :: List.range' 1 (s.groups.length - 1) := by
      obtain ⟨n, hn⟩ := Nat.exists_eq_add_of_lt pos
      rw [Nat.zero_add] at hn
      rw [hn, List.range_eq_range', List.range'_succ]
      rfl
    rw [numbers, List.flatMap_cons]
  have byItem : (List.range s.groups.length).flatMap s.conditionsAt =
      s.items.flatMap s.below := by
    rw [items, List.flatMap_assoc, List.flatMap_def, List.flatMap_def]
    congr 1
    refine List.ext_getElem (by simp) fun i hi hi' => ?_
    rw [List.getElem_map, List.getElem_map, List.getElem_range]
    exact conditionsAt_eq h.nested (List.getElem?_eq_getElem _)
  have opened : ((s.items.filterMap Condition.groupId?).flatMap fun id =>
      s.conditionsAt id.index).Perm others := by
    refine (h.once.flatMap_right _).trans (.of_eq ?_)
    rw [List.flatMap_map]
  have counted : (s.conditionsAt 0 ++ others).Perm (s.conditions ++ others) := by
    rw [← byNumber, byItem]
    exact (s.flatMap_below_perm s.items).trans (opened.append_left _)
  exact (List.perm_append_right_iff others).1 counted

/-- The clauses, group by group, are those among the items. -/
theorem clauses_eq (s : ConditionSet) : s.clauses = s.items.filterMap clause? := by
  rw [clauses, items, List.filterMap_flatMap]

/-- Depth-first order passes every clause once. -/
theorem Tree.depthFirstClauses_perm {s : ConditionSet} (h : s.Tree) :
    s.depthFirstClauses.Perm s.clauses := by
  have ungrouped : s.conditions.filterMap clause? = s.items.filterMap clause? := by
    rw [conditions, List.filterMap_filter]
    refine List.filterMap_congr fun item _ => ?_
    cases item with
    | clause c => rfl
    | expression text => rfl
    | group id => rfl
  rw [depthFirstClauses_eq h.nested, clauses_eq, ← ungrouped]
  exact h.conditionsAt_perm.filterMap clause?

/-- The clauses of a statement are those that depth-first order passes. -/
theorem Tree.mem_clauses_iff {s : ConditionSet} (h : s.Tree) {c : Clause} :
    c ∈ s.clauses ↔ c ∈ s.depthFirstClauses :=
  h.depthFirstClauses_perm.mem_iff.symm

end ConditionSet

/-! ## Statements -/

namespace Query

open ConditionSet

theorem stable_tree : Stable fun q => q.conditions.Tree where
  ensureJoin := fun _ _ hq => hq
  pushCondition := fun _ _ _ hq hid hitem => hq.push hid hitem
  openGroup := fun _ _ conjunction hq hp => hq.openGroup hp conjunction

/-- The groups of a reachable statement are a tree. -/
theorem Reachable.tree {q : Query} (h : q.Reachable) : q.conditions.Tree :=
  induct (P := fun _ conditions => conditions.Tree) tree_empty stable_tree h

/-- The parameters of a statement are the operands of its clauses in depth-first order. -/
theorem params_render (q : Query) :
    q.render.params = q.conditions.depthFirstClauses.flatMap Clause.operands := by
  rw [render, ConditionSet.render, depthFirstClauses]
  cases hparts : q.conditions.rootParts with
  | nil => rfl
  | cons e es => exact operandsAll_eq_flatMap_clauses (e :: es)

end Query

end RowAccess.Sql
