import Mathlib.Data.List.Basic
import Mathlib.Order.BoundedOrder.Lattice
import RowAccess.Proofs.Sql.Arena

/-!
# Truth of conditions

A row makes each clause and each raw condition of a statement true, false or, in SQL,
unknown, and the groups combine these values.  The values may come from any lattice with a
least and a greatest element, so that the two values of logic and the three values of SQL
are both covered: AND is the meet, OR is the join, false is `⊥` and true is `⊤`.

A group without conditions below it counts for nothing, wherever it stands.

Main results:

- `ConditionSet.truthAt_eq`: a group is worth what the expression it comes to is worth.
- `ConditionSet.truth_eq`: a statement's conditions are worth the meet of the parts of its
  root.
- `ConditionSet.Grows.truth_eq`: an addition to the root is one more condition.
-/

namespace RowAccess

/-! ## Joined values -/

section Conjunction

variable {α : Type*} [Lattice α] [BoundedOrder α]

/-- The value of conditions that are joined. -/
def Conjunction.fold (conjunction : Conjunction) (values : List α) : α :=
  match conjunction with
  | .and => values.foldr (· ⊓ ·) ⊤
  | .or => values.foldr (· ⊔ ·) ⊥

/-- The value of conditions that are joined, where no conditions have no value. -/
def Conjunction.fold? (conjunction : Conjunction) (values : List α) : Option α :=
  match values with
  | [] => none
  | _ :: _ => some (conjunction.fold values)

namespace Conjunction

/-- A single condition is worth the same under either conjunction. -/
@[simp] theorem fold_singleton (conjunction : Conjunction) (value : α) :
    conjunction.fold [value] = value := by
  cases conjunction with
  | and => exact inf_top_eq value
  | or => exact sup_bot_eq value

theorem fold_and_cons (value : α) (values : List α) :
    Conjunction.and.fold (value :: values) = value ⊓ Conjunction.and.fold values := rfl

/-- Joint conditions, some of them taken together. -/
theorem fold_and_append (xs ys : List α) :
    Conjunction.and.fold (xs ++ ys) = Conjunction.and.fold xs ⊓ Conjunction.and.fold ys := by
  induction xs with
  | nil => exact (top_inf_eq _).symm
  | cons x xs ih => rw [List.cons_append, fold_and_cons, ih, fold_and_cons, inf_assoc]

theorem fold_or_cons (value : α) (values : List α) :
    Conjunction.or.fold (value :: values) = value ⊔ Conjunction.or.fold values := rfl

/-- Alternatives, some of them taken together. -/
theorem fold_or_append (xs ys : List α) :
    Conjunction.or.fold (xs ++ ys) = Conjunction.or.fold xs ⊔ Conjunction.or.fold ys := by
  induction xs with
  | nil => exact (bot_sup_eq _).symm
  | cons x xs ih => rw [List.cons_append, fold_or_cons, ih, fold_or_cons, sup_assoc]

/-- No joint conditions restrict nothing. -/
theorem getD_fold?_and (values : List α) :
    (Conjunction.and.fold? values).getD ⊤ = Conjunction.and.fold values := by
  cases values with
  | nil => rfl
  | cons value values => rfl

end Conjunction

end Conjunction

namespace Sql

/-- What each clause and each raw condition is worth on some row. -/
structure Assignment (α : Type*) where
  clause : Clause → α
  expression : String → α

variable {α : Type*} [Lattice α] [BoundedOrder α] (ρ : Assignment α)

/-! ## Expressions -/

namespace WhereExpr

mutual

/-- What an expression is worth. -/
def value : WhereExpr → α
  | clause c => ρ.clause c
  | expression text => ρ.expression text
  | joined conjunction parts => conjunction.fold (valueAll parts)

/-- What several expressions are worth. -/
def valueAll : List WhereExpr → List α
  | [] => []
  | e :: es => value e :: valueAll es

end

theorem valueAll_eq_map (es : List WhereExpr) : valueAll ρ es = es.map (value ρ) := by
  induction es with
  | nil => rfl
  | cons e es ih => rw [valueAll, ih, List.map_cons]

/-- Several expressions are joined by a group. -/
theorem join_cons_cons (conjunction : Conjunction) (a b : WhereExpr) (es : List WhereExpr) :
    join conjunction (a :: b :: es) = some (joined conjunction (a :: b :: es)) := rfl

/-- Joining expressions joins their values. -/
theorem map_value_join (conjunction : Conjunction) (es : List WhereExpr) :
    (join conjunction es).map (value ρ) = conjunction.fold? (es.map (value ρ)) := by
  match es with
  | [] => rfl
  | [only] =>
    rw [join, Option.map_some, List.map_singleton, Conjunction.fold?,
      Conjunction.fold_singleton]
  | first :: second :: rest =>
    rw [join_cons_cons, Option.map_some, value, valueAll_eq_map]
    rfl

mutual

/-- The clauses of an expression from left to right. -/
def clauses : WhereExpr → List Clause
  | clause c => [c]
  | expression _ => []
  | joined _ parts => clausesAll parts

/-- The clauses of several expressions from left to right. -/
def clausesAll : List WhereExpr → List Clause
  | [] => []
  | e :: es => clauses e ++ clausesAll es

end

theorem clausesAll_eq_flatMap (es : List WhereExpr) : clausesAll es = es.flatMap clauses := by
  induction es with
  | nil => rfl
  | cons e es ih => rw [clausesAll, ih, List.flatMap_cons]

/-- Joining expressions neither loses nor reorders clauses. -/
theorem flatMap_clauses_join (conjunction : Conjunction) (es : List WhereExpr) :
    (join conjunction es).toList.flatMap clauses = es.flatMap clauses := by
  match es with
  | [] => rfl
  | [only] => rfl
  | first :: second :: rest =>
    rw [join_cons_cons, Option.toList_some, List.flatMap_singleton, clauses,
      clausesAll_eq_flatMap]

end WhereExpr

/-! ## Groups -/

namespace ConditionSet

/-- The clauses of a statement in depth-first order of its groups. -/
def depthFirstClauses (s : ConditionSet) : List Clause := s.rootParts.flatMap WhereExpr.clauses

/-- What the group with a number is worth, if there are conditions in it or below it.  Only
later groups can be items of a group. -/
def truthAt (s : ConditionSet) (i : Nat) : Option α :=
  if hi : i < s.groups.length then
    s.groups[i].conjunction.fold? <| s.groups[i].items.filterMap fun item =>
      match item with
      | .clause c => some (ρ.clause c)
      | .expression text => some (ρ.expression text)
      | .group id => if hlt : i < id.index then truthAt s id.index else none
  else none
termination_by s.groups.length - i

/-- What the conditions of a statement are worth; no conditions restrict nothing. -/
def truth (s : ConditionSet) : α := (s.truthAt ρ 0).getD ⊤

/-- A group is worth what the expression it comes to is worth. -/
theorem truthAt_eq {s : ConditionSet} (hs : s.Nested) (i : Nat) :
    s.truthAt ρ i = (s.exprAt i).map (WhereExpr.value ρ) := by
  -- Later groups first: the items of a group are behind it.
  induction hn : s.groups.length - i using Nat.strongRecOn generalizing i with
  | ind n ih =>
    by_cases hi : i < s.groups.length
    · have hg : s.groups[i]? = some s.groups[i] := List.getElem?_eq_getElem hi
      rw [truthAt, dif_pos hi, exprAt_eq hs hg, WhereExpr.map_value_join, parts,
        WhereExpr.partsOf, List.map_filterMap]
      congr 1
      refine List.filterMap_congr fun item hitem => ?_
      cases item with
      | clause c => rfl
      | expression text => rfl
      | group id =>
        rcases hs.later i _ hg id hitem with ⟨behind, inside⟩
        have later := ih (s.groups.length - id.index) (by omega) id.index rfl
        simp only [dif_pos behind, later]
        rfl
    · rw [truthAt, dif_neg hi, exprAt_eq_none (Nat.le_of_not_lt hi), Option.map_none]

/-- The conditions of a statement are worth the meet of the parts of its root. -/
theorem truth_eq {s : ConditionSet} (hs : s.Nested) :
    s.truth ρ = Conjunction.and.fold (s.rootParts.map (WhereExpr.value ρ)) := by
  rcases hs.root with ⟨items, hroot⟩
  rw [truth, truthAt_eq ρ hs, exprAt_eq hs hroot, WhereExpr.map_value_join, rootParts_eq hs,
    rootItems_eq hroot, Conjunction.getD_fold?_and]

/-- An addition to the root is one more condition that must hold. -/
theorem Grows.truth_eq {s s' : ConditionSet} {items : List Condition}
    (h : s.Grows .root items s') (hs : s.Nested) (hs' : s'.Nested) :
    s'.truth ρ = s.truth ρ ⊓ Conjunction.and.fold ((s'.parts items).map (WhereExpr.value ρ)) := by
  rw [ConditionSet.truth_eq ρ hs', ConditionSet.truth_eq ρ hs, h.rootParts_eq hs hs',
    List.map_append, Conjunction.fold_and_append]

/-- An addition to the root adds its clauses behind the others. -/
theorem Grows.depthFirstClauses_eq {s s' : ConditionSet} {items : List Condition}
    (h : s.Grows .root items s') (hs : s.Nested) (hs' : s'.Nested) :
    s'.depthFirstClauses =
      s.depthFirstClauses ++ (s'.parts items).flatMap WhereExpr.clauses := by
  rw [depthFirstClauses, h.rootParts_eq hs hs', List.flatMap_append]
  rfl

end ConditionSet

end Sql

end RowAccess
