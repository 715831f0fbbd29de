import RowAccess.Proofs.Sql.Arena
import RowAccess.Proofs.Sql.Joins

/-!
# Statements that can come about

A caller starts from an empty statement and adds joins, relationships, groups and conditions
in any order.  The statements that come about so are the reachable ones.  A compile adds by
three of these operations only; a property that the three preserve is preserved by any
compile, so their preservation is a notion of its own.  Of conditions, a compile adds clauses and
the false one; what these preserve is another.

Main results:

- `Query.Reachable.nested`: the groups of a reachable statement are numbered outside in.
- `Query.Reachable.nodup_aliases`: no two joins of a reachable statement share an alias.
- `Query.stable_reachable`: what a compile does, a caller could have done.
-/

namespace RowAccess.Sql.Query

open ConditionSet

/-- The statements that the operations of the library make, in any order. -/
inductive Reachable : Query → Prop where
  | select (table : String) : Reachable (Query.select table)
  | listing (table : String) : Reachable (Query.listing table)
  /-- The base of a plain selection may be renamed at any time. -/
  | rename {q : Query} (hq : q.Reachable) (hform : q.form = .select) (aliasName : String) :
      Reachable { q with aliasName := aliasName }
  | join {q : Query} (hq : q.Reachable) (r : JoinRequest) : Reachable (q.ensureJoin r).1
  | relate {q q' : Query} (hq : q.Reachable) {name : String} {origin : Option String}
      {table : String} {kind : JoinKind} {leftColumn rightColumn aliasName : String}
      (h : q.addRelationship name origin table kind leftColumn rightColumn =
        some (q', aliasName)) : Reachable q'
  | condition {q q' : Query} (hq : q.Reachable) {id : GroupId} {item : Condition}
      (hitem : isGroup item = false) (h : q.addCondition id item = .ok q') : Reachable q'
  | group {q q' : Query} (hq : q.Reachable) {parent id : GroupId} {conjunction : Conjunction}
      (h : q.addGroup parent conjunction = .ok (q', id)) : Reachable q'

/-- A property of statements that requests for joins, clauses, raw conditions and new groups
preserve. -/
structure Stable (P : Query → Prop) : Prop where
  ensureJoin : ∀ q r, P q → P (q.ensureJoin r).1
  pushCondition : ∀ q id item, P q → id ∈ q.conditions → isGroup item = false →
    P (q.pushCondition id item)
  openGroup : ∀ q parent conjunction, P q → parent ∈ q.conditions →
    P (q.openGroup parent conjunction).1

/-- A property of statements that what a compile does preserves.  Of raw conditions, a compile adds
the false one only. -/
structure Kept (P : Query → Prop) : Prop where
  ensureJoin : ∀ q r, P q → P (q.ensureJoin r).1
  clause : ∀ q id c, P q → id ∈ q.conditions → P (q.pushCondition id (.clause c))
  alwaysFalse : ∀ q id, P q → id ∈ q.conditions →
    P (q.pushCondition id (.expression alwaysFalse))
  openGroup : ∀ q parent conjunction, P q → parent ∈ q.conditions →
    P (q.openGroup parent conjunction).1

/-- What a caller preserves, a compile does. -/
theorem Stable.kept {P : Query → Prop} (hP : Stable P) : Kept P where
  ensureJoin := hP.ensureJoin
  clause := fun q id c hq hid => hP.pushCondition q id (.clause c) hq hid rfl
  alwaysFalse := fun q id hq hid => hP.pushCondition q id (.expression Sql.alwaysFalse) hq hid rfl
  openGroup := hP.openGroup

/-! ## Stable properties -/

/-- Groups are numbered outside in. -/
theorem stable_nested : Stable fun q => q.conditions.Nested where
  ensureJoin := fun _ _ hq => hq
  pushCondition := fun _ id _ hq _ hitem => hq.push id hitem
  openGroup := fun _ _ conjunction hq hp => hq.openGroup hp conjunction

/-- Aliases of joins are distinct. -/
theorem stable_nodup_aliases : Stable fun q => q.joins.aliases.Nodup where
  ensureJoin := fun _ r hq => JoinSet.nodup_aliases_ensure hq r _ _
  pushCondition := fun _ _ _ hq _ _ => hq
  openGroup := fun _ _ _ hq _ => hq

/-- Two stable properties together. -/
theorem Stable.and {P P' : Query → Prop} (hP : Stable P) (hP' : Stable P') :
    Stable fun q => P q ∧ P' q where
  ensureJoin := fun q r hq => ⟨hP.ensureJoin q r hq.1, hP'.ensureJoin q r hq.2⟩
  pushCondition := by
    intro q id item hq hid hitem
    exact ⟨hP.pushCondition q id item hq.1 hid hitem, hP'.pushCondition q id item hq.2 hid hitem⟩
  openGroup := by
    intro q parent conjunction hq hp
    exact ⟨hP.openGroup q parent conjunction hq.1 hp, hP'.openGroup q parent conjunction hq.2 hp⟩

/-- Groups never vanish. -/
theorem stable_mem (id : GroupId) : Stable fun q => id ∈ q.conditions where
  ensureJoin := fun _ _ hq => hq
  pushCondition := by
    intro q target item hq _ _
    rw [mem_iff, Query.pushCondition, ConditionSet.length_push]
    exact hq
  openGroup := by
    intro q parent conjunction hq _
    rw [mem_iff, Query.openGroup, ConditionSet.length_openGroup]
    exact Nat.lt_succ_of_lt hq

/-- A stable property may say that a group is there. -/
theorem Stable.and_mem {P : Query → Prop} (hP : Stable P) (id : GroupId) :
    Stable fun q => P q ∧ id ∈ q.conditions :=
  hP.and (stable_mem id)

/-- Two properties that a compile preserves together. -/
theorem Kept.and {P P' : Query → Prop} (hP : Kept P) (hP' : Kept P') :
    Kept fun q => P q ∧ P' q where
  ensureJoin := fun q r hq => ⟨hP.ensureJoin q r hq.1, hP'.ensureJoin q r hq.2⟩
  clause := fun q id c hq hid => ⟨hP.clause q id c hq.1 hid, hP'.clause q id c hq.2 hid⟩
  alwaysFalse := fun q id hq hid => ⟨hP.alwaysFalse q id hq.1 hid, hP'.alwaysFalse q id hq.2 hid⟩
  openGroup := by
    intro q parent conjunction hq hp
    exact ⟨hP.openGroup q parent conjunction hq.1 hp, hP'.openGroup q parent conjunction hq.2 hp⟩

/-- Joins only ever grow. -/
theorem stable_extends (joins : JoinSet) : Stable fun q => joins.Extends q.joins where
  ensureJoin := fun q r hq => hq.trans (q.joins.extends_ensure r _ _)
  pushCondition := fun _ _ _ hq _ _ => hq
  openGroup := fun _ _ _ hq _ => hq

/-! ## Checked operations -/

/-- A condition that was accepted was added to a group of the statement. -/
theorem addCondition_ok {q q' : Query} {id : GroupId} {item : Condition}
    (h : q.addCondition id item = .ok q') : id ∈ q.conditions ∧ q' = q.pushCondition id item := by
  rw [addCondition, ConditionSet.add] at h
  split at h
  next hid => exact ⟨hid, (Except.ok.inj h).symm⟩
  next => cases h

/-- A group that was accepted was opened under a group of the statement. -/
theorem addGroup_ok {q q' : Query} {parent id : GroupId} {conjunction : Conjunction}
    (h : q.addGroup parent conjunction = .ok (q', id)) :
    parent ∈ q.conditions ∧ q' = (q.openGroup parent conjunction).1 := by
  rw [addGroup, ConditionSet.addGroup] at h
  split at h
  next hp => exact ⟨hp, (Prod.mk.inj (Except.ok.inj h)).1.symm⟩
  next => cases h

/-- A relationship that was accepted is a join with a name. -/
theorem addRelationship_some {q q' : Query} {name : String} {origin : Option String}
    {table : String} {kind : JoinKind} {leftColumn rightColumn aliasName : String}
    (h : q.addRelationship name origin table kind leftColumn rightColumn =
      some (q', aliasName)) :
    ∃ r form, q' = { (q.ensureJoin r).1 with form := form } := by
  rw [addRelationship] at h
  split at h
  next => cases h
  next relationships _ =>
    cases origin with
    | some earlier =>
      rcases Option.bind_eq_some_iff.1 h with ⟨anchor, -, h⟩
      have same := (Prod.mk.inj (Option.some.inj h)).1
      exact ⟨⟨table, kind, anchor.column leftColumn, rightColumn⟩, _, same.symm⟩
    | none =>
      have same := (Prod.mk.inj (Option.some.inj h)).1
      exact ⟨⟨table, kind, q.base.column leftColumn, rightColumn⟩, _, same.symm⟩

/-! ## What holds of every reachable statement -/

namespace Reachable

/-- A property of the conditions and the joins that holds at first and is stable holds of every
reachable statement. -/
theorem induct {P : JoinSet → ConditionSet → Prop} (start : P ∅ ∅)
    (stable : Stable fun q => P q.joins q.conditions) {q : Query} (h : q.Reachable) :
    P q.joins q.conditions := by
  induction h with
  | select table => exact start
  | listing table => exact start
  | rename hq hform aliasName ih => exact ih
  | join hq r ih => exact stable.ensureJoin _ r ih
  | relate hq h ih =>
    rcases addRelationship_some h with ⟨r, form, rfl⟩
    exact stable.ensureJoin _ r ih
  | condition hq hitem h ih =>
    rcases addCondition_ok h with ⟨hid, rfl⟩
    exact stable.pushCondition _ _ _ ih hid hitem
  | group hq h ih =>
    rcases addGroup_ok h with ⟨hp, rfl⟩
    exact stable.openGroup _ _ _ ih hp

/-- The groups of a reachable statement are numbered outside in. -/
theorem nested {q : Query} (h : q.Reachable) : q.conditions.Nested :=
  induct (P := fun _ conditions => conditions.Nested) nested_empty stable_nested h

/-- No two joins of a reachable statement share an alias. -/
theorem nodup_aliases {q : Query} (h : q.Reachable) : q.joins.aliases.Nodup :=
  induct (P := fun joins _ => joins.aliases.Nodup) List.nodup_nil stable_nodup_aliases h

end Reachable

/-- The root is a group of every reachable statement. -/
theorem Reachable.root_mem {q : Query} (h : q.Reachable) : GroupId.root ∈ q.conditions :=
  h.nested.length_pos

/-- What a compile does, a caller could have done. -/
theorem stable_reachable : Stable Reachable where
  ensureJoin := fun _ r hq => hq.join r
  pushCondition := by
    intro q id item hq hid hitem
    have pushed : q.addCondition id item = .ok (q.pushCondition id item) := by
      rw [addCondition, ConditionSet.add, if_pos hid]
      rfl
    exact hq.condition hitem pushed
  openGroup := by
    intro q parent conjunction hq hp
    have opened : q.addGroup parent conjunction = .ok (q.openGroup parent conjunction) := by
      rw [addGroup, ConditionSet.addGroup, if_pos hp]
      rfl
    exact hq.group opened

end RowAccess.Sql.Query
