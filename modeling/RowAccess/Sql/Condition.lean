import RowAccess.Filter.Tree
import RowAccess.Sql.Clause

/-!
# Conditions of a statement

The conditions of a statement are kept as numbered groups, so that a group can be named by
its number while conditions are added to it.  Group 0 is the root, whose items must all
hold; every other group is an item of an earlier one.

Main results:

- `ConditionSet.length_push` and `ConditionSet.length_openGroup`: how many groups there are.
- `ConditionSet.mem_openGroup`: the group that was opened belongs to the set.
-/

namespace RowAccess.Sql

/-- The number of a group. -/
structure GroupId where
  index : Nat
  deriving DecidableEq

/-- The number of the root group. -/
def GroupId.root : GroupId := ⟨0⟩

/-- An item of a group. -/
inductive Condition where
  | clause (c : Clause)
  | expression (text : String)
  | group (id : GroupId)
  deriving DecidableEq

/-- Items that are joined by one conjunction. -/
structure Group where
  conjunction : Conjunction
  items : List Condition
  deriving DecidableEq

/-- Adds an item at the end of a group. -/
def Group.push (g : Group) (item : Condition) : Group := { g with items := g.items ++ [item] }

/-- The groups of a statement by number. -/
structure ConditionSet where
  groups : List Group
  deriving DecidableEq

/-- The use of a number that no group has. -/
structure UnknownGroup where
  index : Nat
  deriving DecidableEq

/-- The message about a number that no group has. -/
def UnknownGroup.message (e : UnknownGroup) : String :=
  "unknown condition group " ++ toString e.index

namespace ConditionSet

/-- The set with an empty root. -/
def empty : ConditionSet := ⟨[⟨.and, []⟩]⟩

instance : EmptyCollection ConditionSet := ⟨empty⟩
instance : Inhabited ConditionSet := ⟨∅⟩

instance : Membership GroupId ConditionSet := ⟨fun s id => id.index < s.groups.length⟩

instance (id : GroupId) (s : ConditionSet) : Decidable (id ∈ s) :=
  inferInstanceAs (Decidable (id.index < s.groups.length))

/-! ## Adding conditions -/

/-- Adds an item to a group of the set. -/
def push (s : ConditionSet) (id : GroupId) (item : Condition) : ConditionSet :=
  ⟨s.groups.modify id.index fun g => g.push item⟩

/-- Opens a group under a group of the set and returns its number, the next free one. -/
def openGroup (s : ConditionSet) (parent : GroupId) (conjunction : Conjunction) :
    ConditionSet × GroupId :=
  let id : GroupId := ⟨s.groups.length⟩
  (⟨(s.push parent (.group id)).groups ++ [⟨conjunction, []⟩]⟩, id)

/-- Adds an item to the group with a number, which must be in use. -/
def add (s : ConditionSet) (id : GroupId) (item : Condition) :
    Except UnknownGroup ConditionSet :=
  if id ∈ s then .ok (s.push id item) else .error ⟨id.index⟩

/-- Opens a group under the group with a number, which must be in use. -/
def addGroup (s : ConditionSet) (parent : GroupId) (conjunction : Conjunction) :
    Except UnknownGroup (ConditionSet × GroupId) :=
  if parent ∈ s then .ok (s.openGroup parent conjunction) else .error ⟨parent.index⟩

/-! ## Views -/

/-- The items of the root. -/
def rootItems (s : ConditionSet) : List Condition :=
  match s.groups with
  | [] => []
  | root :: _ => root.items

/-- The clause that an item is. -/
def clause? : Condition → Option Clause
  | .clause c => some c
  | _ => none

/-- Whether an item is a group. -/
def isGroup : Condition → Bool
  | .group _ => true
  | _ => false

/-- Every clause, group by group. -/
def clauses (s : ConditionSet) : List Clause :=
  s.groups.flatMap fun g => g.items.filterMap clause?

/-- Whether there is nothing but groups. -/
def isEmpty (s : ConditionSet) : Bool :=
  s.groups.all fun g => g.items.all isGroup

/-! ## How the set grows -/

theorem mem_iff {id : GroupId} {s : ConditionSet} : id ∈ s ↔ id.index < s.groups.length :=
  Iff.rfl

@[simp] theorem length_push (s : ConditionSet) (id : GroupId) (item : Condition) :
    (s.push id item).groups.length = s.groups.length :=
  List.length_modify _ _ _

@[simp] theorem length_openGroup (s : ConditionSet) (parent : GroupId)
    (conjunction : Conjunction) :
    (s.openGroup parent conjunction).1.groups.length = s.groups.length + 1 := by
  simp [openGroup]

/-- The group that was opened belongs to the set. -/
theorem mem_openGroup (s : ConditionSet) (parent : GroupId) (conjunction : Conjunction) :
    (s.openGroup parent conjunction).2 ∈ (s.openGroup parent conjunction).1 := by
  rw [mem_iff, length_openGroup]
  exact Nat.lt_succ_self _

end ConditionSet

end RowAccess.Sql
