import RowAccess.Sql.WhereExpr

/-!
# Groups as expressions

The groups of a statement are numbered, and each is an item of an earlier one.  This module
says which expression a numbered group comes to, and that adding items to one group leaves
the expressions of all groups alone that it is not part of.  Every change that a filter
makes to a statement is such an addition.

Main results:

- `ConditionSet.exprAt_eq`: a group comes to the conjunction of what its items come to.
- `ConditionSet.parts_induction`: what holds of all conditions and is kept by joining holds of
  what they come to.
- `ConditionSet.exprAt_congr`: a group depends on the groups from its own number on.
- `ConditionSet.Grows.trans`, `ConditionSet.Grows.nest`: additions to one group, one after
  the other, and an addition to a group that was opened under it.
-/

namespace RowAccess.Sql

namespace WhereExpr

/-! ## Unfolding by number -/

theorem length_ofGroups (first : Nat) (gs : List Group) :
    (ofGroups first gs).length = gs.length := by
  induction gs generalizing first with
  | nil => rfl
  | cons g later ih => simp [ofGroups, ih]

/-- The expression of a group, given those of the groups behind it. -/
theorem getElem?_ofGroups (first i : Nat) (gs : List Group) :
    (ofGroups first gs)[i]? = gs[i]?.map fun g =>
      join g.conjunction (partsOf
        (ofGroups.lookupFrom (first + i + 1) ((ofGroups first gs).drop (i + 1))) g.items) := by
  induction i generalizing first gs with
  | zero =>
    cases gs with
    | nil => rfl
    | cons g later => simp [ofGroups]
  | succ i ih =>
    cases gs with
    | nil => rfl
    | cons g later =>
      rw [ofGroups, List.getElem?_cons_succ, List.getElem?_cons_succ, List.drop_succ_cons, ih]
      have numbers : first + 1 + i + 1 = first + (i + 1) + 1 := by omega
      rw [numbers]

/-- Two ways to unfold groups agree on items if they agree on the groups among these. -/
theorem partsOf_congr {f f' : Nat → Option WhereExpr} {items : List Condition}
    (h : ∀ id, Condition.group id ∈ items → f id.index = f' id.index) :
    partsOf f items = partsOf f' items := by
  induction items with
  | nil => rfl
  | cons item rest ih =>
    have same : ofCondition? f item = ofCondition? f' item := by
      cases item with
      | clause c => rfl
      | expression text => rfl
      | group id => exact h id List.mem_cons_self
    have later := ih fun id hid => h id (List.mem_cons_of_mem _ hid)
    simp only [partsOf] at later
    simp only [partsOf, List.filterMap_cons, same, later]

theorem partsOf_append (f : Nat → Option WhereExpr) (xs ys : List Condition) :
    partsOf f (xs ++ ys) = partsOf f xs ++ partsOf f ys :=
  List.filterMap_append

end WhereExpr

namespace ConditionSet

/-! ## What a group comes to -/

/-- What the group with a number comes to. -/
def exprAt (s : ConditionSet) (i : Nat) : Option WhereExpr :=
  (WhereExpr.ofGroups 0 s.groups)[i]?.join

/-- What several items come to. -/
def parts (s : ConditionSet) (items : List Condition) : List WhereExpr :=
  WhereExpr.partsOf s.exprAt items

theorem parts_append (s : ConditionSet) (xs ys : List Condition) :
    s.parts (xs ++ ys) = s.parts xs ++ s.parts ys :=
  WhereExpr.partsOf_append _ _ _

theorem parts_group (s : ConditionSet) (id : GroupId) :
    s.parts [.group id] = (s.exprAt id.index).toList := by
  cases h : s.exprAt id.index <;> simp [parts, WhereExpr.partsOf, WhereExpr.ofCondition?, h]

/-- The root joins its items by AND, and every group that is an item comes later than the
group that it is in. -/
structure Nested (s : ConditionSet) : Prop where
  root : ∃ items, s.groups[0]? = some ⟨.and, items⟩
  later : ∀ i g, s.groups[i]? = some g → ∀ id, Condition.group id ∈ g.items →
    i < id.index ∧ id.index < s.groups.length

theorem Nested.length_pos {s : ConditionSet} (h : s.Nested) : 0 < s.groups.length := by
  rcases h.root with ⟨items, hroot⟩
  exact (List.getElem?_eq_some_iff.1 hroot).1

/-- Behind a group, its items are looked up among all groups. -/
theorem lookupFrom_eq (s : ConditionSet) {i j : Nat} (h : i < j) :
    WhereExpr.ofGroups.lookupFrom (i + 1)
      ((WhereExpr.ofGroups 0 s.groups).drop (i + 1)) j = s.exprAt j := by
  have behind : ¬ j < i + 1 := by omega
  have number : i + 1 + (j - (i + 1)) = j := by omega
  rw [WhereExpr.ofGroups.lookupFrom, if_neg behind, List.getElem?_drop, number, exprAt]

/-- A group comes to the conjunction of what its items come to. -/
theorem exprAt_eq {s : ConditionSet} (h : s.Nested) {i : Nat} {g : Group}
    (hg : s.groups[i]? = some g) :
    s.exprAt i = WhereExpr.join g.conjunction (s.parts g.items) := by
  rw [exprAt, WhereExpr.getElem?_ofGroups, hg, Option.map_some, Option.join_some, parts,
    Nat.zero_add]
  congr 1
  refine WhereExpr.partsOf_congr fun id hid => ?_
  exact s.lookupFrom_eq (h.later i g hg id hid).1

/-- A number that no group has stands for nothing. -/
theorem exprAt_eq_none {s : ConditionSet} {i : Nat} (h : s.groups.length ≤ i) :
    s.exprAt i = none := by
  rw [exprAt, List.getElem?_eq_none (by rwa [WhereExpr.length_ofGroups]), Option.join_none]

/-- The first group is the root. -/
theorem rootItems_eq {s : ConditionSet} {g : Group} (hg : s.groups[0]? = some g) :
    s.rootItems = g.items := by
  rcases s with ⟨_ | ⟨root, later⟩⟩
  · cases hg
  · obtain rfl : root = g := Option.some.inj hg
    rfl

/-- The conditions of a statement are what the items of its root come to. -/
theorem rootParts_eq {s : ConditionSet} (h : s.Nested) :
    s.rootParts = s.parts s.rootItems := by
  rcases s with ⟨_ | ⟨root, later⟩⟩
  · exact absurd h.length_pos (Nat.lt_irrefl 0)
  · rw [rootParts, rootItems, parts]
    refine WhereExpr.partsOf_congr fun id hid => ?_
    have behind := (h.later 0 root rfl id hid).1
    rw [← lookupFrom_eq ⟨root :: later⟩ behind]
    rfl

/-- What holds of the clauses and the raw conditions of a set and is kept by joining holds of
what the items of every group come to. -/
theorem parts_induction {P : WhereExpr → Prop} {s : ConditionSet} (hs : s.Nested)
    (clause : ∀ g ∈ s.groups, ∀ c, Condition.clause c ∈ g.items → P (.clause c))
    (expression : ∀ g ∈ s.groups, ∀ text, Condition.expression text ∈ g.items →
      P (.expression text))
    (joined : ∀ conjunction es e, (∀ part ∈ es, P part) →
      WhereExpr.join conjunction es = some e → P e)
    {i : Nat} {g : Group} (hg : s.groups[i]? = some g) : ∀ e ∈ s.parts g.items, P e := by
  -- Later groups first: the items of a group are behind it.
  induction hn : s.groups.length - i using Nat.strongRecOn generalizing i g with
  | ind n ih =>
    intro e he
    obtain ⟨item, hitem, came⟩ := List.mem_filterMap.1 he
    have hmem := List.mem_of_getElem? hg
    cases item with
    | clause c =>
      obtain rfl := Option.some.inj came
      exact clause g hmem c hitem
    | expression text =>
      obtain rfl := Option.some.inj came
      exact expression g hmem text hitem
    | group id =>
      obtain ⟨behind, inside⟩ := hs.later i g hg id hitem
      have hchild : s.groups[id.index]? = some s.groups[id.index] :=
        List.getElem?_eq_getElem inside
      have below := ih (s.groups.length - id.index) (by omega) hchild rfl
      exact joined _ _ e below ((exprAt_eq hs hchild).symm.trans came)

/-- A group depends on the groups from its own number on. -/
theorem exprAt_congr {s s' : ConditionSet} (h : s.Nested) (h' : s'.Nested) {low : Nat}
    (same : ∀ j, low ≤ j → j < s.groups.length → s'.groups[j]? = s.groups[j]?) {i : Nat}
    (hlow : low ≤ i) (hi : i < s.groups.length) : s'.exprAt i = s.exprAt i := by
  -- Later groups first: the items of a group are behind it.
  induction hn : s.groups.length - i using Nat.strongRecOn generalizing i with
  | ind n ih =>
    have hg : s.groups[i]? = some s.groups[i] := List.getElem?_eq_getElem hi
    rw [exprAt_eq h hg, exprAt_eq h' ((same i hlow hi).trans hg)]
    congr 1
    refine WhereExpr.partsOf_congr fun id hid => ?_
    rcases h.later i _ hg id hid with ⟨behind, inside⟩
    exact ih (s.groups.length - id.index) (by omega) (by omega) inside rfl

/-! ## Single steps -/

/-- Adding an item changes the group that it is added to and no other. -/
theorem getElem?_push (s : ConditionSet) (id : GroupId) (item : Condition) (j : Nat) :
    (s.push id item).groups[j]? =
      s.groups[j]?.map fun g => if id.index = j then g.push item else g :=
  List.getElem?_modify _ _ _ _

/-- A group opened under another gets the next number. -/
theorem getElem?_openGroup (s : ConditionSet) (parent : GroupId) (conjunction : Conjunction)
    (j : Nat) :
    (s.openGroup parent conjunction).1.groups[j]? =
      if j = s.groups.length then some ⟨conjunction, []⟩
      else (s.push parent (.group ⟨s.groups.length⟩)).groups[j]? := by
  rw [openGroup, List.getElem?_append]
  simp only [length_push]
  by_cases hlt : j < s.groups.length
  · rw [if_pos hlt, if_neg (Nat.ne_of_lt hlt)]
  · rw [if_neg hlt]
    by_cases heq : j = s.groups.length
    · subst heq
      simp
    · rw [if_neg heq, List.getElem?_eq_none (by simp; omega),
        List.getElem?_eq_none (by simp; omega)]

theorem nested_empty : (∅ : ConditionSet).Nested where
  root := ⟨[], rfl⟩
  later := by
    intro i g hg id hid
    rcases i with _ | i
    · obtain rfl : (⟨.and, []⟩ : Group) = g := Option.some.inj hg
      exact absurd hid List.not_mem_nil
    · cases hg

/-- The items of a group after an item was added to some group. -/
theorem mem_items_push {s : ConditionSet} {id : GroupId} {item : Condition} {i : Nat}
    {g : Group} (hg : (s.push id item).groups[i]? = some g) {x : Condition}
    (hx : x ∈ g.items) :
    (x = item ∧ i = id.index) ∨ ∃ old, s.groups[i]? = some old ∧ x ∈ old.items := by
  rw [getElem?_push] at hg
  rcases Option.map_eq_some_iff.1 hg with ⟨old, hold, rfl⟩
  split at hx
  next heq =>
    rcases List.mem_append.1 hx with hx | hx
    · exact .inr ⟨old, hold, hx⟩
    · exact .inl ⟨List.mem_singleton.1 hx, heq.symm⟩
  next => exact .inr ⟨old, hold, hx⟩

/-- Clauses and raw conditions nest nothing. -/
theorem Nested.push {s : ConditionSet} (h : s.Nested) (id : GroupId) {item : Condition}
    (hitem : isGroup item = false) : (s.push id item).Nested where
  root := by
    rcases h.root with ⟨items, hroot⟩
    refine ⟨if id.index = 0 then items ++ [item] else items, ?_⟩
    rw [getElem?_push, hroot, Option.map_some]
    split <;> rfl
  later := by
    intro i g hg child hchild
    rw [length_push]
    rcases mem_items_push hg hchild with ⟨rfl, -⟩ | ⟨old, hold, hmem⟩
    · exact absurd hitem (by simp [isGroup])
    · exact h.later i old hold child hmem

/-- A group opened under a group of the set comes later than it. -/
theorem Nested.openGroup {s : ConditionSet} (h : s.Nested) {parent : GroupId}
    (hp : parent ∈ s) (conjunction : Conjunction) :
    (s.openGroup parent conjunction).1.Nested where
  root := by
    rcases h.root with ⟨items, hroot⟩
    refine ⟨if parent.index = 0 then items ++ [.group ⟨s.groups.length⟩] else items, ?_⟩
    rw [getElem?_openGroup, if_neg (Nat.ne_of_lt h.length_pos), getElem?_push, hroot,
      Option.map_some]
    split <;> rfl
  later := by
    intro i g hg child hchild
    rw [length_openGroup]
    rw [getElem?_openGroup] at hg
    split at hg
    next =>
      obtain rfl := Option.some.inj hg
      exact absurd hchild List.not_mem_nil
    next =>
      rcases mem_items_push hg hchild with ⟨heq, hi⟩ | ⟨old, hold, hmem⟩
      · obtain rfl : child = ⟨s.groups.length⟩ := Condition.group.inj heq
        have inside := mem_iff.1 hp
        rw [hi]
        exact ⟨inside, Nat.lt_succ_self _⟩
      · rcases h.later i old hold child hmem with ⟨behind, inside⟩
        exact ⟨behind, Nat.lt_succ_of_lt inside⟩

/-! ## Additions to one group -/

/-- One set is another after items were added to one group, together with the groups that
these items need. -/
structure Grows (s : ConditionSet) (id : GroupId) (items : List Condition)
    (s' : ConditionSet) : Prop where
  /-- The group itself got the items. -/
  target : ∀ g, s.groups[id.index]? = some g →
    s'.groups[id.index]? = some { g with items := g.items ++ items }
  /-- Every other group stayed as it was. -/
  others : ∀ j, j ≠ id.index → j < s.groups.length → s'.groups[j]? = s.groups[j]?
  length_le : s.groups.length ≤ s'.groups.length
  /-- The groups among the items are new. -/
  fresh : ∀ child, Condition.group child ∈ items →
    s.groups.length ≤ child.index ∧ child.index < s'.groups.length

namespace Grows

theorem refl (s : ConditionSet) (id : GroupId) : s.Grows id [] s where
  target := by intro g hg; rw [List.append_nil]; exact hg
  others := fun _ _ _ => rfl
  length_le := Nat.le_refl _
  fresh := fun _ h => absurd h List.not_mem_nil

/-- A set that stayed as it was got no items. -/
theorem eq_nil_of_same {s : ConditionSet} {id : GroupId} {items : List Condition}
    (h : s.Grows id items s) (hid : id ∈ s) : items = [] := by
  have hg : s.groups[id.index]? = some s.groups[id.index] :=
    List.getElem?_eq_getElem (mem_iff.1 hid)
  have same := Option.some.inj (hg.symm.trans (h.target _ hg))
  exact List.self_eq_append_right.1 (congrArg Group.items same)

/-- A clause or a raw condition is one item. -/
theorem push (s : ConditionSet) (id : GroupId) {item : Condition}
    (hitem : isGroup item = false) : s.Grows id [item] (s.push id item) where
  target := by
    intro g hg
    rw [getElem?_push, hg, Option.map_some, if_pos rfl]
    rfl
  others := by
    intro j hj _
    rw [getElem?_push]
    simp [Ne.symm hj]
  length_le := Nat.le_of_eq (s.length_push id item).symm
  fresh := by
    intro child hchild
    rw [← List.mem_singleton.1 hchild] at hitem
    exact absurd hitem (by simp [isGroup])

/-- Additions to the same group, one after the other. -/
theorem trans {s s' s'' : ConditionSet} {id : GroupId} {xs ys : List Condition}
    (h : s.Grows id xs s') (h' : s'.Grows id ys s'') : s.Grows id (xs ++ ys) s'' where
  target := by
    intro g hg
    rw [h'.target _ (h.target g hg), List.append_assoc]
  others := by
    intro j hj hlt
    rw [h'.others j hj (Nat.lt_of_lt_of_le hlt h.length_le), h.others j hj hlt]
  length_le := Nat.le_trans h.length_le h'.length_le
  fresh := by
    intro child hchild
    rcases List.mem_append.1 hchild with hx | hy
    · exact ⟨(h.fresh child hx).1, Nat.lt_of_lt_of_le (h.fresh child hx).2 h'.length_le⟩
    · exact ⟨Nat.le_trans h.length_le (h'.fresh child hy).1, (h'.fresh child hy).2⟩

/-- An addition to a group that was opened for it is one item of the group above. -/
theorem nest {s s' : ConditionSet} {id : GroupId} (hid : id ∈ s) {conjunction : Conjunction}
    {items : List Condition}
    (h : (s.openGroup id conjunction).1.Grows (s.openGroup id conjunction).2 items s') :
    s.Grows id [.group (s.openGroup id conjunction).2] s' := by
  have inside := mem_iff.1 hid
  have number : (s.openGroup id conjunction).2.index = s.groups.length := rfl
  have longer := h.length_le
  rw [length_openGroup] at longer
  refine ⟨fun g hg => ?_, fun j hj hlt => ?_, by omega, fun child hchild => ?_⟩
  · rw [h.others _ (by omega) (by simp; omega), getElem?_openGroup, if_neg (by omega),
      getElem?_push, hg, Option.map_some, if_pos rfl]
    rfl
  · rw [h.others j (by omega) (by simp; omega), getElem?_openGroup, if_neg (by omega),
      getElem?_push]
    simp [Ne.symm hj]
  · obtain rfl := Condition.group.inj (List.mem_singleton.1 hchild)
    exact ⟨Nat.le_of_eq number.symm, by omega⟩

/-- The group opened for an addition holds the items. -/
theorem getElem?_opened {s s' : ConditionSet} {id : GroupId} {conjunction : Conjunction}
    {items : List Condition}
    (h : (s.openGroup id conjunction).1.Grows (s.openGroup id conjunction).2 items s') :
    s'.groups[(s.openGroup id conjunction).2.index]? = some ⟨conjunction, items⟩ := by
  have opened : (s.openGroup id conjunction).1.groups[s.groups.length]? =
      some ⟨conjunction, []⟩ := by
    rw [getElem?_openGroup, if_pos rfl]
  exact h.target _ opened

/-- The group opened for an addition comes to the conjunction of what the items come to. -/
theorem parts_opened {s s' : ConditionSet} {id : GroupId} {conjunction : Conjunction}
    {items : List Condition}
    (h : (s.openGroup id conjunction).1.Grows (s.openGroup id conjunction).2 items s')
    (hs' : s'.Nested) :
    s'.parts [.group (s.openGroup id conjunction).2] =
      (WhereExpr.join conjunction (s'.parts items)).toList := by
  have unfolded : s'.exprAt (s.openGroup id conjunction).2.index =
      WhereExpr.join conjunction (s'.parts items) := exprAt_eq hs' h.getElem?_opened
  rw [parts_group, unfolded]

/-- Items among the groups behind the one that was added to come to what they came to. -/
theorem parts_eq {s s' : ConditionSet} {id : GroupId} {items : List Condition}
    (h : s.Grows id items s') (hs : s.Nested) (hs' : s'.Nested) {ys : List Condition}
    (behind : ∀ child, Condition.group child ∈ ys →
      id.index < child.index ∧ child.index < s.groups.length) :
    s'.parts ys = s.parts ys := by
  refine WhereExpr.partsOf_congr fun child hchild => ?_
  rcases behind child hchild with ⟨hlow, hi⟩
  exact exprAt_congr hs hs'
    (fun j hj hlt => h.others j (Nat.ne_of_gt hj) hlt) hlow hi

/-- An addition to the root adds to the conditions what its items come to. -/
theorem rootParts_eq {s s' : ConditionSet} {items : List Condition}
    (h : s.Grows .root items s') (hs : s.Nested) (hs' : s'.Nested) :
    s'.rootParts = s.rootParts ++ s'.parts items := by
  have nonempty := hs.length_pos
  have hroot : s.groups[0]? = some s.groups[0] := List.getElem?_eq_getElem nonempty
  rw [ConditionSet.rootParts_eq hs', ConditionSet.rootParts_eq hs,
    rootItems_eq (h.target _ hroot), rootItems_eq hroot, parts_append]
  congr 1
  exact h.parts_eq hs hs' fun child hchild => hs.later 0 _ hroot child hchild

end Grows

end ConditionSet

end RowAccess.Sql
