import Mathlib.Data.List.Nodup
import RowAccess.Proofs.Sql.Rendering
import RowAccess.Proofs.Sql.Traversal

/-!
# Building up conditions

A caller builds up the conditions of a statement by calls: each adds a clause, a raw condition or a
group to the group with a number, and is refused if no group has that number.  Whatever the calls,
the groups are a tree whose root is the first group, a number once given names the same group ever
after, and what is written holds every condition that was added, each once.

The text is written by going from group to group along the numbers, without looking whether a
group was passed before.  That this ends is due to the shape of the groups: every group is an item
of an earlier one, so there are at most as many levels as there are groups.

Main results:

- `ConditionSet.getElem?_run`: what later calls make of a group.
- `ConditionSet.items_run_perm`: the items of a set are those that calls added.
- `ConditionSet.writeItems_eq`: writing a group ends, with the parts that the group comes to.
- `ConditionSet.sound_run`: all this for every sequence of calls.
-/

namespace RowAccess.Sql

namespace ConditionSet

/-! ## Calls -/

/-- A call that adds to a set. -/
inductive Call where
  | clause (id : GroupId) (c : Clause)
  | expression (id : GroupId) (text : String)
  | group (parent : GroupId) (conjunction : Conjunction)
  deriving DecidableEq

/-- The number that a call uses. -/
def Call.target : Call → GroupId
  | clause id _ => id
  | expression id _ => id
  | group parent _ => parent

/-- The set after a call and the item that the call added.  For a group the item holds the number
that the caller gets. -/
def answer (s : ConditionSet) : Call → Except UnknownGroup (ConditionSet × Condition)
  | .clause id c => (s.add id (.clause c)).map fun s' => (s', .clause c)
  | .expression id text => (s.add id (.expression text)).map fun s' => (s', .expression text)
  | .group parent conjunction =>
    (s.addGroup parent conjunction).map fun opened => (opened.1, .group opened.2)

/-- An item and the group that it was added to. -/
structure Entry where
  target : GroupId
  item : Condition
  deriving DecidableEq

/-- The items that were added to a group, in order. -/
def Entry.itemsOf (id : GroupId) (entries : List Entry) : List Condition :=
  (entries.filter fun entry => entry.target = id).map Entry.item

/-- The clauses and raw conditions that were added, in order. -/
def Entry.conditions (entries : List Entry) : List Condition :=
  (entries.map Entry.item).filter fun item => !isGroup item

/-- What came of several calls. -/
structure Run where
  set : ConditionSet
  /-- What was added, in order. -/
  entries : List Entry
  deriving DecidableEq

/-- Several calls, one after the other.  A call that is refused changes nothing. -/
def run (s : ConditionSet) : List Call → Run
  | [] => ⟨s, []⟩
  | call :: later =>
    match s.answer call with
    | .error _ => s.run later
    | .ok (s', item) => ⟨(s'.run later).set, ⟨call.target, item⟩ :: (s'.run later).entries⟩

/-! ### One call -/

/-- A call with a number that no group has is refused. -/
theorem answer_of_not_mem {s : ConditionSet} {call : Call} (h : call.target ∉ s) :
    s.answer call = .error ⟨call.target.index⟩ := by
  cases call with
  | clause id c =>
    have unknown : id ∉ s := h
    rw [answer, add, if_neg unknown]
    rfl
  | expression id text =>
    have unknown : id ∉ s := h
    rw [answer, add, if_neg unknown]
    rfl
  | group parent conjunction =>
    have unknown : parent ∉ s := h
    rw [answer, addGroup, if_neg unknown]
    rfl

/-- A clause for a group of the set is added. -/
theorem answer_clause {s : ConditionSet} {id : GroupId} (h : id ∈ s) (c : Clause) :
    s.answer (.clause id c) = .ok (s.push id (.clause c), .clause c) := by
  rw [answer, add, if_pos h]
  rfl

/-- A raw condition for a group of the set is added. -/
theorem answer_expression {s : ConditionSet} {id : GroupId} (h : id ∈ s) (text : String) :
    s.answer (.expression id text) = .ok (s.push id (.expression text), .expression text) := by
  rw [answer, add, if_pos h]
  rfl

/-- What a call does to a set that has the group with its number: it adds a clause or a raw
condition to that group, or it opens a group under it. -/
theorem answer_of_mem {s : ConditionSet} {call : Call} (h : call.target ∈ s) :
    (∃ item, isGroup item = false ∧ s.answer call = .ok (s.push call.target item, item)) ∨
      ∃ conjunction, call = .group call.target conjunction ∧
        s.answer call = .ok ((s.openGroup call.target conjunction).1, .group ⟨s.groups.length⟩) := by
  cases call with
  | clause id c => exact .inl ⟨.clause c, rfl, answer_clause h c⟩
  | expression id text => exact .inl ⟨.expression text, rfl, answer_expression h text⟩
  | group parent conjunction =>
    have inUse : parent ∈ s := h
    refine .inr ⟨conjunction, rfl, ?_⟩
    rw [answer, addGroup, if_pos inUse]
    rfl

/-- A call that is not refused uses the number of a group. -/
theorem mem_of_answer {s s' : ConditionSet} {call : Call} {item : Condition}
    (h : s.answer call = .ok (s', item)) : call.target ∈ s := by
  by_contra unknown
  rw [answer_of_not_mem unknown] at h
  cases h

/-- A call keeps to the ways in which sets are built. -/
theorem Built.answer {s s' : ConditionSet} {call : Call} {item : Condition} (hs : s.Built)
    (h : s.answer call = .ok (s', item)) : s'.Built := by
  have hid := mem_of_answer h
  rcases answer_of_mem hid with ⟨added, plain, hcall⟩ | ⟨conjunction, -, hcall⟩
  · obtain ⟨rfl, -⟩ := Prod.mk.inj (Except.ok.inj (h.symm.trans hcall))
    exact hs.add plain (if_pos hid)
  · obtain ⟨rfl, -⟩ := Prod.mk.inj (Except.ok.inj (h.symm.trans hcall))
    exact hs.addGroup (if_pos hid)

/-- A call adds one item. -/
theorem items_answer_perm {s s' : ConditionSet} {call : Call} {item : Condition}
    (h : s.answer call = .ok (s', item)) : s'.items.Perm (item :: s.items) := by
  have hid := mem_of_answer h
  rcases answer_of_mem hid with ⟨added, plain, hcall⟩ | ⟨conjunction, -, hcall⟩
  · obtain ⟨rfl, rfl⟩ := Prod.mk.inj (Except.ok.inj (h.symm.trans hcall))
    exact items_push_perm hid item
  · obtain ⟨rfl, rfl⟩ := Prod.mk.inj (Except.ok.inj (h.symm.trans hcall))
    exact items_openGroup_perm hid conjunction

/-- A call adds its item at the end of the group that it names and leaves the others alone. -/
theorem getElem?_answer {s s' : ConditionSet} {call : Call} {item : Condition}
    (h : s.answer call = .ok (s', item)) {id : GroupId} {g : Group}
    (hg : s.groups[id.index]? = some g) :
    s'.groups[id.index]? = some (if call.target = id then g.push item else g) := by
  have hid := mem_of_answer h
  have pushed (added : Condition) : (s.push call.target added).groups[id.index]? =
      some (if call.target = id then g.push added else g) := by
    rw [getElem?_push, hg, Option.map_some]
    congr 1
    have same : call.target.index = id.index ↔ call.target = id :=
      ⟨congrArg GroupId.mk, congrArg GroupId.index⟩
    exact if_congr same rfl rfl
  rcases answer_of_mem hid with ⟨added, plain, hcall⟩ | ⟨conjunction, -, hcall⟩
  · obtain ⟨rfl, rfl⟩ := Prod.mk.inj (Except.ok.inj (h.symm.trans hcall))
    exact pushed item
  · obtain ⟨rfl, rfl⟩ := Prod.mk.inj (Except.ok.inj (h.symm.trans hcall))
    have inside := (List.getElem?_eq_some_iff.1 hg).1
    rw [getElem?_openGroup, if_neg (Nat.ne_of_lt inside)]
    exact pushed _

/-- A call that opens a group gives it a number that no group had. -/
theorem answer_group {s : ConditionSet} {parent : GroupId} (h : parent ∈ s)
    (conjunction : Conjunction) :
    ∃ s' id, s.answer (.group parent conjunction) = .ok (s', .group id) ∧ id ∉ s ∧
      s'.groups[id.index]? = some ⟨conjunction, []⟩ := by
  refine ⟨(s.openGroup parent conjunction).1, ⟨s.groups.length⟩, ?_, ?_, ?_⟩
  · rw [answer, addGroup, if_pos h]
    rfl
  · rw [mem_iff]
    exact Nat.lt_irrefl _
  · rw [getElem?_openGroup, if_pos rfl]

/-! ### Several calls -/

theorem run_of_error {s : ConditionSet} {call : Call} {e : UnknownGroup}
    (h : s.answer call = .error e) (later : List Call) : s.run (call :: later) = s.run later := by
  rw [run, h]

theorem run_of_ok {s s' : ConditionSet} {call : Call} {item : Condition}
    (h : s.answer call = .ok (s', item)) (later : List Call) :
    s.run (call :: later) =
      ⟨(s'.run later).set, ⟨call.target, item⟩ :: (s'.run later).entries⟩ := by
  rw [run, h]

/-- Calls keep to the ways in which sets are built. -/
theorem Built.run {s : ConditionSet} (hs : s.Built) (calls : List Call) :
    (s.run calls).set.Built := by
  induction calls generalizing s with
  | nil => exact hs
  | cons call later ih =>
    cases h : s.answer call with
    | error e =>
      rw [run_of_error h]
      exact ih hs
    | ok answered =>
      rw [run_of_ok h]
      exact ih (hs.answer h)

/-- The items of a set after several calls are those before and those that were added. -/
theorem items_run_perm (s : ConditionSet) (calls : List Call) :
    (s.run calls).set.items.Perm ((s.run calls).entries.map Entry.item ++ s.items) := by
  induction calls generalizing s with
  | nil => exact .refl _
  | cons call later ih =>
    cases h : s.answer call with
    | error e =>
      rw [run_of_error h]
      exact ih s
    | ok answered =>
      rw [run_of_ok h]
      have first := items_answer_perm h
      exact (ih answered.1).trans ((first.append_left _).trans List.perm_middle)

/-- After several calls a group has the same conjunction, the items that it had and, behind them,
those that were added to it. -/
theorem getElem?_run {s : ConditionSet} {id : GroupId} {g : Group}
    (hg : s.groups[id.index]? = some g) (calls : List Call) :
    (s.run calls).set.groups[id.index]? =
      some { g with items := g.items ++ Entry.itemsOf id (s.run calls).entries } := by
  induction calls generalizing s g with
  | nil =>
    rw [run, Entry.itemsOf, List.filter_nil, List.map_nil, List.append_nil]
    exact hg
  | cons call later ih =>
    cases h : s.answer call with
    | error e =>
      rw [run_of_error h]
      exact ih hg
    | ok answered =>
      rw [run_of_ok h, ih (getElem?_answer h hg)]
      by_cases own : call.target = id
      · simp [Entry.itemsOf, own, Group.push]
      · simp [Entry.itemsOf, own]

/-! ## The tree -/

/-- The groups of a set that was built up are a tree. -/
theorem Built.tree {s : ConditionSet} (h : s.Built) : s.Tree := by
  induction h with
  | empty => exact tree_empty
  | add hs plain added ih =>
    obtain ⟨hid, rfl⟩ := add_ok added
    exact ih.push hid plain
  | addGroup hs added ih =>
    obtain ⟨hparent, rfl⟩ := addGroup_ok added
    exact ih.openGroup hparent _

/-- Each group but the root is an item exactly once. -/
theorem Tree.count_group {s : ConditionSet} (h : s.Tree) {i : Nat} (hpos : 0 < i)
    (hi : i < s.groups.length) : s.items.count (.group ⟨i⟩) = 1 := by
  have numbers : ((List.range' 1 (s.groups.length - 1)).map GroupId.mk).Nodup :=
    List.Nodup.map (fun _ _ same => congrArg GroupId.index same) List.nodup_range'
  have listed : (⟨i⟩ : GroupId) ∈ (List.range' 1 (s.groups.length - 1)).map GroupId.mk := by
    refine List.mem_map_of_mem (List.mem_range'_1.2 ?_)
    omega
  have once := h.once.count_eq ⟨i⟩
  rw [List.count_eq_one_of_mem numbers listed, List.count_filterMap] at once
  rw [← once, List.count]
  congr 1
  funext item
  cases item with
  | clause c => rfl
  | expression text => rfl
  | group id => simp [Condition.groupId?]

/-! ## Writing -/

/-- Several parts in brackets, with a conjunction between them; a single part stands alone. -/
def wrap (conjunction : Conjunction) : List Rendered → List Rendered
  | [] => []
  | [only] => [only]
  | parts =>
    [⟨"(" ++ WhereExpr.conjoin conjunction (parts.map Rendered.sql) ++ ")",
      parts.flatMap Rendered.params⟩]

/-- The parts of a root as the body of a WHERE. -/
def body : List Rendered → Option Rendered
  | [] => none
  | parts =>
    some ⟨WhereExpr.conjoin .and (parts.map Rendered.sql), parts.flatMap Rendered.params⟩

/-- Writes several items one after the other, if each can be written. -/
def writeEach (write : Condition → Option (List Rendered)) :
    List Condition → Option (List Rendered)
  | [] => some []
  | item :: rest => do
    let first ← write item
    let later ← writeEach write rest
    return first ++ later

/-- Writes an item, given how the items of a group are written.  A number that no group has is
passed over. -/
def writeItem (s : ConditionSet) (writeItems : GroupId → Option (List Rendered)) :
    Condition → Option (List Rendered)
  | .clause c => some [⟨c.text, c.operands⟩]
  | .expression text => some [⟨text, []⟩]
  | .group id =>
    match s.groups[id.index]? with
    | none => some []
    | some g => (writeItems id).map (wrap g.conjunction)

/-- Writes the items of a group and, for an item that is a group, those of that group, down to a
depth; nothing comes of it if the depth does not suffice. -/
def writeItems (s : ConditionSet) : Nat → GroupId → Option (List Rendered)
  | 0, _ => none
  | depth + 1, id =>
    match s.groups[id.index]? with
    | none => some []
    | some g => writeEach (s.writeItem (writeItems s depth)) g.items

/-- An expression with its operands. -/
def rendered (e : WhereExpr) : Rendered := ⟨e.text, e.operands⟩

/-- What the group with a number has for parts. -/
def partsOfGroup (s : ConditionSet) (id : GroupId) : List WhereExpr :=
  match s.groups[id.index]? with
  | none => []
  | some g => s.parts g.items

/-- Several items are written as what each of them is written as. -/
theorem writeEach_eq {write : Condition → Option (List Rendered)}
    {written : Condition → List Rendered} {items : List Condition}
    (h : ∀ item ∈ items, write item = some (written item)) :
    writeEach write items = some (items.flatMap written) := by
  induction items with
  | nil => rfl
  | cons item rest ih =>
    have first := h item List.mem_cons_self
    have later := ih fun x hx => h x (List.mem_cons_of_mem _ hx)
    rw [writeEach, first, later, List.flatMap_cons]
    rfl

/-- Brackets are written where expressions are joined. -/
theorem wrap_map_rendered (conjunction : Conjunction) (es : List WhereExpr) :
    wrap conjunction (es.map rendered) = (WhereExpr.join conjunction es).toList.map rendered := by
  cases es with
  | nil => rfl
  | cons first others =>
    cases others with
    | nil => rfl
    | cons second rest =>
      rw [WhereExpr.join_cons_cons, Option.toList_some, List.map_singleton, rendered,
        WhereExpr.text, WhereExpr.operands, WhereExpr.textAll_eq_map,
        WhereExpr.operandsAll_eq_flatMap]
      simp only [wrap, List.map_cons, List.flatMap_cons, List.map_map, List.flatMap_map]
      rfl

/-- Writing a group ends with its parts, on as many levels as there are groups from it on. -/
theorem writeItems_eq {s : ConditionSet} (hs : s.Nested) {depth : Nat} {id : GroupId}
    (hpos : 0 < depth) (h : s.groups.length ≤ depth + id.index) :
    s.writeItems depth id = some ((s.partsOfGroup id).map rendered) := by
  induction depth generalizing id with
  | zero => exact absurd hpos (Nat.lt_irrefl 0)
  | succ depth ih =>
    rw [writeItems, partsOfGroup]
    cases hg : s.groups[id.index]? with
    | none => rfl
    | some g =>
      have each : ∀ item ∈ g.items, s.writeItem (s.writeItems depth) item =
          some ((WhereExpr.ofCondition? s.exprAt item).toList.map rendered) := by
        intro item hitem
        cases item with
        | clause c => rfl
        | expression text => rfl
        | group child =>
          -- The group below is later, so one level less is enough for it.
          obtain ⟨behind, inside⟩ := hs.later id.index g hg child hitem
          have hchild : s.groups[child.index]? = some s.groups[child.index] :=
            List.getElem?_eq_getElem inside
          have below : s.writeItems depth child = some ((s.partsOfGroup child).map rendered) :=
            ih (by omega) (by omega)
          rw [partsOfGroup, hchild] at below
          simp only [writeItem, hchild, below, Option.map_some, wrap_map_rendered,
            WhereExpr.ofCondition?, exprAt_eq hs hchild]
      refine (writeEach_eq each).trans ?_
      have unfolded : s.parts g.items =
          g.items.flatMap fun item => (WhereExpr.ofCondition? s.exprAt item).toList :=
        List.filterMap_eq_flatMap_toList _ _
      simp only [unfolded, List.map_flatMap]

/-- What is written of the root is the body of the WHERE. -/
theorem body_root {s : ConditionSet} (hs : s.Nested) :
    body ((s.partsOfGroup .root).map rendered) = s.render := by
  obtain ⟨items, hroot⟩ := hs.root
  have root : s.partsOfGroup .root = s.rootParts := by
    have first : s.groups[GroupId.root.index]? = some ⟨.and, items⟩ := hroot
    rw [partsOfGroup, first, rootParts_eq hs, rootItems_eq hroot]
  rw [root, render]
  cases s.rootParts with
  | nil => rfl
  | cons first rest =>
    simp only [body, List.map_cons, List.flatMap_cons, List.map_map, List.flatMap_map,
      WhereExpr.textAll_eq_map, WhereExpr.operandsAll_eq_flatMap]
    rfl

/-- What is written are the conditions in depth-first order, each once, and what is bound are
their operands in that order. -/
theorem spells_render {s : ConditionSet} (hs : s.Nested) {r : Rendered} (hr : s.render = some r) :
    Spells r.sql (s.conditionsAt 0) ∧
      r.params = (s.conditionsAt 0).flatMap Condition.operands := by
  rw [← leaves_rootParts hs, ← WhereExpr.leavesAll_eq_flatMap, ← WhereExpr.operandsAll_eq]
  rw [render] at hr
  split at hr
  next => cases hr
  next =>
    obtain rfl := Option.some.inj hr
    exact ⟨WhereExpr.spells_conjoin .and s.rootParts, rfl⟩

/-! ## Every sequence of calls -/

/-- What holds of a set that calls built up, with what they added. -/
structure Sound (s : ConditionSet) (entries : List Entry) : Prop where
  /-- The root joins by AND, and an item that is a group is a later group of the set. -/
  nested : s.Nested
  /-- Every group but the root is an item exactly once, of an earlier group. -/
  once : ∀ i, 0 < i → i < s.groups.length → s.items.count (.group ⟨i⟩) = 1 ∧
    ∃ j g, j < i ∧ s.groups[j]? = some g ∧ Condition.group ⟨i⟩ ∈ g.items
  /-- A call with a number that no group has is refused and changes nothing. -/
  refused : ∀ call, call.target ∉ s → s.answer call = .error ⟨call.target.index⟩ ∧
    ∀ later, s.run (call :: later) = s.run later
  /-- A clause or a raw condition for a group of the set is added. -/
  accepted : ∀ id ∈ s, (∀ c, ∃ s', s.answer (.clause id c) = .ok (s', .clause c)) ∧
    ∀ text, ∃ s', s.answer (.expression id text) = .ok (s', .expression text)
  /-- The number of a group that is opened was not in use and names that group. -/
  opened : ∀ (parent : GroupId) (conjunction : Conjunction), parent ∈ s → ∃ s' id,
    s.answer (.group parent conjunction) = .ok (s', .group id) ∧ id ∉ s ∧
      s'.groups[id.index]? = some ⟨conjunction, []⟩
  /-- Whatever is called, a number keeps naming the same group, which only gets the items that
  are added to it. -/
  kept : ∀ (id : GroupId) (g : Group), s.groups[id.index]? = some g → ∀ later,
    (s.run later).set.groups[id.index]? =
      some { g with items := g.items ++ Entry.itemsOf id (s.run later).entries }
  /-- Writing a group ends, on at most as many levels as there are groups. -/
  ends : ∀ id, ∃ parts, ∀ depth, s.groups.length ≤ depth → s.writeItems depth id = some parts
  /-- What is written of the root is the body of the WHERE. -/
  body : (s.writeItems s.groups.length .root).map body = some s.render
  /-- Depth-first order passes every clause and every raw condition that was added, each once. -/
  every : (s.conditionsAt 0).Perm (Entry.conditions entries)
  /-- The body of the WHERE is written as these conditions, each once, and binds their operands in
  this order. -/
  written : ∀ r, s.render = some r → Spells r.sql (s.conditionsAt 0) ∧
    r.params = (s.conditionsAt 0).flatMap Condition.operands
  /-- The set counts as empty exactly where nothing is written. -/
  empty : s.isEmpty = true ↔ s.render = none

/-- Whatever the calls, the groups are a tree, numbers keep naming the same groups, writing ends,
and every condition that was added is written once. -/
theorem sound_run (calls : List Call) : (run ∅ calls).set.Sound (run ∅ calls).entries := by
  have built : (run ∅ calls).set.Built := Built.empty.run calls
  have hs := built.nested
  constructor
  · exact hs
  · intro i hpos hi
    exact ⟨built.tree.count_group hpos hi, built.connected i hpos hi⟩
  · intro call unknown
    have refused := answer_of_not_mem unknown
    exact ⟨refused, run_of_error refused⟩
  · intro id hid
    exact ⟨fun c => ⟨_, answer_clause hid c⟩, fun text => ⟨_, answer_expression hid text⟩⟩
  · intro parent conjunction hparent
    exact answer_group hparent conjunction
  · intro id g hg later
    exact getElem?_run hg later
  · intro id
    refine ⟨_, fun depth hdepth => writeItems_eq hs ?_ ?_⟩
    · exact Nat.lt_of_lt_of_le hs.length_pos hdepth
    · exact Nat.le_add_right_of_le hdepth
  · rw [writeItems_eq hs hs.length_pos (Nat.le_add_right _ _), Option.map_some, body_root hs]
  · have added := (items_run_perm ∅ calls).filter fun item => !isGroup item
    have start : (∅ : ConditionSet).items = [] := rfl
    rw [start, List.append_nil] at added
    exact built.tree.conditionsAt_perm.trans added
  · intro r hr
    exact spells_render hs hr
  · exact built.render_eq_none_iff.symm

/-- A group in a group, a call that is refused, and conditions that are added out of order. -/
example : (run ∅ [.group .root .or, .group ⟨1⟩ .and, .expression ⟨7⟩ "c", .expression ⟨2⟩ "b",
    .expression ⟨1⟩ "a"]).entries.map Entry.item =
      [.group ⟨1⟩, .group ⟨2⟩, .expression "b", .expression "a"] := by
  rfl

end ConditionSet

end RowAccess.Sql
