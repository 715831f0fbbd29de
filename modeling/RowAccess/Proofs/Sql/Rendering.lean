import RowAccess.Proofs.Sql.Answer
import RowAccess.Proofs.Sql.Reading.Parsing

/-!
# Rendering keeps the meaning

The groups of a statement are written with brackets around those that come to several parts
and without brackets around all others; the root is written without brackets in any case.
Read with the precedence of SQL the text comes to the same groups again, apart from those
without a condition below them, so it is worth what the groups are worth.

Main results:

- `WhereExpr.parse_text`: an expression is read as it is.
- `ConditionSet.Built.render_eq_none_iff`: nothing is written where no condition was added.
- `ConditionSet.Built.render_meaning`: what is written means what the groups mean.
-/

namespace RowAccess.Sql

open Reading

/-! ## Expressions -/

namespace WhereExpr

mutual

/-- What an expression is to be read as: a clause is an atom, a raw condition is what it is by
itself, and parts are joined as they were. -/
def parsed : WhereExpr → Parsed
  | clause c => .atom (tokens c.text)
  | expression text => parse (tokens text)
  | joined conjunction parts => .join conjunction (parsedAll parts)

/-- What several expressions are to be read as. -/
def parsedAll : List WhereExpr → List Parsed
  | [] => []
  | e :: es => parsed e :: parsedAll es

end

theorem parsedAll_eq_map (es : List WhereExpr) : parsedAll es = es.map parsed := by
  induction es with
  | nil => rfl
  | cons e es ih => rw [parsedAll, ih, List.map_cons]

mutual

/-- The clauses and raw conditions of an expression are factors, and no part is missing. -/
def Readable : WhereExpr → Prop
  | clause c => c.Atomic
  | expression text => Factor text
  | joined _ parts => parts ≠ [] ∧ AllReadable parts

/-- So it is with several expressions. -/
def AllReadable : List WhereExpr → Prop
  | [] => True
  | e :: es => Readable e ∧ AllReadable es

end

theorem allReadable_iff (es : List WhereExpr) : AllReadable es ↔ ∀ e ∈ es, e.Readable := by
  induction es with
  | nil => simp [AllReadable]
  | cons e es ih => simp [AllReadable, ih]

theorem textAll_ne_nil {es : List WhereExpr} (h : es ≠ []) : textAll es ≠ [] := by
  rw [textAll_eq_map]
  exact fun none => h (List.map_eq_nil_iff.1 none)

mutual

/-- What an expression is written as is a factor. -/
theorem factor_text : (e : WhereExpr) → e.Readable → Factor e.text
  | clause _, h => h.factor_text
  | expression _, h => h
  | joined conjunction parts, h => by
    have each : ∀ x ∈ textAll parts, Factor x := factor_textAll parts h.2
    exact (Complete.conjoin conjunction fun x hx => (each x hx).toComplete).brackets_factor

/-- What several expressions are written as are factors. -/
theorem factor_textAll : (es : List WhereExpr) → AllReadable es → ∀ x ∈ textAll es, Factor x
  | [], _ => fun _ hx => absurd hx List.not_mem_nil
  | e :: es, h => by
    intro x hx
    rcases List.mem_cons.1 hx with rfl | hx
    · exact factor_text e h.1
    · exact factor_textAll es h.2 x hx

end

mutual

/-- An expression is read as it is. -/
theorem parse_text : (e : WhereExpr) → e.Readable → parse (tokens e.text) = e.parsed
  | clause _, h => h.parse_text
  | expression _, _ => rfl
  | joined conjunction parts, h => by
    have each : ∀ x ∈ textAll parts, Factor x := factor_textAll parts h.2
    have complete : Complete (conjoin conjunction (textAll parts)) :=
      Complete.conjoin conjunction fun x hx => (each x hx).toComplete
    rw [text, parse_brackets complete, parse_conjoin (textAll_ne_nil h.1) each,
      parse_textAll parts h.2, parsed]

/-- Several expressions are read as they are. -/
theorem parse_textAll : (es : List WhereExpr) → AllReadable es →
    (textAll es).map (fun x => parse (tokens x)) = parsedAll es
  | [], _ => rfl
  | e :: es, h => by
    rw [textAll, List.map_cons, parse_text e h.1, parse_textAll es h.2, parsedAll]

end

/-! ## Joined parts -/

/-- Nothing comes of no parts, and of these only. -/
theorem join_eq_none_iff (conjunction : Conjunction) {es : List WhereExpr} :
    join conjunction es = none ↔ es = [] := by
  match es with
  | [] => exact ⟨fun _ => rfl, fun _ => rfl⟩
  | [only] => exact ⟨nofun, nofun⟩
  | first :: second :: rest => exact ⟨nofun, nofun⟩

/-- Joined parts are read as the join of what they are read as. -/
theorem parsed_of_join {conjunction : Conjunction} {es : List WhereExpr} {e : WhereExpr}
    (h : join conjunction es = some e) : e.parsed = .join conjunction (es.map parsed) := by
  match es with
  | [] => cases h
  | [only] =>
    obtain rfl : only = e := Option.some.inj h
    rfl
  | first :: second :: rest =>
    rw [join_cons_cons] at h
    obtain rfl := Option.some.inj h
    rw [parsed, parsedAll_eq_map]

/-- Joined parts bind the operands of the parts. -/
theorem operands_of_join {conjunction : Conjunction} {es : List WhereExpr} {e : WhereExpr}
    (h : join conjunction es = some e) : e.operands = operandsAll es := by
  match es with
  | [] => cases h
  | [only] =>
    obtain rfl : only = e := Option.some.inj h
    rw [operandsAll, operandsAll, List.append_nil]
  | first :: second :: rest =>
    rw [join_cons_cons] at h
    obtain rfl := Option.some.inj h
    rw [operands]

/-- Joined parts are readable if the parts are. -/
theorem readable_of_join {conjunction : Conjunction} {es : List WhereExpr}
    (h : ∀ e ∈ es, e.Readable) {e : WhereExpr} (he : join conjunction es = some e) :
    e.Readable := by
  match es with
  | [] => cases he
  | [only] =>
    obtain rfl : only = e := Option.some.inj he
    exact h only List.mem_cons_self
  | first :: second :: rest =>
    rw [join_cons_cons] at he
    obtain rfl := Option.some.inj he
    exact ⟨List.cons_ne_nil _ _, (allReadable_iff _).2 h⟩

end WhereExpr

/-! ## Values -/

section Value

variable {α : Type*} [Lattice α] [BoundedOrder α] (worth : List Token → α)

/-- What clauses and raw conditions are worth where `worth` says what each atom is worth. -/
def Assignment.ofAtoms : Assignment α where
  clause c := worth (tokens c.text)
  expression text := (parse (tokens text)).value worth

mutual

/-- What is read of an expression is worth what the expression is worth. -/
theorem WhereExpr.value_parsed :
    (e : WhereExpr) → e.parsed.value worth = e.value (.ofAtoms worth)
  | clause _ => rfl
  | expression _ => rfl
  | joined conjunction parts => by
    rw [parsed, Parsed.value_join, value_parsedAll parts, value]

/-- So it is with several expressions. -/
theorem WhereExpr.value_parsedAll : (es : List WhereExpr) →
    (parsedAll es).map (Parsed.value worth) = valueAll (.ofAtoms worth) es
  | [] => rfl
  | e :: es => by
    rw [parsedAll, List.map_cons, value_parsed e, value_parsedAll es, valueAll]

end

end Value

/-! ## Condition sets -/

/-- A clause on a factor with an escape character that may be chosen, or a raw condition that
is a factor. -/
def Condition.Atomic : Condition → Prop
  | .clause c => c.Atomic
  | .expression text => Factor text
  | .group _ => True

namespace ConditionSet

/-- The clauses and raw conditions of a set are factors. -/
def Atomic (s : ConditionSet) : Prop := ∀ g ∈ s.groups, ∀ item ∈ g.items, item.Atomic

/-- The sets that adding conditions and groups to an empty set makes. -/
inductive Built : ConditionSet → Prop where
  | empty : Built ∅
  | add {s s' : ConditionSet} (hs : s.Built) {id : GroupId} {item : Condition}
      (plain : isGroup item = false) (added : s.add id item = .ok s') : Built s'
  | addGroup {s : ConditionSet} (hs : s.Built) {parent : GroupId} {conjunction : Conjunction}
      {opened : ConditionSet × GroupId} (added : s.addGroup parent conjunction = .ok opened) :
      Built opened.1

/-- An item is added to a group of the set. -/
theorem add_ok {s s' : ConditionSet} {id : GroupId} {item : Condition}
    (h : s.add id item = .ok s') : id ∈ s ∧ s' = s.push id item := by
  rw [add] at h
  split at h
  next hid => exact ⟨hid, (Except.ok.inj h).symm⟩
  next => cases h

/-- A group is opened under a group of the set. -/
theorem addGroup_ok {s : ConditionSet} {parent : GroupId} {conjunction : Conjunction}
    {opened : ConditionSet × GroupId} (h : s.addGroup parent conjunction = .ok opened) :
    parent ∈ s ∧ opened = s.openGroup parent conjunction := by
  rw [addGroup] at h
  split at h
  next hparent => exact ⟨hparent, (Except.ok.inj h).symm⟩
  next => cases h

/-- Every group but the root is an item of an earlier one. -/
def Connected (s : ConditionSet) : Prop :=
  ∀ i, 0 < i → i < s.groups.length →
    ∃ j g, j < i ∧ s.groups[j]? = some g ∧ Condition.group ⟨i⟩ ∈ g.items

/-- A further item leaves the groups where they are. -/
theorem Connected.push {s : ConditionSet} (h : s.Connected) (id : GroupId) (item : Condition) :
    (s.push id item).Connected := by
  intro i hpos hi
  rw [length_push] at hi
  obtain ⟨j, g, hj, hg, hmem⟩ := h i hpos hi
  refine ⟨j, if id.index = j then g.push item else g, hj, ?_, ?_⟩
  · rw [getElem?_push, hg, Option.map_some]
  · split
    · exact List.mem_append_left _ hmem
    · exact hmem

/-- A group that was opened is an item of the group that it was opened under. -/
theorem Connected.openGroup {s : ConditionSet} (h : s.Connected) {parent : GroupId}
    (hp : parent ∈ s) (conjunction : Conjunction) :
    (s.openGroup parent conjunction).1.Connected := by
  intro i hpos hi
  rw [length_openGroup] at hi
  have inside := mem_iff.1 hp
  by_cases opened : i = s.groups.length
  · refine ⟨parent.index, s.groups[parent.index].push (.group ⟨s.groups.length⟩), by omega,
      ?_, ?_⟩
    · rw [getElem?_openGroup, if_neg (by omega), getElem?_push,
        List.getElem?_eq_getElem inside, Option.map_some, if_pos rfl]
    · rw [opened]
      exact List.mem_append_right _ (List.mem_singleton_self _)
  · obtain ⟨j, g, hj, hg, hmem⟩ :=
      h.push parent (.group ⟨s.groups.length⟩) i hpos (by rw [length_push]; omega)
    exact ⟨j, g, hj, by rw [getElem?_openGroup, if_neg (by omega), hg], hmem⟩

/-- Adding conditions and groups keeps the groups nested and connected. -/
theorem Built.nested_connected {s : ConditionSet} (h : s.Built) : s.Nested ∧ s.Connected := by
  induction h with
  | empty =>
    refine ⟨nested_empty, fun i hpos hi => ?_⟩
    exact absurd (Nat.lt_one_iff.1 hi) (Nat.ne_of_gt hpos)
  | add hs plain added ih =>
    obtain ⟨-, rfl⟩ := add_ok added
    exact ⟨ih.1.push _ plain, ih.2.push _ _⟩
  | addGroup hs added ih =>
    obtain ⟨hparent, rfl⟩ := addGroup_ok added
    exact ⟨ih.1.openGroup hparent _, ih.2.openGroup hparent _⟩

theorem Built.nested {s : ConditionSet} (h : s.Built) : s.Nested := h.nested_connected.1

theorem Built.connected {s : ConditionSet} (h : s.Built) : s.Connected := h.nested_connected.2

/-! ## Nothing to write -/

/-- Items come to nothing if all of them are groups that come to nothing, and only then. -/
theorem parts_eq_nil_iff {s : ConditionSet} {items : List Condition} :
    s.parts items = [] ↔
      ∀ item ∈ items, isGroup item = true ∧
        ∀ id, item = .group id → s.exprAt id.index = none := by
  rw [parts, WhereExpr.partsOf, List.filterMap_eq_nil_iff]
  refine forall₂_congr fun item _ => ?_
  cases item with
  | clause c =>
    exact ⟨fun h => absurd h (Option.some_ne_none _), fun h => absurd h.1 Bool.false_ne_true⟩
  | expression text =>
    exact ⟨fun h => absurd h (Option.some_ne_none _), fun h => absurd h.1 Bool.false_ne_true⟩
  | group id =>
    constructor
    · intro h
      refine ⟨rfl, ?_⟩
      rintro _ ⟨⟩
      exact h
    · intro h
      exact h.2 id rfl

/-- A group comes to nothing if its items do, and only then. -/
theorem exprAt_eq_none_iff {s : ConditionSet} (hs : s.Nested) {i : Nat} {g : Group}
    (hg : s.groups[i]? = some g) : s.exprAt i = none ↔ s.parts g.items = [] := by
  rw [exprAt_eq hs hg, WhereExpr.join_eq_none_iff]

/-- If there are only groups, every group comes to nothing. -/
theorem exprAt_of_isEmpty {s : ConditionSet} (hs : s.Nested) (h : s.isEmpty = true) (i : Nat) :
    s.exprAt i = none := by
  -- Later groups first: the items of a group are behind it.
  induction hn : s.groups.length - i using Nat.strongRecOn generalizing i with
  | ind n ih =>
    by_cases hi : i < s.groups.length
    · have hg : s.groups[i]? = some s.groups[i] := List.getElem?_eq_getElem hi
      rw [exprAt_eq_none_iff hs hg, parts_eq_nil_iff]
      intro item hitem
      have groups := List.all_eq_true.1 h _ (List.getElem_mem hi)
      refine ⟨List.all_eq_true.1 groups item hitem, ?_⟩
      rintro id rfl
      obtain ⟨behind, inside⟩ := hs.later i _ hg id hitem
      exact ih (s.groups.length - id.index) (by omega) id.index rfl
    · exact exprAt_eq_none (Nat.le_of_not_lt hi)

/-- If the root comes to nothing, so does every group. -/
theorem exprAt_of_root {s : ConditionSet} (hs : s.Nested) (hc : s.Connected)
    (h : s.exprAt 0 = none) {i : Nat} (hi : i < s.groups.length) : s.exprAt i = none := by
  -- Earlier groups first: every group is an item of one of them.
  induction i using Nat.strongRecOn with
  | ind i ih =>
    rcases Nat.eq_zero_or_pos i with rfl | hpos
    · exact h
    · obtain ⟨j, g, hj, hg, hmem⟩ := hc i hpos hi
      have above := (exprAt_eq_none_iff hs hg).1 (ih j hj (by omega))
      exact (parts_eq_nil_iff.1 above _ hmem).2 ⟨i⟩ rfl

/-- What the root comes to is the join of the parts of the conditions. -/
theorem exprAt_root {s : ConditionSet} (hs : s.Nested) :
    s.exprAt 0 = WhereExpr.join .and s.rootParts := by
  obtain ⟨items, hroot⟩ := hs.root
  rw [exprAt_eq hs hroot, rootParts_eq hs, rootItems_eq hroot]

theorem render_eq_none {s : ConditionSet} : s.render = none ↔ s.rootParts = [] := by
  rw [render]
  split
  next none => simp [none]
  next some => simp only [reduceCtorEq, false_iff]; exact some

/-- Nothing is written where there are only groups, and only there. -/
theorem Built.render_eq_none_iff {s : ConditionSet} (h : s.Built) :
    s.render = none ↔ s.isEmpty = true := by
  have hs := h.nested
  rw [render_eq_none, ← WhereExpr.join_eq_none_iff .and, ← exprAt_root hs]
  constructor
  · intro none
    refine List.all_eq_true.2 fun g hg => List.all_eq_true.2 fun item hitem => ?_
    obtain ⟨i, hi, rfl⟩ := List.mem_iff_getElem.1 hg
    have each := exprAt_of_root hs h.connected none hi
    rw [exprAt_eq_none_iff hs (List.getElem?_eq_getElem hi)] at each
    exact (parts_eq_nil_iff.1 each item hitem).1
  · intro empty
    exact exprAt_of_isEmpty hs empty 0

/-! ## What is written -/

/-- The parts of the root are readable. -/
theorem Atomic.rootParts {s : ConditionSet} (h : s.Atomic) (hs : s.Nested) :
    ∀ e ∈ s.rootParts, e.Readable := by
  obtain ⟨items, hroot⟩ := hs.root
  rw [rootParts_eq hs, rootItems_eq hroot]
  refine parts_induction hs ?_ ?_ ?_ hroot
  · intro g hg c hc
    exact h g hg _ hc
  · intro g hg text htext
    exact h g hg _ htext
  · intro conjunction es e hes he
    exact WhereExpr.readable_of_join hes he

/-- Rendering keeps the meaning.  Nothing is written exactly where there is no condition.  What
is written is read, with AND before OR, as an expression that binds the parameters in order
and that is worth what the groups are worth, whatever the clauses and raw conditions are worth;
so it is in particular where the worth of an atom is said of its tokens. -/
theorem Built.render_meaning {α : Type*} [Lattice α] [BoundedOrder α] {s : ConditionSet}
    (h : s.Built) (atoms : s.Atomic) :
    (s.render = none ↔ s.isEmpty = true) ∧
      ∀ r, s.render = some r →
        ∃ e : WhereExpr, parse (tokens r.sql) = e.parsed ∧ r.params = e.operands ∧
          (∀ ρ : Assignment α, e.value ρ = s.truth ρ) ∧
          ∀ worth : List Token → α,
            (parse (tokens r.sql)).value worth = s.truth (.ofAtoms worth) := by
  refine ⟨h.render_eq_none_iff, fun r hr => ?_⟩
  have hs := h.nested
  have present : s.rootParts ≠ [] := fun none => by
    rw [render_eq_none.2 none] at hr
    cases hr
  obtain ⟨e, he⟩ := Option.ne_none_iff_exists'.1
    fun none => present ((WhereExpr.join_eq_none_iff .and).1 none)
  have written : r = ⟨s.whereText, WhereExpr.operandsAll s.rootParts⟩ := by
    rw [render] at hr
    split at hr
    next none => exact absurd none present
    next => exact (Option.some.inj hr).symm
  have readable := (WhereExpr.allReadable_iff _).2 (atoms.rootParts hs)
  have read : parse (tokens s.whereText) = e.parsed := by
    rw [whereText, parse_conjoin (WhereExpr.textAll_ne_nil present)
      (WhereExpr.factor_textAll _ readable), WhereExpr.parse_textAll _ readable,
      WhereExpr.parsed_of_join he, WhereExpr.parsedAll_eq_map]
  have worthOf (ρ : Assignment α) : e.value ρ = s.truth ρ := by
    have root := s.truthAt_eq ρ hs 0
    rw [exprAt_root hs, he, Option.map_some] at root
    rw [truth, root, Option.getD_some]
  rw [written]
  refine ⟨e, read, (WhereExpr.operands_of_join he).symm, worthOf, fun worth => ?_⟩
  rw [read, WhereExpr.value_parsed, worthOf]

/-! ## Nested groups -/

/-- Alternatives one of which is a range with a raw condition, an empty group in an empty group,
and a group with a single pattern. -/
def nestedGroups : ConditionSet where
  groups :=
    [⟨.and, [.clause ⟨"node.status", .compare .eq, .int 1⟩, .group ⟨1⟩, .group ⟨3⟩, .group ⟨5⟩]⟩,
     ⟨.or, [.clause ⟨"node.uid", .compare .eq, .uint 7⟩, .group ⟨2⟩]⟩,
     ⟨.and, [.clause ⟨"node.created", .compare .between, .list [.int 1, .int 9]⟩,
       .expression "node.sticky = 1"]⟩,
     ⟨.or, [.group ⟨4⟩]⟩,
     ⟨.and, []⟩,
     ⟨.or, [.clause ⟨"node.title", .like '\\', .text "a%"⟩]⟩]

/-- Adding the conditions one after the other makes the nested groups. -/
theorem built_nestedGroups : nestedGroups.Built := by
  have status := @Built.add ∅ _ .empty .root (.clause ⟨"node.status", .compare .eq, .int 1⟩) rfl rfl
  have alternatives := @Built.addGroup _ status .root .or _ rfl
  have own := @Built.add _ _ alternatives ⟨1⟩ (.clause ⟨"node.uid", .compare .eq, .uint 7⟩) rfl rfl
  have sticky := @Built.addGroup _ own ⟨1⟩ .and _ rfl
  have range := @Built.add _ _ sticky ⟨2⟩
    (.clause ⟨"node.created", .compare .between, .list [.int 1, .int 9]⟩) rfl rfl
  have raw := @Built.add _ _ range ⟨2⟩ (.expression "node.sticky = 1") rfl rfl
  have outer := @Built.addGroup _ raw .root .or _ rfl
  have inner := @Built.addGroup _ outer ⟨3⟩ .and _ rfl
  have single := @Built.addGroup _ inner .root .or _ rfl
  exact @Built.add _ _ single ⟨5⟩ (.clause ⟨"node.title", .like '\\', .text "a%"⟩) rfl rfl

/-- The nested groups mean what they are written as. -/
theorem render_meaning_nestedGroups :
    nestedGroups.Built ∧ nestedGroups.Atomic ∧
    nestedGroups.render = some ⟨"node.status = ? AND (node.uid = ? OR (node.created BETWEEN ? " ++
      "AND ? AND node.sticky = 1)) AND node.title LIKE ? ESCAPE '\\'",
      [.int 1, .uint 7, .int 1, .int 9, .text "a%"]⟩ ∧
    ∃ e : WhereExpr, ∀ r, nestedGroups.render = some r → parse (tokens r.sql) = e.parsed ∧
      ∀ ρ : Assignment Ternary, e.value ρ = nestedGroups.truth ρ := by
  have atoms : nestedGroups.Atomic := by
    have like : ∀ e, (ClauseOp.like '\\').escape? = some e →
        e ∉ CompileOptions.reservedEscapes := by
      rintro e ⟨⟩
      decide
    have compare (op : Comparison) : ∀ e, (ClauseOp.compare op).escape? = some e →
        e ∉ CompileOptions.reservedEscapes :=
      fun e h => absurd h.symm (Option.some_ne_none e)
    simp only [Atomic, nestedGroups, List.forall_mem_cons, List.not_mem_nil, false_imp_iff,
      implies_true, Condition.Atomic, and_true, true_and]
    exact ⟨⟨by decide, compare _⟩, ⟨by decide, compare _⟩,
      ⟨⟨by decide, compare _⟩, by decide⟩, ⟨by decide, like⟩⟩
  have written : nestedGroups.render = some _ := rfl
  obtain ⟨-, meaning⟩ := built_nestedGroups.render_meaning (α := Ternary) atoms
  obtain ⟨e, read, -, worth, -⟩ := meaning _ written
  refine ⟨built_nestedGroups, atoms, rfl, e, fun r hr => ?_⟩
  obtain rfl := Option.some.inj (written.symm.trans hr)
  exact ⟨read, worth⟩

end ConditionSet

end RowAccess.Sql
