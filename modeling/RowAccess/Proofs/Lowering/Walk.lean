import RowAccess.Proofs.Lowering.Meaning
import RowAccess.Proofs.Lowering.Steps

/-!
# What a compile adds to a statement

A compile that succeeds adds to the root what the tree becomes, and nothing else to the
conditions.  Each predicate becomes one clause on the column of its field, or, in a listing,
nothing if the field is not stored.  The column belongs to the table that the record is
looked up from, or to a join that the statement holds; joins are never taken away, so what
is said about them when the clause is added holds of the finished statement.

Main results:

- `LookupScope.addNodes_ok`: what the walk over the children of a tree adds to a group.
- `Compiler.compile_ok`: what a compile adds to the root.
-/

namespace RowAccess

open Sql

namespace LookupScope

variable (scope : LookupScope)

/-! ## Where a field is reached -/

/-- The table that holds a field on a shared table. -/
def sharedTable (storage : FieldStorage) : String := storage.tableFor scope.revisionScoped

/-- The join of the table of a dedicated field, up to its kind. -/
def dedicatedJoin (storage : FieldStorage) : JoinRequest :=
  Reach.dedicatedJoin scope.compiler.resolver.tables storage scope.anchor scope.revisionScoped
    .inner

/-- The join of a shared table. -/
def sharedJoin (storage : FieldStorage) : JoinRequest :=
  Reach.sharedJoin scope.compiler.resolver.tables storage scope.anchor scope.revisionScoped

/-- The alias under which a statement reaches the table of a field. -/
inductive Reaches (q : Query) (storage : FieldStorage) : String → Prop where
  /-- A dedicated table is joined for the field. -/
  | dedicated {aliasName : String} (h : storage.dedicated = true)
      (link : q.Links (scope.dedicatedJoin storage) aliasName) : Reaches q storage aliasName
  /-- The shared table is the one that the record is looked up from. -/
  | anchor (h : storage.dedicated = false)
      (same : scope.sharedTable storage = scope.anchor.table) :
      Reaches q storage scope.anchor.aliasName
  /-- The shared table is the first join of it that hangs off the anchor. -/
  | found {aliasName : String} (h : storage.dedicated = false)
      (other : scope.sharedTable storage ≠ scope.anchor.table)
      (hfind : q.findJoin? (scope.sharedTable storage) scope.anchor.aliasName =
        some aliasName) : Reaches q storage aliasName
  /-- No join is found for an anchor with a dot in its alias, so the join is asked for. -/
  | dotted {aliasName : String} (h : storage.dedicated = false)
      (other : scope.sharedTable storage ≠ scope.anchor.table)
      (hdot : '.' ∈ scope.anchor.aliasName.toList)
      (link : q.Links (scope.sharedJoin storage) aliasName) : Reaches q storage aliasName

/-- The clauses that a predicate became in a statement. -/
inductive Emits (q : Query) : Predicate → List Clause → Prop where
  | stored {p : Predicate} {path : FieldPath} {storage : FieldStorage} {aliasName : String}
      {c : Clause} (hpath : p.path = .ok path)
      (hstorage : scope.compiler.resolver.storage? path.field path.property = some storage)
      (reach : scope.Reaches q storage aliasName)
      (hclause : Lowering.clause p (Text.qualify aliasName storage.column)
        storage.caseSensitive scope.compiler.options = .ok c) : Emits q p [c]
  | skipped {p : Predicate} {path : FieldPath} {relationship : Option String}
      (hpath : p.path = .ok path)
      (hstorage : scope.compiler.resolver.storage? path.field path.property = none)
      (hbackend : scope.compiler.backend = .listing relationship) : Emits q p []

variable {scope}

/-- What reaches a field once reaches it ever after. -/
theorem Reaches.of_extends {q q' : Query} {storage : FieldStorage} {aliasName : String}
    (h : scope.Reaches q storage aliasName) (hx : q.joins.Extends q'.joins) :
    scope.Reaches q' storage aliasName := by
  cases h with
  | dedicated h link => exact .dedicated h (link.of_extends hx)
  | anchor h same => exact .anchor h same
  | found h other hfind => exact .found h other (Query.findJoin?_of_extends hx hfind)
  | dotted h other hdot link => exact .dotted h other hdot (link.of_extends hx)

/-- A dedicated field is reached by the join for it. -/
theorem Reaches.link_of_dedicated {q : Query} {storage : FieldStorage} {aliasName : String}
    (h : scope.Reaches q storage aliasName) (own : storage.dedicated = true) :
    q.Links (scope.dedicatedJoin storage) aliasName := by
  cases h with
  | dedicated _ link => exact link
  | anchor shared same => simp [own] at shared
  | found shared other hfind => simp [own] at shared
  | dotted shared other hdot link => simp [own] at shared

theorem Emits.of_extends {q q' : Query} {p : Predicate} {clauses : List Clause}
    (h : scope.Emits q p clauses) (hx : q.joins.Extends q'.joins) :
    scope.Emits q' p clauses := by
  cases h with
  | stored hpath hstorage reach hclause =>
    exact .stored hpath hstorage (reach.of_extends hx) hclause
  | skipped hpath hstorage hbackend => exact .skipped hpath hstorage hbackend

/-- An entity compiler leaves no predicate out. -/
theorem Emits.oneClauseEach (hc : scope.compiler.backend = .entity) (q : Query) :
    OneClauseEach (scope.Emits q) := by
  intro p clauses h
  cases h with
  | @stored _ _ _ c hpath hstorage reach hclause => exact ⟨c, rfl⟩
  | skipped hpath hstorage hbackend =>
    rw [hc] at hbackend
    cases hbackend

/-- A new join of a shared table is found by its anchor afterwards, unless the alias of the
anchor has a dot. -/
theorem findJoin?_ensureJoin {q : Query} {r : JoinRequest} {anchor key : String}
    (hdot : '.' ∉ anchor.toList) (hleft : r.left = Text.qualify anchor key)
    (hnone : q.findJoin? r.table anchor = none) :
    (q.ensureJoin r).1.findJoin? r.table anchor = some (q.ensureJoin r).2 := by
  have hangs (j : Join) (hj : j.left = r.left) : j.hangsOff anchor = true := by
    have parts : Text.splitDot r.left.toList = (anchor.toList, some key.toList) := by
      rw [hleft, Text.qualify, String.toList_append, String.toList_append, List.append_assoc]
      exact Text.splitDot_append_dot hdot key.toList
    simp [Join.hangsOff, Text.splitAtDot, hj, parts]
  have nothing : q.joins.find? r.table anchor = none := Option.map_eq_none_iff.1 hnone
  have unanswered : q.joins.answer? r = none := by
    refine List.find?_eq_none.2 fun j hj hans => ?_
    rcases (j.answers_iff r).1 hans with ⟨htable, hl, -⟩
    have := List.find?_eq_none.1 nothing j hj
    simp [htable, hangs j hl] at this
  rw [Query.ensureJoin, JoinSet.ensure_of_not_answers unanswered, Query.findJoin?, JoinSet.find?,
    List.find?_append]
  rw [JoinSet.find?] at nothing
  rw [nothing]
  simp [Join.ofRequest, hangs]

/-- However a field is reached, the alias of its column is one that reaches it. -/
theorem reaches_place (q : Query) (storage : FieldStorage) (kind : JoinKind) :
    ∃ aliasName,
      ((Reach.of q scope.compiler.resolver.tables storage scope.anchor scope.revisionScoped
        kind).place q storage).2.column = Text.qualify aliasName storage.column ∧
      scope.Reaches ((Reach.of q scope.compiler.resolver.tables storage scope.anchor
        scope.revisionScoped kind).place q storage).1 storage aliasName := by
  by_cases h : storage.dedicated = true
  · rw [Reach.of_dedicated h]
    exact ⟨_, rfl, .dedicated h (q.links_ensureJoin _)⟩
  · have shared : storage.dedicated = false := by simpa using h
    by_cases same : scope.sharedTable storage = scope.anchor.table
    · have here : storage.tableFor scope.revisionScoped = scope.anchor.table := same
      rw [Reach.of, if_neg h, if_pos here]
      exact ⟨_, rfl, .anchor shared same⟩
    · have elsewhere : storage.tableFor scope.revisionScoped ≠ scope.anchor.table := same
      rw [Reach.of, if_neg h, if_neg elsewhere]
      cases hfind : q.findJoin? (storage.tableFor scope.revisionScoped)
          scope.anchor.aliasName with
      | some aliasName => exact ⟨aliasName, rfl, .found shared same hfind⟩
      | none =>
        refine ⟨_, rfl, ?_⟩
        by_cases hdot : '.' ∈ scope.anchor.aliasName.toList
        · exact .dotted shared same hdot (q.links_ensureJoin _)
        · exact .found shared same
            (findJoin?_ensureJoin (r := scope.sharedJoin storage) hdot rfl hfind)

/-! ## The walk -/

/-- A predicate adds its clauses to the group. -/
theorem addPredicate_ok {id : GroupId} {underOr : Bool} {p : Predicate} {s s' : Progress}
    (hok : scope.addPredicate id underOr p s = .ok s') :
    ∃ items, s.query.conditions.Grows id items s'.query.conditions ∧
      (FilterNode.leaf p).Lowers (scope.Emits s'.query) (s'.query.conditions.parts items) := by
  rw [addPredicate] at hok
  split at hok
  next => cases hok
  next path hpath =>
    split at hok
    next storage hstorage =>
      obtain ⟨aliasName, hcolumn, reach⟩ :=
        scope.reaches_place s.query storage (joinKind underOr p.op)
      rw [addStored] at hok
      split at hok
      next c hclause =>
        obtain rfl := Except.ok.inj hok
        rw [Progress.query_noteJoin]
        refine ⟨[.clause c], ?_, ?_⟩
        · rw [Progress.addClause, Query.pushCondition, Progress.place, Reach.conditions_place]
          exact .push _ id rfl
        · rw [Progress.place, hcolumn] at hclause
          have emitted : scope.Emits (((s.place storage _).1.addClause id c).query) p [c] :=
            .stored hpath hstorage (reach.of_extends (.refl _)) hclause
          exact .leaf emitted
      next => cases hok
    next hstorage =>
      split at hok
      next => cases hok
      next relationship hbackend =>
        obtain rfl := Except.ok.inj hok
        refine ⟨[], .refl _ id, ?_⟩
        have left : scope.Emits (s.skip path.display).query p [] :=
          .skipped hpath hstorage hbackend
        exact .leaf left

mutual

/-- A child adds to the group what it becomes. -/
theorem addNode_ok {scope : LookupScope} {id : GroupId} {underOr : Bool} :
    (n : FilterNode) → {s s' : Progress} → s.query.conditions.Nested →
      id ∈ s.query.conditions → scope.addNode id underOr n s = .ok s' →
        ∃ items, s.query.conditions.Grows id items s'.query.conditions ∧
          n.Lowers (scope.Emits s'.query) (s'.query.conditions.parts items)
  | .leaf p, s, s', _, _, hok => addPredicate_ok hok
  | .tree t, s, s', hs, hid, hok => by
    rw [addNode] at hok
    split at hok
    next never =>
      obtain rfl := Except.ok.inj hok
      exact ⟨[.expression alwaysFalse], .push _ id rfl, .never never⟩
    next never =>
      have may : t.alwaysFalse = false := by simpa using never
      split at hok
      next hempty =>
        obtain rfl := Except.ok.inj hok
        have none : t.children = [] := List.isEmpty_iff.1 hempty
        have nothing : (FilterNode.tree t).Lowers (scope.Emits s.query)
            (WhereExpr.join t.conjunction []).toList :=
          .tree may (none ▸ .nil)
        exact ⟨[], .refl _ id, nothing⟩
      next => exact addTree_ok t may hs hid hok

/-- A tree adds to the group above one item, the group of what its children become. -/
theorem addTree_ok {scope : LookupScope} {id : GroupId} {underOr : Bool} :
    (t : FilterTree) → {s s' : Progress} → t.alwaysFalse = false → s.query.conditions.Nested →
      id ∈ s.query.conditions →
        scope.addTree (s.openGroup id t.conjunction).2 underOr t
          (s.openGroup id t.conjunction).1 = .ok s' →
        ∃ items, s.query.conditions.Grows id items s'.query.conditions ∧
          (FilterNode.tree t).Lowers (scope.Emits s'.query) (s'.query.conditions.parts items)
  | ⟨conjunction, children, never, cache⟩, s, s', may, hs, hid, hok => by
    have inUse := s.query.conditions.mem_openGroup id conjunction
    have hopened := hs.openGroup hid conjunction
    have hnodes : scope.addNodes (s.openGroup id conjunction).2
        (underOr || conjunction = .or) children (s.openGroup id conjunction).1 = .ok s' := hok
    have hs' : (Progress.atEnd (scope.addNodes (s.openGroup id conjunction).2
        (underOr || conjunction = .or) children
        (s.openGroup id conjunction).1)).query.conditions.Nested :=
      (addNodes_stable (Query.stable_nested.and_mem _) scope (fun _ hq => hq.2) _ children
        (s.openGroup id conjunction).1 ⟨hopened, inUse⟩).1
    rw [hnodes, Progress.atEnd] at hs'
    rcases addNodes_ok children hopened inUse hnodes with ⟨items, grown, lowered⟩
    refine ⟨[.group (s.openGroup id conjunction).2], .nest hid grown, ?_⟩
    have unfolded : s'.query.conditions.parts [.group (s.openGroup id conjunction).2] =
        (WhereExpr.join conjunction (s'.query.conditions.parts items)).toList :=
      grown.parts_opened hs'
    rw [unfolded]
    exact .tree may lowered

/-- Several children add to the group what they become, one after the other. -/
theorem addNodes_ok {scope : LookupScope} {id : GroupId} {underOr : Bool} :
    (ns : List FilterNode) → {s s' : Progress} → s.query.conditions.Nested →
      id ∈ s.query.conditions → scope.addNodes id underOr ns s = .ok s' →
        ∃ items, s.query.conditions.Grows id items s'.query.conditions ∧
          FilterNode.LowersAll (scope.Emits s'.query) ns (s'.query.conditions.parts items)
  | [], s, s', _, _, hok => by
    rw [addNodes] at hok
    obtain rfl := Except.ok.inj hok
    exact ⟨[], .refl _ id, .nil⟩
  | n :: ns, s, s', hs, hid, hok => by
    rw [addNodes] at hok
    split at hok
    next s₁ hfirst =>
      have first := addNode_stable (Query.stable_nested.and_mem id) scope (fun _ hq => hq.2)
        underOr n s ⟨hs, hid⟩
      rw [hfirst] at first
      obtain ⟨hs₁, hid₁⟩ : s₁.query.conditions.Nested ∧ id ∈ s₁.query.conditions := first
      have rest := addNodes_stable (((Query.stable_extends s₁.query.joins).and
        Query.stable_nested).and_mem id) scope (fun _ hq => hq.2) underOr ns s₁
        ⟨⟨.refl _, hs₁⟩, hid₁⟩
      rw [hok] at rest
      obtain ⟨⟨extended, hs'⟩, -⟩ : (s₁.query.joins.Extends s'.query.joins ∧
        s'.query.conditions.Nested) ∧ id ∈ s'.query.conditions := rest
      rcases addNode_ok n hs hid hfirst with ⟨xs, grown, lowered⟩
      rcases addNodes_ok ns hs₁ hid₁ hok with ⟨ys, grown', lowered'⟩
      refine ⟨xs ++ ys, grown.trans grown', ?_⟩
      -- The groups of the first child are new, so the later children leave them alone.
      have same : s'.query.conditions.parts xs = s₁.query.conditions.parts xs := by
        refine grown'.parts_eq hs₁ hs' fun child hchild => ?_
        rcases grown.fresh child hchild with ⟨new, inside⟩
        exact ⟨Nat.lt_of_lt_of_le hid new, inside⟩
      rw [ConditionSet.parts_append, same]
      exact .cons (lowered.mono fun _ _ h => h.of_extends extended) lowered'
    next => cases hok

end

/-- A filter adds to the root what it becomes. -/
theorem addFilter_ok {t : FilterTree} {s s' : Progress} (hs : s.query.conditions.Nested)
    (hok : scope.addFilter t s = .ok s') :
    ∃ items, s.query.conditions.Grows .root items s'.query.conditions ∧
      (FilterNode.tree t).Lowers (scope.Emits s'.query) (s'.query.conditions.parts items) := by
  rcases scope.addFilter_eq_or t s with same | ⟨s₁, s₂, hfilter, hnode, same⟩
  · rw [same] at hok
    exact addNode_ok (.tree t) hs hs.length_pos hok
  · rw [hfilter] at hok
    obtain rfl := Except.ok.inj hok
    rw [same]
    exact addNode_ok (.tree t) hs hs.length_pos hnode

end LookupScope

/-! ## Compiles -/

namespace Compiler

/-- A compile that succeeds adds to the conditions of a statement what the tree becomes. -/
theorem compile_ok {c : Compiler} {t : FilterTree} {q : Query} {revisionScoped : Bool}
    {report : CompileReport} (hq : q.conditions.Nested)
    (hok : (c.compile t q revisionScoped).outcome = .ok report) :
    ∃ anchor, c.anchor q = .ok anchor ∧ ∃ items,
      q.conditions.Grows .root items (c.compile t q revisionScoped).query.conditions ∧
        (FilterNode.tree t).Lowers
          (LookupScope.Emits ⟨c, anchor, revisionScoped⟩ (c.compile t q revisionScoped).query)
          ((c.compile t q revisionScoped).query.conditions.parts items) := by
  cases ha : c.anchor q with
  | error e =>
    rw [compile, ha] at hok
    cases hok
  | ok anchor =>
    refine ⟨anchor, rfl, ?_⟩
    cases hw : LookupScope.addFilter ⟨c, anchor, revisionScoped⟩ t { query := q } with
    | error e =>
      rw [compile, ha] at hok
      simp only [hw] at hok
      cases hok
    | ok s' =>
      have same : (c.compile t q revisionScoped).query = s'.query := by
        rw [compile, ha]
        simp only [hw]
        rfl
      rw [same]
      exact LookupScope.addFilter_ok (s := { query := q }) hq hw

end Compiler

end RowAccess
