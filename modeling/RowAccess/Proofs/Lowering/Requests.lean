import RowAccess.Proofs.Lowering.Walk
import RowAccess.Proofs.Sql.Requests

/-!
# The joins that a filter asks for

Each predicate of a filter may need a join.  What kind of join depends on where it stands:
under an OR a row without a partner must be kept, because another alternative may admit it.
So a predicate is taken together with whether an OR stands above it.

A predicate that stands under no OR is a condition that must hold, and that is what makes a
join that drops rows without a partner acceptable for it.

Main results:

- `FilterNode.Lowers.of_true`: if a filter is true, so is each predicate under no OR.
- `LookupScope.addNodes_requests`: the requests that the walk over the children of a tree makes.
- `Compiler.compile_requests`: the requests that a compile makes.
-/

namespace RowAccess

open Sql

/-! ## Where predicates stand -/

/-- A predicate with whether an OR stands anywhere above it. -/
structure Occurrence where
  predicate : Predicate
  underOr : Bool

mutual

/-- The predicates of a tree that count, from left to right. -/
def FilterTree.occurrences (underOr : Bool) : FilterTree → List Occurrence
  | ⟨conjunction, children, never, _⟩ =>
    if never then [] else FilterNode.occurrencesAll (underOr || conjunction = .or) children

/-- The predicates of a child that count. -/
def FilterNode.occurrences (underOr : Bool) : FilterNode → List Occurrence
  | .leaf p => [⟨p, underOr⟩]
  | .tree t => t.occurrences underOr

/-- The predicates of several children that count. -/
def FilterNode.occurrencesAll (underOr : Bool) : List FilterNode → List Occurrence
  | [] => []
  | n :: ns => n.occurrences underOr ++ FilterNode.occurrencesAll underOr ns

end

theorem FilterTree.occurrences_of_alwaysFalse {t : FilterTree} (h : t.alwaysFalse = true)
    (underOr : Bool) : t.occurrences underOr = [] := by
  rcases t with ⟨conjunction, children, never, cache⟩
  rw [occurrences, if_pos h]

theorem FilterTree.occurrences_of_not_alwaysFalse {t : FilterTree} (h : t.alwaysFalse = false)
    (underOr : Bool) :
    t.occurrences underOr =
      FilterNode.occurrencesAll (underOr || t.conjunction = .or) t.children := by
  rcases t with ⟨conjunction, children, never, cache⟩
  obtain rfl : never = false := h
  rfl

mutual

/-- Whatever is below an OR stays below it. -/
theorem FilterTree.underOr_of_mem {o : Occurrence} :
    (t : FilterTree) → o ∈ t.occurrences true → o.underOr = true
  | ⟨conjunction, children, never, cache⟩, h => by
    rw [FilterTree.occurrences, Bool.true_or] at h
    split at h
    · cases h
    · exact FilterNode.underOr_of_mem_all children h

theorem FilterNode.underOr_of_mem {o : Occurrence} :
    (n : FilterNode) → o ∈ n.occurrences true → o.underOr = true
  | .leaf p, h => by
    obtain rfl := List.mem_singleton.1 h
    rfl
  | .tree t, h => FilterTree.underOr_of_mem t h

theorem FilterNode.underOr_of_mem_all {o : Occurrence} :
    (ns : List FilterNode) → o ∈ FilterNode.occurrencesAll true ns → o.underOr = true
  | [], h => by cases h
  | n :: ns, h => by
    rcases List.mem_append.1 h with first | rest
    · exact FilterNode.underOr_of_mem n first
    · exact FilterNode.underOr_of_mem_all ns rest

end

/-! ## Conditions that must hold -/

section Truth

variable {α : Type*} [Lattice α] [BoundedOrder α]

/-- Joint conditions are true if each of them is. -/
theorem Conjunction.fold_and_eq_top_iff {values : List α} :
    Conjunction.and.fold values = ⊤ ↔ ∀ v ∈ values, v = ⊤ := by
  induction values with
  | nil => exact iff_of_true rfl nofun
  | cons value values ih => rw [fold_and_cons, inf_eq_top_iff, ih, List.forall_mem_cons]

variable {R : Predicate → List Clause → Prop} {ρ : Assignment α}

/-- Conditions that are joined by AND and come to a true one are true. -/
theorem Sql.WhereExpr.forall_eq_top_of_join_and {es : List WhereExpr}
    (h : ∀ e ∈ (join .and es).toList, e.value ρ = ⊤) : ∀ e ∈ es, e.value ρ = ⊤ := by
  have joined := map_value_join ρ .and es
  cases es with
  | nil => nofun
  | cons first rest =>
    rw [List.map_cons, Conjunction.fold?] at joined
    obtain ⟨e, he, worth⟩ := Option.map_eq_some_iff.1 joined
    rw [he] at h
    rw [h e (by simp), eq_comm, ← List.map_cons, Conjunction.fold_and_eq_top_iff] at worth
    intro e' he'
    exact worth _ (List.mem_map_of_mem he')

mutual

/-- If the conditions that a child becomes are true, so is each of its predicates that stands
under no OR. -/
theorem FilterNode.Lowers.of_true {n : FilterNode} {es : List WhereExpr} {p : Predicate} :
    n.Lowers R es → (∀ e ∈ es, e.value ρ = ⊤) → ⟨p, false⟩ ∈ n.occurrences false →
      ∃ clauses, R p clauses ∧ ∀ c ∈ clauses, ρ.clause c = ⊤
  | @FilterNode.Lowers.leaf _ q clauses h, holds, hp => by
    obtain rfl : p = q := congrArg Occurrence.predicate (List.mem_singleton.1 hp)
    exact ⟨clauses, h, fun c hc => holds _ (List.mem_map_of_mem hc)⟩
  | .never h, _, hp => by
    rw [FilterNode.occurrences, FilterTree.occurrences_of_alwaysFalse h] at hp
    cases hp
  | @FilterNode.Lowers.tree _ t inner h hs, holds, hp => by
    rw [FilterNode.occurrences, FilterTree.occurrences_of_not_alwaysFalse h,
      Bool.false_or] at hp
    cases hconj : t.conjunction with
    | or =>
      rw [hconj] at hp
      cases FilterNode.underOr_of_mem_all _ hp
    | and =>
      rw [hconj] at hp holds
      exact FilterNode.LowersAll.of_true hs (WhereExpr.forall_eq_top_of_join_and holds) hp

/-- If the conditions that several children become are true, so is each of their predicates that
stands under no OR. -/
theorem FilterNode.LowersAll.of_true {ns : List FilterNode} {es : List WhereExpr}
    {p : Predicate} :
    FilterNode.LowersAll R ns es → (∀ e ∈ es, e.value ρ = ⊤) →
      ⟨p, false⟩ ∈ FilterNode.occurrencesAll false ns →
        ∃ clauses, R p clauses ∧ ∀ c ∈ clauses, ρ.clause c = ⊤
  | .nil, _, hp => by cases hp
  | .cons h hs, holds, hp => by
    rcases List.mem_append.1 hp with first | rest
    · exact FilterNode.Lowers.of_true h (fun e he => holds e (List.mem_append_left _ he)) first
    · exact FilterNode.LowersAll.of_true hs (fun e he => holds e (List.mem_append_right _ he)) rest

end

end Truth

/-! ## Requests -/

namespace LookupScope

/-- Rows without a partner are dropped for a predicate under no OR that does not check for the
null. -/
theorem joinKind_eq_inner_iff {underOr : Bool} {op : Comparison} :
    joinKind underOr op = .inner ↔ underOr = false ∧ op.isNullCheck = false := by
  rw [joinKind]
  split
  next h => simpa [or_iff_not_imp_left] using h
  next h => simpa using h

/-- Rows without a partner are kept for a predicate under an OR and for a null check. -/
theorem joinKind_eq_left_iff {underOr : Bool} {op : Comparison} :
    joinKind underOr op = .left ↔ underOr = true ∨ op.isNullCheck = true := by
  rw [joinKind, ← Bool.or_eq_true]
  split
  next h => simpa using h
  next h => simpa using h

variable (scope : LookupScope)

/-- The field of a predicate is stored. -/
def Stores (p : Predicate) (storage : FieldStorage) : Prop :=
  ∃ path, p.path = .ok path ∧
    scope.compiler.resolver.storage? path.field path.property = some storage

/-- The join that a predicate on a dedicated field asks for. -/
inductive Requires : Occurrence → JoinRequest → Prop where
  | dedicated {o : Occurrence} {storage : FieldStorage} (stored : scope.Stores o.predicate storage)
      (h : storage.dedicated = true) :
      Requires o (Reach.dedicatedJoin scope.compiler.resolver.tables storage scope.anchor
        scope.revisionScoped (joinKind o.underOr o.predicate.op))

/-- The join that a predicate on a field of a shared table asks for, if the table is not there
already. -/
inductive MayRequest : Occurrence → JoinRequest → Prop where
  | shared {o : Occurrence} {storage : FieldStorage} (stored : scope.Stores o.predicate storage)
      (h : storage.dedicated = false)
      (other : scope.sharedTable storage ≠ scope.anchor.table) :
      MayRequest o (scope.sharedJoin storage)

/-- The requests are those of the predicates, and every predicate on a dedicated field makes
its own. -/
structure Requested (os : List Occurrence) (requests : List JoinRequest) : Prop where
  needed : ∀ o ∈ os, ∀ r, scope.Requires o r → r ∈ requests
  justified : ∀ r ∈ requests, ∃ o ∈ os, scope.Requires o r ∨ scope.MayRequest o r

variable {scope}

/-- The join for a dedicated field keeps rows without a partner where its predicate needs it. -/
theorem Requires.kind_eq {o : Occurrence} {r : JoinRequest} (h : scope.Requires o r) :
    r.kind = joinKind o.underOr o.predicate.op := by
  cases h with
  | dedicated stored own => rfl

/-- The join of a shared table drops rows without a partner. -/
theorem MayRequest.kind_eq {o : Occurrence} {r : JoinRequest} (h : scope.MayRequest o r) :
    r.kind = .inner := by
  cases h with
  | shared stored own other => rfl

theorem Requested.nil : scope.Requested [] [] := ⟨nofun, nofun⟩

/-- A predicate that asks for nothing makes no request. -/
theorem Requested.of_not_requires {o : Occurrence} (h : ∀ r, ¬ scope.Requires o r) :
    scope.Requested [o] [] := by
  refine ⟨fun o' ho' r hr => ?_, fun r hr => absurd hr List.not_mem_nil⟩
  obtain rfl := List.mem_singleton.1 ho'
  exact absurd hr (h r)

theorem Requested.append {os os' : List Occurrence} {rs rs' : List JoinRequest}
    (h : scope.Requested os rs) (h' : scope.Requested os' rs') :
    scope.Requested (os ++ os') (rs' ++ rs) := by
  constructor
  · intro o ho r hr
    rcases List.mem_append.1 ho with first | rest
    · exact List.mem_append_right _ (h.needed o first r hr)
    · exact List.mem_append_left _ (h'.needed o rest r hr)
  · intro r hr
    rcases List.mem_append.1 hr with later | earlier
    · obtain ⟨o, ho, asks⟩ := h'.justified r later
      exact ⟨o, List.mem_append_right _ ho, asks⟩
    · obtain ⟨o, ho, asks⟩ := h.justified r earlier
      exact ⟨o, List.mem_append_left _ ho, asks⟩

/-- A field is stored in one place. -/
theorem Stores.unique {p : Predicate} {storage storage' : FieldStorage}
    (h : scope.Stores p storage) (h' : scope.Stores p storage') : storage = storage' := by
  obtain ⟨path, hpath, hstorage⟩ := h
  obtain ⟨path', hpath', hstorage'⟩ := h'
  obtain rfl := Except.ok.inj (hpath.symm.trans hpath')
  exact Option.some.inj (hstorage.symm.trans hstorage')

/-- A predicate on a stored field has become one clause, on a column under which its field is
reached. -/
theorem Emits.of_stores {q : Query} {p : Predicate} {clauses : List Clause}
    (h : scope.Emits q p clauses) {storage : FieldStorage} (stored : scope.Stores p storage) :
    ∃ aliasName c, clauses = [c] ∧ scope.Reaches q storage aliasName ∧
      Lowering.clause p (Text.qualify aliasName storage.column) storage.caseSensitive
        scope.compiler.options = .ok c := by
  cases h with
  | @stored path storage' aliasName c hpath hstorage reach hclause =>
    obtain rfl := stored.unique ⟨path, hpath, hstorage⟩
    exact ⟨aliasName, c, rfl, reach, hclause⟩
  | skipped hpath hstorage hbackend =>
    obtain ⟨path', hpath', hstorage'⟩ := stored
    obtain rfl := Except.ok.inj (hpath.symm.trans hpath')
    cases hstorage.symm.trans hstorage'

/-! ## The walk -/

/-- Reaching the field of a predicate makes the request of the predicate, if any. -/
theorem place_requests {s : Progress} {requests : List JoinRequest}
    (hs : s.query.joins.Serves requests) {o : Occurrence} {storage : FieldStorage}
    (stored : scope.Stores o.predicate storage) :
    ∃ new, (s.place storage (Reach.of s.query scope.compiler.resolver.tables storage scope.anchor
        scope.revisionScoped (joinKind o.underOr o.predicate.op))).1.query.joins.Serves
          (new ++ requests) ∧ scope.Requested [o] new := by
  by_cases h : storage.dedicated = true
  · rw [Reach.of_dedicated h]
    refine ⟨[_], hs.ensure _ _ _, ?_, ?_⟩
    · rintro o' ho' r ⟨stored', -⟩
      obtain rfl := List.mem_singleton.1 ho'
      obtain rfl := stored.unique stored'
      exact List.mem_singleton_self _
    · intro r hr
      obtain rfl := List.mem_singleton.1 hr
      exact ⟨o, List.mem_singleton_self o, .inl (.dedicated stored h)⟩
  · have shared : storage.dedicated = false := by simpa using h
    have none_needed (r : JoinRequest) : ¬ scope.Requires o r := by
      rintro ⟨stored', h'⟩
      obtain rfl := stored.unique stored'
      exact h h'
    have nothing := Requested.of_not_requires none_needed
    rw [Reach.of, if_neg h]
    by_cases same : storage.tableFor scope.revisionScoped = scope.anchor.table
    · simp only [if_pos same]
      exact ⟨[], hs, nothing⟩
    · simp only [if_neg same]
      cases s.query.findJoin? (storage.tableFor scope.revisionScoped) scope.anchor.aliasName with
      | some aliasName => exact ⟨[], hs, nothing⟩
      | none =>
        refine ⟨[scope.sharedJoin storage], hs.ensure _ _ _, fun o' ho' r hr => ?_, ?_⟩
        · obtain rfl := List.mem_singleton.1 ho'
          exact absurd hr (none_needed r)
        · intro r hr
          obtain rfl := List.mem_singleton.1 hr
          exact ⟨o, List.mem_singleton_self o, .inr (.shared stored shared same)⟩

/-- A predicate makes its request. -/
theorem addPredicate_requests {id : GroupId} {underOr : Bool} {p : Predicate} {s s' : Progress}
    {requests : List JoinRequest} (hs : s.query.joins.Serves requests)
    (hok : scope.addPredicate id underOr p s = .ok s') :
    ∃ new, s'.query.joins.Serves (new ++ requests) ∧ scope.Requested [⟨p, underOr⟩] new := by
  rw [addPredicate] at hok
  split at hok
  next => cases hok
  next path hpath =>
    split at hok
    next storage hstorage =>
      have stored : scope.Stores p storage := ⟨path, hpath, hstorage⟩
      obtain ⟨new, serves, requested⟩ := place_requests (o := ⟨p, underOr⟩) hs stored
      rw [addStored] at hok
      split at hok
      next c _ =>
        obtain rfl := Except.ok.inj hok
        rw [Progress.query_noteJoin]
        exact ⟨new, serves, requested⟩
      next => cases hok
    next hstorage =>
      split at hok
      next => cases hok
      next =>
        obtain rfl := Except.ok.inj hok
        refine ⟨[], hs, .of_not_requires fun r requires => ?_⟩
        obtain ⟨⟨path', hpath', hstored⟩, -⟩ := requires
        obtain rfl := Except.ok.inj (hpath.symm.trans hpath')
        rw [hstorage] at hstored
        cases hstored

mutual

/-- A tree makes the requests of its children. -/
theorem addTree_requests {scope : LookupScope} {id : GroupId} {underOr : Bool} :
    (t : FilterTree) → t.alwaysFalse = false → {s s' : Progress} →
      {requests : List JoinRequest} → s.query.joins.Serves requests →
        scope.addTree id underOr t s = .ok s' →
          ∃ new, s'.query.joins.Serves (new ++ requests) ∧
            scope.Requested (t.occurrences underOr) new
  | ⟨conjunction, children, never, cache⟩, may, s, s', requests, hs, hok => by
    obtain rfl : never = false := may
    exact addNodes_requests children hs hok

/-- A child makes the requests of its predicates. -/
theorem addNode_requests {scope : LookupScope} {id : GroupId} {underOr : Bool} :
    (n : FilterNode) → {s s' : Progress} → {requests : List JoinRequest} →
      s.query.joins.Serves requests → scope.addNode id underOr n s = .ok s' →
        ∃ new, s'.query.joins.Serves (new ++ requests) ∧
          scope.Requested (n.occurrences underOr) new
  | .leaf p, _, _, _, hs, hok => addPredicate_requests hs hok
  | .tree t, s, s', requests, hs, hok => by
    rw [addNode] at hok
    rw [FilterNode.occurrences]
    split at hok
    next never =>
      obtain rfl := Except.ok.inj hok
      rw [FilterTree.occurrences_of_alwaysFalse never]
      exact ⟨[], hs, .nil⟩
    next never =>
      have may : t.alwaysFalse = false := by simpa using never
      split at hok
      next hempty =>
        obtain rfl := Except.ok.inj hok
        have none : t.children = [] := List.isEmpty_iff.1 hempty
        rw [FilterTree.occurrences_of_not_alwaysFalse may, none]
        exact ⟨[], hs, .nil⟩
      next =>
        have opened : (s.openGroup id t.conjunction).1.query.joins.Serves requests := hs
        exact addTree_requests t may opened hok

/-- Several children make the requests of their predicates. -/
theorem addNodes_requests {scope : LookupScope} {id : GroupId} {underOr : Bool} :
    (ns : List FilterNode) → {s s' : Progress} → {requests : List JoinRequest} →
      s.query.joins.Serves requests → scope.addNodes id underOr ns s = .ok s' →
        ∃ new, s'.query.joins.Serves (new ++ requests) ∧
          scope.Requested (FilterNode.occurrencesAll underOr ns) new
  | [], s, s', _, hs, hok => by
    rw [addNodes] at hok
    obtain rfl := Except.ok.inj hok
    exact ⟨[], hs, .nil⟩
  | n :: ns, s, s', requests, hs, hok => by
    rw [addNodes] at hok
    split at hok
    next s₁ hfirst =>
      obtain ⟨first, serves, requested⟩ := addNode_requests n hs hfirst
      obtain ⟨rest, serves', requested'⟩ := addNodes_requests ns serves hok
      refine ⟨rest ++ first, ?_, requested.append requested'⟩
      rw [List.append_assoc]
      exact serves'
    next => cases hok

end

end LookupScope

/-! ## Compiles -/

/-- A compile that succeeds makes the requests of the predicates of the filter. -/
theorem Compiler.compile_requests {c : Compiler} {t : FilterTree} {q : Query} {anchor : Anchor}
    {revisionScoped : Bool} {report : CompileReport} {requests : List JoinRequest}
    (ha : c.anchor q = .ok anchor) (hq : q.joins.Serves requests)
    (hok : (c.compile t q revisionScoped).outcome = .ok report) :
    ∃ new, (c.compile t q revisionScoped).query.joins.Serves (new ++ requests) ∧
      LookupScope.Requested ⟨c, anchor, revisionScoped⟩ (t.occurrences false) new := by
  rw [compile, ha] at hok ⊢
  simp only at hok ⊢
  cases hw : LookupScope.addFilter ⟨c, anchor, revisionScoped⟩ t { query := q } with
  | error e =>
    rw [hw] at hok
    cases hok
  | ok s' =>
    have start : (Progress.mk q {} []).query.joins.Serves requests := hq
    rcases LookupScope.addFilter_eq_or ⟨c, anchor, revisionScoped⟩ t { query := q } with
      same | ⟨s₁, s₂, hfilter, hnode, same⟩
    · rw [same] at hw
      exact LookupScope.addNode_requests (.tree t) start hw
    · rw [hw] at hfilter
      obtain rfl := Except.ok.inj hfilter
      rw [Compiled.ofWalk, same]
      exact LookupScope.addNode_requests (.tree t) start hnode

end RowAccess
