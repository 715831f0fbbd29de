import Mathlib.Data.List.Forall2
import RowAccess.Proofs.Sql.Aliases
import RowAccess.Proofs.Sql.Answer
import RowAccess.Proofs.Sql.Requests

/-!
# Statements that were added to

A statement that is added to gets further joins, and joins of it may come to keep rows without
a partner.  Its conditions become stricter at most.  If its conditions look only at tables that
it has, further joins do not matter for them, so a record that is returned afterwards was returned
before, or it is returned without a row in a join that dropped such records before.

Main results:

- `mem_scopes_of_widens`: a reading after some joins were widened is a reading before, or one of
  these joins has no row in it.
- `ConditionSet.truth_congr`: conditions depend on their clauses and raw conditions only.
- `Query.Reachable.served`: the joins of a reachable statement were requested.
- `Query.AddsTo.returns`: the records that are returned by a statement that was added to.
-/

namespace RowAccess.Sql

/-! ## Joins that were widened -/

/-- A join after further requests for it: it keeps rows without a partner if it did before. -/
structure Join.Widens (j j' : Join) : Prop where
  plain : j'.plain = j.plain
  kept : j.kind = .left → j'.kind = .left

/-- Where every join is still there, and none drops rows that it kept, the joins that were there
are in front. -/
theorem JoinSet.Extends.split {s s' : JoinSet} (h : s.Extends s')
    (kept : ∀ j ∈ s.joins, ∀ j' ∈ s'.joins, j'.plain = j.plain → j.kind = .left → j'.kind = .left) :
    ∃ widened added, s'.joins = widened ++ added ∧ List.Forall₂ Join.Widens s.joins widened := by
  obtain ⟨more, hmore⟩ := h
  obtain ⟨widened, added, hjoins, hplain, -⟩ := List.map_eq_append_iff.1 hmore.symm
  have same : List.Forall₂ (· = ·) (s.joins.map Join.plain) (widened.map Join.plain) := by
    rw [List.forall₂_eq_eq_eq, hplain]
  have pairs : List.Forall₂ (fun j j' => j.plain = j'.plain) s.joins widened :=
    List.forall₂_map_right_iff.1 (List.forall₂_map_left_iff.1 same)
  refine ⟨widened, added, hjoins, List.forall₂_iff_zip.2 ⟨pairs.length_eq, ?_⟩⟩
  intro j j' hpair
  have plain : j'.plain = j.plain := (List.forall₂_zip pairs hpair).symm
  obtain ⟨hj, hj'⟩ := List.of_mem_zip hpair
  exact ⟨plain, kept j hj j' (hjoins ▸ List.mem_append_left _ hj') plain⟩

section Readings

variable {engine : Engine} {db : Database}

theorem Join.left_of_plain_eq {j j' : Join} (h : j'.plain = j.plain) : j'.left = j.left := by
  have same : j'.plain.left = j.plain.left := by rw [h]
  exact same

/-- A join finds the same rows however it treats rows without a partner. -/
theorem Join.partners_of_plain_eq {j j' : Join} (h : j'.plain = j.plain) (v : Value) :
    j'.partners engine db v = j.partners engine db v := by
  rcases j with ⟨kind, table, aliasName, left, rightColumn⟩
  rcases j' with ⟨kind', table', aliasName', left', rightColumn'⟩
  simp only [plain, mk.injEq, true_and] at h
  obtain ⟨rfl, -, -, rfl⟩ := h
  rfl

/-- A reading after a widened join is a reading after the join, or the join has no row. -/
theorem Join.Widens.mem_extend {j j' : Join} (h : j.Widens j') {s s' : Scope}
    (hs' : s' ∈ j'.extend engine db s) :
    s' ∈ j.extend engine db s ∨
      j.kind = .inner ∧ j'.kind = .left ∧ s' = (j.aliasName, .absent) :: s := by
  have named : j'.aliasName = j.aliasName := aliasName_of_plain_eq h.plain
  have column : j'.left = j.left := left_of_plain_eq h.plain
  rw [extend, column, partners_of_plain_eq h.plain, named] at hs'
  rw [extend]
  cases found : j.partners engine db (s.value j.left) with
  | cons row rows =>
    rw [found] at hs'
    exact .inl hs'
  | nil =>
    simp only [found] at hs'
    by_cases hkind' : j'.kind = .left
    · rw [if_pos hkind', List.mem_singleton] at hs'
      cases hkind : j.kind with
      | left => exact .inl (List.mem_singleton.2 hs')
      | inner => exact .inr ⟨rfl, hkind', hs'⟩
    · rw [if_neg hkind'] at hs'
      cases hs'

/-- The readings after further joins. -/
theorem scopes_append (js ks : List Join) (s : Scope) :
    scopes engine db (js ++ ks) s = (scopes engine db js s).flatMap (scopes engine db ks) := by
  induction js generalizing s with
  | nil => simp [scopes]
  | cons j js ih =>
    rw [List.cons_append, scopes, scopes, List.flatMap_assoc]
    exact List.flatMap_congr fun next _ => ih next

/-- Widening changes no alias. -/
theorem aliases_of_widens {js js' : List Join} (h : List.Forall₂ Join.Widens js js') :
    js'.map Join.aliasName = js.map Join.aliasName := by
  induction h with
  | nil => rfl
  | cons first rest ih =>
    rw [List.map_cons, List.map_cons, Join.aliasName_of_plain_eq first.plain, ih]

/-- A reading after some joins were widened is a reading before, or one of these joins has no
row in it. -/
theorem mem_scopes_of_widens {js js' : List Join} (h : List.Forall₂ Join.Widens js js')
    (distinct : (js.map Join.aliasName).Nodup) {s s' : Scope}
    (hs' : s' ∈ scopes engine db js' s) :
    s' ∈ scopes engine db js s ∨
      ∃ j ∈ js, ∃ j' ∈ js', j.Widens j' ∧ j.kind = .inner ∧ j'.kind = .left ∧
        s'.lookup j.aliasName = some .absent := by
  induction h generalizing s with
  | nil => exact .inl hs'
  | @cons j j' js js' first rest ih =>
    obtain ⟨fresh, distinct⟩ := List.nodup_cons.1 distinct
    obtain ⟨next, hnext, hs'⟩ := List.mem_flatMap.1 hs'
    rcases first.mem_extend hnext with hnext | ⟨hinner, hleft, rfl⟩
    · rcases ih distinct hs' with same | ⟨i, hi, i', hi', widened⟩
      · exact .inl (List.mem_flatMap.2 ⟨next, hnext, same⟩)
      · exact .inr ⟨i, List.mem_cons_of_mem _ hi, i', List.mem_cons_of_mem _ hi', widened⟩
    · -- The later joins have other aliases, so the missing row stays.
      have others : ∀ i ∈ js', i.aliasName ≠ j.aliasName := by
        intro i hi same
        rw [← aliases_of_widens rest] at fresh
        exact fresh (same ▸ List.mem_map_of_mem hi)
      refine .inr ⟨j, List.mem_cons_self, j', List.mem_cons_self, first, hinner, hleft, ?_⟩
      rw [lookup_of_mem_scopes others hs', List.lookup_cons_self]

end Readings

/-! ## Conditions on the tables of a statement -/

/-- Conditions depend on their clauses and raw conditions only. -/
theorem ConditionSet.truth_congr {α : Type*} [Lattice α] [BoundedOrder α] {s : ConditionSet}
    (hs : s.Nested) {ρ ρ' : Assignment α}
    (clause : ∀ g ∈ s.groups, ∀ c, Condition.clause c ∈ g.items → ρ.clause c = ρ'.clause c)
    (expression : ∀ g ∈ s.groups, ∀ text, Condition.expression text ∈ g.items →
      ρ.expression text = ρ'.expression text) : s.truth ρ = s.truth ρ' := by
  obtain ⟨items, hroot⟩ := hs.root
  rw [truth_eq ρ hs, truth_eq ρ' hs, rootParts_eq hs, rootItems_eq hroot]
  refine congrArg (Conjunction.fold .and) (List.map_congr_left ?_)
  refine parts_induction hs clause expression ?_ hroot
  intro conjunction es e hes he
  have values := WhereExpr.map_value_join ρ conjunction es
  rw [List.map_congr_left hes, ← WhereExpr.map_value_join, he] at values
  exact Option.some.inj values

namespace Query

/-- The joins of a statement were requested. -/
theorem stable_served : Stable fun q => ∃ requests, q.joins.Serves requests where
  ensureJoin := by
    rintro q r ⟨requests, serves⟩
    exact ⟨r :: requests, serves.ensure r _ _⟩
  pushCondition := fun _ _ _ h _ _ => h
  openGroup := fun _ _ _ h _ => h

/-- The joins of a reachable statement were requested. -/
theorem Reachable.served {q : Query} (h : q.Reachable) : ∃ requests, q.joins.Serves requests :=
  induct (P := fun joins _ => ∃ requests, joins.Serves requests) ⟨[], JoinSet.serves_empty⟩
    stable_served h

/-- The aliases that a statement has rows for. -/
def names (q : Query) : List String := q.aliasName :: q.joins.aliases

/-- Two readings have the same rows of the tables of a statement. -/
def Agree (q : Query) (s s' : Scope) : Prop := ∀ name ∈ q.names, s.lookup name = s'.lookup name

/-- The conditions of a statement look only at tables that it has. -/
structure Scoped (engine : Engine) (q : Query) : Prop where
  clause : ∀ g ∈ q.conditions.groups, ∀ c, Condition.clause c ∈ g.items →
    ∀ s s' : Scope, q.Agree s s' → s.value c.column = s'.value c.column
  expression : ∀ g ∈ q.conditions.groups, ∀ text, Condition.expression text ∈ g.items →
    ∀ s s' : Scope, q.Agree s s' → engine.holds text s = engine.holds text s'

/-- A column qualified by an alias of the statement is of a table that the statement has. -/
theorem Agree.value_eq {q : Query} {s s' : Scope} (h : q.Agree s s') {column : String}
    (qualified : (Text.splitAtDot column).1 ∈ q.names) : s.value column = s'.value column := by
  simp only [Scope.value, h _ qualified]

variable {engine : Engine} {db : Database} {q q' : Query} {record : Record}

/-- Readings that agree on the tables of a statement agree on its conditions. -/
theorem Scoped.truth_congr (h : q.Scoped engine) (hq : q.conditions.Nested) {s s' : Scope}
    (agree : q.Agree s s') :
    q.conditions.truth (s.assignment engine) = q.conditions.truth (s'.assignment engine) := by
  refine ConditionSet.truth_congr hq (fun g hg c hc => ?_) (fun g hg text htext => ?_)
  · simp only [Scope.assignment, h.clause g hg c hc s s' agree]
  · simp only [Scope.assignment, h.expression g hg text htext s s' agree]

/-- The statement returns a record in a reading where an alias stands for a missing row. -/
def ReturnsWithout (engine : Engine) (db : Database) (q : Query) (aliasName : String)
    (record : Record) : Prop :=
  ∃ s ∈ scopes engine db q.joins.joins [(q.aliasName, record)],
    q.conditions.truth (s.assignment engine) = .yes ∧ s.lookup aliasName = some .absent

/-- A statement after joins were widened or added and conditions were added. -/
structure AddsTo (q q' : Query) : Prop where
  table : q'.table = q.table
  aliasName : q'.aliasName = q.aliasName
  /-- The joins that were there are in front. -/
  joins : ∃ widened added, q'.joins.joins = widened ++ added ∧
    List.Forall₂ Join.Widens q.joins.joins widened ∧ ∀ j ∈ added, j.aliasName ∉ q.names
  conditions : ∀ ρ : Assignment Ternary, q'.conditions.truth ρ ≤ q.conditions.truth ρ

/-- A record that a statement returns after it was added to was returned before, or a join that
was widened has no row for it. -/
theorem AddsTo.returns (h : q.AddsTo q') (hq : q.conditions.Nested)
    (distinct : q.joins.aliases.Nodup) (names : q.Scoped engine)
    (returned : q'.Returns engine db record) :
    q.Returns engine db record ∨
      ∃ j ∈ q.joins.joins, ∃ j' ∈ q'.joins.joins, j.Widens j' ∧ j.kind = .inner ∧
        j'.kind = .left ∧ q'.ReturnsWithout engine db j.aliasName record := by
  obtain ⟨widened, added, hjoins, hwidened, hadded⟩ := h.joins
  obtain ⟨stored, s', reading, holds⟩ := returned
  have hs' := reading
  rw [h.table] at stored
  rw [h.aliasName, hjoins, scopes_append] at hs'
  obtain ⟨s, hs, hs'⟩ := List.mem_flatMap.1 hs'
  have agree : q.Agree s' s := by
    intro name hname
    refine lookup_of_mem_scopes (fun j hj same => ?_) hs'
    exact hadded j hj (same ▸ hname)
  rcases mem_scopes_of_widens hwidened distinct hs with before | ⟨j, hj, j', hj', w, hi, hl, hrow⟩
  · refine .inl ⟨stored, s, before, ?_⟩
    have kept := h.conditions (s'.assignment engine)
    rw [holds, names.truth_congr hq agree] at kept
    exact top_le_iff.1 kept
  · have named : j.aliasName ∈ q.names := List.mem_cons_of_mem _ (List.mem_map_of_mem hj)
    refine .inr ⟨j, hj, j', ?_, w, hi, hl, s', reading, holds, (agree _ named).trans hrow⟩
    rw [hjoins]
    exact List.mem_append_left _ hj'

end Query

end RowAccess.Sql
