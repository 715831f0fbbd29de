import Mathlib.Data.List.Nodup
import RowAccess.Proofs.Sql.Joins

/-!
# Joins and the requests behind them

A set of joins comes about by requests.  Requests for the same table on the same columns are
served by one join, and that join keeps rows without a partner if any of them asked for it,
in whatever order they came.

Main results:

- `JoinSet.mem_widenAnswer`: a request for a join that is there widens that join and no other.
- `JoinSet.Serves.ensure`: one more request is served, and the earlier ones still are.
- `JoinSet.Serves.kind_of_more`: what further requests make of a join.
-/

namespace RowAccess.Sql

/-- What a request asks for, the kind aside. -/
def JoinRequest.key (r : JoinRequest) : String × String × String :=
  (r.table, r.left, r.rightColumn)

/-- What a join is for, its kind and its alias aside. -/
def Join.key (j : Join) : String × String × String := (j.table, j.left, j.rightColumn)

namespace Join

/-- A join answers the requests for what it is for. -/
theorem answers_iff_key (j : Join) (r : JoinRequest) : j.answers r = true ↔ j.key = r.key := by
  simp [answers_iff, key, JoinRequest.key]

end Join

namespace JoinSet

/-! ## One request -/

/-- Widening changes the kind of a join only. -/
theorem map_key_widenAnswer (r : JoinRequest) (joins : List Join) :
    (widenAnswer r joins).map Join.key = joins.map Join.key := by
  induction joins with
  | nil => rfl
  | cons j rest ih =>
    rw [widenAnswer]
    split
    · rfl
    · rw [List.map_cons, ih, List.map_cons]

/-- Where no two joins are for the same, a request for a join that is there widens that join and
no other. -/
theorem mem_widenAnswer {r : JoinRequest} {joins : List Join}
    (distinct : (joins.map Join.key).Nodup) {j' : Join} :
    j' ∈ widenAnswer r joins ↔
      ∃ j ∈ joins, j' = if j.answers r = true then j.widenBy r else j := by
  induction joins with
  | nil => simp [widenAnswer]
  | cons first rest ih =>
    obtain ⟨fresh, distinct⟩ := List.nodup_cons.1 distinct
    rw [widenAnswer]
    by_cases h : first.answers r = true
    · -- No later join answers the request, so the later joins stay as they are.
      have later (j : Join) (hj : j ∈ rest) : j.answers r = false := by
        by_contra answers
        have same : j.key = first.key := by
          rw [(j.answers_iff_key r).1 (by simpa using answers), (first.answers_iff_key r).1 h]
        exact fresh (same ▸ List.mem_map_of_mem hj)
      have unchanged : (∃ j ∈ rest, j' = if j.answers r = true then j.widenBy r else j) ↔
          j' ∈ rest := by
        constructor
        · rintro ⟨j, hj, rfl⟩
          rw [later j hj]
          exact hj
        · intro hj
          exact ⟨j', hj, by rw [later j' hj]; rfl⟩
      rw [if_pos h, List.mem_cons, List.exists_mem_cons_iff, if_pos h, unchanged]
    · rw [if_neg h, List.mem_cons, List.exists_mem_cons_iff, if_neg h, ih distinct]

/-! ## All requests -/

/-- The joins are those that were requested, one for each table and columns, and a join keeps
rows without a partner if one of the requests for it asked for that. -/
structure Serves (s : JoinSet) (requests : List JoinRequest) : Prop where
  distinct : (s.joins.map Join.key).Nodup
  answered : ∀ r ∈ requests, ∃ j ∈ s.joins, j.answers r = true
  asked : ∀ j ∈ s.joins, ∃ r ∈ requests, j.answers r = true
  kind : ∀ j ∈ s.joins,
    (j.kind = .left ↔ ∃ r ∈ requests, j.answers r = true ∧ r.kind = .left)

theorem serves_empty : (∅ : JoinSet).Serves [] where
  distinct := .nil
  answered := nofun
  asked := nofun
  kind := nofun

namespace Serves

variable {s : JoinSet} {requests : List JoinRequest} {r : JoinRequest}

/-- Two joins for the same are one join. -/
theorem eq_of_answers (h : s.Serves requests) {j j' : Join} (hj : j ∈ s.joins)
    (hj' : j' ∈ s.joins) (answers : j.answers r = true) (answers' : j'.answers r = true) :
    j = j' := by
  have same : j.key = j'.key := by
    rw [(j.answers_iff_key r).1 answers, (j'.answers_iff_key r).1 answers']
  exact List.inj_on_of_nodup_map h.distinct hj hj' same

/-- A join for rows with a partner only was requested as such every time. -/
theorem kind_of_inner (h : s.Serves requests) {j : Join} (hj : j ∈ s.joins)
    (hkind : j.kind = .inner) (hr : r ∈ requests) (answers : j.answers r = true) :
    r.kind = .inner := by
  cases hkind' : r.kind with
  | inner => rfl
  | left =>
    rw [(h.kind j hj).2 ⟨r, hr, answers, hkind'⟩] at hkind
    cases hkind

/-- After further requests a join keeps rows without a partner if it did before or if one of
these asked for that. -/
theorem kind_of_more {s' : JoinSet} {more : List JoinRequest} (h : s.Serves requests)
    (h' : s'.Serves (more ++ requests)) {j j' : Join} (hj : j ∈ s.joins) (hj' : j' ∈ s'.joins)
    (same : j'.plain = j.plain) :
    j'.kind = .left ↔
      j.kind = .left ∨ ∃ r ∈ more, j.answers r = true ∧ r.kind = .left := by
  have answers (r : JoinRequest) : j'.answers r = j.answers r := by
    rw [← Join.answers_plain, same, Join.answers_plain]
  rw [h'.kind j' hj', h.kind j hj]
  simp only [answers, List.mem_append, or_and_right, exists_or]
  exact or_comm

/-- A request for a join that is there. -/
theorem widen (h : s.Serves requests) {found : Join} (hfound : found ∈ s.joins)
    (answers : found.answers r = true) :
    Serves ⟨widenAnswer r s.joins⟩ (r :: requests) where
  distinct := by
    rw [map_key_widenAnswer]
    exact h.distinct
  answered := by
    intro r' hr'
    obtain ⟨j, hj, hans⟩ : ∃ j ∈ s.joins, j.answers r' = true := by
      rcases List.mem_cons.1 hr' with rfl | earlier
      · exact ⟨found, hfound, answers⟩
      · exact h.answered r' earlier
    refine ⟨_, (mem_widenAnswer h.distinct).2 ⟨j, hj, rfl⟩, ?_⟩
    split <;> exact hans
  asked := by
    intro j' hj'
    obtain ⟨j, hj, rfl⟩ := (mem_widenAnswer h.distinct).1 hj'
    obtain ⟨r', hr', hans⟩ := h.asked j hj
    refine ⟨r', List.mem_cons_of_mem _ hr', ?_⟩
    split <;> exact hans
  kind := by
    intro j' hj'
    obtain ⟨j, hj, rfl⟩ := (mem_widenAnswer h.distinct).1 hj'
    rw [List.exists_mem_cons_iff]
    split
    next hans =>
      have widened : (j.widenBy r).kind = .left ↔ j.kind = .left ∨ r.kind = .left :=
        JoinKind.widen_eq_left_iff j.kind r.kind
      have same (r' : JoinRequest) : (j.widenBy r).answers r' = j.answers r' := rfl
      simp only [widened, same, hans, h.kind j hj, true_and]
      exact or_comm
    next hans => simp only [hans, h.kind j hj, Bool.false_eq_true, false_and, false_or]

/-- A request for a join that is not there. -/
theorem append (h : s.Serves requests) (unanswered : ∀ j ∈ s.joins, j.answers r = false)
    (aliasName : String) :
    Serves ⟨s.joins ++ [.ofRequest r aliasName]⟩ (r :: requests) := by
  have own (r' : JoinRequest) : (Join.ofRequest r aliasName).answers r' = true ↔ r.key = r'.key :=
    Join.answers_iff_key _ r'
  -- None of the earlier requests is for what this one asks for.
  have other (r' : JoinRequest) (hr' : r' ∈ requests) : r.key ≠ r'.key := by
    intro same
    obtain ⟨j, hj, hans⟩ := h.answered r' hr'
    have : j.answers r = true := by
      rw [j.answers_iff_key, same, ← j.answers_iff_key]
      exact hans
    rw [unanswered j hj] at this
    cases this
  constructor
  · rw [List.map_append, List.nodup_append]
    refine ⟨h.distinct, by simp, ?_⟩
    intro k hk k' hk'
    obtain ⟨j, hj, rfl⟩ := List.mem_map.1 hk
    obtain rfl := List.mem_singleton.1 hk'
    intro same
    have : j.answers r = true := (j.answers_iff_key r).2 same
    rw [unanswered j hj] at this
    cases this
  · intro r' hr'
    rcases List.mem_cons.1 hr' with rfl | earlier
    · exact ⟨_, List.mem_append_right _ (List.mem_singleton_self _), (own r').2 rfl⟩
    · obtain ⟨j, hj, hans⟩ := h.answered r' earlier
      exact ⟨j, List.mem_append_left _ hj, hans⟩
  · intro j hj
    rcases List.mem_append.1 hj with earlier | new
    · obtain ⟨r', hr', hans⟩ := h.asked j earlier
      exact ⟨r', List.mem_cons_of_mem _ hr', hans⟩
    · obtain rfl := List.mem_singleton.1 new
      exact ⟨r, List.mem_cons_self, (own r).2 rfl⟩
  · intro j hj
    rw [List.exists_mem_cons_iff]
    rcases List.mem_append.1 hj with earlier | new
    · simp only [unanswered j earlier, h.kind j earlier, Bool.false_eq_true, false_and, false_or]
    · obtain rfl := List.mem_singleton.1 new
      constructor
      · intro hkind
        exact .inl ⟨(own r).2 rfl, hkind⟩
      · rintro (⟨-, hkind⟩ | ⟨r', hr', hans, -⟩)
        · exact hkind
        · exact absurd ((own r').1 hans) (other r' hr')

/-- One more request is served, and the earlier ones still are. -/
theorem ensure (h : s.Serves requests) (r : JoinRequest) (preferred : String)
    (reserved : List String) :
    (s.ensure r preferred reserved).1.Serves (r :: requests) := by
  cases hr : s.answer? r with
  | some found =>
    have answers : found.answers r = true := by
      have := List.find?_some hr
      exact this
    rw [ensure_of_answers hr]
    exact h.widen (List.mem_of_find?_eq_some hr) answers
  | none =>
    rw [ensure_of_not_answers hr]
    refine h.append (fun j hj => ?_) _
    simpa using List.find?_eq_none.1 hr j hj

end Serves

end JoinSet

end RowAccess.Sql
