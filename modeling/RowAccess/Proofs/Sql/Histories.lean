import RowAccess.Proofs.Sql.Widening

/-!
# Joins after several requests

The joins of a statement come about by requests, one after the other.  What is known of one request
is known of several: joins are kept, names stay apart, and every request is served.  A request that
was served before changes nothing, because the join for it is there and as permissive as it was
asked to be.

Main results:

- `JoinSet.alias_ensure`: how the alias of a new join is found.
- `Query.serves_ensureAll`: several requests are served.
- `Query.nodup_names_ensureAll`: requests keep the names of a statement apart.
- `Query.ensureAll_eq_self`: requests that were served before change nothing.
-/

namespace RowAccess.Sql

namespace JoinSet

/-- The joins after several requests, one after the other. -/
def ensureAll (s : JoinSet) (preferred : JoinRequest → String) (reserved : List String)
    (requests : List JoinRequest) : JoinSet :=
  requests.foldl (fun s r => (s.ensure r (preferred r) reserved).1) s

/-- The alias of a new join is the first name tried that is not in use, and no more names are tried
than are in use, and one. -/
theorem alias_ensure {s : JoinSet} {r : JoinRequest} (h : s.answer? r = none)
    (preferred : String) (reserved : List String) :
    ∃ k ≤ (reserved ++ s.aliases).length,
      (s.ensure r preferred reserved).2 = Text.candidate preferred k ∧
        (s.ensure r preferred reserved).2 ∉ reserved ++ s.aliases ∧
        ∀ i < k, Text.candidate preferred i ∈ reserved ++ s.aliases := by
  obtain ⟨k, bound, name, fresh, earlier⟩ :=
    Text.freshName_eq_candidate (reserved ++ s.aliases) preferred
  rw [ensure_of_not_answers h]
  refine ⟨k, bound, name, ?_, earlier⟩
  rw [name]
  exact fresh

/-- A request adds at most one join, which was asked for, and keeps the others, their kinds
aside. -/
theorem map_plain_ensure (s : JoinSet) (r : JoinRequest) (preferred : String)
    (reserved : List String) :
    ∃ added, (s.ensure r preferred reserved).1.joins.map Join.plain =
        s.joins.map Join.plain ++ added ∧ ∀ j ∈ added, j.answers r = true := by
  cases hr : s.answer? r with
  | some found =>
    refine ⟨[], ?_, by simp⟩
    rw [ensure_of_answers hr, map_plain_widenAnswer, List.append_nil]
  | none =>
    refine ⟨[(Join.ofRequest r (Text.freshName (reserved ++ s.aliases) preferred)).plain], ?_, ?_⟩
    · simp [ensure_of_not_answers hr]
    · simp [Join.answers, Join.ofRequest, Join.plain]

/-! ## Requests that were served before -/

/-- A request that widens no join leaves the joins as they are. -/
theorem widenAnswer_eq_self {r : JoinRequest} {joins : List Join}
    (h : ∀ j ∈ joins, j.answers r = true → r.kind = .left → j.kind = .left) :
    widenAnswer r joins = joins := by
  induction joins with
  | nil => rfl
  | cons j rest ih =>
    obtain ⟨first, others⟩ := List.forall_mem_cons.1 h
    rw [widenAnswer]
    split
    next answers =>
      have kind : j.kind.widen r.kind = j.kind := by
        cases hr : r.kind with
        | inner => cases j.kind <;> rfl
        | left => rw [first answers hr]; rfl
      rw [Join.widenBy, kind]
    next => rw [ih others]

/-- A request that was served before changes nothing. -/
theorem Serves.ensure_eq {s : JoinSet} {history : List JoinRequest} (h : s.Serves history)
    {r : JoinRequest} (hr : r ∈ history) (preferred : String) (reserved : List String) :
    (s.ensure r preferred reserved).1 = s := by
  obtain ⟨j, hj, answers⟩ := h.answered r hr
  obtain ⟨found, answered⟩ : ∃ found, s.answer? r = some found :=
    Option.isSome_iff_exists.1 (List.find?_isSome.2 ⟨j, hj, answers⟩)
  have kinds : ∀ j ∈ s.joins, j.answers r = true → r.kind = .left → j.kind = .left :=
    fun j hj answers left => (h.kind j hj).2 ⟨r, hr, answers, left⟩
  rw [ensure_of_answers answered, widenAnswer_eq_self kinds]

end JoinSet

namespace Query

/-! ## Several requests -/

/-- A statement after several requests for joins, one after the other. -/
def ensureAll (q : Query) (requests : List JoinRequest) : Query :=
  { q with joins := q.joins.ensureAll q.preferredAlias [q.aliasName] requests }

theorem ensureAll_cons (q : Query) (r : JoinRequest) (requests : List JoinRequest) :
    q.ensureAll (r :: requests) = (q.ensureJoin r).1.ensureAll requests := rfl

theorem ensureAll_append (q : Query) (requests more : List JoinRequest) :
    q.ensureAll (requests ++ more) = (q.ensureAll requests).ensureAll more := by
  induction requests generalizing q with
  | nil => rfl
  | cons r requests ih =>
    rw [List.cons_append, ensureAll_cons, ensureAll_cons]
    exact ih _

/-- Requests keep every join, its kind aside. -/
theorem extends_ensureAll (q : Query) (requests : List JoinRequest) :
    q.joins.Extends (q.ensureAll requests).joins := by
  induction requests generalizing q with
  | nil => exact .refl _
  | cons r requests ih =>
    have first : q.joins.Extends (q.ensureJoin r).1.joins := q.joins.extends_ensure r _ _
    exact first.trans (ih _)

/-- Requests add joins behind the others, and each that they add was asked for. -/
theorem map_plain_ensureAll (q : Query) (requests : List JoinRequest) :
    ∃ added, (q.ensureAll requests).joins.joins.map Join.plain =
        q.joins.joins.map Join.plain ++ added ∧
      ∀ j ∈ added, ∃ r ∈ requests, j.answers r = true := by
  induction requests generalizing q with
  | nil => exact ⟨[], by simp [ensureAll, JoinSet.ensureAll], by simp⟩
  | cons r requests ih =>
    obtain ⟨first, grown, asked⟩ := q.joins.map_plain_ensure r (q.preferredAlias r) [q.aliasName]
    obtain ⟨rest, grown', asked'⟩ := ih (q.ensureJoin r).1
    refine ⟨first ++ rest, ?_, ?_⟩
    · rw [ensureAll_cons, grown', ensureJoin, grown, List.append_assoc]
    · intro j hj
      rcases List.mem_append.1 hj with hfirst | hrest
      · exact ⟨r, by simp, asked j hfirst⟩
      · obtain ⟨r', hr', answers⟩ := asked' j hrest
        exact ⟨r', by simp [hr'], answers⟩

/-- The joins that requests add were asked for. -/
theorem exists_answers_of_mem_drop {q : Query} {requests : List JoinRequest} {j : Join}
    (h : j ∈ (q.ensureAll requests).joins.joins.drop q.joins.joins.length) :
    ∃ r ∈ requests, j.answers r = true := by
  obtain ⟨added, grown, asked⟩ := q.map_plain_ensureAll requests
  have dropped : ((q.ensureAll requests).joins.joins.drop q.joins.joins.length).map Join.plain =
      added := by
    rw [List.map_drop, grown, List.drop_left' (List.length_map _)]
  have mem := List.mem_map_of_mem (f := Join.plain) h
  rw [dropped] at mem
  exact asked j.plain mem

/-- Requests are served one after the other. -/
theorem serves_ensureAll {q : Query} {earlier : List JoinRequest}
    (h : q.joins.Serves earlier) (requests : List JoinRequest) :
    (q.ensureAll requests).joins.Serves (requests.reverse ++ earlier) := by
  induction requests generalizing q earlier with
  | nil => exact h
  | cons r requests ih =>
    rw [ensureAll_cons, List.reverse_cons, List.append_assoc]
    have first : (q.ensureJoin r).1.joins.Serves (r :: earlier) := h.ensure r _ _
    exact ih first

/-- Requests keep the names of a statement apart. -/
theorem nodup_names_ensureAll {q : Query} (h : q.names.Nodup) (requests : List JoinRequest) :
    (q.ensureAll requests).names.Nodup := by
  induction requests generalizing q with
  | nil => exact h
  | cons r requests ih =>
    obtain ⟨fresh, distinct⟩ := List.nodup_cons.1 h
    rw [ensureAll_cons]
    refine ih (List.nodup_cons.2 ⟨?_, ?_⟩)
    · exact stable_fresh.ensureJoin q r fresh
    · exact stable_nodup_aliases.ensureJoin q r distinct

/-- Requests that were served before change nothing. -/
theorem ensureAll_eq_self {q : Query} {history : List JoinRequest}
    (h : q.joins.Serves history) {requests : List JoinRequest}
    (hr : ∀ r ∈ requests, r ∈ history) : q.ensureAll requests = q := by
  induction requests with
  | nil => rfl
  | cons r requests ih =>
    obtain ⟨first, rest⟩ := List.forall_mem_cons.1 hr
    have same : (q.ensureJoin r).1 = q := by
      rw [ensureJoin, h.ensure_eq first]
    rw [ensureAll_cons, same, ih rest]

/-- A statement links a request under one alias. -/
theorem Links.unique {q : Query} (distinct : (q.joins.joins.map Join.key).Nodup)
    {r : JoinRequest} {aliasName aliasName' : String} (h : q.Links r aliasName)
    (h' : q.Links r aliasName') : aliasName = aliasName' := by
  obtain ⟨j, hj, answers, rfl⟩ := h
  obtain ⟨j', hj', answers', rfl⟩ := h'
  have same : j.key = j'.key := by
    rw [(j.answers_iff_key r).1 answers, (j'.answers_iff_key r).1 answers']
  rw [List.inj_on_of_nodup_map distinct hj hj' same]

/-! ## Statements that name joins alike -/

/-- Two statements name new joins in the same way. -/
structure SameBase (q q' : Query) : Prop where
  base : q'.base = q.base
  preferred : q'.preferredAlias = q.preferredAlias

theorem SameBase.refl (q : Query) : q.SameBase q := ⟨rfl, rfl⟩

theorem SameBase.trans {q q' q'' : Query} (h : q.SameBase q') (h' : q'.SameBase q'') :
    q.SameBase q'' :=
  ⟨h'.base.trans h.base, h'.preferred.trans h.preferred⟩

/-- Requests make the same joins of the same joins. -/
theorem SameBase.joins_ensureAll {q q' : Query} (h : q.SameBase q') (joins : q'.joins = q.joins)
    (requests : List JoinRequest) :
    (q'.ensureAll requests).joins = (q.ensureAll requests).joins := by
  have named : q'.aliasName = q.aliasName := congrArg Anchor.aliasName h.base
  rw [ensureAll, ensureAll, joins, h.preferred, named]

end Query

end RowAccess.Sql
