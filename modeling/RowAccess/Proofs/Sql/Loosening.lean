import RowAccess.Proofs.Sql.Histories

/-!
# Joins that keep more rows

Requests can only make a join keep more rows: whatever is asked for, a join that keeps rows without
a partner goes on to do so.  That can be said of one statement before and after some requests, and
of two statements that are asked for the same joins, of which one is asked to keep more rows.  In
either case the joins correspond one to one, under the same aliases and in the same order.

Main results:

- `Query.stable_widened`: the joins that were there stay in front, as they were or widened.
- `Query.Loosens.answers_eq`: the same requests, with more rows to keep, are answered with the same
  aliases.
-/

namespace RowAccess.Sql

/-! ## Before and after -/

namespace Join.Widens

theorem refl (j : Join) : j.Widens j := ⟨rfl, id⟩

theorem trans {j j' j'' : Join} (h : j.Widens j') (h' : j'.Widens j'') : j.Widens j'' :=
  ⟨h'.plain.trans h.plain, fun left => h'.kept (h.kept left)⟩

/-- A further request widens a join. -/
theorem widenBy (j : Join) (r : JoinRequest) : j.Widens (j.widenBy r) :=
  ⟨rfl, fun left => (JoinKind.widen_eq_left_iff j.kind r.kind).2 (.inl left)⟩

/-- Joins that were widened twice were widened. -/
theorem all_trans {js js' js'' : List Join} (h : List.Forall₂ Join.Widens js js')
    (h' : List.Forall₂ Join.Widens js' js'') : List.Forall₂ Join.Widens js js'' := by
  induction h generalizing js'' with
  | nil => exact h'
  | cons first rest ih =>
    cases h' with
    | cons first' rest' => exact .cons (first.trans first') (ih rest')

end Join.Widens

namespace JoinSet

/-- The joins of one set are in front of those of another, each as it was or widened. -/
def WidensTo (s s' : JoinSet) : Prop :=
  ∃ widened added, s'.joins = widened ++ added ∧ List.Forall₂ Join.Widens s.joins widened

theorem WidensTo.refl (s : JoinSet) : s.WidensTo s :=
  ⟨s.joins, [], (List.append_nil _).symm, List.forall₂_same.2 fun j _ => .refl j⟩

theorem WidensTo.trans {s s' s'' : JoinSet} (h : s.WidensTo s') (h' : s'.WidensTo s'') :
    s.WidensTo s'' := by
  obtain ⟨first, added, hjoins, hfirst⟩ := h
  obtain ⟨second, more, hjoins', hsecond⟩ := h'
  rw [hjoins] at hsecond
  -- The joins that were there at first are in front of those that were there in between.
  have front := List.forall₂_take first.length hsecond
  rw [List.take_left] at front
  refine ⟨second.take first.length, second.drop first.length ++ more, ?_, ?_⟩
  · rw [← List.append_assoc, List.take_append_drop, hjoins']
  · exact Join.Widens.all_trans hfirst front

/-- A request for a join that is there widens it at most. -/
theorem forall₂_widenAnswer (r : JoinRequest) (joins : List Join) :
    List.Forall₂ Join.Widens joins (widenAnswer r joins) := by
  induction joins with
  | nil => exact .nil
  | cons j rest ih =>
    rw [widenAnswer]
    split
    · exact .cons (.widenBy j r) (List.forall₂_same.2 fun i _ => .refl i)
    · exact .cons (.refl j) ih

/-- A request keeps every join in its place, as it was or widened. -/
theorem widensTo_ensure (s : JoinSet) (r : JoinRequest) (preferred : String)
    (reserved : List String) : s.WidensTo (s.ensure r preferred reserved).1 := by
  cases hr : s.answer? r with
  | some j =>
    rw [ensure_of_answers hr]
    exact ⟨_, [], (List.append_nil _).symm, forall₂_widenAnswer r s.joins⟩
  | none =>
    rw [ensure_of_not_answers hr]
    exact ⟨s.joins, _, rfl, List.forall₂_same.2 fun j _ => .refl j⟩

end JoinSet

/-- The joins that were there stay in front, as they were or widened. -/
theorem Query.stable_widened (joins : JoinSet) : Stable fun q => joins.WidensTo q.joins where
  ensureJoin := fun q r hq => hq.trans (q.joins.widensTo_ensure r _ _)
  pushCondition := fun _ _ _ hq _ _ => hq
  openGroup := fun _ _ _ hq _ => hq

/-! ## Two statements -/

/-- A request for the same join that asks for rows to be kept where another does. -/
structure JoinRequest.Widens (r r' : JoinRequest) : Prop where
  key : r'.key = r.key
  kept : r.kind = .left → r'.kind = .left

theorem JoinRequest.Widens.refl (r : JoinRequest) : r.Widens r := ⟨rfl, id⟩

theorem JoinRequest.parts_of_key_eq {r r' : JoinRequest} (h : r'.key = r.key) :
    r'.table = r.table ∧ r'.left = r.left ∧ r'.rightColumn = r.rightColumn := by
  simpa [key] using h

theorem JoinRequest.answers_of_key_eq {r r' : JoinRequest} (h : r'.key = r.key) (j : Join) :
    j.answers r' = j.answers r := by
  rw [Bool.eq_iff_iff, j.answers_iff_key, j.answers_iff_key, h]

/-- A join that is widened by what asks for more keeps more. -/
theorem Join.Widens.widenBy_widenBy {j j' : Join} {r r' : JoinRequest} (h : j.Widens j')
    (hr : r.Widens r') : (j.widenBy r).Widens (j'.widenBy r') where
  plain := by
    have same : j'.plain = j.plain := h.plain
    exact same
  kept := by
    intro left
    rcases (JoinKind.widen_eq_left_iff j.kind r.kind).1 left with own | asked
    · exact (JoinKind.widen_eq_left_iff _ _).2 (.inl (h.kept own))
    · exact (JoinKind.widen_eq_left_iff _ _).2 (.inr (hr.kept asked))

namespace JoinSet

/-- The joins of one set are those of another, and some of them keep more rows. -/
def Loosens (s s' : JoinSet) : Prop := List.Forall₂ Join.Widens s.joins s'.joins

namespace Loosens

variable {s s' : JoinSet}

theorem refl (s : JoinSet) : s.Loosens s := List.forall₂_same.2 fun j _ => .refl j

/-- The joins are the same, their kinds aside. -/
theorem map_plain (h : s.Loosens s') : s'.joins.map Join.plain = s.joins.map Join.plain := by
  have same : List.Forall₂ (fun j j' => j.plain = j'.plain) s.joins s'.joins :=
    List.Forall₂.imp (fun _ _ w => w.plain.symm) h
  rw [eq_comm, ← List.forall₂_eq_eq_eq, List.forall₂_map_left_iff, List.forall₂_map_right_iff]
  exact same

/-- What is found among the joins of one set is found among those of the other. -/
theorem extends_right (h : s.Loosens s') : s.Extends s' :=
  ⟨[], (List.append_nil _).trans h.map_plain.symm⟩

theorem extends_left (h : s.Loosens s') : s'.Extends s :=
  ⟨[], (List.append_nil _).trans h.map_plain⟩

theorem aliases_eq (h : s.Loosens s') : s'.aliases = s.aliases := aliases_of_widens h

/-- A request is answered by the same join in both sets. -/
theorem answer?_eq (h : s.Loosens s') {r r' : JoinRequest} (hr : r'.key = r.key) :
    (s'.answer? r').map Join.plain = (s.answer? r).map Join.plain := by
  have search : s'.answer? r' = s'.joins.find? fun j => j.answers r := by
    rw [answer?]
    congr 1
    funext j
    exact JoinRequest.answers_of_key_eq hr j
  rw [search]
  cases found : s.answer? r with
  | some j =>
    obtain ⟨j', hj', plain⟩ := h.extends_right.find?_plain (fun j => j.answers_plain r) found
    rw [hj', Option.map_some, plain, Option.map_some]
  | none =>
    cases found' : s'.joins.find? fun j => j.answers r with
    | none => rfl
    | some j' =>
      obtain ⟨j, hj, -⟩ := h.extends_left.find?_plain (fun j => j.answers_plain r) found'
      have both : none = some j := found.symm.trans hj
      cases both

theorem widenAnswer {r r' : JoinRequest} (hr : r.Widens r') {joins joins' : List Join}
    (h : List.Forall₂ Join.Widens joins joins') :
    List.Forall₂ Join.Widens (widenAnswer r joins) (widenAnswer r' joins') := by
  induction h with
  | nil => exact .nil
  | @cons j j' rest rest' first others ih =>
    have answers : j'.answers r' = j.answers r := by
      rw [JoinRequest.answers_of_key_eq hr.key, ← j'.answers_plain, first.plain, j.answers_plain]
    rw [JoinSet.widenAnswer, JoinSet.widenAnswer, answers]
    split
    · exact .cons (first.widenBy_widenBy hr) others
    · exact .cons first ih

/-- The same request, perhaps with more rows to keep, gets the same alias. -/
theorem ensure (h : s.Loosens s') {r r' : JoinRequest} (hr : r.Widens r') (preferred : String)
    (reserved : List String) :
    (s.ensure r preferred reserved).1.Loosens (s'.ensure r' preferred reserved).1 ∧
      (s'.ensure r' preferred reserved).2 = (s.ensure r preferred reserved).2 := by
  have same := h.answer?_eq hr.key
  cases found : s.answer? r with
  | some j =>
    rw [found] at same
    obtain ⟨j', found', plain⟩ := Option.map_eq_some_iff.1 same
    rw [ensure_of_answers found, ensure_of_answers found']
    exact ⟨widenAnswer hr h, Join.aliasName_of_plain_eq plain⟩
  | none =>
    rw [found] at same
    have found' := Option.map_eq_none_iff.1 same
    rw [ensure_of_not_answers found, ensure_of_not_answers found', h.aliases_eq]
    obtain ⟨table, left, right⟩ := JoinRequest.parts_of_key_eq hr.key
    refine ⟨List.rel_append h (.cons ⟨?_, hr.kept⟩ .nil), rfl⟩
    simp only [Join.ofRequest, Join.plain, table, left, right]

end Loosens

end JoinSet

namespace Query

/-- Two statements with the same joins, of which those of the second keep more rows. -/
structure Loosens (q q' : Query) : Prop where
  same : q.SameBase q'
  joins : q.joins.Loosens q'.joins

/-- The aliases that several requests, one after the other, are answered with. -/
def answers (q : Query) : List JoinRequest → List String
  | [] => []
  | r :: requests => (q.ensureJoin r).2 :: (q.ensureJoin r).1.answers requests

theorem answers_append (q : Query) (requests more : List JoinRequest) :
    q.answers (requests ++ more) = q.answers requests ++ (q.ensureAll requests).answers more := by
  induction requests generalizing q with
  | nil => rfl
  | cons r requests ih =>
    rw [List.cons_append, answers, answers, ih, ensureAll_cons, List.cons_append]

namespace Loosens

variable {q q' : Query}

theorem refl (q : Query) : q.Loosens q := ⟨.refl q, .refl q.joins⟩

theorem findJoin?_eq (h : q.Loosens q') (table anchor : String) :
    q'.findJoin? table anchor = q.findJoin? table anchor := by
  cases found : q.findJoin? table anchor with
  | some aliasName => exact findJoin?_of_extends h.joins.extends_right found
  | none =>
    cases found' : q'.findJoin? table anchor with
    | none => rfl
    | some aliasName =>
      have back := findJoin?_of_extends h.joins.extends_left found'
      rw [found] at back
      cases back

/-- The same request, perhaps with more rows to keep, gets the same alias. -/
theorem ensureJoin (h : q.Loosens q') {r r' : JoinRequest} (hr : r.Widens r') :
    (q.ensureJoin r).1.Loosens (q'.ensureJoin r').1 ∧
      (q'.ensureJoin r').2 = (q.ensureJoin r).2 := by
  have named : q'.aliasName = q.aliasName := congrArg Anchor.aliasName h.same.base
  have preferred : q'.preferredAlias r' = q.preferredAlias r := by
    obtain ⟨table, left, -⟩ := JoinRequest.parts_of_key_eq hr.key
    rw [h.same.preferred, preferredAlias, preferredAlias, JoinRequest.anchor, JoinRequest.anchor,
      table, left]
  obtain ⟨joins, aliasName⟩ := h.joins.ensure hr (q.preferredAlias r) [q.aliasName]
  refine ⟨⟨⟨h.same.base, h.same.preferred⟩, ?_⟩, ?_⟩
  · rw [Query.ensureJoin, Query.ensureJoin, preferred, named]
    exact joins
  · rw [Query.ensureJoin, Query.ensureJoin, preferred, named]
    exact aliasName

variable {requests requests' : List JoinRequest}

/-- The same requests, with more rows to keep, are answered with the same aliases. -/
theorem answers_eq (h : q.Loosens q') (hr : List.Forall₂ JoinRequest.Widens requests requests') :
    q'.answers requests' = q.answers requests := by
  induction hr generalizing q q' with
  | nil => rfl
  | cons first rest ih =>
    obtain ⟨joins, aliasName⟩ := h.ensureJoin first
    rw [answers, answers, aliasName, ih joins]

end Loosens

end Query

end RowAccess.Sql
