import Mathlib.Data.Fintype.Order
import RowAccess.Proofs.Lowering.Steps
import RowAccess.Proofs.Sql.Reading.Statements

/-!
# Denial in the statement as it is written

A filter that admits nothing adds the false condition to the root of a statement.  The root
joins its conditions by AND, and where each condition is one alternative this makes the
statement return nothing.  A raw condition is written as it was given, though.  If it has an
OR of its own, AND binds more tightly than that OR, and the false condition silences the
last alternative only.

Main results:

- `Compiler.denied_compile`: which alternatives are left of the conditions of a statement after
  a filter that admits nothing.
- `Compiler.spared_compile`: a statement that goes on returning rows.
-/

namespace RowAccess

open Sql Reading

/-! ## The false condition at the end -/

/-- The false condition is added to the root at the end. -/
theorem Sql.ConditionSet.rootParts_push_alwaysFalse {s : ConditionSet} (hs : s.Nested) :
    (s.push .root (.expression alwaysFalse)).rootParts =
      s.rootParts ++ [.expression alwaysFalse] :=
  (ConditionSet.Grows.push s .root rfl).rootParts_eq hs (hs.push .root rfl)

/-- A statement with the false condition has a WHERE. -/
theorem Sql.Query.sql_render_push_alwaysFalse {q : Query} (hq : q.conditions.Nested) :
    (q.pushCondition .root (.expression alwaysFalse)).render.sql =
      q.fromText ++ " WHERE " ++
        (q.conditions.push .root (.expression alwaysFalse)).whereText := by
  have parts := ConditionSet.rootParts_push_alwaysFalse hq
  cases h : (q.conditions.push .root (.expression alwaysFalse)).render with
  | none =>
    rw [ConditionSet.render, parts] at h
    split at h
    next nothing => exact absurd nothing (List.append_ne_nil_of_right_ne_nil _ (by simp))
    next => cases h
  | some rendered =>
    rw [Query.render, Query.pushCondition]
    simp only [h]
    rw [ConditionSet.sql_render h]
    rfl

/-- The false condition stands alone, or behind the others and an AND. -/
theorem Sql.ConditionSet.whereText_push_alwaysFalse {s : ConditionSet} (hs : s.Nested) :
    (s.rootParts = [] ∧ (s.push .root (.expression alwaysFalse)).whereText = alwaysFalse) ∨
      (s.push .root (.expression alwaysFalse)).whereText =
        s.whereText ++ " " ++ ("AND" ++ " " ++ alwaysFalse) := by
  rw [whereText, rootParts_push_alwaysFalse hs, WhereExpr.textAll_eq_map, List.map_append]
  by_cases h : s.rootParts = []
  · left
    rw [h]
    exact ⟨rfl, rfl⟩
  · right
    have some : s.rootParts.map WhereExpr.text ≠ [] := by simpa using h
    rw [List.map_singleton, WhereExpr.text, conjoin_concat .and some, whereText,
      WhereExpr.textAll_eq_map]
    rfl

section Value

variable {α : Type*} [Lattice α] [BoundedOrder α] {worth : List Token → α}

/-- Of the alternatives of a statement the false condition leaves all but the last. -/
theorem Sql.ConditionSet.value_push_alwaysFalse {s : ConditionSet} (hs : s.Nested)
    (hw : s.WellFormed) (hfalse : worth (tokens alwaysFalse) = ⊥) :
    value worth (tokens (s.push .root (.expression alwaysFalse)).whereText) =
      Conjunction.or.fold
        ((cut .or (tokens s.whereText)).dropLast.map (alternativeValue worth)) := by
  have complete := hw.complete_whereText hs
  have orUncut : Nesting.top.uncut .or (tokens alwaysFalse) = true := by decide
  have andUncut : Nesting.top.uncut .and (tokens alwaysFalse) = true := by decide
  rcases whereText_push_alwaysFalse hs with ⟨nothing, alone⟩ | behind
  · have before : s.whereText = "" := by
      rw [whereText, nothing]
      rfl
    have none : (cut .or (tokens "")).dropLast = [] := by decide
    rw [alone, before, none, value, cut_of_uncut orUncut, List.map_singleton,
      Conjunction.fold_singleton, alternativeValue, cut_of_uncut andUncut, List.map_singleton,
      Conjunction.fold_singleton, hfalse]
    rfl
  · have added : tokens ("AND" ++ " " ++ alwaysFalse) =
        .run ['A', 'N', 'D'] :: tokens alwaysFalse := by decide
    rw [behind, tokens_append_blank complete.quotes, added]
    exact value_append_false complete.nesting rfl orUncut andUncut hfalse

/-- A statement without alternatives at the top returns nothing. -/
theorem Sql.ConditionSet.value_push_alwaysFalse_of_joint {s : ConditionSet} (hs : s.Nested)
    (hw : s.WellFormed) (hfalse : worth (tokens alwaysFalse) = ⊥)
    (raw : ∀ text, .expression text ∈ s.rootParts → Joint text) :
    value worth (tokens (s.push .root (.expression alwaysFalse)).whereText) = ⊥ := by
  rw [value_push_alwaysFalse hs hw hfalse, cut_of_uncut (hw.joint_whereText hs raw).uncut]
  rfl

end Value

namespace Compiler

/-- A filter that admits nothing adds the false condition to the root and nothing else.  In the
statement as it is written, the alternatives of its conditions other than the last are left;
so no row is returned where each of these is false, and none at all if no raw condition has
alternatives of its own at the top. -/
theorem denied_compile {c : Compiler} {t : FilterTree} {q : Query} {anchor : Anchor}
    (ht : t.alwaysFalse = true) (hq : q.Reachable) (hw : q.conditions.WellFormed)
    (ha : c.anchor q = .ok anchor) (revisionScoped : Bool) :
    (c.compile t q revisionScoped).outcome = .ok ⟨1, [], [], true⟩ ∧
    (c.compile t q revisionScoped).query = q.pushCondition .root (.expression alwaysFalse) ∧
    ∃ text, (c.compile t q revisionScoped).query.render.sql = q.fromText ++ " WHERE " ++ text ∧
      ∀ {α : Type*} [Lattice α] [BoundedOrder α] (worth : List Token → α),
        worth (tokens alwaysFalse) = ⊥ →
          value worth (tokens text) =
            Conjunction.or.fold ((cut .or (tokens q.conditions.whereText)).dropLast.map
              (alternativeValue worth)) ∧
          ((∀ raw, .expression raw ∈ q.conditions.rootParts → Joint raw) →
            value worth (tokens text) = ⊥) := by
  rcases compile_alwaysFalse ht ha revisionScoped with ⟨hquery, hreport⟩
  refine ⟨hreport, hquery, (q.conditions.push .root (.expression alwaysFalse)).whereText, ?_, ?_⟩
  · rw [hquery]
    exact Query.sql_render_push_alwaysFalse hq.nested
  · intro α _ _ worth hfalse
    exact ⟨ConditionSet.value_push_alwaysFalse hq.nested hw hfalse,
      ConditionSet.value_push_alwaysFalse_of_joint hq.nested hw hfalse⟩

end Compiler

/-! ## A statement with alternatives of its own -/

/-- A statement whose caller wants articles that are sticky or promoted, in one raw
condition. -/
def stickyOrPromoted : Query :=
  (Query.select "node").pushCondition .root
    (.expression "node.sticky = 1 OR node.promote = 1")

/-- A filter that admits nothing, put into the statement. -/
def nothingOfStickyOrPromoted : Compiled :=
  Compiler.compile ⟨⟨{ baseTable := "node", idKey := "nid" }, fun _ _ => none⟩, .entity, {}⟩
    { alwaysFalse := true } stickyOrPromoted false

theorem reachable_stickyOrPromoted : stickyOrPromoted.Reachable :=
  Query.stable_reachable.pushCondition _ _ _ (.select "node") (by decide) rfl

theorem wellFormed_stickyOrPromoted : stickyOrPromoted.conditions.WellFormed := by
  intro g hg item hitem
  obtain rfl : g = ⟨.and, [.expression "node.sticky = 1 OR node.promote = 1"]⟩ :=
    List.mem_singleton.1 hg
  obtain rfl := List.mem_singleton.1 hitem
  exact (by decide : Complete "node.sticky = 1 OR node.promote = 1")

/-- After the filter the statement returns the sticky articles. -/
theorem Compiler.denied_compile_stickyOrPromoted :
    stickyOrPromoted.Reachable ∧ stickyOrPromoted.conditions.WellFormed ∧
    ∃ text, nothingOfStickyOrPromoted.query.render.sql =
        stickyOrPromoted.fromText ++ " WHERE " ++ text ∧
      ∀ worth : List Token → Bool, worth (tokens alwaysFalse) = ⊥ →
        value worth (tokens text) = worth (tokens "node.sticky = 1") := by
  have anchored : Compiler.anchor
      ⟨⟨{ baseTable := "node", idKey := "nid" }, fun _ _ => none⟩, .entity, {}⟩
      stickyOrPromoted = .ok ⟨"node", "node"⟩ := rfl
  have never : FilterTree.alwaysFalse { alwaysFalse := true } = true := rfl
  obtain ⟨-, -, text, written, left⟩ := denied_compile never reachable_stickyOrPromoted
    wellFormed_stickyOrPromoted anchored false
  refine ⟨reachable_stickyOrPromoted, wellFormed_stickyOrPromoted, text, written, ?_⟩
  intro worth hfalse
  have alternatives : (cut .or (tokens stickyOrPromoted.conditions.whereText)).dropLast =
      [tokens "node.sticky = 1"] := by decide
  have factors : cut .and (tokens "node.sticky = 1") = [tokens "node.sticky = 1"] := by decide
  rw [(left worth hfalse).1, alternatives, List.map_singleton, Conjunction.fold_singleton,
    alternativeValue, factors, List.map_singleton, Conjunction.fold_singleton]

/-- Where only the false condition is false, the statement returns the row: the article is
sticky. -/
theorem Compiler.spared_compile :
    stickyOrPromoted.Reachable ∧ stickyOrPromoted.conditions.WellFormed ∧
    nothingOfStickyOrPromoted.outcome = .ok ⟨1, [], [], true⟩ ∧
    nothingOfStickyOrPromoted.query.render.sql =
      "SELECT node.* FROM node node WHERE node.sticky = 1 OR node.promote = 1 AND 1 = 0" ∧
    value (fun factor => decide (factor ≠ tokens alwaysFalse))
      (tokens "node.sticky = 1 OR node.promote = 1 AND 1 = 0") = true :=
  ⟨reachable_stickyOrPromoted, wellFormed_stickyOrPromoted, rfl, by decide, by decide⟩

end RowAccess
