import Mathlib.Algebra.GroupWithZero.Nat
import RowAccess.Proofs.Sql.Histories
import RowAccess.Proofs.Sql.Reading.Statements
import RowAccess.Proofs.Sql.Traversal

/-!
# How long statements are

A statement is written without looking back, so what is added to it makes it longer.  There is one
exception: a join that is to keep more rows than before is written with a keyword that is shorter by
one character.  A request for a join therefore takes away one character at most, while every
condition comes with more than that.  So a statement to which conditions were added is never written
as it was before, whatever its tables, columns and raw conditions are called.

Main results:

- `Query.length_fromText_le_ensureAll`: what requests take away from the joins.
- `WhereExpr.sum_leaves_le_conjoin`: a text is at least as long as its conditions together.
- `Query.length_sql_render_le`: what conditions and requests together add to a statement.
-/

namespace RowAccess.Sql

/-! ## Texts in a row -/

/-- The length of texts in a row, with a separator in front of each but the first. -/
theorem length_intercalate_cons (separator text : String) (texts : List String) :
    (separator.intercalate (text :: texts)).length =
      text.length + (texts.map fun t => separator.length + t.length).sum := by
  induction texts generalizing text with
  | nil => simp
  | cons next rest ih =>
    rw [String.intercalate_cons_cons, String.length_append, String.length_append, ih next]
    simp only [List.map_cons, List.sum_cons]
    omega

/-- Two rows of texts are together no longer than all the texts in one row. -/
theorem length_conjoin_add_le (conjunction : Conjunction) (xs ys : List String) :
    (WhereExpr.conjoin conjunction xs).length + (WhereExpr.conjoin conjunction ys).length ≤
      (WhereExpr.conjoin conjunction (xs ++ ys)).length := by
  by_cases hx : xs = []
  · simp [hx, WhereExpr.conjoin]
  · by_cases hy : ys = []
    · simp [hy, WhereExpr.conjoin]
    · simp only [WhereExpr.conjoin, String.intercalate_append_of_ne_nil hx hy, String.length_append]
      omega

/-! ## Joins -/

/-- A join that keeps more rows than before is written with one character less. -/
theorem Join.length_text_le_widenBy (j : Join) (r : JoinRequest) :
    j.text.length ≤ (j.widenBy r).text.length + 1 := by
  have keyword : j.kind.keyword.length ≤ (j.kind.widen r.kind).keyword.length + 1 := by
    cases j.kind <;> cases r.kind <;> decide
  simp only [Join.text, Join.widenBy, length_intercalate_cons]
  omega

/-- How much of a statement its joins are. -/
def JoinSet.textLength (s : JoinSet) : Nat := (s.joins.map fun j => 1 + j.text.length).sum

namespace JoinSet

/-- One join at most is written with one character less. -/
theorem textLength_le_widenAnswer (r : JoinRequest) (joins : List Join) :
    textLength ⟨joins⟩ ≤ textLength ⟨widenAnswer r joins⟩ + 1 := by
  induction joins with
  | nil => simp [textLength]
  | cons j rest ih =>
    simp only [textLength, widenAnswer] at ih ⊢
    split
    · have first := j.length_text_le_widenBy r
      simp only [List.map_cons, List.sum_cons]
      omega
    · simp only [List.map_cons, List.sum_cons]
      omega

/-- A request takes away one character at most. -/
theorem textLength_le_ensure (s : JoinSet) (r : JoinRequest) (preferred : String)
    (reserved : List String) :
    s.textLength ≤ (s.ensure r preferred reserved).1.textLength + 1 := by
  cases hr : s.answer? r with
  | some j =>
    rw [ensure_of_answers hr]
    exact textLength_le_widenAnswer r s.joins
  | none =>
    rw [ensure_of_not_answers hr]
    simp only [textLength, List.map_append, List.sum_append]
    omega

end JoinSet

namespace Query

/-- What stands in front of the conditions is the base and the joins. -/
theorem length_fromText (q : Query) :
    q.fromText.length =
      ("SELECT " ++ Text.qualify q.aliasName "*").length + 1 +
        ("FROM " ++ q.table ++ " " ++ q.aliasName).length + q.joins.textLength := by
  rw [fromText, length_intercalate_cons, List.map_cons, List.sum_cons, List.map_map,
    JoinSet.textLength]
  have space : " ".length = 1 := rfl
  simp only [space, Function.comp_def]
  omega

/-- Every request takes away one character at most. -/
theorem length_fromText_le_ensureAll (q : Query) (requests : List JoinRequest) :
    q.fromText.length ≤ (q.ensureAll requests).fromText.length + requests.length := by
  induction requests generalizing q with
  | nil => exact Nat.le_refl _
  | cons r requests ih =>
    have first := q.joins.textLength_le_ensure r (q.preferredAlias r) [q.aliasName]
    have one : q.fromText.length ≤ (q.ensureJoin r).1.fromText.length + 1 := by
      rw [length_fromText, length_fromText]
      simp only [ensureJoin]
      omega
    have later := ih (q.ensureJoin r).1
    rw [ensureAll_cons, List.length_cons]
    omega

end Query

/-! ## Conditions -/

/-- A text is at least as long as the conditions that it is made of together. -/
theorem Spells.sum_length_le {text : String} {conditions : List Condition}
    (h : Spells text conditions) :
    (conditions.map fun c => c.text.length).sum ≤ text.length := by
  induction h with
  | nil => simp
  | mark _ _ ih =>
    rw [String.length_append]
    omega
  | condition c _ ih =>
    rw [String.length_append, List.map_cons, List.sum_cons]
    omega

/-- Expressions in a row are at least as long as their conditions together. -/
theorem WhereExpr.sum_leaves_le_conjoin (conjunction : Conjunction) (es : List WhereExpr) :
    ((es.flatMap leaves).map fun c => c.text.length).sum ≤
      (conjoin conjunction (textAll es)).length := by
  have spelled := spells_conjoin conjunction es
  rw [leavesAll_eq_flatMap] at spelled
  exact spelled.sum_length_le

/-- A clause is written with two characters at least. -/
theorem Clause.two_le_length_text (c : Clause) : 2 ≤ c.text.length := by
  have subject : 2 ≤ (c.column ++ " " ++ c.op.keyword).length := by
    have keyword : 1 ≤ c.op.keyword.length := by
      rcases c.op with op | escape | escape
      · cases op <;> decide
      · exact (by decide : 1 ≤ "LIKE".length)
      · exact (by decide : 1 ≤ "NOT LIKE".length)
    have space : " ".length = 1 := rfl
    simp only [String.length_append]
    omega
  have member (count : Nat) {ifEmpty : String} (h : 2 ≤ ifEmpty.length) :
      2 ≤ (membership (c.column ++ " " ++ c.op.keyword) count ifEmpty).length := by
    rw [membership]
    split
    · exact h
    · simp only [String.length_append] at subject ⊢
      omega
  obtain ⟨column, op, value⟩ := c
  rcases op with op | escape | escape
  · cases op with
    | inList => exact member _ (by decide)
    | notInList => exact member _ (by decide)
    | isNull => exact subject
    | isNotNull => exact subject
    | eq | ne | lt | lte | gt | gte | between | notBetween =>
      simp only [text, String.length_append] at subject ⊢
      omega
  · simp only [text, pattern, String.length_append] at subject ⊢
    omega
  · simp only [text, pattern, String.length_append] at subject ⊢
    omega

/-! ## Statements -/

namespace Query

/-- A statement without conditions is its base and its joins. -/
theorem sql_render_of_nil {q : Query} (h : q.conditions.rootParts = []) :
    q.render.sql = q.fromText := by
  simp only [render, ConditionSet.render, h]

/-- The conditions of a statement are written behind its base and its joins. -/
theorem sql_render_of_ne_nil {q : Query} (h : q.conditions.rootParts ≠ []) :
    q.render.sql = q.fromText ++ " WHERE " ++ q.conditions.whereText := by
  cases hr : q.conditions.render with
  | none =>
    rw [ConditionSet.render] at hr
    split at hr
    · exact absurd ‹_› h
    · cases hr
  | some rendered =>
    rw [render, hr]
    simp only [ConditionSet.sql_render hr]

/-- Where expressions were added to the conditions of a statement, it is longer by what their
conditions are together, less what the joins lost. -/
theorem length_sql_render_le {q q' : Query} {lost : Nat}
    (joins : q.fromText.length ≤ q'.fromText.length + lost) {added : List WhereExpr}
    (parts : q'.conditions.rootParts = q.conditions.rootParts ++ added) :
    q.render.sql.length + ((added.flatMap WhereExpr.leaves).map fun c => c.text.length).sum ≤
      q'.render.sql.length + lost := by
  have conditions : q.conditions.whereText.length +
      ((added.flatMap WhereExpr.leaves).map fun c => c.text.length).sum ≤
        q'.conditions.whereText.length := by
    have behind := WhereExpr.sum_leaves_le_conjoin .and added
    have together := length_conjoin_add_le .and (WhereExpr.textAll q.conditions.rootParts)
      (WhereExpr.textAll added)
    simp only [ConditionSet.whereText, parts, WhereExpr.textAll_eq_map, List.map_append]
      at behind together ⊢
    omega
  by_cases before : q.conditions.rootParts = []
  · by_cases after : q'.conditions.rootParts = []
    · have nothing : added = [] := by
        rw [parts] at after
        exact (List.append_eq_nil_iff.1 after).2
      rw [sql_render_of_nil before, sql_render_of_nil after, nothing]
      simpa using joins
    · rw [sql_render_of_nil before, sql_render_of_ne_nil after, String.length_append,
        String.length_append]
      omega
  · have after : q'.conditions.rootParts ≠ [] := by
      rw [parts]
      exact List.append_ne_nil_of_left_ne_nil before added
    rw [sql_render_of_ne_nil before, sql_render_of_ne_nil after]
    simp only [String.length_append]
    omega

end Query

end RowAccess.Sql
