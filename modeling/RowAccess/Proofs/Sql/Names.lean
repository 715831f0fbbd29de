import RowAccess.Proofs.Sql.Histories
import RowAccess.Proofs.Sql.Reading.Placeholders
import RowAccess.Proofs.Sql.Rendering

/-!
# Names in a statement

The part of a statement in front of its conditions is put together from keywords and names: those of
tables and columns, which a caller gives, and aliases, which are made from the names of tables.  A
name may hold any characters.  If none of them is a quote or a question mark, there is none in that
part of the statement either, so it opens no quotes and takes no parameter.

Main results:

- `Inert.holds`: such a text has no placeholder.
- `Query.Inert.ensureAll`: the aliases of joins are such texts if the names of the joins are.
- `Query.Inert.fromText`: then the part in front of the conditions is.
- `Query.Inert.carries_render`: so the parameters are those of the conditions.
-/

namespace RowAccess.Sql

open Reading

/-! ## Texts without quotes and question marks -/

/-- A text without quotes and question marks. -/
def Inert (text : String) : Prop := ∀ c ∈ text.toList, c ≠ '?' ∧ isQuote c = false

theorem inert_iff (text : String) :
    Inert text ↔ (text.toList.all fun c => c ≠ '?' && !isQuote c) = true := by
  simp [Inert]

instance (text : String) : Decidable (Inert text) := decidable_of_iff' _ (inert_iff text)

namespace Inert

variable {x y : String}

theorem append (hx : Inert x) (hy : Inert y) : Inert (x ++ y) := by
  rw [Inert, String.toList_append]
  exact List.forall_mem_append.2 ⟨hx, hy⟩

theorem qualify (hx : Inert x) (hy : Inert y) : Inert (Text.qualify x y) :=
  (hx.append (by decide)).append hy

/-- The text in front of the first dot. -/
theorem splitAtDot (hx : Inert x) : Inert (Text.splitAtDot x).1 := by
  intro c hc
  refine hx c ?_
  rw [← Text.join_splitDot x.toList]
  exact List.mem_append_left _ (by simpa [Text.splitAtDot] using hc)

/-- Numbers are written by digits. -/
theorem number (n : Nat) : Inert (toString n) := by
  intro c hc
  have mem : c ∈ Nat.toDigits 10 n := by simpa using hc
  have digit : c.isDigit = true := Nat.isDigit_of_mem_toDigits (by decide) (by decide) mem
  constructor
  · rintro rfl
    cases digit
  · by_contra quote
    simp only [isQuote, Bool.not_eq_false, Bool.or_eq_true, decide_eq_true_eq] at quote
    rcases quote with (rfl | rfl) | grave
    · cases digit
    · cases digit
    · obtain rfl : c = Char.ofNat 0x60 := by rw [← grave, Char.ofNat_toNat]
      cases digit

/-- A name that was chosen in place of one that was taken. -/
theorem freshName (hx : Inert x) (taken : List String) : Inert (Text.freshName taken x) := by
  rcases Text.freshName_eq_or taken x with same | ⟨n, numbered⟩
  · rw [same]
    exact hx
  · rw [numbered, Text.withNumber]
    exact (hx.append (by decide)).append (number n)

/-- Texts with blanks between them. -/
theorem intercalate {texts : List String} (h : ∀ text ∈ texts, Inert text) :
    Inert (" ".intercalate texts) := by
  induction texts with
  | nil => decide
  | cons text texts ih =>
    obtain ⟨first, others⟩ := List.forall_mem_cons.1 h
    cases texts with
    | nil => simpa using first
    | cons text' texts =>
      rw [String.intercalate_cons_cons]
      exact (first.append (by decide)).append (ih others)

end Inert

/-! ## Reading -/

namespace Reading

/-- What is being read has no question mark and is not between quotes. -/
structure Mode.Clear (m : Mode) : Prop where
  closed : m.isOpen = false
  plain : ∀ t ∈ m.rest, t.holes = 0

/-- A run that goes on or starts with a character other than the question mark. -/
theorem Mode.Clear.extend {m : Mode} (h : m.Clear) {c : Char} (mark : c ≠ '?') :
    (∀ t ∈ (m.extend c).1, t.holes = 0) ∧ (m.extend c).2.Clear := by
  have single : Token.holes (.run [c]) = 0 := List.count_eq_zero.2 (by simpa using mark.symm)
  have started : (Mode.inRun (isWordChar c) [c]).Clear := ⟨rfl, List.forall_mem_singleton.2 single⟩
  cases m with
  | between => exact ⟨h.plain, started⟩
  | inQuotes quote chars => cases h.closed
  | inRun word chars =>
    rw [Mode.extend]
    split
    · have read : Token.holes (.run chars) = 0 := h.plain _ (List.mem_singleton_self _)
      have longer : Token.holes (.run (chars ++ [c])) = 0 := by
        rw [Token.holes, List.count_append]
        exact Nat.add_eq_zero_iff.2 ⟨read, single⟩
      exact ⟨List.forall_mem_nil _, rfl, List.forall_mem_singleton.2 longer⟩
    · exact ⟨h.plain, started⟩

/-- A further character that is no quote and no question mark changes nothing about that. -/
theorem Mode.Clear.step {m : Mode} (h : m.Clear) {c : Char} (mark : c ≠ '?')
    (quote : isQuote c = false) : (∀ t ∈ (m.step c).1, t.holes = 0) ∧ (m.step c).2.Clear := by
  have ended : Mode.Clear .between := ⟨rfl, List.forall_mem_nil _⟩
  rw [step_of_closed h.closed, quote]
  split
  · exact ⟨h.plain, ended⟩
  · split
    next unquoted => cases unquoted
    · split
      · exact ⟨List.forall_mem_append.2 ⟨h.plain, List.forall_mem_singleton.2 rfl⟩, ended⟩
      · exact h.extend mark

/-- Neither do further characters. -/
theorem Mode.Clear.scan {m : Mode} (h : m.Clear) {cs : List Char}
    (hcs : ∀ c ∈ cs, c ≠ '?' ∧ isQuote c = false) :
    (∀ t ∈ scan m cs, t.holes = 0) ∧ (atEnd m cs).isOpen = false := by
  induction cs generalizing m with
  | nil => exact ⟨h.plain, h.closed⟩
  | cons c cs ih =>
    obtain ⟨first, others⟩ := List.forall_mem_cons.1 hcs
    obtain ⟨ended, next⟩ := h.step first.1 first.2
    obtain ⟨rest, closed⟩ := ih next others
    exact ⟨List.forall_mem_append.2 ⟨ended, rest⟩, closed⟩

end Reading

/-- A text without quotes and question marks has no placeholder. -/
theorem Inert.holds {x : String} (h : Inert x) : Holds x 0 := by
  obtain ⟨plain, closed⟩ := Mode.Clear.scan (m := .between) ⟨rfl, by simp [Mode.rest]⟩ h
  refine ⟨closed, fun t ht => .inr (plain t ht), List.count_eq_zero.2 fun found => ?_⟩
  cases plain _ found

/-! ## Joins -/

/-- The names of a join have no quotes and question marks. -/
structure Join.Inert (j : Join) : Prop where
  table : Sql.Inert j.table
  aliasName : Sql.Inert j.aliasName
  left : Sql.Inert j.left
  rightColumn : Sql.Inert j.rightColumn

/-- The names in a request have no quotes and question marks. -/
structure JoinRequest.Inert (r : JoinRequest) : Prop where
  table : Sql.Inert r.table
  left : Sql.Inert r.left
  rightColumn : Sql.Inert r.rightColumn

namespace Join.Inert

/-- The kind of a join does not matter. -/
theorem of_plain {j j' : Join} (h : j.Inert) (same : j'.plain = j.plain) : j'.Inert := by
  rcases j with ⟨kind, table, aliasName, left, rightColumn⟩
  rcases j' with ⟨kind', table', aliasName', left', rightColumn'⟩
  simp only [Join.plain, Join.mk.injEq, true_and] at same
  obtain ⟨rfl, rfl, rfl, rfl⟩ := same
  exact ⟨h.table, h.aliasName, h.left, h.rightColumn⟩

theorem text {j : Join} (h : j.Inert) : Sql.Inert j.text := by
  have keyword : Sql.Inert j.kind.keyword := by
    cases j.kind with
    | inner => decide
    | left => decide
  have on : Sql.Inert "ON" := by decide
  have equals : Sql.Inert "=" := by decide
  refine .intercalate ?_
  simp only [List.forall_mem_cons]
  exact ⟨keyword, h.table, h.aliasName, on, h.left, equals, h.aliasName.qualify h.rightColumn,
    by simp⟩

end Join.Inert

/-- The alias that a join should have for such a request. -/
theorem JoinRequest.Inert.preferredAlias {r : JoinRequest} (h : r.Inert) (q : Query) :
    Sql.Inert (q.preferredAlias r) := by
  rw [Query.preferredAlias]
  split
  · exact h.table
  · split
    · exact h.table
    · exact (h.left.splitAtDot.append (by decide)).append h.table

namespace Query

/-- The names in a statement have no quotes and question marks, those in its conditions aside. -/
structure Inert (q : Query) : Prop where
  table : Sql.Inert q.table
  aliasName : Sql.Inert q.aliasName
  joins : ∀ j ∈ q.joins.joins, j.Inert

namespace Inert

variable {q : Query}

/-- The names that columns are qualified by. -/
theorem names (h : q.Inert) : ∀ name ∈ q.names, Sql.Inert name := by
  refine List.forall_mem_cons.2 ⟨h.aliasName, fun name hname => ?_⟩
  obtain ⟨j, hj, rfl⟩ := List.mem_map.1 hname
  exact (h.joins j hj).aliasName

/-- A join that is requested by inert names has inert names. -/
theorem ensureJoin (h : q.Inert) {r : JoinRequest} (hr : r.Inert) : (q.ensureJoin r).1.Inert where
  table := h.table
  aliasName := h.aliasName
  joins := by
    rw [Query.ensureJoin]
    cases answered : q.joins.answer? r with
    | some found =>
      rw [JoinSet.ensure_of_answers answered]
      intro j hj
      have mem := List.mem_map_of_mem (f := Join.plain) hj
      rw [JoinSet.map_plain_widenAnswer] at mem
      obtain ⟨j', hj', same⟩ := List.mem_map.1 mem
      exact (h.joins j' hj').of_plain same.symm
    | none =>
      rw [JoinSet.ensure_of_not_answers answered]
      refine List.forall_mem_append.2 ⟨h.joins, List.forall_mem_singleton.2 ?_⟩
      exact ⟨hr.table, (hr.preferredAlias q).freshName _, hr.left, hr.rightColumn⟩

/-- So do joins that are requested one after the other. -/
theorem ensureAll (h : q.Inert) {requests : List JoinRequest} (hr : ∀ r ∈ requests, r.Inert) :
    (q.ensureAll requests).Inert := by
  induction requests generalizing q with
  | nil => exact h
  | cons r requests ih =>
    obtain ⟨first, rest⟩ := List.forall_mem_cons.1 hr
    exact ih (h.ensureJoin first) rest

/-- The part of the statement in front of the conditions. -/
theorem fromText (h : q.Inert) : Sql.Inert q.fromText := by
  have select : Sql.Inert "SELECT " := by decide
  have all : Sql.Inert "*" := by decide
  have source : Sql.Inert "FROM " := by decide
  refine .intercalate ?_
  simp only [List.forall_mem_cons, List.forall_mem_map]
  exact ⟨select.append (h.aliasName.qualify all),
    ((source.append h.table).append (by decide)).append h.aliasName,
    fun j hj => (h.joins j hj).text⟩

/-- A statement whose conditions are aligned carries their clauses in depth-first order. -/
theorem carries_render (h : q.Inert) (aligned : q.conditions.Aligned)
    (nested : q.conditions.Nested) :
    Carries q.render.sql q.conditions.depthFirstClauses := by
  have front : Carries q.fromText [] := .of_holds h.fromText.holds
  have body := aligned.carries_whereText nested
  rw [render]
  cases hr : q.conditions.render with
  | none =>
    have none : q.conditions.rootParts = [] := ConditionSet.render_eq_none.1 hr
    rw [ConditionSet.depthFirstClauses, none]
    exact front
  | some filter =>
    have word : Carries "WHERE" [] := .of_holds (by decide : Holds "WHERE" 0)
    have blanks : " WHERE " = " " ++ ("WHERE" ++ " ") := rfl
    have written := front.append_blank (word.append_blank body)
    simpa only [blanks, String.append_assoc, ConditionSet.sql_render hr, List.nil_append] using
      written

end Inert

end Query

end RowAccess.Sql
