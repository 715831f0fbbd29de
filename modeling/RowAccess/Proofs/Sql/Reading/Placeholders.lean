import Mathlib.Data.List.Basic
import Mathlib.Tactic.MkIffOfInductiveProp
import RowAccess.Proofs.Sql.Reading.Statements

/-!
# Placeholders and the values for them

A database gives the parameters of a statement to its placeholders from left to right, wherever in
the text these are.  Text and parameters are put together apart from each other, so that a clause
gets its own operands depends on how many placeholders are written in front of it.

The texts that a statement is made of hold a certain number of placeholders each, and each of these
is a token by itself.  Put together with blanks or brackets they hold as many as they do apart, and
the values for them may be given to each by itself.

Main results:

- `fill_append`: the values for a text are those for its parts.
- `Clause.Aligned`: a clause with as many placeholders as operands.
- `Carries.append_blank`, `Carries.brackets`, `Carries.conjoin`: texts that carry clauses, put
  together.
- `ConditionSet.Aligned.carries_whereText`: the conditions of a statement carry their clauses in
  depth-first order.
-/

namespace RowAccess.Sql

namespace Reading

/-! ## Placeholders -/

/-- The sign that a value is given for. -/
def placeholder : Token := .run ['?']

/-- How many question marks outside quotes there are in a token. -/
def Token.holes : Token → Nat
  | run chars => chars.count '?'
  | quoted _ _ => 0
  | mark _ => 0

/-- How many question marks outside quotes there are in a text. -/
def holes (text : String) : Nat := (tokens text).foldr (fun t n => t.holes + n) 0

/-- A text that holds a number of placeholders and no other question mark outside quotes. -/
@[mk_iff]
structure Holds (text : String) (n : Nat) : Prop where
  closed : QuotesClosed text
  apart : ∀ t ∈ tokens text, t = placeholder ∨ t.holes = 0
  count : (tokens text).count placeholder = n

instance (text : String) (n : Nat) : Decidable (Holds text n) :=
  decidable_of_iff' _ (holds_iff text n)

namespace Holds

variable {x y : String} {m n : Nat}

/-- The question marks outside quotes are the placeholders. -/
theorem holes_eq (h : Holds x n) : holes x = n := by
  rw [← h.count, holes]
  have apart := h.apart
  generalize tokens x = ts at apart
  induction ts with
  | nil => rfl
  | cons t ts ih =>
    obtain ⟨first, others⟩ := List.forall_mem_cons.1 apart
    rw [List.foldr_cons, ih others, List.count_cons]
    rcases first with rfl | none
    · rw [if_pos (beq_self_eq_true _), Nat.add_comm]
      rfl
    · have other : t ≠ placeholder := by
        rintro rfl
        cases none
      rw [none, if_neg (by simpa using other), Nat.zero_add, Nat.add_zero]

/-- Two texts with a blank between them. -/
theorem append_blank (hx : Holds x m) (hy : Holds y n) : Holds (x ++ " " ++ y) (m + n) where
  closed := hx.closed.append_blank hy.closed
  apart := by
    rw [tokens_append_blank hx.closed]
    intro t ht
    rcases List.mem_append.1 ht with first | second
    · exact hx.apart t first
    · exact hy.apart t second
  count := by rw [tokens_append_blank hx.closed, List.count_append, hx.count, hy.count]

/-- A text in brackets. -/
theorem brackets (hx : Holds x n) : Holds ("(" ++ x ++ ")") n where
  closed := hx.closed.brackets
  apart := by
    rw [tokens_brackets hx.closed]
    intro t ht
    rcases List.mem_append.1 ht with front | back
    · rcases List.mem_cons.1 front with rfl | inside
      · exact .inr rfl
      · exact hx.apart t inside
    · obtain rfl := List.mem_singleton.1 back
      exact .inr rfl
  count := by
    rw [tokens_brackets hx.closed, List.count_append, List.count_cons, hx.count]
    rfl

end Holds

/-- Placeholders with commas between them. -/
theorem holds_placeholders (n : Nat) : Holds (Clause.placeholders n) n := by
  induction n with
  | zero => decide
  | succ n ih =>
    cases n with
    | zero => decide
    | succ n =>
      have first : Holds "?," 1 := by decide
      have split :
          Clause.placeholders (n + 1 + 1) = "?," ++ " " ++ Clause.placeholders (n + 1) := by
        simp only [Clause.placeholders, List.replicate_succ, String.intercalate_cons_cons]
        rfl
      rw [split, Nat.add_comm (n + 1)]
      exact first.append_blank ih

/-- A single character between quotes, other than the quote, holds no placeholder. -/
theorem holds_quoted {c : Char} (h : c ≠ '\'') : Holds ("'" ++ String.singleton c ++ "'") 0 where
  closed := (joint_quoted h).quotes
  apart := by
    rw [tokens_quoted h]
    intro t ht
    obtain rfl := List.mem_singleton.1 ht
    exact .inr rfl
  count := by
    rw [tokens_quoted h]
    rfl

/-! ## Giving values -/

/-- A token, or the value that was given for a placeholder. -/
inductive Filled where
  | token (t : Token)
  | value (v : Value)
  deriving DecidableEq

/-- Gives values to the placeholders from left to right. -/
def fill : List Token → List Value → List Filled
  | [], _ => []
  | t :: ts, [] => .token t :: fill ts []
  | t :: ts, v :: vs =>
    if t = placeholder then .value v :: fill ts vs else .token t :: fill ts (v :: vs)

@[simp] theorem fill_placeholder (ts : List Token) (v : Value) (vs : List Value) :
    fill (placeholder :: ts) (v :: vs) = .value v :: fill ts vs := by
  rw [fill, if_pos rfl]

/-- A token that is no placeholder stays. -/
theorem fill_cons_of_ne {t : Token} (h : t ≠ placeholder) (ts : List Token) (vs : List Value) :
    fill (t :: ts) vs = .token t :: fill ts vs := by
  cases vs with
  | nil => rfl
  | cons v vs => rw [fill, if_neg h]

/-- Where there are as many values as placeholders, further text gets the values behind them. -/
theorem fill_append {ts : List Token} {vs : List Value} (h : ts.count placeholder = vs.length)
    (us : List Token) (ws : List Value) : fill (ts ++ us) (vs ++ ws) = fill ts vs ++ fill us ws := by
  induction ts generalizing vs with
  | nil =>
    obtain rfl := List.length_eq_zero_iff.1 h.symm
    rfl
  | cons t ts ih =>
    by_cases ht : t = placeholder
    · subst ht
      rw [List.count_cons_self] at h
      obtain ⟨v, vs, rfl⟩ := List.exists_cons_of_length_eq_add_one h.symm
      rw [List.cons_append, List.cons_append, fill_placeholder, fill_placeholder,
        ih (Nat.succ.inj h), List.cons_append]
    · rw [List.count_cons_of_ne ht] at h
      rw [List.cons_append, fill_cons_of_ne ht, fill_cons_of_ne ht, ih h, List.cons_append]

end Reading

open Reading

/-! ## Clauses -/

namespace Clause

/-- How many placeholders a clause is written with: none for a null check, one for each item of a
list, two for a range and one for any other comparison. -/
def arity (c : Clause) : Nat :=
  match c.op with
  | .like _ | .notLike _ => 1
  | .compare .isNull | .compare .isNotNull => 0
  | .compare .inList | .compare .notInList => (items c.value).length
  | .compare .between | .compare .notBetween => 2
  | .compare .eq | .compare .ne | .compare .lt | .compare .lte | .compare .gt
  | .compare .gte => 1

/-- A clause that is written with as many placeholders as it binds operands. -/
structure Aligned (c : Clause) : Prop where
  text : Holds c.text c.arity
  operands : c.operands.length = c.arity

/-- A clause is written with as many placeholders as its operator takes. -/
theorem holds_text {c : Clause} (column : Holds c.column 0) (escape : c.op.escape? ≠ some '\'') :
    Holds c.text c.arity := by
  rcases c with ⟨column', op, v⟩
  have tail {rest : String} {n : Nat} (h : Holds rest n) : Holds (column' ++ " " ++ rest) n := by
    simpa using column.append_blank h
  have compared (keyword rest : String) (n : Nat) (h : Holds (keyword ++ rest) n) :
      Holds (column' ++ " " ++ keyword ++ rest) n := by
    rw [String.append_assoc]
    exact tail h
  have matched (keyword : String) (e : Char) (h : Holds keyword 0) (free : e ≠ '\'') :
      Holds (pattern (column' ++ " " ++ keyword) e) 1 := by
    have words : Holds "? ESCAPE" 1 := by decide
    rw [pattern_eq]
    exact tail (h.append_blank (words.append_blank (holds_quoted free)))
  have listed (keyword ifEmpty : String) (n : Nat) (h : Holds keyword 0)
      (hempty : Holds ifEmpty 0) :
      Holds (membership (column' ++ " " ++ keyword) n ifEmpty) n := by
    rw [membership]
    split
    next none =>
      rw [none]
      exact hempty
    next =>
      have opening : " (" = " " ++ "(" := rfl
      have written := tail (h.append_blank (holds_placeholders n).brackets)
      rw [Nat.zero_add] at written
      rw [opening]
      simpa only [String.append_assoc] using written
  cases op with
  | like e => exact matched "LIKE" e (by decide) fun he => escape (congrArg some he)
  | notLike e => exact matched "NOT LIKE" e (by decide) fun he => escape (congrArg some he)
  | compare op =>
    cases op with
    | inList => exact listed "IN" alwaysFalse _ (by decide) (by decide)
    | notInList => exact listed "NOT IN" alwaysTrue _ (by decide) (by decide)
    | isNull => exact tail (by decide : Holds "IS NULL" 0)
    | isNotNull => exact tail (by decide : Holds "IS NOT NULL" 0)
    | between => exact compared "BETWEEN" " ? AND ?" 2 (by decide)
    | notBetween => exact compared "NOT BETWEEN" " ? AND ?" 2 (by decide)
    | eq => exact compared "=" " ?" 1 (by decide)
    | ne => exact compared "<>" " ?" 1 (by decide)
    | lt => exact compared "<" " ?" 1 (by decide)
    | lte => exact compared "<=" " ?" 1 (by decide)
    | gt => exact compared ">" " ?" 1 (by decide)
    | gte => exact compared ">=" " ?" 1 (by decide)

end Clause

/-! ## Texts with clauses -/

/-- A text whose placeholders have values is read as the given clauses from left to right, each with
its own operands for its own placeholders, and no other question mark outside quotes. -/
inductive Reads : List Filled → List Clause → Prop where
  | nil : Reads [] []
  | token {t : Token} {fs : List Filled} {cs : List Clause} (h : t.holes = 0) (rest : Reads fs cs) :
      Reads (.token t :: fs) cs
  | clause {c : Clause} {fs : List Filled} {cs : List Clause} (h : c.Aligned) (rest : Reads fs cs) :
      Reads (fill (tokens c.text) c.operands ++ fs) (c :: cs)

theorem Reads.append {fs gs : List Filled} {cs ds : List Clause} (h : Reads fs cs)
    (h' : Reads gs ds) : Reads (fs ++ gs) (cs ++ ds) := by
  induction h with
  | nil => exact h'
  | token none rest ih => exact .token none ih
  | clause aligned rest ih =>
    rw [List.append_assoc]
    exact .clause aligned ih

/-- Tokens without question marks are read as no clause. -/
theorem Reads.plain {ts : List Token} (h : ∀ t ∈ ts, t.holes = 0) : Reads (fill ts []) [] := by
  induction ts with
  | nil => exact .nil
  | cons t ts ih =>
    obtain ⟨first, others⟩ := List.forall_mem_cons.1 h
    exact .token first (ih others)

/-- A text that is read as the given clauses when their operands are given to its placeholders, of
which there are as many. -/
structure Carries (text : String) (clauses : List Clause) : Prop where
  holds : Holds text (clauses.flatMap Clause.operands).length
  reads : Reads (fill (tokens text) (clauses.flatMap Clause.operands)) clauses

namespace Carries

variable {x y : String} {cs ds : List Clause}

/-- A text without placeholders carries no clause. -/
theorem of_holds (h : Holds x 0) : Carries x [] where
  holds := h
  reads := by
    refine Reads.plain fun t ht => ?_
    rcases h.apart t ht with rfl | none
    · exact absurd ht (List.count_eq_zero.1 h.count)
    · exact none

/-- The text of a clause carries the clause. -/
theorem of_aligned {c : Clause} (h : c.Aligned) : Carries c.text [c] where
  holds := by
    rw [List.flatMap_singleton, h.operands]
    exact h.text
  reads := by
    rw [List.flatMap_singleton, ← List.append_nil (fill _ _)]
    exact .clause h .nil

/-- Two texts with a blank between them. -/
theorem append_blank (hx : Carries x cs) (hy : Carries y ds) :
    Carries (x ++ " " ++ y) (cs ++ ds) where
  holds := by
    rw [List.flatMap_append, List.length_append]
    exact hx.holds.append_blank hy.holds
  reads := by
    rw [List.flatMap_append, tokens_append_blank hx.holds.closed, fill_append hx.holds.count]
    exact hx.reads.append hy.reads

/-- A text in brackets. -/
theorem brackets (hx : Carries x cs) : Carries ("(" ++ x ++ ")") cs where
  holds := hx.holds.brackets
  reads := by
    have opening : Token.mark '(' ≠ placeholder := by decide
    have inside := fill_append hx.holds.count [.mark ')'] []
    rw [List.append_nil] at inside
    rw [tokens_brackets hx.holds.closed, List.cons_append, fill_cons_of_ne opening, inside]
    have closing : Reads (fill [.mark ')'] []) [] := .plain (by simp [Token.holes])
    have read := hx.reads.append closing
    rw [List.append_nil] at read
    exact .token rfl read

end Carries

/-! ## Statements -/

/-- Expressions with a conjunction between them. -/
theorem Carries.conjoin (conjunction : Conjunction) {es : List WhereExpr}
    (h : ∀ e ∈ es, Carries e.text e.clauses) :
    Carries (WhereExpr.conjoin conjunction (WhereExpr.textAll es)) (WhereExpr.clausesAll es) := by
  induction es with
  | nil => exact .of_holds (by decide : Holds "" 0)
  | cons e es ih =>
    obtain ⟨first, others⟩ := List.forall_mem_cons.1 h
    cases es with
    | nil =>
      rw [WhereExpr.clausesAll, WhereExpr.clausesAll, List.append_nil]
      simpa [WhereExpr.textAll, WhereExpr.conjoin] using first
    | cons e' es =>
      have word : Holds conjunction.keyword 0 := by
        cases conjunction with
        | and => decide
        | or => decide
      rw [WhereExpr.textAll, WhereExpr.textAll, conjoin_cons_cons]
      exact first.append_blank ((of_holds word).append_blank (ih others))

namespace ConditionSet

/-- Every clause is aligned, and no raw condition has a question mark outside quotes. -/
structure Aligned (s : ConditionSet) : Prop where
  clauses : ∀ g ∈ s.groups, ∀ c, Condition.clause c ∈ g.items → c.Aligned
  raw : ∀ g ∈ s.groups, ∀ text, Condition.expression text ∈ g.items → Holds text 0

/-- The conditions of a statement carry their clauses in depth-first order. -/
theorem Aligned.carries_whereText {s : ConditionSet} (h : s.Aligned) (hs : s.Nested) :
    Carries s.whereText s.depthFirstClauses := by
  obtain ⟨items, hroot⟩ := hs.root
  have each : ∀ e ∈ s.parts items, Carries e.text e.clauses := by
    refine parts_induction hs ?_ ?_ ?_ hroot
    · intro g hg c hc
      exact .of_aligned (h.clauses g hg c hc)
    · intro g hg text htext
      exact .of_holds (h.raw g hg text htext)
    · intro conjunction es e hes he
      match es with
      | [] => cases he
      | [only] =>
        obtain rfl : only = e := Option.some.inj he
        exact hes only (by simp)
      | first :: second :: rest =>
        rw [WhereExpr.join_cons_cons] at he
        obtain rfl := Option.some.inj he
        exact (Carries.conjoin conjunction hes).brackets
  rw [whereText, depthFirstClauses, rootParts_eq hs, rootItems_eq hroot,
    ← WhereExpr.clausesAll_eq_flatMap]
  exact .conjoin .and each

end ConditionSet

end RowAccess.Sql
