import RowAccess.Proofs.Sql.Reading.Precedence

/-!
# Conditions as they are written

The text of a condition is put together from the texts of clauses and raw conditions by
blanks, conjunctions and brackets.  A text that leaves nothing open, neither a quote nor a
bracket nor a BETWEEN, can be put together with others without being read differently.
Clauses are of this kind and so are all expressions of SQL.

A joint text is moreover one alternative only.  Clauses and groups are joint by the way they
are written; a raw condition is if its author made it so.

Main results:

- `Complete.append_blank`, `Complete.brackets`: texts put together leave nothing open.
- `Joint.clause`: a clause on a column is one alternative.
- `WhereExpr.complete_text`: what an expression is written as leaves nothing open.
-/

namespace RowAccess.Sql

namespace Reading

/-! ## Texts that leave nothing open -/

/-- Whether two characters follow each other somewhere. -/
def hasPair (a b : Char) : List Char → Bool
  | x :: y :: rest => (x = a && y = b) || hasPair a b (y :: rest)
  | _ => false

/-- Whether a token begins a comment. -/
def Token.opensComment : Token → Bool
  | run chars => hasPair '-' '-' chars || hasPair '/' '*' chars
  | _ => false

/-- A text in which every quote, bracket and BETWEEN comes to its end, without comments.  Every
expression of SQL is such a text. -/
structure Complete (text : String) : Prop where
  quotes : QuotesClosed text
  uncommented : (tokens text).all (fun t => !t.opensComment) = true
  brackets : Nesting.top.matched (tokens text) = true
  nesting : Nesting.top.after (tokens text) = .top

/-- A complete text without alternatives at the top. -/
structure Joint (text : String) : Prop extends Complete text where
  uncut : Nesting.top.uncut .or (tokens text) = true

theorem complete_iff (text : String) :
    Complete text ↔ QuotesClosed text ∧ (tokens text).all (fun t => !t.opensComment) = true ∧
      Nesting.top.matched (tokens text) = true ∧ Nesting.top.after (tokens text) = .top := by
  constructor
  · intro h
    exact ⟨h.quotes, h.uncommented, h.brackets, h.nesting⟩
  · rintro ⟨quotes, uncommented, brackets, nesting⟩
    exact ⟨quotes, uncommented, brackets, nesting⟩

theorem joint_iff (text : String) :
    Joint text ↔ Complete text ∧ Nesting.top.uncut .or (tokens text) = true := by
  constructor
  · intro h
    exact ⟨h.toComplete, h.uncut⟩
  · rintro ⟨complete, uncut⟩
    exact ⟨complete, uncut⟩

instance (text : String) : Decidable (Complete text) := decidable_of_iff' _ (complete_iff text)

instance (text : String) : Decidable (Joint text) := decidable_of_iff' _ (joint_iff text)

/-- Complete texts with a blank between them. -/
theorem Complete.append_blank {x y : String} (hx : Complete x) (hy : Complete y) :
    Complete (x ++ " " ++ y) where
  quotes := hx.quotes.append_blank hy.quotes
  uncommented := by
    rw [tokens_append_blank hx.quotes, List.all_append, hx.uncommented, hy.uncommented]
    rfl
  brackets := by
    rw [tokens_append_blank hx.quotes, Nesting.matched_append, hx.brackets, hx.nesting,
      hy.brackets]
    rfl
  nesting := by
    rw [tokens_append_blank hx.quotes, Nesting.after_append, hx.nesting, hy.nesting]

/-- Joint texts with a blank between them. -/
theorem Joint.append_blank {x y : String} (hx : Joint x) (hy : Joint y) :
    Joint (x ++ " " ++ y) where
  toComplete := hx.toComplete.append_blank hy.toComplete
  uncut := by
    rw [tokens_append_blank hx.quotes, Nesting.uncut_append, hx.uncut, hx.nesting, hy.uncut]
    rfl

/-- Nothing separates at the top of a complete text in brackets. -/
theorem Complete.uncut_brackets {x : String} (hx : Complete x) (conjunction : Conjunction) :
    Nesting.top.uncut conjunction (tokens ("(" ++ x ++ ")")) = true := by
  have inside := Nesting.inside_of_matched hx.brackets 0 conjunction
  rw [hx.nesting] at inside
  rcases inside with ⟨hafter, -, huncut⟩
  have opened : Nesting.top.next (.mark '(') = ⟨Nesting.top.depth + 1, 0⟩ := rfl
  have bracket : Nesting.top.separates conjunction (.mark '(') = false := by
    cases conjunction with
    | and => rfl
    | or => rfl
  have closing : (⟨Nesting.top.depth + 1, 0⟩ : Nesting).uncut conjunction [.mark ')'] = true := by
    cases conjunction with
    | and => rfl
    | or => rfl
  rw [tokens_brackets hx.quotes, List.cons_append, Nesting.uncut, opened,
    Nesting.uncut_append, huncut, hafter, bracket, closing]
  rfl

/-- A complete text in brackets leaves nothing open. -/
theorem Complete.brackets_complete {x : String} (hx : Complete x) :
    Complete ("(" ++ x ++ ")") := by
  have inside := Nesting.inside_of_matched hx.brackets 0 .or
  rw [hx.nesting] at inside
  rcases inside with ⟨hafter, hmatched, -⟩
  have opened : Nesting.top.next (.mark '(') = ⟨Nesting.top.depth + 1, 0⟩ := rfl
  refine ⟨hx.quotes.brackets, ?_, ?_, ?_⟩
  · rw [tokens_brackets hx.quotes, List.cons_append, List.all_cons, List.all_append,
      hx.uncommented]
    rfl
  · rw [tokens_brackets hx.quotes, List.cons_append, Nesting.matched, opened,
      Nesting.matched_append, hmatched, hafter]
    rfl
  · rw [tokens_brackets hx.quotes, List.cons_append, Nesting.after, List.foldl_cons, opened,
      ← Nesting.after, Nesting.after_append, hafter]
    rfl

/-- A complete text in brackets is one alternative, whatever it is inside. -/
theorem Complete.brackets_joint {x : String} (hx : Complete x) : Joint ("(" ++ x ++ ")") :=
  ⟨hx.brackets_complete, hx.uncut_brackets .or⟩

/-! ## Conjunctions -/

theorem complete_keyword (conjunction : Conjunction) : Complete conjunction.keyword := by
  cases conjunction with
  | and => decide
  | or => decide

/-- The text in front of a conjunction, the conjunction and the text behind it. -/
theorem conjoin_cons_cons (conjunction : Conjunction) (x y : String) (rest : List String) :
    WhereExpr.conjoin conjunction (x :: y :: rest) =
      x ++ " " ++ (conjunction.keyword ++ " " ++ WhereExpr.conjoin conjunction (y :: rest)) := by
  simp [WhereExpr.conjoin, String.append_assoc]

/-- A text at the end stands behind a conjunction. -/
theorem conjoin_concat (conjunction : Conjunction) {texts : List String} (h : texts ≠ [])
    (y : String) :
    WhereExpr.conjoin conjunction (texts ++ [y]) =
      WhereExpr.conjoin conjunction texts ++ " " ++ (conjunction.keyword ++ " " ++ y) := by
  rw [WhereExpr.conjoin, String.intercalate_append_of_ne_nil h (List.cons_ne_nil y []),
    String.intercalate_singleton, WhereExpr.conjoin]
  simp only [String.append_assoc]

/-- Complete texts with a conjunction between them. -/
theorem Complete.conjoin (conjunction : Conjunction) {texts : List String}
    (h : ∀ x ∈ texts, Complete x) : Complete (WhereExpr.conjoin conjunction texts) := by
  induction texts with
  | nil => exact (by decide : Complete "")
  | cons x rest ih =>
    have hx := h x List.mem_cons_self
    have later := ih fun y hy => h y (List.mem_cons_of_mem _ hy)
    cases rest with
    | nil =>
      rw [WhereExpr.conjoin, String.intercalate_singleton]
      exact hx
    | cons y rest =>
      rw [conjoin_cons_cons]
      exact hx.append_blank ((complete_keyword conjunction).append_blank later)

/-- Joint texts with AND between them are one alternative. -/
theorem Joint.conjoin_and {texts : List String} (h : ∀ x ∈ texts, Joint x) :
    Joint (WhereExpr.conjoin .and texts) := by
  induction texts with
  | nil => exact (by decide : Joint "")
  | cons x rest ih =>
    have hx := h x List.mem_cons_self
    have later := ih fun y hy => h y (List.mem_cons_of_mem _ hy)
    have keyword : Joint "AND" := by decide
    cases rest with
    | nil =>
      rw [WhereExpr.conjoin, String.intercalate_singleton]
      exact hx
    | cons y rest =>
      rw [conjoin_cons_cons]
      exact hx.append_blank (keyword.append_blank later)

/-! ## Clauses -/

/-- Placeholders leave nothing open. -/
theorem complete_placeholders (n : Nat) : Complete (Clause.placeholders n) := by
  induction n with
  | zero => decide
  | succ n ih =>
    cases n with
    | zero => decide
    | succ n =>
      have first : Complete "?," := by decide
      have split :
          Clause.placeholders (n + 1 + 1) = "?," ++ " " ++ Clause.placeholders (n + 1) := by
        simp only [Clause.placeholders, List.replicate_succ, String.intercalate_cons_cons]
        rfl
      rw [split]
      exact first.append_blank ih

/-- A single character between quotes, other than the quote, is one token. -/
theorem tokens_quoted {c : Char} (h : c ≠ '\'') :
    tokens ("'" ++ String.singleton c ++ "'") = [.quoted '\'' [c]] := by
  have chars : ("'" ++ String.singleton c ++ "'").toList = ['\'', c, '\''] := by
    simp [String.toList_append]
  rw [tokens, chars]
  simp [scan, Mode.step, Mode.rest, isQuote, h]

/-- A single character between quotes, other than the quote. -/
theorem joint_quoted {c : Char} (h : c ≠ '\'') : Joint ("'" ++ String.singleton c ++ "'") := by
  have chars : ("'" ++ String.singleton c ++ "'").toList = ['\'', c, '\''] := by
    simp [String.toList_append]
  have closed : QuotesClosed ("'" ++ String.singleton c ++ "'") := by
    rw [QuotesClosed, chars]
    simp [atEnd, Mode.step, isQuote, h, Mode.isOpen]
  refine ⟨⟨closed, ?_, ?_, ?_⟩, ?_⟩
  all_goals
    rw [tokens_quoted h]
    rfl

end Reading

open Reading

/-- A clause on a column, with an escape character that does not end its quotes. -/
structure Clause.WellFormed (c : Clause) : Prop where
  column : Joint c.column
  escape : c.op.escape? ≠ some '\''

/-- The fixed parts of the texts of clauses.  A keyword of BETWEEN alone would wait for its
AND, so it is taken with the operands. -/
def Clause.phrases : List String :=
  ["LIKE", "NOT LIKE", "? ESCAPE", "IN", "NOT IN", alwaysFalse, alwaysTrue, "IS NULL",
    "IS NOT NULL", "BETWEEN ? AND ?", "NOT BETWEEN ? AND ?", "= ?", "<> ?", "< ?", "<= ?",
    "> ?", ">= ?"]

/-- A pattern comparison is written as phrases with blanks in between. -/
theorem Clause.pattern_eq (column keyword : String) (e : Char) :
    Clause.pattern (column ++ " " ++ keyword) e =
      column ++ " " ++ (keyword ++ " " ++
        ("? ESCAPE" ++ " " ++ ("'" ++ String.singleton e ++ "'"))) := by
  have blanks : " ? ESCAPE '" = " " ++ ("? ESCAPE" ++ (" " ++ "'")) := rfl
  rw [Clause.pattern, blanks]
  simp only [String.append_assoc]

/-- A membership in some values is written as phrases with blanks in between, and one in no
values at all is decided. -/
theorem Clause.membership_eq (column keyword : String) (count : Nat) (ifEmpty : String) :
    Clause.membership (column ++ " " ++ keyword) count ifEmpty = ifEmpty ∨
      Clause.membership (column ++ " " ++ keyword) count ifEmpty =
        column ++ " " ++ (keyword ++ " " ++ ("(" ++ Clause.placeholders count ++ ")")) := by
  rw [Clause.membership]
  split
  next => exact .inl rfl
  next =>
    have opening : " (" = " " ++ "(" := rfl
    rw [opening]
    simp only [String.append_assoc, or_true]

/-- The text of a clause is put together by blanks from its column, fixed parts,
placeholders in brackets and the escape character between quotes; what holds of these and is
kept by blanks holds of it. -/
theorem Clause.text_induction {P : String → Prop}
    (blank : ∀ x y, P x → P y → P (x ++ " " ++ y)) (phrase : ∀ text ∈ Clause.phrases, P text)
    (brackets : ∀ n, P ("(" ++ Clause.placeholders n ++ ")")) {c : Clause} (column : P c.column)
    (escape : ∀ e, c.op.escape? = some e → P ("'" ++ String.singleton e ++ "'")) : P c.text := by
  rcases c with ⟨column', op, v⟩
  have tail (rest : String) (hrest : P rest) : P (column' ++ " " ++ rest) :=
    blank _ _ column hrest
  have compared (keyword rest : String) (h : keyword ++ rest ∈ Clause.phrases) :
      P (column' ++ " " ++ keyword ++ rest) := by
    rw [String.append_assoc]
    exact tail _ (phrase _ h)
  have matched (keyword : String) (e : Char) (hkeyword : keyword ∈ Clause.phrases)
      (hescape : P ("'" ++ String.singleton e ++ "'")) :
      P (Clause.pattern (column' ++ " " ++ keyword) e) := by
    rw [Clause.pattern_eq]
    exact tail _ (blank _ _ (phrase keyword hkeyword)
      (blank _ _ (phrase "? ESCAPE" (by decide)) hescape))
  have listed (keyword ifEmpty : String) (count : Nat) (hkeyword : keyword ∈ Clause.phrases)
      (hempty : ifEmpty ∈ Clause.phrases) :
      P (Clause.membership (column' ++ " " ++ keyword) count ifEmpty) := by
    rcases Clause.membership_eq column' keyword count ifEmpty with decided | written
    · rw [decided]
      exact phrase ifEmpty hempty
    · rw [written]
      exact tail _ (blank _ _ (phrase keyword hkeyword) (brackets count))
  cases op with
  | like e => exact matched "LIKE" e (by decide) (escape e rfl)
  | notLike e => exact matched "NOT LIKE" e (by decide) (escape e rfl)
  | compare op =>
    cases op with
    | inList => exact listed "IN" alwaysFalse _ (by decide) (by decide)
    | notInList => exact listed "NOT IN" alwaysTrue _ (by decide) (by decide)
    | isNull => exact tail _ (phrase "IS NULL" (by decide))
    | isNotNull => exact tail _ (phrase "IS NOT NULL" (by decide))
    | between => exact compared "BETWEEN" " ? AND ?" (by decide)
    | notBetween => exact compared "NOT BETWEEN" " ? AND ?" (by decide)
    | eq => exact compared "=" " ?" (by decide)
    | ne => exact compared "<>" " ?" (by decide)
    | lt => exact compared "<" " ?" (by decide)
    | lte => exact compared "<=" " ?" (by decide)
    | gt => exact compared ">" " ?" (by decide)
    | gte => exact compared ">=" " ?" (by decide)

/-- A clause on a column is one alternative. -/
theorem Clause.WellFormed.joint_text {c : Clause} (h : c.WellFormed) : Joint c.text := by
  have phrases : ∀ text ∈ Clause.phrases, Joint text := by decide
  refine Clause.text_induction (fun _ _ => Joint.append_blank) phrases
    (fun n => (complete_placeholders n).brackets_joint) h.column fun e he => joint_quoted ?_
  rintro rfl
  exact h.escape he

/-! ## Expressions -/

namespace WhereExpr

mutual

/-- The clauses of an expression are on columns, and its raw conditions leave nothing open. -/
def WellFormed : WhereExpr → Prop
  | clause c => c.WellFormed
  | expression text => Complete text
  | joined _ parts => AllWellFormed parts

/-- So it is with several expressions. -/
def AllWellFormed : List WhereExpr → Prop
  | [] => True
  | e :: es => WellFormed e ∧ AllWellFormed es

end

theorem allWellFormed_iff (es : List WhereExpr) :
    AllWellFormed es ↔ ∀ e ∈ es, e.WellFormed := by
  induction es with
  | nil => simp [AllWellFormed]
  | cons e es ih => simp [AllWellFormed, ih]

mutual

/-- What an expression is written as leaves nothing open. -/
theorem complete_text : (e : WhereExpr) → e.WellFormed → Complete e.text
  | clause _, h => h.joint_text.toComplete
  | expression _, h => h
  | joined conjunction parts, h => by
    have each : ∀ x ∈ textAll parts, Complete x := complete_textAll parts h
    exact (Complete.conjoin conjunction each).brackets_joint.toComplete

/-- What several expressions are written as leaves nothing open. -/
theorem complete_textAll : (es : List WhereExpr) → AllWellFormed es →
    ∀ x ∈ textAll es, Complete x
  | [], _ => fun _ hx => absurd hx List.not_mem_nil
  | e :: es, h => by
    intro x hx
    rcases List.mem_cons.1 hx with rfl | hx
    · exact complete_text e h.1
    · exact complete_textAll es h.2 x hx

end

/-- Only a raw condition can be written with alternatives at the top. -/
theorem joint_text {e : WhereExpr} (h : e.WellFormed)
    (raw : ∀ text, e = expression text → Joint text) : Joint e.text := by
  cases e with
  | clause c => exact Clause.WellFormed.joint_text h
  | expression text => exact raw text rfl
  | joined conjunction parts =>
    have each : ∀ x ∈ textAll parts, Complete x := complete_textAll parts h
    exact (Complete.conjoin conjunction each).brackets_joint

/-- A group of well-formed parts is well-formed. -/
theorem wellFormed_of_join {conjunction : Conjunction} {es : List WhereExpr}
    (h : ∀ e ∈ es, e.WellFormed) {e : WhereExpr} (he : join conjunction es = some e) :
    e.WellFormed := by
  match es with
  | [] => cases he
  | [only] =>
    obtain rfl : only = e := Option.some.inj he
    exact h only List.mem_cons_self
  | first :: second :: rest =>
    rw [join_cons_cons] at he
    obtain rfl := Option.some.inj he
    exact (allWellFormed_iff _).2 h

end WhereExpr

/-! ## Groups -/

/-- A clause on a column, or a raw condition that leaves nothing open. -/
def Condition.WellFormed : Condition → Prop
  | .clause c => c.WellFormed
  | .expression text => Complete text
  | .group _ => True

namespace ConditionSet

/-- Every clause is on a column, and every raw condition leaves nothing open. -/
def WellFormed (s : ConditionSet) : Prop := ∀ g ∈ s.groups, ∀ item ∈ g.items, item.WellFormed

/-- The conditions of a well-formed statement are well-formed expressions. -/
theorem WellFormed.rootParts {s : ConditionSet} (h : s.WellFormed) (hs : s.Nested) :
    ∀ e ∈ s.rootParts, e.WellFormed := by
  rcases hs.root with ⟨items, hroot⟩
  rw [rootParts_eq hs, rootItems_eq hroot]
  refine parts_induction hs ?_ ?_ ?_ hroot
  · intro g hg c hc
    exact h g hg _ hc
  · intro g hg text htext
    exact h g hg _ htext
  · intro conjunction es e hes he
    exact WhereExpr.wellFormed_of_join hes he

/-- The conditions of a statement as they are written; no conditions leave an empty text. -/
def whereText (s : ConditionSet) : String :=
  WhereExpr.conjoin .and (WhereExpr.textAll s.rootParts)

/-- The body of a WHERE is what the conditions are written as. -/
theorem sql_render {s : ConditionSet} {rendered : Rendered} (h : s.render = some rendered) :
    rendered.sql = s.whereText := by
  rw [render] at h
  split at h
  next => cases h
  next => exact (congrArg Rendered.sql (Option.some.inj h)).symm

/-- What the conditions of a well-formed statement are written as leaves nothing open. -/
theorem WellFormed.complete_whereText {s : ConditionSet} (h : s.WellFormed) (hs : s.Nested) :
    Complete s.whereText :=
  .conjoin .and (WhereExpr.complete_textAll _ ((WhereExpr.allWellFormed_iff _).2 (h.rootParts hs)))

/-- If no raw condition has alternatives at the top, neither have the conditions together. -/
theorem WellFormed.joint_whereText {s : ConditionSet} (h : s.WellFormed) (hs : s.Nested)
    (raw : ∀ text, .expression text ∈ s.rootParts → Joint text) : Joint s.whereText := by
  refine Joint.conjoin_and fun x hx => ?_
  rw [WhereExpr.textAll_eq_map] at hx
  rcases List.mem_map.1 hx with ⟨e, he, rfl⟩
  exact WhereExpr.joint_text (h.rootParts hs e he) fun text htext => raw text (htext ▸ he)

end ConditionSet

end RowAccess.Sql
