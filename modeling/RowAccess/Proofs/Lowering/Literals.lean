import RowAccess.Config
import RowAccess.Proofs.Lowering.Emission
import RowAccess.Proofs.Sql.Matching
import RowAccess.Proofs.Sql.Reading.Parsing

/-!
# Equality by a pattern

On a column whose case does not count, equality with a text is written as a comparison with the
pattern that is literally that text, so that the database compares characters as it does there.  The
escape character is part of the statement, between quotes.  If it may be chosen, the database reads
it as it was meant, and the clause lets through just the texts that are the operand up to the case of
characters, or whatever else the database takes for the same.

Main results:

- `PatternTest.ofTokens?_text`: how a pattern comparison is read.
- `Lowering.accepts_clause_iff`: what the clause of an equality, or of its negation, lets through.
- `Compiler.literal_compile`: so it is for every such predicate of a filter.
-/

namespace RowAccess

open Sql Sql.Reading

/-! ## Reading a pattern comparison -/

namespace Sql

/-- A pattern comparison as a database reads it behind the column. -/
structure PatternTest where
  negated : Bool
  escape : Char
  deriving DecidableEq

namespace PatternTest

/-- Reads LIKE or NOT LIKE, a placeholder and the escape character between quotes. -/
def ofTokens? (ts : List Token) : Option PatternTest :=
  match ts.getLast? with
  | some (.quoted '\'' [escape]) =>
    if ts.dropLast = tokens "LIKE ? ESCAPE" then some ⟨false, escape⟩
    else if ts.dropLast = tokens "NOT LIKE ? ESCAPE" then some ⟨true, escape⟩
    else none
  | _ => none

/-- The comparison that is read so. -/
def op (test : PatternTest) : ClauseOp :=
  if test.negated then .notLike test.escape else .like test.escape

/-- What is written behind the column. -/
def text (test : PatternTest) : String :=
  test.op.keyword ++ " " ++ ("? ESCAPE" ++ " " ++ ("'" ++ String.singleton test.escape ++ "'"))

/-- A pattern comparison is read as it was meant, unless its escape character ends the quotes. -/
theorem ofTokens?_text (test : PatternTest) (h : test.escape ≠ '\'') :
    ofTokens? (tokens test.text) = some test := by
  have words : QuotesClosed "? ESCAPE" := by decide
  have keyword : QuotesClosed test.op.keyword := (test.op.tokens_keyword).1
  rw [text, tokens_append_blank keyword, tokens_append_blank words, tokens_quoted h,
    ← List.append_assoc, ofTokens?, List.getLast?_concat, List.dropLast_concat]
  rcases test with ⟨negated, escape⟩
  cases negated with
  | false =>
    have word : (op ⟨false, escape⟩).keyword = "LIKE" := rfl
    rw [word]
    rfl
  | true =>
    have word : (op ⟨true, escape⟩).keyword = "NOT LIKE" := rfl
    rw [word]
    rfl

/-- The text of a clause with a pattern. -/
theorem text_clause (test : PatternTest) (column : String) (v : Value) :
    Clause.text ⟨column, test.op, v⟩ = column ++ " " ++ test.text := by
  rcases test with ⟨negated, escape⟩
  cases negated with
  | false => exact Clause.pattern_eq column "LIKE" escape
  | true => exact Clause.pattern_eq column "NOT LIKE" escape

theorem operands_clause (test : PatternTest) (column : String) (v : Value) :
    Clause.operands ⟨column, test.op, v⟩ = [v] := by
  rcases test with ⟨negated, escape⟩
  cases negated <;> rfl

end PatternTest

/-- The clause is read as a comparison of its column with the pattern that it binds, and it lets the
subject through. -/
def Clause.Accepts (same : Char → Char → Prop) (c : Clause) (subject : String) : Prop :=
  ∃ rest test pattern ps, c.text = c.column ++ " " ++ rest ∧
    PatternTest.ofTokens? (tokens rest) = some test ∧ c.operands = [.text pattern] ∧
    LikePattern.parts? test.escape pattern.toList = some ps ∧
    (LikePattern.Matches same ps subject.toList ↔ test.negated = false)

variable {same : Char → Char → Prop}

/-- A clause with a text that was escaped lets the text through, up to what is the same, or all but
that. -/
theorem Clause.accepts_literal_iff (test : PatternTest) (h : test.escape ≠ '\'')
    (column text subject : String) :
    Clause.Accepts same
        ⟨column, test.op, .text (LikePattern.escapeText text test.escape)⟩ subject ↔
      (List.Forall₂ same text.toList subject.toList ↔ test.negated = false) := by
  have read := LikePattern.parts?_escapeText text test.escape
  constructor
  · rintro ⟨rest, test', pattern, ps, written, htest, hoperands, hps, lets⟩
    rw [test.text_clause, String.append_right_inj] at written
    rw [← written, test.ofTokens?_text h, Option.some.injEq] at htest
    rw [test.operands_clause, List.cons.injEq, Value.text.injEq] at hoperands
    rw [← htest, ← hoperands.1, read, Option.some.injEq] at hps
    rw [← LikePattern.matches_literal_iff, hps, lets, htest]
  · intro lets
    refine ⟨_, test, _, _, test.text_clause _ _, test.ofTokens?_text h, test.operands_clause _ _,
      read, ?_⟩
    rw [LikePattern.matches_literal_iff]
    exact lets

end Sql

/-! ## The clause of an equality -/

namespace Lowering

variable {same : Char → Char → Prop} {options : CompileOptions}

/-- An escape character that was accepted does not end the quotes. -/
theorem escape_ne_quote (valid : options.validate = .ok ()) : options.likeEscape ≠ '\'' := by
  intro h
  rw [CompileOptions.validate_eq_ok_iff, CompileOptions.mem_reservedEscapes, h] at valid
  exact valid (.inl rfl)

/-- The clause of an equality or its negation with a text. -/
theorem clause_of_text {p : Predicate} {column operand : String} {c : Clause}
    (h : clause p column false options = .ok c) (rewrite : options.caseInsensitiveLike = true)
    (hop : p.op = .eq ∨ p.op = .ne) (hv : p.value = .text operand) :
    c = ⟨column, PatternTest.op ⟨p.op = .ne, options.likeEscape⟩,
      .text (LikePattern.escapeText operand options.likeEscape)⟩ := by
  rw [clause] at h
  rcases hop with hop | hop
  · simp [Lowering.operand, hop, hv, clauseFor, rewrite, Except.map] at h
    rw [← h, hop]
    rfl
  · simp [Lowering.operand, hop, hv, clauseFor, rewrite, Except.map] at h
    rw [← h, hop]
    rfl

/-- The clause of an equality with a text lets through what is the text, and that of its negation
everything else. -/
theorem accepts_clause_iff {p : Predicate} {column operand : String} {c : Clause}
    (h : clause p column false options = .ok c) (rewrite : options.caseInsensitiveLike = true)
    (valid : options.validate = .ok ()) (hop : p.op = .eq ∨ p.op = .ne)
    (hv : p.value = .text operand) (subject : String) :
    c.Accepts same subject ↔
      (List.Forall₂ same operand.toList subject.toList ↔ p.op = .eq) := by
  rw [clause_of_text h rewrite hop hv, Clause.accepts_literal_iff _ (escape_ne_quote valid)]
  rcases hop with hop | hop
  · simp [hop]
  · simp [hop]

end Lowering

/-- The clauses of a predicate are one clause, which lets through the texts that are the operand
character by character, or those that are not. -/
structure Predicate.ComparesLiterally (p : Predicate) (operand : String)
    (clauses : List Clause) : Prop where
  eq : p.op = .eq → ∃ c, clauses = [c] ∧ ∀ same subject,
    c.Accepts same subject ↔ List.Forall₂ same operand.toList subject.toList
  ne : p.op = .ne → ∃ c, clauses = [c] ∧ ∀ same subject,
    c.Accepts same subject ↔ ¬ List.Forall₂ same operand.toList subject.toList

/-- So it is for a predicate on a stored field whose case does not count. -/
theorem LookupScope.Emits.comparesLiterally {scope : LookupScope} {q : Query} {p : Predicate}
    {clauses : List Clause} (h : scope.Emits q p clauses)
    (rewrite : scope.compiler.options.caseInsensitiveLike = true)
    (valid : scope.compiler.options.validate = .ok ()) {storage : FieldStorage} {operand : String}
    (stored : scope.Stores p storage) (insensitive : storage.caseSensitive = false)
    (hv : p.value = .text operand) : p.ComparesLiterally operand clauses := by
  obtain ⟨aliasName, c, rfl, -, hclause⟩ := h.of_stores stored
  rw [insensitive] at hclause
  constructor
  · intro hop
    refine ⟨c, rfl, fun same subject => ?_⟩
    rw [Lowering.accepts_clause_iff hclause rewrite valid (.inl hop) hv]
    simp [hop]
  · intro hop
    refine ⟨c, rfl, fun same subject => ?_⟩
    rw [Lowering.accepts_clause_iff hclause rewrite valid (.inr hop) hv]
    simp [hop]

/-! ## Compiles -/

namespace Compiler

/-- A text that was escaped is unescaped to itself, and as a pattern it matches the text and nothing
else, up to the characters that are taken for the same.  So, with an escape character that was
accepted, each equality of a filter with a text on a field whose case does not count becomes a clause
that lets through that text and nothing else, and its negation one that lets through everything
else. -/
theorem literal_compile :
    (∀ (text : String) (escape : Char),
      LikePattern.unescape? escape (LikePattern.escapeText text escape).toList =
          some text.toList ∧
        ∀ (same : Char → Char → Prop) (subject : String),
          LikePattern.Describes same (LikePattern.escapeText text escape) escape subject ↔
            List.Forall₂ same text.toList subject.toList) ∧
    ∀ (c : Compiler) (t : FilterTree) (q : Query) (revisionScoped : Bool), q.Reachable →
      c.options.caseInsensitiveLike = true → c.options.validate = .ok () →
        ∃ handled rest emitted, t.livePredicates = handled ++ rest ∧
          (errorOf (c.compile t q revisionScoped).outcome = none → rest = []) ∧
          (c.compile t q revisionScoped).query.conditions.depthFirstClauses =
            q.conditions.depthFirstClauses ++ emitted.flatten ∧
          List.Forall₂ (fun p clauses => ∀ path storage operand, p.path = .ok path →
            c.resolver.storage? path.field path.property = some storage →
            storage.caseSensitive = false → p.value = .text operand →
              p.ComparesLiterally operand clauses) handled emitted := by
  constructor
  · intro text escape
    refine ⟨?_, fun same subject => LikePattern.describes_escapeText same text escape subject⟩
    rw [LikePattern.escapeText, String.toList_ofList, LikePattern.unescape?_escapeChars]
  · intro c t q revisionScoped hq rewrite valid
    obtain ⟨handled, rest, emitted, split, complete, added, each⟩ :=
      c.exists_emits_compile t revisionScoped hq.nested
    refine ⟨handled, rest, emitted, split, complete, added, each.imp ?_⟩
    rintro p clauses ⟨anchor, -, emits⟩ path storage operand hpath hstorage insensitive hv
    exact emits.comparesLiterally rewrite valid ⟨path, hpath, hstorage⟩ insensitive hv

/-- Articles with a title whose case does not count. -/
def titledArticles : TableMapping :=
  (TableMapping.ofTables "node" { baseTable := "node", idKey := "nid" }).withField
    (FieldDefinition.single "title" "value").caseInsensitive

/-- The filter for a title with wildcards in it, put into a selection of articles. -/
def discountedArticles : Compiled :=
  compile ⟨titledArticles.resolver, .entity, {}⟩
    (FilterTree.all.add (.leaf (.equals "title" (.text "50%_off")))) (Query.select "node") false

/-- The title is found in capital letters, and nothing is found that only has its pattern. -/
theorem literal_compile_discountedArticles :
    (Query.select "node").Reachable ∧ CompileOptions.validate {} = .ok () ∧
      ∃ clause, discountedArticles.query.conditions.depthFirstClauses = [clause] ∧
        clause.Accepts (fun a b => a.toLower = b.toLower) "50%_OFF" ∧
        ¬ clause.Accepts (fun a b => a.toLower = b.toLower) "50 % off" := by
  have start : (Query.select "node").Reachable := .select "node"
  refine ⟨start, rfl, ?_⟩
  obtain ⟨handled, rest, emitted, split, complete, added, each⟩ :=
    literal_compile.2 ⟨titledArticles.resolver, .entity, {}⟩
      (FilterTree.all.add (.leaf (.equals "title" (.text "50%_off")))) _ false start rfl rfl
  obtain rfl := complete rfl
  rw [List.append_nil] at split
  obtain rfl : [Predicate.equals "title" (.text "50%_off")] = handled := split
  obtain ⟨clauses, _, literal, others, rfl⟩ := List.forall₂_cons_left_iff.1 each
  obtain rfl := List.forall₂_nil_left_iff.1 others
  obtain ⟨clause, rfl, lets⟩ := (literal ⟨"title", none⟩ _ _ rfl rfl rfl rfl).eq rfl
  refine ⟨clause, added, (lets _ _).2 (by decide), fun accepted => ?_⟩
  exact absurd ((lets _ _).1 accepted) (by decide)

end Compiler

end RowAccess
