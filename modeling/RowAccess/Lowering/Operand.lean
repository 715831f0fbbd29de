import RowAccess.Filter.Predicate
import RowAccess.Lowering.Options
import RowAccess.Sql.Clause

/-!
# From predicates to clauses

Once the column of a predicate is known, the predicate becomes a clause.  Membership in a
single value is membership in the list of it, and a range needs exactly two bounds.  On a
column whose case does not count, equality with a text becomes a match of the pattern that
is literally that text.

Main results:

- `operand_eq_error_iff`: an operand is refused only for a range without two bounds.
-/

namespace RowAccess

/-- Why a filter cannot be put into a statement. -/
inductive CompileError where
  /-- A predicate names its field in an unacceptable way. -/
  | filter (e : FilterError)
  /-- A range does not have two bounds. -/
  | invalidOperand (field : String) (op : Comparison)
  /-- A field is not stored anywhere. -/
  | unknownField (field : String)
  /-- A statement has no such relationship. -/
  | unknownRelationship (name : String)
  deriving DecidableEq

namespace CompileError

/-- The message of an error. -/
def message : CompileError → String
  | filter e => e.message
  | invalidOperand field op =>
    "operator " ++ op.keyword ++ " on field '" ++ field ++ "' needs a two-item list operand"
  | unknownField field => "no storage definition for field '" ++ field ++ "'"
  | unknownRelationship name => "query has no relationship named '" ++ name ++ "'"

/-- What kind of mistake an error is. -/
def failureClass : CompileError → FailureClass
  | unknownField _ | unknownRelationship _ => .notFound
  | filter _ | invalidOperand _ _ => .invalidInput

/-- The error as a classified failure. -/
def failure (e : CompileError) : Failure := ⟨e.failureClass, .compile, e.message⟩

end CompileError

namespace Lowering

open Sql

/-- The operand that a predicate compares with. -/
def operand (p : Predicate) : Except CompileError Value :=
  match p.op with
  | .inList | .notInList =>
    .ok (match p.value with
      | .list items => .list items
      | value => .list [value])
  | .between | .notBetween =>
    match p.value with
    | .list [low, high] => .ok (.list [low, high])
    | _ => .error (.invalidOperand p.field p.op)
  | _ => .ok p.value

/-- The comparison of a column with an operand.  On a column whose case does not count,
equality with a text is a pattern match. -/
def clauseFor (column : String) (caseSensitive : Bool) (options : CompileOptions)
    (op : Comparison) (value : Value) : Clause :=
  let escape := options.likeEscape
  let usesPattern := !caseSensitive && options.caseInsensitiveLike
  match op, value with
  | .eq, .text s =>
    if usesPattern then ⟨column, .like escape, .text (LikePattern.escapeText s escape)⟩
    else ⟨column, .compare .eq, .text s⟩
  | .ne, .text s =>
    if usesPattern then ⟨column, .notLike escape, .text (LikePattern.escapeText s escape)⟩
    else ⟨column, .compare .ne, .text s⟩
  | op, value => ⟨column, .compare op, value⟩

/-- The clause of a predicate on a column. -/
def clause (p : Predicate) (column : String) (caseSensitive : Bool)
    (options : CompileOptions) : Except CompileError Clause :=
  (operand p).map fun value => clauseFor column caseSensitive options p.op value

/-- An operand is refused only for a range without two bounds. -/
theorem operand_eq_error_iff (p : Predicate) (e : CompileError) :
    operand p = .error e ↔
      e = .invalidOperand p.field p.op ∧ (p.op = .between ∨ p.op = .notBetween) ∧
        ∀ low high, p.value ≠ .list [low, high] := by
  obtain ⟨field, op, value, hnull⟩ := p
  cases op <;> simp only [operand] <;> grind

end Lowering

end RowAccess
