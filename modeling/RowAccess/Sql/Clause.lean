import RowAccess.Filter.Comparison
import RowAccess.Value

/-!
# Clauses of a statement

A clause compares a column with bound operands.  Its text holds a placeholder for each
operand and never the operand itself; the operands are listed in the order of their
placeholders.

A pattern of LIKE matches its own characters except for the wildcards `%` and `_` and the
escape character.  Writing the escape character in front of each of these makes a pattern
that matches one text only.
-/

namespace RowAccess.Sql

/-! ## Constant conditions -/

/-- The condition that no row meets. -/
def alwaysFalse : String := "1 = 0"

/-- The condition that every row meets. -/
def alwaysTrue : String := "1 = 1"

/-! ## Literal patterns -/

namespace LikePattern

/-- Whether a character means something in a pattern with the given escape character. -/
def isSpecial (escape c : Char) : Bool := c = '%' || c = '_' || c = escape

/-- The pattern that matches exactly the given characters. -/
def escapeChars (escape : Char) (cs : List Char) : List Char :=
  cs.flatMap fun c => if isSpecial escape c then [escape, c] else [c]

/-- The pattern that matches exactly the given text. -/
def escapeText (text : String) (escape : Char) : String :=
  .ofList (escapeChars escape text.toList)

end LikePattern

/-! ## Clauses -/

/-- How a clause compares: as a predicate does, or with a pattern and its escape character. -/
inductive ClauseOp where
  | compare (op : Comparison)
  | like (escape : Char)
  | notLike (escape : Char)
  deriving DecidableEq

namespace ClauseOp

/-- The keyword of the comparison. -/
def keyword : ClauseOp → String
  | compare op => op.keyword
  | like _ => "LIKE"
  | notLike _ => "NOT LIKE"

/-- The escape character of a pattern. -/
def escape? : ClauseOp → Option Char
  | compare _ => none
  | like e | notLike e => some e

end ClauseOp

/-- A comparison of a column, qualified by its table's alias, with an operand. -/
structure Clause where
  column : String
  op : ClauseOp
  value : Value
  deriving DecidableEq

namespace Clause

/-- The items of a list; any other value is an item by itself. -/
def items (v : Value) : List Value := v.list?.getD [v]

/-- As many placeholders as there are operands, separated by commas. -/
def placeholders (n : Nat) : String := ", ".intercalate (List.replicate n "?")

/-- The text of a membership test; membership in no values at all is decided at once. -/
def membership (subject : String) (count : Nat) (ifEmpty : String) : String :=
  if count = 0 then ifEmpty else subject ++ " (" ++ placeholders count ++ ")"

/-- The pattern comparison with its escape character between quotes. -/
def pattern (subject : String) (escape : Char) : String :=
  subject ++ " ? ESCAPE '" ++ String.singleton escape ++ "'"

/-- The text of a clause. -/
def text (c : Clause) : String :=
  let subject := c.column ++ " " ++ c.op.keyword
  match c.op with
  | .like e | .notLike e => pattern subject e
  | .compare .isNull | .compare .isNotNull => subject
  | .compare .inList => membership subject (items c.value).length alwaysFalse
  | .compare .notInList => membership subject (items c.value).length alwaysTrue
  | .compare .between | .compare .notBetween => subject ++ " ? AND ?"
  | .compare .eq | .compare .ne | .compare .lt | .compare .lte | .compare .gt
  | .compare .gte => subject ++ " ?"

/-- The operands that a clause binds, in order. -/
def operands (c : Clause) : List Value :=
  match c.op with
  | .like _ | .notLike _ => [c.value]
  | .compare .isNull | .compare .isNotNull => []
  | .compare .inList | .compare .notInList | .compare .between | .compare .notBetween =>
    items c.value
  | .compare .eq | .compare .ne | .compare .lt | .compare .lte | .compare .gt
  | .compare .gte => [c.value]

end Clause

end RowAccess.Sql
