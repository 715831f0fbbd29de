import RowAccess.Filter.FieldPath
import RowAccess.Text.Blank

/-!
# Comparison operators

A predicate compares a field with an operand by one of twelve operators.  Each has one
keyword, of one or two words; a text names an operator when its words are those of the
keyword, whatever their case and the blanks around them.

Main results:

- `Comparison.mem_all`: the twelve operators are all there are.
- `Comparison.parse_keyword`: every keyword names its operator.
-/

namespace RowAccess

/-- The operators a predicate may carry. -/
inductive Comparison where
  | eq
  | ne
  | lt
  | lte
  | gt
  | gte
  | between
  | notBetween
  | inList
  | notInList
  | isNull
  | isNotNull
  deriving DecidableEq

namespace Comparison

/-- Every operator, in the order in which they are offered. -/
def all : List Comparison :=
  [eq, ne, lt, lte, gt, gte, between, notBetween, inList, notInList, isNull, isNotNull]

theorem mem_all (op : Comparison) : op ∈ all := by
  cases op <;> decide

/-- The keyword of an operator in a statement. -/
def keyword : Comparison → String
  | eq => "="
  | ne => "<>"
  | lt => "<"
  | lte => "<="
  | gt => ">"
  | gte => ">="
  | between => "BETWEEN"
  | notBetween => "NOT BETWEEN"
  | inList => "IN"
  | notInList => "NOT IN"
  | isNull => "IS NULL"
  | isNotNull => "IS NOT NULL"

/-- Whether the operator tests for the null, and so takes no operand. -/
def isNullCheck : Comparison → Bool
  | isNull | isNotNull => true
  | _ => false

/-- Whether the operand of the operator is a list. -/
def takesList : Comparison → Bool
  | inList | notInList | between | notBetween => true
  | _ => false

/-! ## Reading -/

/-- The words of a text with the letters of ASCII in upper case. -/
def folded (cs : List Char) : List (List Char) :=
  (Text.wordsOf cs).map (·.map Char.toUpper)

/-- The operator whose keyword has the words of the text, the case of ASCII aside. -/
def ofText? (text : String) : Option Comparison :=
  all.find? fun op => folded op.keyword.toList = folded text.toList

/-- Reads an operator; a text that names none is refused unchanged. -/
def parse (text : String) : Except FilterError Comparison :=
  match ofText? text with
  | some op => .ok op
  | none => .error (.invalidOperator text)

/-- Every keyword names its operator. -/
theorem parse_keyword (op : Comparison) : parse op.keyword = .ok op := by
  cases op <;> rfl

end Comparison

end RowAccess
