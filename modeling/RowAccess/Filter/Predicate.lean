import RowAccess.Filter.Comparison
import RowAccess.Filter.FieldPath
import RowAccess.Value.Conversion

/-!
# Predicates

A predicate compares one field with one operand.  The null checks have no operand, which
the type records: their operand is always the null.

Main results:

- `Predicate.make_of_isNullCheck`: a null check drops its operand.
- `Predicate.parse_keyword`: reading an operator's keyword gives the predicate made with it.
-/

namespace RowAccess

/-- A comparison of a field with an operand. -/
structure Predicate where
  /-- The field reference as it was written. -/
  field : String
  op : Comparison
  value : Value
  /-- A null check has no operand. -/
  null_of_isNullCheck : op.isNullCheck = true → value = .null
  deriving DecidableEq

namespace Predicate

/-! ## Construction -/

/-- The predicate with the given operator; a null check drops the operand. -/
def make (field : String) (op : Comparison) (value : Value) : Predicate :=
  if h : op.isNullCheck = true then ⟨field, op, .null, fun _ => rfl⟩
  else ⟨field, op, value, fun h' => absurd h' h⟩

/-- The operator meant where none is given: membership for a list, equality otherwise. -/
def defaultOp (value : Value) : Comparison :=
  if value.isList then .inList else .eq

/-- The predicate with the operator named by a text, or the default one. -/
def parse (field : String) (value : Value) (operator : Option String) :
    Except FilterError Predicate :=
  match operator with
  | some text => (Comparison.parse text).map fun op => make field op value
  | none => .ok (make field (defaultOp value) value)

/-- The predicate with the default operator. -/
def equals (field : String) (value : Value) : Predicate :=
  make field (defaultOp value) value

/-- The predicate that holds where the field is null. -/
def isNull (field : String) : Predicate := make field .isNull .null

/-- The predicate that holds where the field is not null. -/
def isNotNull (field : String) : Predicate := make field .isNotNull .null

/-- The field reference, read. -/
def path (p : Predicate) : Except FilterError FieldPath := FieldPath.parse p.field

@[simp] theorem make_field (field : String) (op : Comparison) (value : Value) :
    (make field op value).field = field := by
  unfold make; split <;> rfl

@[simp] theorem make_op (field : String) (op : Comparison) (value : Value) :
    (make field op value).op = op := by
  unfold make; split <;> rfl

/-- A null check drops its operand. -/
theorem make_of_isNullCheck {field : String} {op : Comparison} {value : Value}
    (h : op.isNullCheck = true) : (make field op value).value = .null := by
  unfold make; simp [h]

/-- Any other operator keeps its operand. -/
theorem make_of_not_isNullCheck {field : String} {op : Comparison} {value : Value}
    (h : op.isNullCheck = false) : (make field op value).value = value := by
  unfold make; simp [h]

/-- Reading an operator's keyword gives the predicate made with it. -/
theorem parse_keyword (field : String) (value : Value) (op : Comparison) :
    parse field value (some op.keyword) = .ok (make field op value) := by
  simp [parse, Comparison.parse_keyword, Except.map]

/-! ## Text -/

/-- A literal between quotes. -/
def quoted (v : Value) : String := "'" ++ v.display ++ "'"

/-- The predicate as a line of text: the operand stands between quotes, a list operand
between brackets with each item between quotes. -/
def display (p : Predicate) : String :=
  let subject := p.field ++ " " ++ p.op.keyword
  if p.op.isNullCheck then subject
  else
    match p.value with
    | .list items => subject ++ " [" ++ ",".intercalate (items.map quoted) ++ "]"
    | value => subject ++ " " ++ quoted value

end Predicate

end RowAccess
