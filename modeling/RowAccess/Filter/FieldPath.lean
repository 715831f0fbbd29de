import RowAccess.Failure
import RowAccess.Text.Blank
import RowAccess.Text.Dotted

/-!
# Field references

A predicate names a field, or one property of a field after a dot.  Without a property the
field's main property is meant.  A reference with a blank part is refused; that is one of the
two ways in which a predicate can be refused.

Main results:

- `FieldPath.display_of_parse`: a reference that was read is written as it was read.
-/

namespace RowAccess

/-! ## Refused predicates -/

/-- Why a predicate is refused. -/
inductive FilterError where
  /-- A field reference has a blank part. -/
  | invalidFieldPath (path : String)
  /-- A text names no operator. -/
  | invalidOperator (text : String)
  deriving DecidableEq

namespace FilterError

/-- The message of a refusal; it quotes the refused text unchanged. -/
def message : FilterError → String
  | invalidFieldPath path => "invalid field reference '" ++ path ++ "'"
  | invalidOperator text => "unsupported operator '" ++ text ++ "'"

/-- A refused predicate is bad input. -/
def failure (e : FilterError) : Failure := ⟨.invalidInput, .filter, e.message⟩

end FilterError

/-! ## References -/

/-- A reference to a field and perhaps one of its properties. -/
structure FieldPath where
  field : String
  property : Option String
  deriving DecidableEq

namespace FieldPath

/-- Reads a reference, splitting at the first dot.  A part that is blank is refused. -/
def parse (path : String) : Except FilterError FieldPath :=
  let parts := Text.splitAtDot path
  if Text.allBlank parts.1 || parts.2.any Text.allBlank then
    .error (.invalidFieldPath path)
  else
    .ok ⟨parts.1, parts.2⟩

/-- The written form of a reference. -/
def display (r : FieldPath) : String :=
  match r.property with
  | some property => Text.qualify r.field property
  | none => r.field

/-- The written form of what was read is the text that was read. -/
theorem display_of_parse {path : String} {r : FieldPath} (h : parse path = .ok r) :
    r.display = path := by
  simp only [parse] at h
  split at h
  · cases h
  · cases h
    apply String.toList_inj.1
    rw [← Text.join_splitDot path.toList]
    simp only [display, Text.splitAtDot]
    cases (Text.splitDot path.toList).2 <;> simp [Text.qualify]

/-- The field of a reference that was read holds no dot. -/
theorem dot_not_mem_field_of_parse {path : String} {r : FieldPath} (h : parse path = .ok r) :
    '.' ∉ r.field.toList := by
  simp only [parse] at h
  split at h
  · cases h
  · cases h
    rw [Text.splitAtDot, String.toList_ofList]
    exact Text.dot_not_mem_splitDot _

end FieldPath

end RowAccess
