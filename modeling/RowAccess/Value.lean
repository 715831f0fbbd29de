/-!
# Literal values

This module defines the literals that predicates compare with and that a statement binds:
the null, truth values, signed and unsigned 64-bit numbers, texts, and lists of literals.
It decides their equality and gives their plain text.

Main results:

- `Value.display_list`: the text of a list is the texts of its items, separated by commas.
-/

namespace RowAccess

/-- A literal operand.  The two kinds of number are kept apart: the signed number 1 and the
unsigned number 1 are different values. -/
inductive Value where
  | null
  | bool (b : Bool)
  | int (n : Int64)
  | uint (n : UInt64)
  | text (s : String)
  | list (items : List Value)

namespace Value

instance : Inhabited Value := ⟨null⟩

/-! ## Equality -/

mutual

/-- Decides whether two values are equal. -/
def decEq : (a b : Value) → Decidable (a = b)
  | null, null => isTrue rfl
  | bool a, bool b =>
    if h : a = b then isTrue (h ▸ rfl) else isFalse fun e => h (Value.bool.inj e)
  | int a, int b =>
    if h : a = b then isTrue (h ▸ rfl) else isFalse fun e => h (Value.int.inj e)
  | uint a, uint b =>
    if h : a = b then isTrue (h ▸ rfl) else isFalse fun e => h (Value.uint.inj e)
  | text a, text b =>
    if h : a = b then isTrue (h ▸ rfl) else isFalse fun e => h (Value.text.inj e)
  | list a, list b =>
    match decEqAll a b with
    | isTrue h => isTrue (h ▸ rfl)
    | isFalse h => isFalse fun e => h (Value.list.inj e)
  | null, bool _ | null, int _ | null, uint _ | null, text _ | null, list _
  | bool _, null | bool _, int _ | bool _, uint _ | bool _, text _ | bool _, list _
  | int _, null | int _, bool _ | int _, uint _ | int _, text _ | int _, list _
  | uint _, null | uint _, bool _ | uint _, int _ | uint _, text _ | uint _, list _
  | text _, null | text _, bool _ | text _, int _ | text _, uint _ | text _, list _
  | list _, null | list _, bool _ | list _, int _ | list _, uint _ | list _, text _ =>
    isFalse nofun

/-- Decides whether two lists of values are equal. -/
def decEqAll : (as bs : List Value) → Decidable (as = bs)
  | [], [] => isTrue rfl
  | [], _ :: _ | _ :: _, [] => isFalse nofun
  | a :: as, b :: bs =>
    match decEq a b, decEqAll as bs with
    | isTrue h, isTrue hs => isTrue (h ▸ hs ▸ rfl)
    | isFalse h, _ => isFalse fun e => h (List.cons.inj e).1
    | _, isFalse hs => isFalse fun e => hs (List.cons.inj e).2

end

instance : DecidableEq Value := decEq

/-! ## Views -/

/-- Whether the value is the null. -/
def isNull : Value → Bool
  | null => true
  | _ => false

/-- Whether the value is a list. -/
def isList : Value → Bool
  | list _ => true
  | _ => false

/-- The text of a text literal. -/
def text? : Value → Option String
  | text s => some s
  | _ => none

/-- The items of a list literal. -/
def list? : Value → Option (List Value)
  | list items => some items
  | _ => none

/-- The literal holding a list of texts. -/
def ofTexts (texts : List String) : Value :=
  list (texts.map text)

/-! ## Plain text -/

mutual

/-- The plain text of a value: truth values are written as digits, texts as they are, and
the items of a list are separated by a comma and a space. -/
def display : Value → String
  | null => "NULL"
  | bool b => if b then "1" else "0"
  | int n => toString n
  | uint n => toString n
  | text s => s
  | list items => ", ".intercalate (displayAll items)

/-- The plain texts of several values. -/
def displayAll : List Value → List String
  | [] => []
  | v :: vs => display v :: displayAll vs

end

instance : ToString Value := ⟨display⟩

theorem displayAll_eq_map (vs : List Value) : displayAll vs = vs.map display := by
  induction vs with
  | nil => rfl
  | cons v vs ih => simp [displayAll, ih]

/-- A list is written item by item. -/
@[simp] theorem display_list (items : List Value) :
    (list items).display = ", ".intercalate (items.map display) := by
  rw [display, displayAll_eq_map]

end Value

end RowAccess
