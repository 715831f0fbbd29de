import RowAccess.Toml.Error

/-!
# Tables of a document

A document is a table of keys with values, some of which are tables again.  How a table came
to be decides who may add to it: a table with a header of its own is complete where its
lines end, a table that only lies on the way to another may still get a header, a table made
by a dotted key may grow by further dotted keys, and a table written as a value is complete.
-/

namespace RowAccess.Toml

/-- How a table came to be. -/
inductive Origin where
  /-- By a header of its own, or as the document. -/
  | header
  /-- On the way to the table of a header. -/
  | implied
  /-- On the way to the last part of a dotted key. -/
  | dotted
  /-- Written as a value. -/
  | inline
  deriving DecidableEq

mutual

/-- Keys with values, in the order of definition. -/
structure Table where
  origin : Origin
  entries : List (String × Datum)

/-- A value of a document. -/
inductive Datum where
  | text (s : String)
  | boolean (b : Bool)
  /-- A number, a date or a time, as it is written. -/
  | literal (written : String)
  | array (items : List Datum)
  | table (t : Table)
  /-- An array whose elements are tables with headers of their own. -/
  | tableArray (ts : List Table)

end

namespace Table

/-- The table without keys. -/
def empty (origin : Origin) : Table := ⟨origin, []⟩

/-- The value of a key. -/
def find? (t : Table) (key : String) : Option Datum := t.entries.lookup key

/-- The keys in the order of definition. -/
def keys (t : Table) : List String := t.entries.map Prod.fst

/-- Sets the value of a key that is there already. -/
def replace (key : String) (value : Datum) : List (String × Datum) → List (String × Datum)
  | [] => []
  | entry :: rest =>
    if entry.1 = key then (key, value) :: rest else entry :: replace key value rest

/-- Sets the value of a key. -/
def set (t : Table) (key : String) (value : Datum) : Table :=
  match t.find? key with
  | some _ => { t with entries := replace key value t.entries }
  | none => { t with entries := t.entries ++ [(key, value)] }

/-! ## Keys with values -/

/-- Whether a dotted key may go on into a table: one made by dotted keys, or one on the way
to a header as long as that is not the table that gets the value. -/
def admitsDotted (t : Table) (isLast : Bool) : Bool :=
  t.origin = .dotted || (t.origin = .implied && !isLast)

/-- Gives a value to a dotted key, making the tables on the way. -/
def define (value : Datum) : List String → Table → Except ReadError Table
  | [], _ => .error .badKey
  | [key], t =>
    match t.find? key with
    | none => .ok (t.set key value)
    | some _ => .error (.redefined key)
  | key :: next :: rest, t =>
    match t.find? key with
    | none => (define value (next :: rest) (empty .dotted)).map fun u => t.set key (.table u)
    | some (.table u) =>
      if u.admitsDotted rest.isEmpty then
        (define value (next :: rest) u).map fun u => t.set key (.table u)
      else .error (.redefined key)
    | some _ => .error (.redefined key)

/-- The table of the keys and values between curly brackets. -/
def ofInline (entries : List (List String × Datum)) : Except ReadError Table := do
  let t ← entries.foldlM (fun t entry => define entry.2 entry.1 t) (empty .dotted)
  return { t with origin := .inline }

/-! ## Headers -/

/-- Changes the table that the keys of a header lead to.  The way goes through tables, and
through the last element of an array of tables; a table that is missing is made. -/
def modifyAt (f : Table → Except ReadError Table) : List String → Table → Except ReadError Table
  | [], t => f t
  | key :: rest, t =>
    match t.find? key with
    | none => (modifyAt f rest (empty .implied)).map fun u => t.set key (.table u)
    | some (.table u) =>
      if u.origin = .inline then .error (.redefined key)
      else (modifyAt f rest u).map fun u => t.set key (.table u)
    | some (.tableArray us) =>
      match us.getLast? with
      | none => .error (.redefined key)
      | some u => (modifyAt f rest u).map fun u => t.set key (.tableArray (us.dropLast ++ [u]))
    | some _ => .error (.redefined key)

/-- Gives a table the header with the last key of a header. -/
def openTable (key : String) (t : Table) : Except ReadError Table :=
  match t.find? key with
  | none => .ok (t.set key (.table (empty .header)))
  | some (.table u) =>
    if u.origin = .implied then .ok (t.set key (.table { u with origin := .header }))
    else .error (.redefined key)
  | some _ => .error (.redefined key)

/-- Adds an element to the array of tables with the last key of a header. -/
def openElement (key : String) (t : Table) : Except ReadError Table :=
  match t.find? key with
  | none => .ok (t.set key (.tableArray [empty .header]))
  | some (.tableArray us) => .ok (t.set key (.tableArray (us ++ [empty .header])))
  | some _ => .error (.redefined key)

end Table

end RowAccess.Toml
