import RowAccess.Toml.Document
import RowAccess.Toml.Line
import RowAccess.Toml.Literal

/-!
# Statements of a document

Each line of a document is empty, or the header of a table, or the header of one more
element of an array of tables, or a key with its value.  Carrying the statements out one
after the other gives the table that the document is.
-/

namespace RowAccess.Toml

/-- What a line says. -/
inductive Statement where
  /-- The keys that follow belong to this table. -/
  | header (path : List String)
  /-- The keys that follow belong to a new element of this array of tables. -/
  | element (path : List String)
  /-- A key has this value. -/
  | entry (path : List String) (value : Datum)

namespace Statement

/-! ## Keys -/

/-- Whether a character may stand in a key without quotes. -/
def isKeyChar (c : Char) : Bool := c.isAlphanum || c = '_' || c = '-'

/-- The key that an item is: a run of key characters, or a quoted text on one line. -/
def key? : Item → Option String
  | .token (.bare s) => if s.toList.all isKeyChar then some s else none
  | .token (.quoted false s) => some s
  | _ => none

/-- Reads keys with dots between them. -/
def dotted : List Item → Except ReadError (List String)
  | [] => .error .badKey
  | [item] =>
    match key? item with
    | some key => .ok [key]
    | none => .error .badKey
  | item :: .token .dot :: rest =>
    match key? item with
    | some key => (dotted rest).map (key :: ·)
    | none => .error .badKey
  | _ => .error .badKey

/-- Reads a dotted key; blanks around keys and dots do not count. -/
def path (items : List Item) : Except ReadError (List String) := do
  let keys ← dotted (items.filter fun item => !item.isBlank)
  if keys.length ≤ maxDepth then return keys else throw .longKey

/-! ## Values -/

/-- The characters of an unquoted value, the blanks between its runs included. -/
def literalChars : List Item → Except ReadError (List Char)
  | [] => .ok []
  | .token (.bare s) :: rest => (literalChars rest).map (s.toList ++ ·)
  | .token .dot :: rest => (literalChars rest).map ('.' :: ·)
  | .token (.blank c) :: rest => (literalChars rest).map (c :: ·)
  | _ => .error .badValue

/-- Reads an unquoted value. -/
def literal (items : List Item) : Except ReadError Datum := do
  let cs ← literalChars items
  if cs = "true".toList then return .boolean true
  else if cs = "false".toList then return .boolean false
  else if Literal.isLiteral cs then return .literal (.ofList cs)
  else throw .badValue

/-- Items without the blanks and line ends behind them. -/
def trimEnd (items : List Item) : List Item := (items.reverse.dropWhile Item.isGap).reverse

/-- Items without the blanks and line ends in front of them. -/
def trimStart (items : List Item) : List Item := items.dropWhile Item.isGap

/-- Items without the blanks and line ends around them. -/
def trim (items : List Item) : List Item := trimEnd (trimStart items)

/-- A value that nothing but blanks and line ends may follow. -/
def alone (rest : List Item) (value : Except ReadError Datum) : Except ReadError Datum :=
  if rest.all Item.isGap then value else .error .badValue

mutual

/-- Reads what stands between brackets as a value. -/
def bracketed : Item → Except ReadError Datum
  | .token _ => .error .badValue
  | .array parts => (elements parts).map .array
  | .table parts => do return .table (← Table.ofInline (← fields parts))

/-- Reads a value; blanks and line ends around it do not count. -/
def value : List Item → Except ReadError Datum
  | [] => .error .badValue
  | .token (.blank _) :: rest | .token .lineEnd :: rest => value rest
  | .token (.quoted _ s) :: rest => alone rest (.ok (.text s))
  | .token t :: rest => literal (trimEnd (.token t :: rest))
  | item :: rest => alone rest (bracketed item)

/-- Reads the elements of an array; a comma may follow the last one. -/
def elements : List (List Item) → Except ReadError (List Datum)
  | [] => .ok []
  | part :: parts =>
    if parts.isEmpty && part.all Item.isGap then .ok []
    else do return (← value part) :: (← elements parts)

/-- Reads the keys and values of a table; a comma may follow the last one. -/
def fields : List (List Item) → Except ReadError (List (List String × Datum))
  | [] => .ok []
  | part :: parts =>
    if parts.isEmpty && part.all Item.isGap then .ok []
    else do return (← field [] part) :: (← fields parts)

/-- Reads a key and its value; `before` holds the items in front of the equals sign, last one
first.  Blanks and line ends around the key do not count. -/
def field (before : List Item) : List Item → Except ReadError (List String × Datum)
  | [] => .error .badLine
  | .token .equals :: rest => do
    return (← path (trim before.reverse), ← value rest)
  | item :: rest => field (item :: before) rest

end

/-! ## Lines -/

/-- Reads the header that starts a line; one in two pairs of brackets, with nothing between
them, is for an element. -/
def ofHeader (parts : List (List Item)) : Except ReadError Statement :=
  match parts with
  | [[.array [inner]]] => (path inner).map element
  | [inner] => (path inner).map header
  | _ => .error .badKey

/-- Reads a line; an empty one says nothing. -/
def ofLine (items : List Item) : Except ReadError (Option Statement) :=
  match trimStart items with
  | [] => .ok none
  | .array parts :: rest =>
    if rest.all Item.isGap then (ofHeader parts).map some else .error .badLine
  | items => (field [] items).map fun kv => some (entry kv.1 kv.2)

end Statement

namespace Table

/-- A table while statements are carried out, with the way to the table whose keys follow. -/
structure Builder where
  root : Table
  current : List String

/-- Changes the table on the way to the last key of a header. -/
def onHeader (f : String → Table → Except ReadError Table) (path : List String) (root : Table) :
    Except ReadError Table :=
  match path.getLast? with
  | some key => modifyAt (f key) path.dropLast root
  | none => .error .badKey

/-- Carries out a statement. -/
def Builder.step (b : Builder) : Statement → Except ReadError Builder
  | .header path => (onHeader openTable path b.root).map fun root => ⟨root, path⟩
  | .element path => (onHeader openElement path b.root).map fun root => ⟨root, path⟩
  | .entry path value =>
    (modifyAt (define value path) b.current b.root).map fun root => { b with root := root }

/-- The table that statements make. -/
def ofStatements (statements : List Statement) : Except ReadError Table :=
  (statements.foldlM Builder.step ⟨empty .header, []⟩).map Builder.root

/-- The table that a document is. -/
def ofSource (source : String) : Except ReadError Table := do
  let tokens ← scan source
  let lines ← lines tokens
  let statements ← lines.mapM Statement.ofLine
  ofStatements (statements.filterMap id)

end Table

end RowAccess.Toml
