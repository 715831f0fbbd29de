import RowAccess.Toml.Token

/-!
# Lines of a document

Tokens are nested by their brackets and cut at their separators: a document into lines, and
what stands between brackets into parts at its commas.  Inside brackets a line end separates
nothing.  Brackets stand inside each other up to `maxDepth` only.
-/

namespace RowAccess.Toml

/-- A token that is no bracket and no comma, or what stands between brackets, cut at its
commas. -/
inductive Item where
  | token (t : Token)
  | array (parts : List (List Item))
  | table (parts : List (List Item))

namespace Item

/-- What stands between a pair of brackets. -/
def ofBracket : Bracket → List (List Item) → Item
  | .square => array
  | .curly => table

/-- Whether an item is a blank. -/
def isBlank : Item → Bool
  | token (.blank _) => true
  | _ => false

/-- Whether an item is a blank or a line end. -/
def isGap : Item → Bool
  | token (.blank _) | token .lineEnd => true
  | _ => false

end Item

/-- What stands at one depth of brackets so far: the parts that are complete, last one
first, and the items of the next part, last one first. -/
structure Level where
  complete : List (List Item)
  current : List Item

namespace Level

/-- The level at which nothing has been read. -/
def empty : Level := ⟨[], []⟩

/-- Adds an item. -/
def push (l : Level) (item : Item) : Level := { l with current := item :: l.current }

/-- Ends a part. -/
def cut (l : Level) : Level := ⟨l.current.reverse :: l.complete, []⟩

/-- All parts in order. -/
def parts (l : Level) : List (List Item) := l.cut.complete.reverse

end Level

/-- Nesting in progress: the innermost level, and the levels around it with the bracket that
was opened in each. -/
structure Nesting where
  level : Level
  outer : List (Bracket × Level)

namespace Nesting

/-- Reads one token. -/
def step (n : Nesting) (t : Token) : Except ReadError Nesting :=
  match t, n.outer with
  | .opening b, outer =>
    if outer.length < maxDepth then .ok ⟨.empty, (b, n.level) :: outer⟩ else .error .tooDeep
  | .closing b, (b', around) :: outer =>
    if b = b' then .ok ⟨around.push (.ofBracket b n.level.parts), outer⟩
    else .error .unbalancedBracket
  | .closing _, [] => .error .unbalancedBracket
  | .comma, _ :: _ => .ok { n with level := n.level.cut }
  | .comma, [] => .error .strayComma
  | .lineEnd, [] => .ok { n with level := n.level.cut }
  | t, _ => .ok { n with level := n.level.push (.token t) }

/-- Ends the reading; every bracket has to be closed by then. -/
def finish (n : Nesting) : Except ReadError (List (List Item)) :=
  match n.outer with
  | [] => .ok n.level.parts
  | _ :: _ => .error .unbalancedBracket

end Nesting

/-- The lines of a document. -/
def lines (tokens : List Token) : Except ReadError (List (List Item)) := do
  let n ← tokens.foldlM Nesting.step ⟨.empty, []⟩
  n.finish

end RowAccess.Toml
