import RowAccess.Journal
import RowAccess.Text.Dotted
import RowAccess.Text.FreshName

/-!
# Joins of a statement

A statement joins further tables to its base table.  A join is registered once: a second
request for the same table on the same columns gets the alias of the first, and where
either of them must keep rows without a partner, the join keeps them.  Aliases are unique.

Main results:

- `JoinSet.ensure_of_answers`: a request that is answered already adds no join.
- `JoinSet.ensure_of_not_answers`: any other request adds one join at the end.
- `JoinSet.nodup_aliases_ensure`: aliases stay distinct.
-/

namespace RowAccess.Sql

/-- Whether rows without a partner are dropped or kept. -/
inductive JoinKind where
  | inner
  | left
  deriving DecidableEq

namespace JoinKind

/-- The keywords of a kind of join. -/
def keyword : JoinKind → String
  | inner => "INNER JOIN"
  | left => "LEFT JOIN"

/-- The name of a kind in journal records. -/
def label : JoinKind → String
  | inner => "Inner"
  | left => "Left"

/-- The more permissive of two kinds. -/
def widen : JoinKind → JoinKind → JoinKind
  | inner, inner => inner
  | _, _ => left

theorem widen_eq_left_iff (a b : JoinKind) : a.widen b = left ↔ a = left ∨ b = left := by
  cases a <;> cases b <;> simp [widen]

end JoinKind

/-- A request to join a table where a column already present equals one of its columns. -/
structure JoinRequest where
  table : String
  kind : JoinKind
  /-- The column already present, qualified by an alias. -/
  left : String
  /-- The column of the table to be joined. -/
  rightColumn : String
  deriving DecidableEq

/-- The alias that the column already present is qualified by; a column without a qualifier
stands for itself. -/
def JoinRequest.anchor (r : JoinRequest) : String := (Text.splitAtDot r.left).1

/-- A registered join. -/
structure Join where
  kind : JoinKind
  table : String
  aliasName : String
  /-- The column already present when the join was registered. -/
  left : String
  rightColumn : String
  deriving DecidableEq

namespace Join

/-- Whether the join is what a request asks for, the kind aside. -/
def answers (j : Join) (r : JoinRequest) : Bool :=
  j.table = r.table && j.left = r.left && j.rightColumn = r.rightColumn

/-- Whether the join hangs off the table instance with the given alias. -/
def hangsOff (j : Join) (anchor : String) : Bool :=
  let parts := Text.splitAtDot j.left
  parts.2.isSome && parts.1 = anchor

/-- The join in a statement. -/
def text (j : Join) : String :=
  " ".intercalate
    [j.kind.keyword, j.table, j.aliasName, "ON", j.left, "=",
      Text.qualify j.aliasName j.rightColumn]

/-- The journal record of a new join. -/
def record (j : Join) : LogRecord where
  level := .trace
  event := "compile.join"
  details := [("table", j.table), ("alias", j.aliasName), ("kind", j.kind.label)]

/-- The join that answers a request under an alias. -/
def ofRequest (r : JoinRequest) (aliasName : String) : Join :=
  ⟨r.kind, r.table, aliasName, r.left, r.rightColumn⟩

/-- The join after a further request for it. -/
def widenBy (j : Join) (r : JoinRequest) : Join := { j with kind := j.kind.widen r.kind }

end Join

/-- The joins of a statement in the order of registration. -/
structure JoinSet where
  joins : List Join
  deriving DecidableEq

namespace JoinSet

/-- The set without joins. -/
def empty : JoinSet := ⟨[]⟩

instance : EmptyCollection JoinSet := ⟨empty⟩
instance : Inhabited JoinSet := ⟨∅⟩

/-- The aliases in use. -/
def aliases (s : JoinSet) : List String := s.joins.map Join.aliasName

/-- The first join that is what a request asks for. -/
def answer? (s : JoinSet) (r : JoinRequest) : Option Join :=
  s.joins.find? fun j => j.answers r

/-- Widens the first join that is what a request asks for. -/
def widenAnswer (r : JoinRequest) : List Join → List Join
  | [] => []
  | j :: rest => if j.answers r then j.widenBy r :: rest else j :: widenAnswer r rest

/-- Registers a request and returns the alias of the join that answers it.  A new join is
named as preferred, unless that alias is reserved or in use. -/
def ensure (s : JoinSet) (r : JoinRequest) (preferred : String) (reserved : List String) :
    JoinSet × String :=
  match s.answer? r with
  | some j => (⟨widenAnswer r s.joins⟩, j.aliasName)
  | none =>
    let aliasName := Text.freshName (reserved ++ s.aliases) preferred
    (⟨s.joins ++ [.ofRequest r aliasName]⟩, aliasName)

/-- The first join of a table that hangs off the table instance with the given alias. -/
def find? (s : JoinSet) (table anchor : String) : Option Join :=
  s.joins.find? fun j => j.table = table && j.hangsOff anchor

/-- The join with the given alias. -/
def byAlias? (s : JoinSet) (aliasName : String) : Option Join :=
  s.joins.find? fun j => j.aliasName = aliasName

/-- The journal records of the joins that one set has beyond an earlier one. -/
def recordsSince (earlier s : JoinSet) : List LogRecord :=
  (s.joins.drop earlier.joins.length).map Join.record

/-! ## What a request changes -/

/-- A request that is answered already adds no join. -/
theorem ensure_of_answers {s : JoinSet} {r : JoinRequest} {j : Join}
    (h : s.answer? r = some j) (preferred : String) (reserved : List String) :
    s.ensure r preferred reserved = (⟨widenAnswer r s.joins⟩, j.aliasName) := by
  simp [ensure, h]

/-- Any other request adds one join at the end. -/
theorem ensure_of_not_answers {s : JoinSet} {r : JoinRequest} (h : s.answer? r = none)
    (preferred : String) (reserved : List String) :
    s.ensure r preferred reserved =
      (⟨s.joins ++ [.ofRequest r (Text.freshName (reserved ++ s.aliases) preferred)]⟩,
        Text.freshName (reserved ++ s.aliases) preferred) := by
  simp [ensure, h]

/-- Widening changes no alias. -/
theorem aliases_widenAnswer (r : JoinRequest) (joins : List Join) :
    (widenAnswer r joins).map Join.aliasName = joins.map Join.aliasName := by
  induction joins with
  | nil => rfl
  | cons j rest ih =>
    simp only [widenAnswer]
    split <;> simp [ih, Join.widenBy]

/-- Aliases stay distinct whatever is requested. -/
theorem nodup_aliases_ensure {s : JoinSet} (h : s.aliases.Nodup) (r : JoinRequest)
    (preferred : String) (reserved : List String) :
    (s.ensure r preferred reserved).1.aliases.Nodup := by
  cases hr : s.answer? r with
  | some j => simpa [ensure_of_answers hr, aliases, aliases_widenAnswer] using h
  | none =>
    have fresh := Text.freshName_not_mem (reserved ++ s.aliases) preferred
    rw [ensure_of_not_answers hr]
    simp only [aliases, List.map_append, List.map_cons, List.map_nil, Join.ofRequest]
    refine List.nodup_append.2 ⟨h, by simp, fun a ha b hb => ?_⟩
    rintro rfl
    rw [List.mem_singleton] at hb
    exact fresh (hb ▸ List.mem_append_right _ ha)

end JoinSet

end RowAccess.Sql
