import RowAccess.Sql.Join
import RowAccess.Sql.WhereExpr

/-!
# Statements

A statement selects the columns of one base table under an alias, with joins and
conditions.  A plain selection names each joined table after itself.  A listing also knows
relationships, which are joins with a name that fields can be looked up through, and it
names a table joined to anything but the base after both.
-/

namespace RowAccess.Sql

/-- What kind of statement it is, with the aliases of the relationships of a listing. -/
inductive QueryForm where
  | select
  | listing (relationships : List (String × String))
  deriving DecidableEq

/-- An instance of a table in a statement. -/
structure Anchor where
  aliasName : String
  table : String
  deriving DecidableEq

/-- The column of a table instance, qualified by its alias. -/
def Anchor.column (a : Anchor) (name : String) : String := Text.qualify a.aliasName name

/-- A statement under construction. -/
structure Query where
  form : QueryForm
  table : String
  aliasName : String
  joins : JoinSet
  conditions : ConditionSet
  deriving DecidableEq

namespace Query

/-! ## Construction -/

/-- A plain selection from a table, under an alias if one is given. -/
def select (table : String) (aliasName : Option String := none) : Query :=
  ⟨.select, table, aliasName.getD table, ∅, ∅⟩

/-- A listing of a table. -/
def listing (table : String) : Query := ⟨.listing [], table, table, ∅, ∅⟩

/-- The base table as an anchor. -/
def base (q : Query) : Anchor := ⟨q.aliasName, q.table⟩

/-! ## Joins -/

/-- The alias that a new join should have. -/
def preferredAlias (q : Query) (r : JoinRequest) : String :=
  match q.form with
  | .select => r.table
  | .listing _ => if r.anchor = q.aliasName then r.table else r.anchor ++ "_" ++ r.table

/-- Registers a join and returns its alias. -/
def ensureJoin (q : Query) (r : JoinRequest) : Query × String :=
  let ensured := q.joins.ensure r (q.preferredAlias r) [q.aliasName]
  ({ q with joins := ensured.1 }, ensured.2)

/-- The alias of a join of a table that hangs off the table instance with the given alias. -/
def findJoin? (q : Query) (table anchor : String) : Option String :=
  (q.joins.find? table anchor).map Join.aliasName

/-! ## Relationships -/

/-- The table instance that a relationship leads to. -/
def relationship? (q : Query) (name : String) : Option Anchor :=
  match q.form with
  | .select => none
  | .listing relationships => do
    let aliasName ← relationships.lookup name
    let join ← q.joins.byAlias? aliasName
    return ⟨aliasName, join.table⟩

/-- Registers a relationship of a listing and returns its alias: the join of a table where a
column of the base, or of what an earlier relationship leads to, equals one of its columns.
A name registered again means the new join. -/
def addRelationship (q : Query) (name : String) (origin : Option String) (table : String)
    (kind : JoinKind) (leftColumn rightColumn : String) : Option (Query × String) :=
  match q.form with
  | .select => none
  | .listing relationships => do
    let anchor ←
      match origin with
      | some earlier => q.relationship? earlier
      | none => some q.base
    let ensured := q.ensureJoin
      ⟨table, kind, anchor.column leftColumn, rightColumn⟩
    return ({ ensured.1 with form := .listing ((name, ensured.2) :: relationships) }, ensured.2)

/-! ## Conditions -/

/-- Adds an item to a group of the statement. -/
def pushCondition (q : Query) (id : GroupId) (item : Condition) : Query :=
  { q with conditions := q.conditions.push id item }

/-- Opens a group under a group of the statement. -/
def openGroup (q : Query) (parent : GroupId) (conjunction : Conjunction) : Query × GroupId :=
  let opened := q.conditions.openGroup parent conjunction
  ({ q with conditions := opened.1 }, opened.2)

/-- Adds an item to the group with a number, which must be in use. -/
def addCondition (q : Query) (id : GroupId) (item : Condition) : Except UnknownGroup Query :=
  (q.conditions.add id item).map fun conditions => { q with conditions := conditions }

/-- Opens a group under the group with a number, which must be in use. -/
def addGroup (q : Query) (parent : GroupId) (conjunction : Conjunction) :
    Except UnknownGroup (Query × GroupId) :=
  (q.conditions.addGroup parent conjunction).map fun opened =>
    ({ q with conditions := opened.1 }, opened.2)

/-! ## Text -/

/-- The part of the statement in front of the conditions. -/
def fromText (q : Query) : String :=
  " ".intercalate
    (("SELECT " ++ Text.qualify q.aliasName "*") ::
      ("FROM " ++ q.table ++ " " ++ q.aliasName) :: q.joins.joins.map Join.text)

/-- The statement with its parameters. -/
def render (q : Query) : Rendered :=
  match q.conditions.render with
  | some filter => ⟨q.fromText ++ " WHERE " ++ filter.sql, filter.params⟩
  | none => ⟨q.fromText, []⟩

end Query

end RowAccess.Sql
