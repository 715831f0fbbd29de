import RowAccess.Sql.Query
import RowAccess.Storage.EntityTables

/-!
# Reaching the column of a field

A field is looked up from an anchor, the instance of a table whose records are being
filtered.  A shared table is the anchor itself, or joined to it already, or joined on the
record's key; a dedicated table is joined on its own columns.  Revisions are used where they
are wanted and stored.

Main results:

- `Reach.of_dedicated`: a dedicated field is always reached by a join of its own.
-/

namespace RowAccess

open Sql

/-- How the table of a field is reached. -/
inductive Reach where
  /-- The table is in the statement already, under an alias. -/
  | present (aliasName : String)
  /-- The table has to be joined, or the same join used again. -/
  | byJoin (request : JoinRequest)
  deriving DecidableEq

namespace Reach

/-- Whether the revisions of a dedicated field are used. -/
def usesRevisions (tables : EntityTables) (storage : FieldStorage) (revisionScoped : Bool) :
    Bool :=
  revisionScoped && storage.revisionTable.isSome && tables.revisionKey.isSome

/-- The join of the table of a dedicated field. -/
def dedicatedJoin (tables : EntityTables) (storage : FieldStorage) (anchor : Anchor)
    (revisionScoped : Bool) (kind : JoinKind) : JoinRequest :=
  let revisions := usesRevisions tables storage revisionScoped
  { table := storage.tableFor revisions
    kind := kind
    left := anchor.column (tables.joinKey revisions)
    rightColumn := if revisions then dedicatedRevisionColumn else dedicatedEntityColumn }

/-- The join of a shared table on the key of the record or the revision. -/
def sharedJoin (tables : EntityTables) (storage : FieldStorage) (anchor : Anchor)
    (revisionScoped : Bool) : JoinRequest :=
  let key := tables.joinKey revisionScoped
  { table := storage.tableFor revisionScoped
    kind := .inner
    left := anchor.column key
    rightColumn := key }

/-- How the table of a field is reached from an anchor. -/
def of (q : Query) (tables : EntityTables) (storage : FieldStorage) (anchor : Anchor)
    (revisionScoped : Bool) (kind : JoinKind) : Reach :=
  if storage.dedicated then byJoin (dedicatedJoin tables storage anchor revisionScoped kind)
  else
    let table := storage.tableFor revisionScoped
    if table = anchor.table then present anchor.aliasName
    else
      match q.findJoin? table anchor.aliasName with
      | some aliasName => present aliasName
      | none => byJoin (sharedJoin tables storage anchor revisionScoped)

/-- A dedicated field is always reached by a join of its own. -/
theorem of_dedicated {storage : FieldStorage} (h : storage.dedicated = true) (q : Query)
    (tables : EntityTables) (anchor : Anchor) (revisionScoped : Bool) (kind : JoinKind) :
    of q tables storage anchor revisionScoped kind =
      byJoin (dedicatedJoin tables storage anchor revisionScoped kind) := by
  simp [of, h]

end Reach

/-- A column of the statement and the alias of the join that was needed for it, if any. -/
structure Placement where
  column : String
  join : Option String
  deriving DecidableEq

/-- Makes the table of a field reachable and says where its column is. -/
def Reach.place (q : Query) (storage : FieldStorage) : Reach → Query × Placement
  | present aliasName => (q, ⟨Text.qualify aliasName storage.column, none⟩)
  | byJoin request =>
    let ensured := q.ensureJoin request
    (ensured.1, ⟨Text.qualify ensured.2 storage.column, some ensured.2⟩)

end RowAccess
