/-!
# Tables of a content type

The records of a content type live in shared tables, at least a base table keyed by the
record's number, and each property of a field lives in a column of one of them or of a table
dedicated to the field.  Where revisions are kept, the tables of current records have
counterparts with a row for each revision.
-/

namespace RowAccess

/-- The column of dedicated tables with the record's number. -/
def dedicatedEntityColumn : String := "entity_id"

/-- The column of dedicated revision tables with the revision's number. -/
def dedicatedRevisionColumn : String := "revision_id"

/-- The shared tables of a content type and the keys that join them. -/
structure EntityTables where
  baseTable : String
  idKey : String
  dataTable : Option String := none
  revisionTable : Option String := none
  revisionDataTable : Option String := none
  revisionKey : Option String := none
  deriving DecidableEq

/-- The key that joins shared tables: the revision's, if revisions are wanted and have one. -/
def EntityTables.joinKey (t : EntityTables) (revisionScoped : Bool) : String :=
  if revisionScoped then t.revisionKey.getD t.idKey else t.idKey

/-- Where one property of one field is stored. -/
structure FieldStorage where
  table : String
  /-- The counterpart of the table with a row for each revision. -/
  revisionTable : Option String
  column : String
  /-- Whether the table holds nothing but this field. -/
  dedicated : Bool
  /-- Whether texts in the column differ when only their case does. -/
  caseSensitive : Bool
  deriving DecidableEq

/-- The table to read: the revision table, if revisions are wanted and there is one. -/
def FieldStorage.tableFor (s : FieldStorage) (revisionScoped : Bool) : String :=
  if revisionScoped then s.revisionTable.getD s.table else s.table

/-- Where the fields of a content type are stored. -/
structure StorageResolver where
  tables : EntityTables
  /-- Looks up a property of a field; without a property the main one is meant. -/
  storage? : String → Option String → Option FieldStorage

end RowAccess
