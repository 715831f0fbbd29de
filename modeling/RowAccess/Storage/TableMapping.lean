import RowAccess.Storage.EntityTables
import RowAccess.Text.NameSet

/-!
# Mapping fields to tables

A mapping describes where the fields of a content type are stored by rules of naming.  A
field on a shared table has the column of its own name if it has a single property, and a
column for each property otherwise.  A dedicated field has a table of its own, and one more
for revisions where the content type keeps any.

Main results:

- `TableMapping.field?_withField`: a later definition of a field replaces an earlier one.
- `TableMapping.storage?_none`: without a property the main property is meant.
- `TableMapping.storage?_eq_some`: which table holds a field.
-/

namespace RowAccess

/-- Which of the shared tables holds a field. -/
inductive SharedTable where
  | base
  | data
  deriving DecidableEq

/-- How a field is stored. -/
structure FieldDefinition where
  name : String
  mainProperty : String
  /-- Every property, the main one included. -/
  properties : NameSet
  /-- Whether texts of the main property differ when only their case does; those of every
  other property do. -/
  mainCaseSensitive : Bool
  dedicated : Bool
  table : SharedTable
  /-- The main property is a property. -/
  main_mem : mainProperty ∈ properties
  deriving DecidableEq

namespace FieldDefinition

/-- A field of the base table with a single property whose case counts. -/
def single (name mainProperty : String) : FieldDefinition where
  name := name
  mainProperty := mainProperty
  properties := NameSet.empty.insert mainProperty
  mainCaseSensitive := true
  dedicated := false
  table := .base
  main_mem := NameSet.mem_insert.2 (.inl rfl)

/-- Adds a property whose case counts; the main property named again counts case again. -/
def withProperty (f : FieldDefinition) (property : String) : FieldDefinition :=
  { f with
    properties := f.properties.insert property
    mainCaseSensitive := f.mainCaseSensitive || property = f.mainProperty
    main_mem := NameSet.mem_insert.2 (.inr f.main_mem) }

/-- Makes the case of the main property not count. -/
def caseInsensitive (f : FieldDefinition) : FieldDefinition :=
  { f with mainCaseSensitive := false }

/-- Moves the field to the data table. -/
def onDataTable (f : FieldDefinition) : FieldDefinition := { f with table := .data }

/-- Moves the field to a table of its own. -/
def asDedicated (f : FieldDefinition) : FieldDefinition := { f with dedicated := true }

/-- Whether the case of a property counts, if the field has that property. -/
def caseSensitive? (f : FieldDefinition) (property : String) : Option Bool :=
  if property ∈ f.properties then
    some (if property = f.mainProperty then f.mainCaseSensitive else true)
  else none

end FieldDefinition

/-- The fields of a content type and how they are stored. -/
structure TableMapping where
  typeId : String
  tables : EntityTables
  fields : List FieldDefinition

namespace TableMapping

/-- The mapping without fields. -/
def ofTables (typeId : String) (tables : EntityTables) : TableMapping := ⟨typeId, tables, []⟩

/-- Defines a field, in place of an earlier definition under the same name. -/
def withField (m : TableMapping) (f : FieldDefinition) : TableMapping :=
  { m with fields := f :: m.fields.filter fun g => g.name ≠ f.name }

/-- The definition of a field. -/
def field? (m : TableMapping) (name : String) : Option FieldDefinition :=
  m.fields.find? fun f => f.name = name

/-- A shared table and its counterpart for revisions. -/
def sharedTables (m : TableMapping) : SharedTable → String × Option String
  | .base => (m.tables.baseTable, m.tables.revisionTable)
  | .data =>
    (m.tables.dataTable.getD m.tables.baseTable,
      m.tables.revisionDataTable <|> m.tables.revisionTable)

/-- The storage of a property in the field's own table. -/
def dedicatedStorage (m : TableMapping) (f : FieldDefinition) (property : String)
    (caseSensitive : Bool) : FieldStorage where
  table := m.typeId ++ "__" ++ f.name
  revisionTable := m.tables.revisionTable.map fun _ => m.typeId ++ "_revision__" ++ f.name
  column := f.name ++ "_" ++ property
  dedicated := true
  caseSensitive := caseSensitive

/-- The storage of a property in a shared table. -/
def sharedStorage (m : TableMapping) (f : FieldDefinition) (property : String)
    (caseSensitive : Bool) : FieldStorage where
  table := (m.sharedTables f.table).1
  revisionTable := (m.sharedTables f.table).2
  column := if f.properties.size = 1 then f.name else f.name ++ "__" ++ property
  dedicated := false
  caseSensitive := caseSensitive

/-- Where a property of a field is stored; without a property the main one is meant. -/
def storage? (m : TableMapping) (field : String) (property : Option String) :
    Option FieldStorage := do
  let f ← m.field? field
  let property := property.getD f.mainProperty
  let caseSensitive ← f.caseSensitive? property
  return if f.dedicated then m.dedicatedStorage f property caseSensitive
    else m.sharedStorage f property caseSensitive

/-- The mapping as a resolver. -/
def resolver (m : TableMapping) : StorageResolver := ⟨m.tables, m.storage?⟩

/-- A later definition of a field replaces an earlier one and no other. -/
theorem field?_withField (m : TableMapping) (f : FieldDefinition) (name : String) :
    (m.withField f).field? name = if name = f.name then some f else m.field? name := by
  unfold field? withField
  by_cases h : f.name = name
  · simp [h]
  · have keep (g : FieldDefinition) :
        (!decide (g.name = f.name) && decide (g.name = name)) = decide (g.name = name) := by
      by_cases hg : g.name = name
      · simp [hg, Ne.symm h]
      · simp [hg]
    simp [h, Ne.symm h, List.find?_filter, keep]

/-- Without a property the main property is meant. -/
theorem storage?_none {m : TableMapping} {field : String} {f : FieldDefinition}
    (h : m.field? field = some f) :
    m.storage? field none = m.storage? field (some f.mainProperty) := by
  simp [storage?, h]

/-- A field has the name that it is looked up by. -/
theorem name_of_field? {m : TableMapping} {name : String} {f : FieldDefinition}
    (h : m.field? name = some f) : f.name = name := by
  have := List.find?_some h
  exact of_decide_eq_true this

/-- Where a property is stored depends on whether its field has a table of its own. -/
theorem storage?_eq_some {m : TableMapping} {field : String} {property : Option String}
    {storage : FieldStorage} (h : m.storage? field property = some storage) :
    ∃ f, m.field? field = some f ∧ storage.dedicated = f.dedicated ∧
      storage.table = if f.dedicated then m.typeId ++ "__" ++ f.name
        else (m.sharedTables f.table).1 := by
  unfold storage? at h
  cases hf : m.field? field with
  | none =>
    rw [hf] at h
    cases h
  | some f =>
    rw [hf, Option.bind_eq_bind, Option.bind_some, Option.bind_eq_bind] at h
    obtain ⟨caseSensitive, -, stored⟩ := Option.bind_eq_some_iff.1 h
    obtain rfl := Option.some.inj stored
    refine ⟨f, rfl, ?_⟩
    cases f.dedicated with
    | true => exact ⟨rfl, rfl⟩
    | false => exact ⟨rfl, rfl⟩

end TableMapping

end RowAccess
