import RowAccess.Storage.TableMapping

/-!
# Columns of properties

A property is read from a place, a column of a table.  Both names are put together from the name of
the field, the name of the property and separators, which may occur in the names as well.

In a table of its own a field shares its columns with no other field, and the name of the property
tells them apart.  In a shared table the name of one field may go on from the name of another just as
the column of that one does: a field `price__currency` with a single property has the column that the
property `currency` of a field `price` has.  No other two properties have one place.

Main results:

- `TableMapping.place?_eq_some_iff`: the place of a property, put together from the names.
- `TableMapping.placeOf_eq_iff`: two properties have one place only if their names blend.
- `TableMapping.not_blends_of_plain`: names without separators in them do not blend.
- `TableMapping.places_eq_iff`: so it is for whatever is looked up.
- `TableMapping.places_pricedTwice`: a mapping with names that do.
-/

namespace RowAccess

/-- If a text is put together in two ways, the first part of one way goes on from the first part of
the other, and what is left is the same. -/
theorem Text.append_eq_append_iff {a b c d : String} :
    a ++ b = c ++ d ↔
      (∃ rest, c = a ++ rest ∧ b = rest ++ d) ∨ ∃ rest, a = c ++ rest ∧ d = rest ++ b := by
  constructor
  · intro same
    have chars := congrArg String.toList same
    rw [String.toList_append, String.toList_append, List.append_eq_append_iff] at chars
    rcases chars with ⟨rest, first, second⟩ | ⟨rest, first, second⟩
    · refine .inl ⟨.ofList rest, ?_, ?_⟩
      · rw [← String.toList_inj, first, String.toList_append, String.toList_ofList]
      · rw [← String.toList_inj, second, String.toList_append, String.toList_ofList]
    · refine .inr ⟨.ofList rest, ?_, ?_⟩
      · rw [← String.toList_inj, first, String.toList_append, String.toList_ofList]
      · rw [← String.toList_inj, second, String.toList_append, String.toList_ofList]
  · rintro (⟨rest, rfl, rfl⟩ | ⟨rest, rfl, rfl⟩)
    · rw [String.append_assoc]
    · rw [String.append_assoc]

/-! ## Columns of a field -/

namespace FieldDefinition

/-- What the column of a property has behind the name of its field. -/
def columnSuffix (f : FieldDefinition) (property : String) : String :=
  if f.dedicated then "_" ++ property
  else if f.properties.size = 1 then "" else "__" ++ property

/-- The properties of a field have columns of their own. -/
theorem columnSuffix_inj {f : FieldDefinition} {p q : String} (hp : p ∈ f.properties)
    (hq : q ∈ f.properties) : f.columnSuffix p = f.columnSuffix q ↔ p = q := by
  refine ⟨fun same => ?_, congrArg f.columnSuffix⟩
  unfold columnSuffix at same
  split at same
  · exact (String.append_right_inj _).1 same
  · split at same
    next single =>
      obtain ⟨only, names⟩ := List.length_eq_one_iff.1 single
      rw [NameSet.mem_def, names, List.mem_singleton] at hp hq
      rw [hp, hq]
    next => exact (String.append_right_inj _).1 same

end FieldDefinition

/-! ## Tables of a mapping -/

/-- The names of the shared tables. -/
def EntityTables.sharedNames (t : EntityTables) : List String :=
  t.baseTable ::
    (t.dataTable.toList ++ t.revisionTable.toList ++ t.revisionDataTable.toList)

namespace TableMapping

variable (m : TableMapping)

/-- No shared table is named like a dedicated table or the table of its revisions. -/
structure Apart : Prop where
  current : ∀ f ∈ m.fields, f.dedicated = true →
    m.typeId ++ "__" ++ f.name ∉ m.tables.sharedNames
  revisions : ∀ f ∈ m.fields, f.dedicated = true → m.tables.revisionTable.isSome = true →
    m.typeId ++ "_revision__" ++ f.name ∉ m.tables.sharedNames

/-- The shared table that is read. -/
def sharedTable (revisionScoped : Bool) (table : SharedTable) : String :=
  if revisionScoped then (m.sharedTables table).2.getD (m.sharedTables table).1
  else (m.sharedTables table).1

/-- The dedicated table that is read. -/
def dedicatedTable (revisionScoped : Bool) (field : String) : String :=
  if revisionScoped && m.tables.revisionTable.isSome then m.typeId ++ "_revision__" ++ field
  else m.typeId ++ "__" ++ field

theorem sharedTable_mem (revisionScoped : Bool) (table : SharedTable) :
    m.sharedTable revisionScoped table ∈ m.tables.sharedNames := by
  obtain ⟨_, ⟨base, idKey, data, revision, revisionData, key⟩, _⟩ := m
  cases revisionScoped <;> cases table <;> cases data <;> cases revision <;> cases revisionData <;>
    simp [sharedTable, sharedTables, EntityTables.sharedNames]

/-- In the same scope, dedicated tables are told apart by their fields. -/
theorem dedicatedTable_inj {revisionScoped : Bool} {field field' : String} :
    m.dedicatedTable revisionScoped field = m.dedicatedTable revisionScoped field' ↔
      field = field' := by
  unfold dedicatedTable
  split
  · exact String.append_right_inj _
  · exact String.append_right_inj _

variable {m}

theorem Apart.dedicatedTable_ne (h : m.Apart) {f : FieldDefinition} (hf : f ∈ m.fields)
    (own : f.dedicated = true) (revisionScoped : Bool) (table : SharedTable) :
    m.dedicatedTable revisionScoped f.name ≠ m.sharedTable revisionScoped table := by
  intro same
  have mem := m.sharedTable_mem revisionScoped table
  rw [← same, dedicatedTable] at mem
  split at mem
  next revisions =>
    have kept : m.tables.revisionTable.isSome = true := ((Bool.and_eq_true _ _).mp revisions).2
    exact h.revisions f hf own kept mem
  next => exact h.current f hf own mem

/-! ## Places -/

variable (m)

/-- The storage of a property of a field that has it. -/
def storageOf (f : FieldDefinition) (property : String) (caseSensitive : Bool) : FieldStorage :=
  if f.dedicated then m.dedicatedStorage f property caseSensitive
  else m.sharedStorage f property caseSensitive

theorem storage?_eq_bind (field : String) (property : Option String) :
    m.storage? field property = (m.field? field).bind fun f =>
      (f.caseSensitive? (property.getD f.mainProperty)).map
        (m.storageOf f (property.getD f.mainProperty)) := by
  unfold storage?
  cases m.field? field with
  | none => rfl
  | some f => cases h : f.caseSensitive? (property.getD f.mainProperty) <;> simp [h, storageOf]

/-- Where a property is looked up: a table and a column. -/
def place? (revisionScoped : Bool) (field : String) (property : Option String) :
    Option (String × String) :=
  (m.storage? field property).map fun storage => (storage.tableFor revisionScoped, storage.column)

/-- The place of a property of a field, put together from the names. -/
def placeOf (revisionScoped : Bool) (f : FieldDefinition) (property : String) : String × String :=
  (if f.dedicated then m.dedicatedTable revisionScoped f.name
    else m.sharedTable revisionScoped f.table,
    f.name ++ f.columnSuffix property)

/-- The properties of two fields in one shared table, where the name of one field goes on from the
name of the other, and what is left of that one's column is what its own column has behind its
name. -/
structure Blends (revisionScoped : Bool) (f : FieldDefinition) (p : String) (g : FieldDefinition)
    (q : String) : Prop where
  different : f.name ≠ g.name
  shared : f.dedicated = false ∧ g.dedicated = false
  table : m.sharedTable revisionScoped f.table = m.sharedTable revisionScoped g.table
  column : (∃ rest, g.name = f.name ++ rest ∧ f.columnSuffix p = rest ++ g.columnSuffix q) ∨
    ∃ rest, f.name = g.name ++ rest ∧ g.columnSuffix q = rest ++ f.columnSuffix p

variable {m}

theorem place_dedicatedStorage (revisionScoped : Bool) {f : FieldDefinition}
    (own : f.dedicated = true) (property : String) (caseSensitive : Bool) :
    ((m.dedicatedStorage f property caseSensitive).tableFor revisionScoped,
      (m.dedicatedStorage f property caseSensitive).column) =
        m.placeOf revisionScoped f property := by
  have table : (m.dedicatedStorage f property caseSensitive).tableFor revisionScoped =
      m.dedicatedTable revisionScoped f.name := by
    unfold dedicatedStorage dedicatedTable FieldStorage.tableFor
    cases revisionScoped <;> cases m.tables.revisionTable <;> rfl
  have column : (m.dedicatedStorage f property caseSensitive).column =
      f.name ++ f.columnSuffix property := by
    rw [FieldDefinition.columnSuffix, if_pos own]
    exact String.append_assoc
  rw [table, column, placeOf, if_pos own]

theorem place_sharedStorage (revisionScoped : Bool) {f : FieldDefinition}
    (shared : ¬ f.dedicated = true) (property : String) (caseSensitive : Bool) :
    ((m.sharedStorage f property caseSensitive).tableFor revisionScoped,
      (m.sharedStorage f property caseSensitive).column) =
        m.placeOf revisionScoped f property := by
  have table : (m.sharedStorage f property caseSensitive).tableFor revisionScoped =
      m.sharedTable revisionScoped f.table := rfl
  have column : (m.sharedStorage f property caseSensitive).column =
      f.name ++ f.columnSuffix property := by
    rw [FieldDefinition.columnSuffix, if_neg shared, sharedStorage]
    by_cases single : f.properties.size = 1
    · simp [single]
    · simp [single, String.append_assoc]
  rw [table, column, placeOf, if_neg shared]

theorem place_storageOf (revisionScoped : Bool) (f : FieldDefinition) (property : String)
    (caseSensitive : Bool) :
    ((m.storageOf f property caseSensitive).tableFor revisionScoped,
      (m.storageOf f property caseSensitive).column) = m.placeOf revisionScoped f property := by
  unfold storageOf
  split
  next own => exact place_dedicatedStorage revisionScoped own property caseSensitive
  next shared => exact place_sharedStorage revisionScoped shared property caseSensitive

/-- A property is looked up in its place. -/
theorem place?_eq_some_iff {revisionScoped : Bool} {field property : String}
    {place : String × String} :
    m.place? revisionScoped field (some property) = some place ↔
      ∃ f, m.field? field = some f ∧ property ∈ f.properties ∧
        m.placeOf revisionScoped f property = place := by
  rw [place?, storage?_eq_bind]
  cases m.field? field with
  | none => simp
  | some f =>
    by_cases has : property ∈ f.properties
    · simp [FieldDefinition.caseSensitive?, has, place_storageOf]
    · simp [FieldDefinition.caseSensitive?, has]

/-- Without a property the place is that of the main property, which every field has. -/
theorem place?_none {field : String} {f : FieldDefinition} (hf : m.field? field = some f)
    (revisionScoped : Bool) :
    m.place? revisionScoped field none = m.place? revisionScoped field (some f.mainProperty) ∧
      m.place? revisionScoped field none = some (m.placeOf revisionScoped f f.mainProperty) := by
  have main : m.place? revisionScoped field none =
      m.place? revisionScoped field (some f.mainProperty) := by
    rw [place?, place?, storage?_none hf]
  refine ⟨main, ?_⟩
  rw [main, place?_eq_some_iff]
  exact ⟨f, hf, f.main_mem, rfl⟩

/-- A dedicated field has no place in common with any other field. -/
theorem placeOf_ne_of_dedicated (h : m.Apart) {revisionScoped : Bool} {f g : FieldDefinition}
    (hf : f ∈ m.fields) (own : f.dedicated = true) (different : f.name ≠ g.name) (p q : String) :
    m.placeOf revisionScoped f p ≠ m.placeOf revisionScoped g q := by
  intro same
  have tables := congrArg Prod.fst same
  simp only [placeOf, own, if_true] at tables
  cases other : g.dedicated with
  | true =>
    rw [other, if_pos rfl, dedicatedTable_inj] at tables
    exact different tables
  | false =>
    rw [other, if_neg Bool.false_ne_true] at tables
    exact h.dedicatedTable_ne hf own revisionScoped g.table tables

/-- Two fields in shared tables have a place in common if their tables and columns are the same. -/
theorem placeOf_eq_iff_of_shared {revisionScoped : Bool} {f g : FieldDefinition}
    (hf : f.dedicated = false) (hg : g.dedicated = false) (different : f.name ≠ g.name)
    (p q : String) :
    m.placeOf revisionScoped f p = m.placeOf revisionScoped g q ↔
      m.Blends revisionScoped f p g q := by
  have places : m.placeOf revisionScoped f p = m.placeOf revisionScoped g q ↔
      m.sharedTable revisionScoped f.table = m.sharedTable revisionScoped g.table ∧
        f.name ++ f.columnSuffix p = g.name ++ g.columnSuffix q := by
    simp [placeOf, hf, hg]
  rw [places, Text.append_eq_append_iff]
  constructor
  · rintro ⟨table, column⟩
    exact ⟨different, ⟨hf, hg⟩, table, column⟩
  · intro blends
    exact ⟨blends.table, blends.column⟩

/-- So it is for any two fields. -/
theorem placeOf_eq_iff_of_ne (h : m.Apart) {revisionScoped : Bool} {f g : FieldDefinition}
    (hf : f ∈ m.fields) (hg : g ∈ m.fields) (different : f.name ≠ g.name) (p q : String) :
    m.placeOf revisionScoped f p = m.placeOf revisionScoped g q ↔
      m.Blends revisionScoped f p g q := by
  cases own : f.dedicated with
  | true =>
    refine iff_of_false (placeOf_ne_of_dedicated h hf own different p q) fun blends => ?_
    rw [blends.shared.1] at own
    cases own
  | false =>
    cases other : g.dedicated with
    | true =>
      refine iff_of_false (placeOf_ne_of_dedicated h hg other different.symm q p).symm
        fun blends => ?_
      rw [blends.shared.2] at other
      cases other
    | false => exact placeOf_eq_iff_of_shared own other different p q

/-- Two properties have one place only if they are the same or their names blend. -/
theorem placeOf_eq_iff (h : m.Apart) (revisionScoped : Bool) {field field' p q : String}
    {f g : FieldDefinition} (hf : m.field? field = some f) (hg : m.field? field' = some g)
    (hp : p ∈ f.properties) (hq : q ∈ g.properties) :
    m.placeOf revisionScoped f p = m.placeOf revisionScoped g q ↔
      field = field' ∧ p = q ∨ m.Blends revisionScoped f p g q := by
  have fname := name_of_field? hf
  have gname := name_of_field? hg
  by_cases same : field = field'
  · obtain rfl : f = g := Option.some.inj (hf.symm.trans (same ▸ hg))
    have notBlends : ¬ m.Blends revisionScoped f p f q := fun blends => blends.different rfl
    simp only [placeOf, Prod.mk.injEq, true_and, String.append_right_inj,
      FieldDefinition.columnSuffix_inj hp hq, same, notBlends, or_false]
  · have different : f.name ≠ g.name := by rwa [fname, gname]
    rw [placeOf_eq_iff_of_ne h (List.mem_of_find?_eq_some hf) (List.mem_of_find?_eq_some hg)
      different]
    simp [same]

end TableMapping

/-! ## Names without separators -/

/-- The name neither holds the separator of shared columns nor ends in the beginning of one. -/
def Text.Plain (name : String) : Prop :=
  ¬ ['_', '_'] <:+: name.toList ∧ name.toList.getLast? ≠ some '_'

instance (name : String) : Decidable (Text.Plain name) := inferInstanceAs (Decidable (_ ∧ _))

/-- Such a name does not go on from another as the column of a shared field does. -/
theorem Text.Plain.suffix_ne {name other rest tail : String} (plain : Text.Plain name)
    {f : FieldDefinition} (shared : f.dedicated = false) (hname : name = other ++ rest)
    (different : other ≠ name) (p : String) : f.columnSuffix p ≠ rest ++ tail := by
  intro same
  rw [FieldDefinition.columnSuffix, if_neg (by simp [shared])] at same
  have chars := congrArg String.toList hname
  rw [String.toList_append] at chars
  cases hrest : rest.toList with
  | nil =>
    rw [hrest, List.append_nil, String.toList_inj] at chars
    exact different chars.symm
  | cons c cs =>
    have column := congrArg String.toList same
    split at column
    · simp [hrest] at column
    · have column : '_' :: '_' :: p.toList = c :: (cs ++ tail.toList) := by
        simpa [hrest] using column
      obtain ⟨rfl, others⟩ := List.cons.inj column
      cases cs with
      | nil =>
        apply plain.2
        rw [chars, hrest, List.getLast?_concat]
      | cons d cs =>
        obtain ⟨rfl, -⟩ := List.cons.inj others
        apply plain.1
        rw [chars, hrest]
        exact ⟨other.toList, cs, by simp⟩

namespace TableMapping

variable {m : TableMapping}

/-- Names without separators do not blend. -/
theorem not_blends_of_plain {revisionScoped : Bool} {f g : FieldDefinition}
    (hf : Text.Plain f.name) (hg : Text.Plain g.name) (p q : String) :
    ¬ m.Blends revisionScoped f p g q := by
  intro blends
  rcases blends.column with ⟨rest, hname, same⟩ | ⟨rest, hname, same⟩
  · exact hg.suffix_ne blends.shared.1 hname blends.different p same
  · exact hf.suffix_ne blends.shared.2 hname blends.different.symm q same

/-! ## Looking up -/

/-- Without a property the main property is looked up.  If no shared table is named like a dedicated
one, two different properties are in one place only if they are in one shared table and their names
blend, and then they are.  So where the names of the fields have no separators in them, different
properties are in different places. -/
theorem places_eq_iff (h : m.Apart) (revisionScoped : Bool) :
    (∀ field f, m.field? field = some f →
      m.place? revisionScoped field none =
          m.place? revisionScoped field (some f.mainProperty) ∧
        (m.place? revisionScoped field none).isSome = true) ∧
      ∀ field f field' g, m.field? field = some f → m.field? field' = some g →
        ∀ p place q place', m.place? revisionScoped field (some p) = some place →
          m.place? revisionScoped field' (some q) = some place' →
            (place = place' ↔ field = field' ∧ p = q ∨ m.Blends revisionScoped f p g q) ∧
            (Text.Plain f.name → Text.Plain g.name →
              place = place' → field = field' ∧ p = q) := by
  constructor
  · intro field f hf
    obtain ⟨main, found⟩ := place?_none hf revisionScoped
    exact ⟨main, by rw [found]; rfl⟩
  · intro field f field' g hf hg p place q place' hp hq
    obtain ⟨f', hf', has, rfl⟩ := place?_eq_some_iff.1 hp
    obtain ⟨g', hg', has', rfl⟩ := place?_eq_some_iff.1 hq
    obtain rfl : f' = f := Option.some.inj (hf'.symm.trans hf)
    obtain rfl : g' = g := Option.some.inj (hg'.symm.trans hg)
    have places := placeOf_eq_iff h revisionScoped hf hg has has'
    refine ⟨places, fun fplain gplain same => ?_⟩
    exact (places.1 same).resolve_right (not_blends_of_plain fplain gplain p q)

/-! ## Prices with a currency -/

/-- Articles with a price in a currency, and with a text and its format in a table of its own. -/
def pricedArticles : TableMapping :=
  ((TableMapping.ofTables "node"
    { baseTable := "node", idKey := "nid", dataTable := some "node_field_data",
      revisionTable := some "node_revision", revisionKey := some "vid" }).withField
    ((FieldDefinition.single "price" "value").withProperty "currency").onDataTable).withField
    ((FieldDefinition.single "body" "value").withProperty "format").asDedicated

/-- The currency of a price and the format of a text are in different places, also in the table of
revisions that both tables have. -/
theorem places_eq_iff_pricedArticles :
    pricedArticles.Apart ∧
      pricedArticles.place? true "price" (some "currency") =
        some ("node_revision", "price__currency") ∧
      pricedArticles.place? true "body" (some "format") =
        some ("node_revision__body", "body_format") ∧
      ("node_revision", "price__currency") ≠ ("node_revision__body", "body_format") := by
  have apart : pricedArticles.Apart := by
    constructor
    · decide
    · decide
  have price : pricedArticles.place? true "price" (some "currency") =
      some ("node_revision", "price__currency") := rfl
  have body : pricedArticles.place? true "body" (some "format") =
      some ("node_revision__body", "body_format") := rfl
  refine ⟨apart, price, body, fun same => ?_⟩
  have fields := ((places_eq_iff apart true).2 _ _ _ _ rfl rfl _ _ _ _ price body).2
    (by decide) (by decide) same
  exact absurd fields.1 (by decide)

/-- Articles with a price in a currency, and with a field named like the column of that. -/
def pricedTwice : TableMapping :=
  ((TableMapping.ofTables "node" { baseTable := "node", idKey := "nid" }).withField
    ((FieldDefinition.single "price" "value").withProperty "currency")).withField
    (FieldDefinition.single "price__currency" "value")

/-- The currency of the price and the other field are in one place. -/
theorem places_pricedTwice :
    pricedTwice.Apart ∧ ("price", "currency") ≠ ("price__currency", "value") ∧
      pricedTwice.place? false "price" (some "currency") = some ("node", "price__currency") ∧
      pricedTwice.place? false "price__currency" (some "value") =
        some ("node", "price__currency") := by
  refine ⟨⟨?_, ?_⟩, ?_, rfl, rfl⟩
  · decide
  · decide
  · decide

end TableMapping

end RowAccess
