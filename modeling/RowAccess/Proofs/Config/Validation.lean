import Mathlib.Data.List.Nodup
import RowAccess.Config
import RowAccess.Grant.Decision

/-!
# Broken content types are found early

A content type may declare what it has no field for.  Bundles without a field are found twice: when
a configuration is loaded, by what is written in it, and when a filter is made, by what can be used.
The two agree, so no type that was loaded fails for its bundles later.  Whether a filter can be made
at all is a matter of the type alone; neither the account nor the operation has a say in it.

Main results:

- `ContentType.omitsBundleKey_eq`: the two ways to find bundles without a field agree.
- `ContentType.roleFields_eq_error_iff`: what is wrong with a content type.
- `Config.check_eq_ok_iff`: which configurations are accepted, and what becomes of them.
- `Config.validation_agrees`: what is accepted at first is not refused for its bundles later.
-/

namespace RowAccess

/-! ## Content types -/

namespace ContentType

/-- No field is named, or none that could be used. -/
def Unusable (key : Option String) : Prop := key = none ∨ key = some ""

instance (key : Option String) : Decidable (Unusable key) := inferInstanceAs (Decidable (_ ∨ _))

theorem usable_eq_none_iff {key : Option String} : usable key = none ↔ Unusable key := by
  cases key with
  | none => simp [usable, Unusable]
  | some name => simp [usable, Unusable]

/-- A role is declared without a usable field. -/
theorem lacks_usable {declared : Bool} {key : Option String} :
    lacks declared (usable key) = true ↔ declared = true ∧ Unusable key := by
  rw [lacks, Bool.and_eq_true, Option.isNone_iff_eq_none, usable_eq_none_iff]

/-- The type has bundles: permissions are given by bundle, or there are some. -/
def HasBundles (ty : ContentType) : Prop := ty.granularity = .bundle ∨ ty.bundles ≠ []

instance (ty : ContentType) : Decidable ty.HasBundles := inferInstanceAs (Decidable (_ ∨ _))

theorem usesBundles_iff {ty : ContentType} : ty.usesBundles = true ↔ ty.HasBundles := by
  simp [usesBundles, isBundleGranular, HasBundles]

/-- What is written in a configuration lacks a field for bundles. -/
theorem omitsBundleKey_iff {ty : ContentType} :
    ty.omitsBundleKey = true ↔ ty.HasBundles ∧ Unusable ty.bundleKey := by
  rw [omitsBundleKey, Bool.and_eq_true]
  apply and_congr
  · simp [HasBundles]
  · cases ty.bundleKey with
    | none => simp [Unusable]
    | some name => simp [Unusable]

/-- What is written lacks a field for bundles exactly if none can be used. -/
theorem omitsBundleKey_eq (ty : ContentType) :
    ty.omitsBundleKey = lacks ty.usesBundles ty.bundleField := by
  rw [Bool.eq_iff_iff, omitsBundleKey_iff, bundleField, lacks_usable, usesBundles_iff]

/-- The first thing that is wrong with a content type, if anything is. -/
def flaw? (ty : ContentType) : Option AccessError :=
  if ty.hasOwner = true ∧ Unusable ty.ownerKey then some (.missingOwnerKey ty.id)
  else if ty.hasPublished = true ∧ Unusable ty.publishedKey then some (.missingPublishedKey ty.id)
  else if ty.HasBundles ∧ Unusable ty.bundleKey then some (.missingBundleKey ty.id)
  else none

/-- The fields of the roles cannot be told exactly if something is wrong. -/
theorem roleFields_eq_error_iff (ty : ContentType) (e : AccessError) :
    ty.roleFields = .error e ↔ ty.flaw? = some e := by
  have owner : lacks ty.hasOwner ty.ownerField = true ↔
      ty.hasOwner = true ∧ Unusable ty.ownerKey := lacks_usable
  have published : lacks ty.hasPublished ty.publishedField = true ↔
      ty.hasPublished = true ∧ Unusable ty.publishedKey := lacks_usable
  have bundle : lacks ty.usesBundles ty.bundleField = true ↔
      ty.HasBundles ∧ Unusable ty.bundleKey := by
    rw [bundleField, lacks_usable, usesBundles_iff]
  simp only [flaw?, ← owner, ← published, ← bundle]
  simp only [roleFields, required_eq, bind, Except.bind, pure, Except.pure]
  by_cases noOwner : lacks ty.hasOwner ty.ownerField = true
  · simp [noOwner]
  · by_cases noPublished : lacks ty.hasPublished ty.publishedField = true
    · simp [noOwner, noPublished]
    · by_cases noBundle : lacks ty.usesBundles ty.bundleField = true
      · simp [noOwner, noPublished, noBundle]
      · simp [noOwner, noPublished, noBundle]

/-- Something is wrong exactly if a role is declared without a field that can be used. -/
theorem exists_flaw_iff (ty : ContentType) :
    (∃ e, ty.flaw? = some e) ↔ ty.hasOwner = true ∧ Unusable ty.ownerKey ∨
      ty.hasPublished = true ∧ Unusable ty.publishedKey ∨
      ty.HasBundles ∧ Unusable ty.bundleKey := by
  rw [flaw?]
  split
  next noOwner => simp [noOwner]
  next owner =>
    split
    next noPublished => simp [noPublished]
    next published =>
      split
      next noBundle => simp [noBundle]
      next bundle => simp [owner, published, bundle]

/-- Bundles are what is wrong only where their field is missing. -/
theorem flaw?_ne_missingBundleKey {ty : ContentType} (h : ty.omitsBundleKey = false) (id : String) :
    ty.flaw? ≠ some (.missingBundleKey id) := by
  have named : ¬(ty.HasBundles ∧ Unusable ty.bundleKey) := by
    rw [← omitsBundleKey_iff, h]
    exact Bool.false_ne_true
  rw [flaw?, if_neg named]
  split
  · simp
  · split <;> simp

/-- Filling in the defaults changes the administration permission only, and only where there is
none. -/
theorem fillDefaults_eq (ty : ContentType) :
    ty.fillDefaults = { ty with
      adminPermission := some (ty.adminPermission.getD (defaultAdminPermission ty.id)) } := by
  rw [fillDefaults]
  cases h : ty.adminPermission with
  | none => rfl
  | some permission =>
    obtain ⟨id, _, _, _, _, _, _, _, _⟩ := ty
    obtain rfl : _ = some permission := h
    rfl

@[simp] theorem id_fillDefaults (ty : ContentType) : ty.fillDefaults.id = ty.id := by
  rw [fillDefaults_eq]

@[simp] theorem omitsBundleKey_fillDefaults (ty : ContentType) :
    ty.fillDefaults.omitsBundleKey = ty.omitsBundleKey := by
  rw [fillDefaults_eq]
  rfl

end ContentType

/-! ## Filters -/

/-- A filter cannot be made exactly for a broken type, for whatever account and operation. -/
theorem Grant.filter_eq_error_iff (mode : GrantMode) (operation : String) (ty : ContentType)
    (account : Account) (e : AccessError) :
    filter mode operation ty account = .error e ↔ ty.flaw? = some e := by
  rw [← ContentType.roleFields_eq_error_iff, ← decide_eq_error_iff mode operation ty account,
    filter]
  cases decide mode operation ty account with
  | error e' => simp [Except.map]
  | ok decision => simp [Except.map]

/-! ## Configurations -/

namespace Config

/-- A content type is accepted if its name was not seen before and no field for bundles is missing,
and then the others are checked. -/
theorem checkTypes_cons_eq_ok_iff {seen : List String} {ty : ContentType}
    {rest checked : List ContentType} :
    checkTypes seen (ty :: rest) = .ok checked ↔
      ty.id ∉ seen ∧ ty.omitsBundleKey = false ∧
        ∃ checkedRest, checkTypes (ty.id :: seen) rest = .ok checkedRest ∧
          checked = ty.fillDefaults :: checkedRest := by
  rw [checkTypes]
  by_cases known : ty.id ∈ seen
  · simp [known]
  · by_cases omits : ty.omitsBundleKey = true
    · simp [known, omits]
    · cases checkTypes (ty.id :: seen) rest with
      | error e => simp [known, omits, Except.map]
      | ok checkedRest => simp [known, omits, Except.map, eq_comm]

/-- Content types are accepted exactly if no name is repeated, or was seen before, and no field for
bundles is missing. -/
theorem checkTypes_eq_ok_iff {seen : List String} {types checked : List ContentType} :
    checkTypes seen types = .ok checked ↔
      (∀ ty ∈ types, ty.id ∉ seen) ∧ (types.map ContentType.id).Nodup ∧
        (∀ ty ∈ types, ty.omitsBundleKey = false) ∧
        checked = types.map ContentType.fillDefaults := by
  induction types generalizing seen checked with
  | nil =>
    rw [checkTypes, Except.ok.injEq]
    constructor
    · rintro rfl
      simp
    · rintro ⟨-, -, -, rfl⟩
      rfl
  | cons ty rest ih =>
    rw [checkTypes_cons_eq_ok_iff]
    simp only [ih, List.forall_mem_cons, List.map_cons, List.nodup_cons]
    constructor
    · rintro ⟨unseen, complete, _, ⟨others, distinct, othersComplete, rfl⟩, rfl⟩
      refine ⟨⟨unseen, fun other hother => ?_⟩, ⟨?_, distinct⟩, ⟨complete, othersComplete⟩, rfl⟩
      · exact fun hseen => others other hother (List.mem_cons_of_mem _ hseen)
      · intro repeated
        obtain ⟨other, hother, same⟩ := List.mem_map.1 repeated
        exact others other hother (by simp [same])
    · rintro ⟨⟨unseen, others⟩, ⟨unrepeated, distinct⟩, ⟨complete, othersComplete⟩, rfl⟩
      refine ⟨unseen, complete, _, ⟨fun other hother => ?_, distinct, othersComplete, rfl⟩, rfl⟩
      rw [List.mem_cons, not_or]
      exact ⟨fun same => unrepeated (List.mem_map.2 ⟨other, hother, same⟩), others other hother⟩

/-- Which configurations are accepted, and what becomes of them. -/
theorem check_eq_ok_iff {c checked : Config} :
    c.check = .ok checked ↔
      c.compile.likeEscape ∉ CompileOptions.reservedEscapes ∧
        (c.contentTypes.map ContentType.id).Nodup ∧
        (∀ ty ∈ c.contentTypes, ty.omitsBundleKey = false) ∧
        checked = { c with contentTypes := c.contentTypes.map ContentType.fillDefaults } := by
  have types (checked : List ContentType) : checkTypes [] c.contentTypes = .ok checked ↔
      (c.contentTypes.map ContentType.id).Nodup ∧
        (∀ ty ∈ c.contentTypes, ty.omitsBundleKey = false) ∧
        checked = c.contentTypes.map ContentType.fillDefaults := by
    rw [checkTypes_eq_ok_iff]
    simp
  rw [check, ← CompileOptions.validate_eq_ok_iff]
  cases c.compile.validate with
  | error e => simp [bind, Except.bind]
  | ok accepted =>
    cases hchecked : checkTypes [] c.contentTypes with
    | error e =>
      simp only [bind, Except.bind, true_and]
      constructor
      · intro accepted
        cases accepted
      · rintro ⟨distinct, complete, -⟩
        exact absurd ((types _).2 ⟨distinct, complete, rfl⟩) (by simp [hchecked])
    | ok checkedTypes =>
      obtain ⟨distinct, complete, rfl⟩ := (types _).1 hchecked
      simp only [bind, Except.bind, pure, Except.pure, Except.ok.injEq, true_and]
      exact ⟨fun same => ⟨distinct, complete, same.symm⟩, fun h => h.2.2.symm⟩

/-- A content type is found by its name if no other has the same. -/
theorem contentType?_eq_some {c : Config} (distinct : (c.contentTypes.map ContentType.id).Nodup)
    {ty : ContentType} (h : ty ∈ c.contentTypes) : c.contentType? ty.id = some ty := by
  have found : (c.contentType? ty.id).isSome := List.find?_isSome.2 ⟨ty, h, by simp⟩
  obtain ⟨other, hother⟩ := Option.isSome_iff_exists.1 found
  have same : other.id = ty.id := by simpa using List.find?_some hother
  have mem : other ∈ c.contentTypes := List.mem_of_find?_eq_some hother
  rw [hother, List.inj_on_of_nodup_map distinct mem h same]

/-- Where a configuration was accepted, filters are not refused for bundles. -/
theorem filter_ne_missingBundleKey {c checked : Config} (h : c.check = .ok checked)
    {ty : ContentType} (hty : ty ∈ checked.contentTypes) (mode : GrantMode) (operation : String)
    (account : Account) (id : String) :
    Grant.filter mode operation ty account ≠ .error (.missingBundleKey id) := by
  obtain ⟨-, -, complete, rfl⟩ := check_eq_ok_iff.1 h
  obtain ⟨written, hwritten, rfl⟩ := List.mem_map.1 hty
  rw [Ne, Grant.filter_eq_error_iff]
  apply ContentType.flaw?_ne_missingBundleKey
  rw [ContentType.omitsBundleKey_fillDefaults]
  exact complete written hwritten

/-- A configuration that was loaded was accepted, however it was read. -/
theorem load_eq_ok_iff {read : String → Except ConfigError Config} {source : String} {c : Config} :
    load read source = .ok c ↔ ∃ written, read source = .ok written ∧ written.check = .ok c := by
  rw [load]
  cases read source with
  | error e => simp [bind, Except.bind]
  | ok written => simp [bind, Except.bind]

/-- A configuration is accepted exactly if the escape character is not reserved, no two content
types have the same name, and each that has bundles names a field for them; then the content types
are as before but for the default of the administration permission, and each is found by its name.
A filter cannot be made exactly where an owner, a published flag or bundles are declared without a
field that can be used, for whatever mode, operation and account, and the first of these is
reported.  So no content type that was loaded is refused for its bundles later, however the
configuration was read. -/
theorem validation_agrees :
    (∀ c : Config, (∃ checked, c.check = .ok checked) ↔
      c.compile.likeEscape ∉ CompileOptions.reservedEscapes ∧
        (c.contentTypes.map ContentType.id).Nodup ∧
        ∀ ty ∈ c.contentTypes, ¬((ty.granularity = .bundle ∨ ty.bundles ≠ []) ∧
          (ty.bundleKey = none ∨ ty.bundleKey = some ""))) ∧
    (∀ c checked : Config, c.check = .ok checked →
      checked = { c with
        contentTypes := c.contentTypes.map fun ty => { ty with
          adminPermission := some
            (ty.adminPermission.getD (ContentType.defaultAdminPermission ty.id)) } } ∧
      ∀ ty ∈ checked.contentTypes, checked.contentType? ty.id = some ty) ∧
    (∀ mode operation ty account,
      (∀ e, Grant.filter mode operation ty account = .error e ↔ ty.flaw? = some e) ∧
      ((∃ e, Grant.filter mode operation ty account = .error e) ↔
        ty.hasOwner = true ∧ (ty.ownerKey = none ∨ ty.ownerKey = some "") ∨
        ty.hasPublished = true ∧ (ty.publishedKey = none ∨ ty.publishedKey = some "") ∨
        (ty.granularity = .bundle ∨ ty.bundles ≠ []) ∧
          (ty.bundleKey = none ∨ ty.bundleKey = some ""))) ∧
    (∀ c checked : Config, c.check = .ok checked → ∀ ty ∈ checked.contentTypes,
      ∀ mode operation account id,
        Grant.filter mode operation ty account ≠ .error (.missingBundleKey id)) ∧
    ∀ (read : String → Except ConfigError Config) (source : String) (c : Config),
      load read source = .ok c → ∀ ty ∈ c.contentTypes, ∀ mode operation account id,
        Grant.filter mode operation ty account ≠ .error (.missingBundleKey id) := by
  refine ⟨?_, ?_, ?_, ?_, ?_⟩
  · intro c
    simp only [check_eq_ok_iff, exists_and_left, exists_eq, and_true]
    refine and_congr_right fun _ => and_congr_right fun _ => forall₂_congr fun ty _ => ?_
    rw [← Bool.not_eq_true, ContentType.omitsBundleKey_iff]
    rfl
  · intro c checked accepted
    obtain ⟨-, distinct, -, rfl⟩ := check_eq_ok_iff.1 accepted
    refine ⟨?_, fun ty hty => contentType?_eq_some ?_ hty⟩
    · rw [funext ContentType.fillDefaults_eq]
    · simpa [Function.comp_def] using distinct
  · intro mode operation ty account
    have refused := Grant.filter_eq_error_iff mode operation ty account
    refine ⟨refused, ?_⟩
    simp only [refused]
    exact ty.exists_flaw_iff
  · intro c checked accepted ty hty mode operation account id
    exact filter_ne_missingBundleKey accepted hty mode operation account id
  · intro read source c loaded ty hty mode operation account id
    obtain ⟨written, -, accepted⟩ := load_eq_ok_iff.1 loaded
    exact filter_ne_missingBundleKey accepted hty mode operation account id

/-! ## Bundles and owners -/

/-- Articles by bundle, and comments whose owner has no name. -/
def articlesAndComments : Config where
  compile := {}
  contentTypes :=
    [{ id := "article", bundleKey := some "type", granularity := .bundle },
      { id := "comment", hasOwner := true, ownerKey := some "" }]

/-- The configuration is accepted, and a filter can be refused for comments, though not for
articles; so it is with a document of one content type. -/
theorem validation_agrees_articlesAndComments :
    (∃ checked, articlesAndComments.check = .ok checked ∧
      (checked.contentType? "article").bind ContentType.adminPermission =
        some "administer article" ∧
      ∃ article ∈ checked.contentTypes, ∃ comment ∈ checked.contentTypes,
        checked.contentType? article.id = some article ∧
        (∀ id, Grant.filter .cacheable "view" article .anonymous ≠
          .error (.missingBundleKey id)) ∧
        Grant.filter .uncacheable "delete" comment .anonymous =
          .error (.missingOwnerKey "comment")) ∧
    ∃ c, ofToml "[[content_type]]\nid = \"a\"\n" = .ok c ∧ ∀ ty ∈ c.contentTypes, ∀ id,
      Grant.filter .cacheable "view" ty .anonymous ≠ .error (.missingBundleKey id) := by
  obtain ⟨accepts, keeps, refuses, early, loaded⟩ := validation_agrees
  constructor
  · obtain ⟨checked, accepted⟩ := (accepts articlesAndComments).2 (by decide)
    obtain ⟨rfl, found⟩ := keeps _ _ accepted
    refine ⟨_, accepted, rfl, _, List.mem_cons_self, _,
      List.mem_cons_of_mem _ List.mem_cons_self, found _ List.mem_cons_self, ?_, ?_⟩
    · exact early _ _ accepted _ List.mem_cons_self .cacheable "view" .anonymous
    · exact ((refuses _ _ _ _).1 _).2 rfl
  · have read : (ofToml "[[content_type]]\nid = \"a\"\n").toOption.isSome = true := by decide
    cases document : ofToml "[[content_type]]\nid = \"a\"\n" with
    | error e =>
      rw [document] at read
      cases read
    | ok c =>
      refine ⟨c, rfl, fun ty hty => ?_⟩
      exact loaded readToml _ _ document ty hty .cacheable "view" .anonymous

end Config

end RowAccess
