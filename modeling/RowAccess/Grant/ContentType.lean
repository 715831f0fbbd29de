import RowAccess.Failure

/-!
# Content types

A content type says which permission administers it, whether its records have an owner, a
published flag and bundles, and which fields hold them.  Whether a type has an owner or a
flag is declared apart from the name of the field, so a type may declare what it has no
field for; such a type is broken and no filter is made for it.

Main results:

- `ContentType.roleFields_eq_ok_iff`: the types that are not broken.
-/

namespace RowAccess

/-- What is wrong with a broken content type. -/
inductive AccessError where
  | missingBundleKey (typeId : String)
  | missingOwnerKey (typeId : String)
  | missingPublishedKey (typeId : String)
  deriving DecidableEq

namespace AccessError

/-- The message about a broken content type. -/
def message : AccessError → String
  | missingBundleKey typeId =>
    "content type '" ++ typeId ++ "' declares bundles but has no bundle key"
  | missingOwnerKey typeId =>
    "content type '" ++ typeId ++ "' declares an owner but no owner key"
  | missingPublishedKey typeId =>
    "content type '" ++ typeId ++ "' declares a published flag but no published key"

/-- A broken content type is a mistake of configuration. -/
def failure (e : AccessError) : Failure := ⟨.configuration, .access, e.message⟩

end AccessError

/-- Whether permissions are given for a type as a whole or for each of its bundles. -/
inductive Granularity where
  | entityType
  | bundle
  deriving DecidableEq

/-- The access-relevant shape of a kind of record. -/
structure ContentType where
  id : String
  /-- The permission that lifts every restriction. -/
  adminPermission : Option String := none
  hasOwner : Bool := false
  /-- The field with the owner's number. -/
  ownerKey : Option String := none
  hasPublished : Bool := false
  /-- The field with the published flag. -/
  publishedKey : Option String := none
  /-- The field with the bundle's name. -/
  bundleKey : Option String := none
  /-- The names of the bundles. -/
  bundles : List String := []
  granularity : Granularity := .entityType
  deriving DecidableEq

namespace ContentType

/-! ## Construction -/

/-- The permission that administers a type unless another is named. -/
def defaultAdminPermission (id : String) : String := "administer " ++ id

/-- A type with nothing but its default administration permission. -/
def named (id : String) : ContentType :=
  { id := id, adminPermission := some (defaultAdminPermission id) }

/-- Names the administration permission. -/
def withAdminPermission (ty : ContentType) (permission : String) : ContentType :=
  { ty with adminPermission := some permission }

/-- Declares an owner and the field that holds it. -/
def withOwner (ty : ContentType) (key : String) : ContentType :=
  { ty with hasOwner := true, ownerKey := some key }

/-- Declares a published flag and the field that holds it. -/
def withPublished (ty : ContentType) (key : String) : ContentType :=
  { ty with hasPublished := true, publishedKey := some key }

/-- Declares bundles and the field that holds their name. -/
def withBundles (ty : ContentType) (key : String) (bundles : List String) : ContentType :=
  { ty with bundleKey := some key, bundles := bundles }

/-- Makes permissions be given bundle by bundle. -/
def withBundleGranularity (ty : ContentType) : ContentType :=
  { ty with granularity := .bundle }

/-- Fills in the administration permission where none is named. -/
def fillDefaults (ty : ContentType) : ContentType :=
  match ty.adminPermission with
  | some _ => ty
  | none => { ty with adminPermission := some (defaultAdminPermission ty.id) }

/-! ## Views -/

/-- A field name that can be used: an empty one counts as absent. -/
def usable (key : Option String) : Option String := key.filter (· ≠ "")

/-- The administration permission; where none is named it is the empty name. -/
def admin (ty : ContentType) : String := ty.adminPermission.getD ""

/-- The field with the owner, if it can be used. -/
def ownerField (ty : ContentType) : Option String := usable ty.ownerKey

/-- The field with the published flag, if it can be used. -/
def publishedField (ty : ContentType) : Option String := usable ty.publishedKey

/-- The field with the bundle, if it can be used. -/
def bundleField (ty : ContentType) : Option String := usable ty.bundleKey

/-- Whether permissions are given bundle by bundle. -/
def isBundleGranular (ty : ContentType) : Bool := ty.granularity = .bundle

/-- Whether bundles count for this type: permissions are given by bundle, or there are some. -/
def usesBundles (ty : ContentType) : Bool := ty.isBundleGranular || !ty.bundles.isEmpty

/-! ## Fields by role -/

/-- The fields that a filter for a type refers to. -/
structure RoleFields where
  owner : Option String
  published : Option String
  bundle : Option String
  deriving DecidableEq

/-- The field for a role, which must be there if the role is declared. -/
def required (declared : Bool) (key : Option String) (missing : AccessError) :
    Except AccessError (Option String) :=
  if declared then
    match key with
    | some name => .ok (some name)
    | none => .error missing
  else .ok none

/-- The fields of the declared roles: the owner is looked for first, then the published
flag, then the bundle, and the first that is missing is reported. -/
def roleFields (ty : ContentType) : Except AccessError RoleFields := do
  let owner ← required ty.hasOwner ty.ownerField (.missingOwnerKey ty.id)
  let published ← required ty.hasPublished ty.publishedField (.missingPublishedKey ty.id)
  let bundle ← required ty.usesBundles ty.bundleField (.missingBundleKey ty.id)
  return ⟨owner, published, bundle⟩

/-- Whether a role is declared without a usable field. -/
def lacks (declared : Bool) (key : Option String) : Bool := declared && key.isNone

theorem required_eq (declared : Bool) (key : Option String) (missing : AccessError) :
    required declared key missing =
      if lacks declared key then .error missing
      else .ok (if declared then key else none) := by
  cases declared <;> cases key <;> rfl

/-- The types that are not broken: every declared role has a usable field. -/
theorem roleFields_eq_ok_iff (ty : ContentType) (fields : RoleFields) :
    ty.roleFields = .ok fields ↔
      lacks ty.hasOwner ty.ownerField = false ∧
      lacks ty.hasPublished ty.publishedField = false ∧
      lacks ty.usesBundles ty.bundleField = false ∧
      fields = ⟨if ty.hasOwner then ty.ownerField else none,
        if ty.hasPublished then ty.publishedField else none,
        if ty.usesBundles then ty.bundleField else none⟩ := by
  simp only [roleFields, required_eq, bind, Except.bind, pure, Except.pure]
  generalize lacks ty.hasOwner ty.ownerField = noOwner
  generalize lacks ty.hasPublished ty.publishedField = noPublished
  generalize lacks ty.usesBundles ty.bundleField = noBundle
  cases noOwner <;> cases noPublished <;> cases noBundle <;> grind

end ContentType

end RowAccess
