import RowAccess.Grant.Decision
import RowAccess.Proofs.Filter.Admission

/-!
# The policy behind a filter

The permissions of an account say which rows of a type it may act on.  The policy states
this row by row, without any tree: which permissions count, and what a row must hold for
each of them.  The filter that is made for the account admits exactly these rows.

On the way a partial result is a tree or no tree at all.  No tree stands for no row, which
is not what a tree without children stands for, so both are read by one function.

Main results:

- `Grant.granted_ownerGrants`, `Grant.granted_entityGrants`, `Grant.granted_viewGrants`:
  the rows of each partial result.
- `Grant.filter_admits_iff`: the filter admits the rows of the policy, and no others.
-/

namespace RowAccess

/-! ## What the policy says -/

/-- Whether a row has a value in the field that a type names for a role. -/
def Row.holds (row : Row) (field : Option String) (value : Value) : Prop :=
  ∃ name, field = some name ∧ row name = some value

namespace Policy

variable (operation : String) (ty : ContentType) (account : Account) (row : Row)

/-- The row belongs to the account. -/
def Owns : Prop := row.holds ty.ownerField (.uint account.id)

/-- The row is in a bundle. -/
def InBundle (bundle : String) : Prop := row.holds ty.bundleField (.text bundle)

/-- The row is admitted on a type whose permissions distinguish own records. -/
def OfOwner : Prop :=
  account.has (operation ++ " any " ++ ty.id) = true ∨
  (account.has (operation ++ " own " ++ ty.id) = true ∧ Owns ty account row) ∨
  ∃ bundle ∈ ty.bundles, InBundle ty row bundle ∧
    (account.has (operation ++ " any " ++ bundle ++ " " ++ ty.id) = true ∨
      (account.has (operation ++ " own " ++ bundle ++ " " ++ ty.id) = true ∧
        Owns ty account row))

/-- The row is admitted on a type whose permissions do not. -/
def OfType : Prop :=
  account.has (operation ++ " " ++ ty.id) = true ∨
  ∃ bundle ∈ ty.bundles, InBundle ty row bundle ∧
    account.has (operation ++ " " ++ bundle ++ " " ++ ty.id) = true

/-- The row is admitted, its published flag aside.  Viewing distinguishes own records in the
uncacheable mode only. -/
def Base (mode : GrantMode) : Prop :=
  if ty.hasOwner = true ∧ ¬ (operation = "view" ∧ mode = .cacheable) then
    OfOwner operation ty account row
  else OfType operation ty account row

/-- The rows of a type that an account may act on. -/
def Admits (mode : GrantMode) : Prop :=
  account.has ty.admin = true ∨
  if operation = "view" ∧ ty.hasPublished = true then
    (Base operation ty account row mode ∧ row.holds ty.publishedField (.int 1)) ∨
    (account.has ("view own unpublished " ++ ty.id) = true ∧ ty.hasOwner = true ∧
      Owns ty account row ∧ row.holds ty.publishedField (.int 0))
  else Base operation ty account row mode

end Policy

/-- Every role that a type declares has a usable field. -/
structure ContentType.KeysResolve (ty : ContentType) : Prop where
  owner : ty.hasOwner = true → ∃ name, ty.ownerField = some name
  published : ty.hasPublished = true → ∃ name, ty.publishedField = some name
  bundle : ty.usesBundles = true → ∃ name, ty.bundleField = some name

/-- The fields of the roles that a type declares. -/
def ContentType.declaredFields (ty : ContentType) : RoleFields where
  owner := if ty.hasOwner then ty.ownerField else none
  published := if ty.hasPublished then ty.publishedField else none
  bundle := if ty.usesBundles then ty.bundleField else none

/-- The roles of a type that is not broken can be looked up. -/
theorem ContentType.KeysResolve.roleFields_eq {ty : ContentType} (h : ty.KeysResolve) :
    ty.roleFields = .ok ty.declaredFields := by
  have present {declared : Bool} {key : Option String}
      (hk : declared = true → ∃ name, key = some name) : lacks declared key = false := by
    cases declared with
    | false => rfl
    | true =>
      rcases hk rfl with ⟨name, hname⟩
      rw [hname]
      rfl
  exact (roleFields_eq_ok_iff ty _).2
    ⟨present h.owner, present h.published, present h.bundle, rfl⟩

namespace Grant

/-! ## Partial results -/

section Rows

variable (others : OtherComparisons) (row : Row)

/-- The row is among those of a partial result; no tree stands for no row. -/
def Granted (result : Option FilterTree) : Prop :=
  ∃ t, result = some t ∧ t.admits others row = true

/-- The row is admitted by one of the alternatives collected so far. -/
def Collected (t : FilterTree) : Prop := ∃ n ∈ t.children, n.admits others row = true

variable {others row}

@[simp] theorem granted_none : ¬ Granted others row none := nofun

@[simp] theorem granted_some {t : FilterTree} :
    Granted others row (some t) ↔ t.admits others row = true :=
  ⟨fun ⟨_, he, ht⟩ => Option.some.inj he ▸ ht, fun ht => ⟨t, rfl, ht⟩⟩

/-- A partial result becomes a filter without a change of rows. -/
theorem admits_getD_denied {result : Option FilterTree} :
    (result.getD denied).admits others row = true ↔ Granted others row result := by
  cases result with
  | none =>
    have none_admitted : denied.admits others row = false :=
      FilterTree.admits_of_alwaysFalse rfl
    simp [none_admitted]
  | some t => exact granted_some.symm

/-- The tree without restriction admits every row. -/
theorem admits_unrestricted : unrestricted.admits others row = true :=
  FilterTree.admits_of_nil rfl rfl

/-! ## Collecting alternatives -/

/-- A tree that alternatives are collected in. -/
structure Collects (t : FilterTree) : Prop where
  unmarked : t.alwaysFalse = false
  alternatives : t.conjunction = .or

theorem collects_unrestricted : Collects unrestricted := ⟨rfl, rfl⟩

theorem Collects.add {t : FilterTree} (h : Collects t) (n : FilterNode) :
    Collects (t.add n) :=
  ⟨(FilterTree.alwaysFalse_add t n).trans h.unmarked,
    (FilterTree.conjunction_add t n).trans h.alternatives⟩

theorem Collects.addContexts {t : FilterTree} (h : Collects t) (names : List String) :
    Collects (t.addContexts names) := ⟨h.unmarked, h.alternatives⟩

theorem Collects.admitOwn {t : FilterTree} (h : Collects t) (account : Account)
    (field : String) : Collects (admitOwn t account field) :=
  (h.addContexts [userContext]).add (.leaf (ownedBy account field))

theorem Collects.admitBundles {t : FilterTree} (h : Collects t) (field : String)
    (bundles : List String) : Collects (admitBundles t field bundles) := by
  unfold Grant.admitBundles
  split
  · exact h
  · exact h.add _

/-- What was collected is granted; a collection that stayed empty grants nothing. -/
theorem granted_ifAny {t : FilterTree} (h : Collects t) :
    Granted others row (ifAny t) ↔ Collected others row t := by
  by_cases he : t.children = []
  · simp [ifAny, FilterTree.isEmpty, Collected, he]
  · have nonempty : t.isEmpty = false := by simpa [FilterTree.isEmpty] using he
    rw [ifAny, nonempty, if_neg Bool.false_ne_true, granted_some,
      FilterTree.admits_of_or h.unmarked h.alternatives he, List.any_eq_true]
    rfl

@[simp] theorem not_collected_unrestricted : ¬ Collected others row unrestricted := by
  rintro ⟨n, hn, -⟩
  exact List.not_mem_nil hn

/-- A predicate adds the rows that it admits. -/
theorem collected_addPredicate {t : FilterTree} {p : Predicate} :
    Collected others row (t.addPredicate p) ↔
      Collected others row t ∨ p.admits others row = true := by
  simp [Collected, FilterTree.addPredicate, FilterNode.admits, or_and_right, exists_or]

/-- A tree with children adds the rows that it admits. -/
theorem collected_addTree {t u : FilterTree} (h : u.children ≠ []) :
    Collected others row (t.add (.tree u)) ↔
      Collected others row t ∨ u.admits others row = true := by
  have contributed : (FilterNode.tree u).contribution.any (FilterNode.admits others row) =
      u.admits others row := FilterNode.any_contribution h
  rw [Collected, FilterTree.children_add, ← contributed, List.any_eq_true]
  simp only [List.mem_append, or_and_right, exists_or]
  rfl

/-! ## The alternatives of a grant -/

/-- A row belongs to an account if the owner's field holds its number. -/
theorem admits_ownedBy {account : Account} {field : String} :
    (ownedBy account field).admits others row = true ↔
      row field = some (.uint account.id) := by
  rw [ownedBy, Predicate.admits_equals rfl]
  rfl

/-- A flag is compared with a signed number. -/
theorem admits_flag {field : String} {flag : Int64} :
    (Predicate.equals field (.int flag)).admits others row = true ↔
      row field = some (.int flag) :=
  Predicate.admits_equals rfl

/-- A row is in one of several bundles if the bundle's field holds its name. -/
theorem admits_inBundles {field : String} {bundles : List String} :
    (inBundles field bundles).admits others row = true ↔
      ∃ b ∈ bundles, row field = some (.text b) :=
  Predicate.admits_equals_ofTexts

theorem collected_admitOwn {t : FilterTree} {account : Account} {field : String} :
    Collected others row (admitOwn t account field) ↔
      Collected others row t ∨ row field = some (.uint account.id) := by
  rw [admitOwn, collected_addPredicate, admits_ownedBy]
  rfl

theorem collected_admitBundles {t : FilterTree} {field : String} {bundles : List String} :
    Collected others row (admitBundles t field bundles) ↔
      Collected others row t ∨ ∃ b ∈ bundles, row field = some (.text b) := by
  unfold admitBundles
  split
  next h =>
    rw [List.isEmpty_iff.1 h]
    simp
  next => rw [collected_addPredicate, admits_inBundles]

/-- Own records in several bundles must meet both conditions. -/
theorem admits_ownInBundles {account : Account} {ownerField bundleField : String}
    {bundles : List String} :
    (ownInBundles account ownerField bundleField bundles).admits others row = true ↔
      row ownerField = some (.uint account.id) ∧
        ∃ b ∈ bundles, row bundleField = some (.text b) := by
  have children :
      (ownInBundles account ownerField bundleField bundles).children =
        [.leaf (ownedBy account ownerField), .leaf (inBundles bundleField bundles)] := rfl
  rw [FilterTree.admits_of_and rfl rfl, children]
  simp [FilterNode.admits, admits_ownedBy, admits_inBundles]

/-- A bundle among those granted is a bundle of the type with the permission for it. -/
theorem mem_grantedBundles {ty : ContentType} {account : Account} {name : String → String}
    {b : String} :
    b ∈ grantedBundles ty account name ↔ b ∈ ty.bundles ∧ account.has (name b) = true := by
  simp [grantedBundles]

/-! ## The words of a permission -/

theorem permission_plain (operation typeId : String) :
    permission [operation, typeId] = operation ++ " " ++ typeId := rfl

theorem permission_bundle (operation bundle typeId : String) :
    permission [operation, bundle, typeId] =
      operation ++ " " ++ bundle ++ " " ++ typeId := rfl

/-- The words around one in the middle may be put together first. -/
theorem append_word {word spaced : String} (h : " " ++ (word ++ " ") = spaced)
    (operation rest : String) :
    operation ++ " " ++ word ++ " " ++ rest = operation ++ spaced ++ rest := by
  rw [← h]
  simp only [String.append_assoc]

theorem permission_any (operation typeId : String) :
    permission [operation, "any", typeId] = operation ++ " any " ++ typeId :=
  append_word rfl operation typeId

theorem permission_own (operation typeId : String) :
    permission [operation, "own", typeId] = operation ++ " own " ++ typeId :=
  append_word rfl operation typeId

theorem permission_any_bundle (operation bundle typeId : String) :
    permission [operation, "any", bundle, typeId] =
      operation ++ " any " ++ bundle ++ " " ++ typeId :=
  congrArg (· ++ " " ++ typeId) (permission_any operation bundle)

theorem permission_own_bundle (operation bundle typeId : String) :
    permission [operation, "own", bundle, typeId] =
      operation ++ " own " ++ bundle ++ " " ++ typeId :=
  congrArg (· ++ " " ++ typeId) (permission_own operation bundle)

theorem permission_own_unpublished (typeId : String) :
    permission ["view own unpublished", typeId] = "view own unpublished " ++ typeId := rfl

/-! ## The rows of each partial result -/

variable {operation : String} {ty : ContentType} {account : Account}

/-- Types without an owner: the permission for the type, or the one for the row's bundle. -/
theorem granted_entityGrants {bundleField : Option String} :
    Granted others row (entityGrants operation ty account bundleField) ↔
      account.has (operation ++ " " ++ ty.id) = true ∨
      ∃ bundle ∈ ty.bundles, row.holds bundleField (.text bundle) ∧
        account.has (operation ++ " " ++ bundle ++ " " ++ ty.id) = true := by
  unfold entityGrants
  rw [permission_plain]
  split
  next h => simp [h, admits_unrestricted]
  next h =>
    cases bundleField with
    | none => simp [h, Row.holds]
    | some field =>
      simp only [granted_ifAny (collects_unrestricted.admitBundles _ _),
        collected_admitBundles, not_collected_unrestricted, false_or, mem_grantedBundles,
        permission_bundle, h, Row.holds]
      constructor
      · rintro ⟨b, ⟨hb, hp⟩, hrow⟩
        exact .inr ⟨b, hb, ⟨field, rfl, hrow⟩, hp⟩
      · rintro (hf | ⟨b, hb, ⟨name, hname, hrow⟩, hp⟩)
        · exact absurd hf Bool.false_ne_true
        · cases hname
          exact ⟨b, ⟨hb, hp⟩, hrow⟩

/-- Bundles granted for all records and for own ones are added to what was collected. -/
theorem granted_bundles {t : FilterTree} (h : Collects t) {ownerField bundleField : String}
    {anyBundles ownBundles : List String} :
    Granted others row (ifAny
        (if ownBundles.isEmpty then admitBundles t bundleField anyBundles
        else (admitBundles t bundleField anyBundles).add
          (.tree (ownInBundles account ownerField bundleField ownBundles)))) ↔
      Collected others row t ∨ (∃ b ∈ anyBundles, row bundleField = some (.text b)) ∨
        (row ownerField = some (.uint account.id) ∧
          ∃ b ∈ ownBundles, row bundleField = some (.text b)) := by
  have collects := h.admitBundles bundleField anyBundles
  split
  next hown =>
    rw [granted_ifAny collects, collected_admitBundles, List.isEmpty_iff.1 hown]
    simp
  next =>
    have nonempty :
        (ownInBundles account ownerField bundleField ownBundles).children ≠ [] :=
      List.cons_ne_nil _ _
    rw [granted_ifAny (collects.add _), collected_addTree nonempty, collected_admitBundles,
      admits_ownInBundles, or_assoc]

/-- Types with an owner: each permission for all records has a counterpart for own ones. -/
theorem granted_ownerGrants {ownerField : String} {bundleField : Option String} :
    Granted others row (ownerGrants operation ty account ownerField bundleField) ↔
      account.has (operation ++ " any " ++ ty.id) = true ∨
      (account.has (operation ++ " own " ++ ty.id) = true ∧
        row ownerField = some (.uint account.id)) ∨
      ∃ bundle ∈ ty.bundles, row.holds bundleField (.text bundle) ∧
        (account.has (operation ++ " any " ++ bundle ++ " " ++ ty.id) = true ∨
          (account.has (operation ++ " own " ++ bundle ++ " " ++ ty.id) = true ∧
            row ownerField = some (.uint account.id))) := by
  unfold ownerGrants
  rw [permission_any, permission_own]
  by_cases hany : account.has (operation ++ " any " ++ ty.id) = true
  · simp [hany, admits_unrestricted]
  · rw [if_neg hany]
    -- The type as a whole comes first; the bundles are added to what it admits.
    generalize hofType :
      (if account.has (operation ++ " own " ++ ty.id) = true then
        admitOwn unrestricted account ownerField else unrestricted) = ofType
    have collects : Collects ofType := by
      rw [← hofType]
      split
      · exact collects_unrestricted.admitOwn account ownerField
      · exact collects_unrestricted
    have rows : Collected others row ofType ↔
        account.has (operation ++ " own " ++ ty.id) = true ∧
          row ownerField = some (.uint account.id) := by
      rw [← hofType]
      split
      next h => simp [h, collected_admitOwn]
      next h => simp [h]
    cases bundleField with
    | none => simp [granted_ifAny collects, rows, hany, Row.holds]
    | some field =>
      simp only [granted_bundles collects, rows, mem_grantedBundles, permission_any_bundle,
        permission_own_bundle, hany, Row.holds]
      constructor
      · rintro (hown | ⟨b, ⟨hb, hp⟩, hrow⟩ | ⟨howner, b, ⟨hb, hp⟩, hrow⟩)
        · exact .inr (.inl hown)
        · exact .inr (.inr ⟨b, hb, ⟨field, rfl, hrow⟩, .inl hp⟩)
        · exact .inr (.inr ⟨b, hb, ⟨field, rfl, hrow⟩, .inr ⟨hp, howner⟩⟩)
      · rintro (hf | hown | ⟨b, hb, ⟨name, hname, hrow⟩, hp⟩)
        · exact absurd hf Bool.false_ne_true
        · exact .inl hown
        · cases hname
          rcases hp with hp | ⟨hp, howner⟩
          · exact .inr (.inl ⟨b, ⟨hb, hp⟩, hrow⟩)
          · exact .inr (.inr ⟨howner, b, ⟨hb, hp⟩, hrow⟩)

/-- A restriction to published records admits the published ones of those granted. -/
theorem admits_publishedOnly {t : FilterTree} {field : String} :
    (publishedOnly t field).admits others row = true ↔
      t.admits others row = true ∧ row field = some (.int 1) := by
  have children : (publishedOnly t field).children =
      (FilterNode.tree t).contribution ++ [.leaf (.equals field (.int 1))] := by
    rw [publishedOnly, FilterTree.addPredicate, FilterTree.children_add,
      FilterTree.children_add]
    rfl
  have unmarked : (publishedOnly t field).alwaysFalse = false := by
    simp [publishedOnly, FilterTree.addPredicate, FilterTree.addContexts, FilterTree.all]
  have joint : (publishedOnly t field).conjunction = .and := by
    simp [publishedOnly, FilterTree.addPredicate, FilterTree.addContexts, FilterTree.all]
  rw [FilterTree.admits_of_and unmarked joint, children, List.all_append,
    FilterNode.all_contribution]
  simp [FilterNode.admits, admits_flag]

/-- Own records that are not published must meet both conditions. -/
theorem admits_ownUnpublished {ownerField publishedField : String} :
    (ownUnpublished account ownerField publishedField).admits others row = true ↔
      row ownerField = some (.uint account.id) ∧ row publishedField = some (.int 0) := by
  have children : (ownUnpublished account ownerField publishedField).children =
      [.leaf (ownedBy account ownerField), .leaf (.equals publishedField (.int 0))] := rfl
  rw [FilterTree.admits_of_and rfl rfl, children]
  simp [FilterNode.admits, admits_ownedBy, admits_flag]

/-- Two trees with children are alternatives once both are added to an empty one. -/
theorem admits_either {t u : FilterTree} (ht : t.children ≠ []) (hu : u.children ≠ []) :
    ((FilterTree.any.add (.tree t)).add (.tree u)).admits others row = true ↔
      t.admits others row = true ∨ u.admits others row = true := by
  have children : ((FilterTree.any.add (.tree t)).add (.tree u)).children =
      (FilterNode.tree t).contribution ++ (FilterNode.tree u).contribution := by
    rw [FilterTree.children_add, FilterTree.children_add]
    rfl
  have nonempty : ((FilterTree.any.add (.tree t)).add (.tree u)).children ≠ [] := by
    rw [children]
    exact List.append_ne_nil_of_left_ne_nil (FilterNode.contribution_ne_nil ht) _
  rw [FilterTree.admits_of_or (by simp [FilterTree.any]) (by simp [FilterTree.any]) nonempty,
    children, List.any_append, FilterNode.any_contribution ht,
    FilterNode.any_contribution hu, Bool.or_eq_true]

/-- Viewing: the published records of those granted, and with the permission for it the
account's own others. -/
theorem granted_viewGrants {result : Option FilterTree} {publishedField : String}
    {ownerField : Option String} :
    Granted others row (viewGrants ty account result publishedField ownerField) ↔
      (Granted others row result ∧ row publishedField = some (.int 1)) ∨
      (account.has ("view own unpublished " ++ ty.id) = true ∧
        row.holds ownerField (.uint account.id) ∧ row publishedField = some (.int 0)) := by
  have published_ne (t : FilterTree) : (publishedOnly t publishedField).children ≠ [] := by
    rw [publishedOnly, FilterTree.addPredicate, FilterTree.children_add]
    exact List.append_ne_nil_of_right_ne_nil _ (List.cons_ne_nil _ _)
  have unpublished_ne (field : String) :
      (ownUnpublished account field publishedField).children ≠ [] := List.cons_ne_nil _ _
  unfold viewGrants
  rw [permission_own_unpublished]
  by_cases hown : account.has ("view own unpublished " ++ ty.id) = true
  · cases result with
    | none => cases ownerField <;> simp [hown, admits_ownUnpublished, Row.holds]
    | some t =>
      cases ownerField with
      | none => simp [hown, admits_publishedOnly, Row.holds]
      | some field =>
        simp [hown, admits_either (published_ne t) (unpublished_ne field),
          admits_publishedOnly, admits_ownUnpublished, Row.holds]
  · cases result <;> simp [hown, admits_publishedOnly]

/-! ## The policy -/

/-- The rows of a bundle of the type do not depend on whether bundles count: a type for
which they do not has none. -/
theorem exists_inBundle_iff {p : String → Prop} :
    (∃ b ∈ ty.bundles,
        row.holds (if ty.usesBundles then ty.bundleField else none) (.text b) ∧ p b) ↔
      ∃ b ∈ ty.bundles, Policy.InBundle ty row b ∧ p b := by
  by_cases h : ty.usesBundles = true
  · simp [h, Policy.InBundle]
  · have empty : ty.bundles = [] := by
      simp only [ContentType.usesBundles, Bool.or_eq_true, not_or] at h
      simpa using h.2
    simp [empty]

/-- What is granted before the published flag is looked at. -/
def baseGrants (mode : GrantMode) (operation : String) (ty : ContentType)
    (fields : ContentType.RoleFields) (account : Account) : Option FilterTree :=
  match fields.owner with
  | some owner =>
    if operation = viewOperation ∧ mode = .cacheable then
      entityGrants operation ty account fields.bundle
    else ownerGrants operation ty account owner fields.bundle
  | none => entityGrants operation ty account fields.bundle

/-- The published flag is looked at for viewing only. -/
theorem grants_eq (mode : GrantMode) (operation : String) (ty : ContentType)
    (fields : ContentType.RoleFields) (account : Account) :
    grants mode operation ty fields account =
      match fields.published with
      | some published =>
        if operation = viewOperation then
          viewGrants ty account (baseGrants mode operation ty fields account) published
            fields.owner
        else baseGrants mode operation ty fields account
      | none => baseGrants mode operation ty fields account := rfl

/-- What is granted before the published flag is looked at is the base of the policy. -/
theorem granted_baseGrants (h : ty.KeysResolve) (mode : GrantMode) :
    Granted others row (baseGrants mode operation ty ty.declaredFields account) ↔
      Policy.Base operation ty account row mode := by
  unfold baseGrants Policy.Base
  by_cases howner : ty.hasOwner = true
  · rcases h.owner howner with ⟨owner, hkey⟩
    have owns : row owner = some (.uint account.id) ↔ Policy.Owns ty account row := by
      simp [Policy.Owns, Row.holds, hkey]
    by_cases hview : operation = "view" ∧ mode = .cacheable
    · simp [ContentType.declaredFields, howner, hkey, viewOperation, hview, granted_entityGrants,
        exists_inBundle_iff, Policy.OfType]
    · simp [ContentType.declaredFields, howner, hkey, viewOperation, hview, granted_ownerGrants,
        exists_inBundle_iff, Policy.OfOwner, owns]
  · simp [ContentType.declaredFields, howner, granted_entityGrants, exists_inBundle_iff,
      Policy.OfType]

/-- What is granted to an account that does not administer the type. -/
theorem granted_grants (h : ty.KeysResolve) (mode : GrantMode) :
    Granted others row (grants mode operation ty ty.declaredFields account) ↔
      if operation = "view" ∧ ty.hasPublished = true then
        (Policy.Base operation ty account row mode ∧ row.holds ty.publishedField (.int 1)) ∨
        (account.has ("view own unpublished " ++ ty.id) = true ∧ ty.hasOwner = true ∧
          Policy.Owns ty account row ∧ row.holds ty.publishedField (.int 0))
      else Policy.Base operation ty account row mode := by
  have base : Granted others row (baseGrants mode operation ty ty.declaredFields account) ↔
      Policy.Base operation ty account row mode := granted_baseGrants h mode
  rw [grants_eq, ← base]
  by_cases hpublished : ty.hasPublished = true
  · rcases h.published hpublished with ⟨published, hkey⟩
    have field : ty.declaredFields.published = some published := by
      rw [ContentType.declaredFields, if_pos hpublished, hkey]
    have flag (n : Int64) : row.holds ty.publishedField (.int n) ↔
        row published = some (.int n) := by simp [Row.holds, hkey]
    have owns : row.holds ty.declaredFields.owner (.uint account.id) ↔
        ty.hasOwner = true ∧ Policy.Owns ty account row := by
      by_cases howner : ty.hasOwner = true <;>
        simp [ContentType.declaredFields, howner, Policy.Owns, Row.holds]
    by_cases hview : operation = "view"
    · rw [field, if_pos ⟨hview, hpublished⟩, flag, flag]
      simp only [hview, viewOperation, if_true, granted_viewGrants, owns, and_assoc]
    · rw [field, if_neg fun both => hview both.1]
      simp only [hview, viewOperation, if_false]
  · have field : ty.declaredFields.published = none := by
      rw [ContentType.declaredFields, if_neg hpublished]
    rw [field, if_neg fun both => hpublished both.2]

end Rows

/-- The filter made for an account admits the rows of the policy, and no others, whatever
the comparisons that it does not use mean.  It is made for every type that is not broken. -/
theorem filter_admits_iff {ty : ContentType} (h : ty.KeysResolve) (mode : GrantMode)
    (operation : String) (account : Account) (others : OtherComparisons) :
    ∃ t, filter mode operation ty account = .ok t ∧
      ∀ row : Row, t.admits others row = true ↔
        Policy.Admits operation ty account row mode := by
  unfold filter decide
  rw [h.roleFields_eq]
  by_cases hadmin : account.has ty.admin = true
  · refine ⟨unrestricted, by simp [hadmin, bind, Except.bind, Except.map, pure, Except.pure],
      fun row => ?_⟩
    simp [Policy.Admits, hadmin, admits_unrestricted]
  · refine ⟨_, by simp only [hadmin, bind, Except.bind, Except.map, pure, Except.pure]; rfl,
      fun row => ?_⟩
    rw [admits_getD_denied, granted_grants h, Policy.Admits, or_iff_right hadmin]

/-- A type with every role: an owner, a published flag and two bundles. -/
def contentWithBundles : ContentType :=
  (((ContentType.named "content").withOwner "uid").withPublished "status").withBundles
    "type" ["page", "article"]

/-- Someone who may view own pages and own unpublished content. -/
def pageAuthor : Account :=
  .ofPermissions 7 ["view own page content", "view own unpublished content"]

/-- The policy for the page author is what the filter made for them admits. -/
theorem filter_admits_iff_pageAuthor :
    contentWithBundles.KeysResolve ∧
    ∃ t, filter .uncacheable "view" contentWithBundles pageAuthor = .ok t ∧
      ∀ row : Row, t.admits (fun _ _ => false) row = true ↔
        Policy.Admits "view" contentWithBundles pageAuthor row .uncacheable := by
  have resolves : contentWithBundles.KeysResolve :=
    ⟨fun _ => ⟨"uid", rfl⟩, fun _ => ⟨"status", rfl⟩, fun _ => ⟨"type", rfl⟩⟩
  exact ⟨resolves, filter_admits_iff resolves .uncacheable "view" pageAuthor fun _ _ => false⟩

end Grant

end RowAccess
