import Mathlib.Tactic.ByContra
import RowAccess.Proofs.Grant.Identity

/-!
# What a filter says of the permissions it was made from

A filter follows from the permissions of an account, so it varies by them, and nearly every
filter says so.  One does not: that of an account that may view nothing of a type but its own
records that are not published.  Such a filter names the account as its only dependency, and
it is found again for the same account after its permissions have changed.

Main results:

- `Grant.baseGrants_eq_none_iff`: the permissions that grant anything, the published flag
  aside.
- `Grant.filter_varies_iff`: the filters that say that they vary by permissions.
- `Grant.filter_varies_of_ne`: of two different filters for one account one says so.
- `Grant.filter_drafts`: the filter that does not.
-/

namespace RowAccess

namespace Policy

variable (operation : String) (ty : ContentType) (account : Account) (mode : GrantMode)

/-- The account holds a permission that counts before the published flag is looked at. -/
def HoldsGrant : Prop :=
  if ty.hasOwner = true ∧ ¬ (operation = "view" ∧ mode = .cacheable) then
    account.has (operation ++ " any " ++ ty.id) = true ∨
    account.has (operation ++ " own " ++ ty.id) = true ∨
    ∃ bundle ∈ ty.bundles, account.has (operation ++ " any " ++ bundle ++ " " ++ ty.id) = true ∨
      account.has (operation ++ " own " ++ bundle ++ " " ++ ty.id) = true
  else
    account.has (operation ++ " " ++ ty.id) = true ∨
    ∃ bundle ∈ ty.bundles, account.has (operation ++ " " ++ bundle ++ " " ++ ty.id) = true

/-- All that the account may view of the type are its own records that are not published. -/
structure OwnDraftsOnly : Prop where
  viewing : operation = "view"
  published : ty.hasPublished = true
  owner : ty.hasOwner = true
  drafts : account.has ("view own unpublished " ++ ty.id) = true
  noAdmin : account.has ty.admin = false
  noGrant : ¬ HoldsGrant operation ty account mode

end Policy

/-- A type whose fields were found declares no role without a field. -/
theorem ContentType.keysResolve_of_roleFields {ty : ContentType} {fields : RoleFields}
    (h : ty.roleFields = .ok fields) : ty.KeysResolve ∧ fields = ty.declaredFields := by
  obtain ⟨owner, published, bundle, rfl⟩ := (roleFields_eq_ok_iff ty fields).1 h
  have present {declared : Bool} {key : Option String} (hk : lacks declared key = false)
      (hd : declared = true) : ∃ name, key = some name := by
    rw [lacks, hd, Bool.true_and, Option.isNone_eq_false_iff] at hk
    exact Option.isSome_iff_exists.1 hk
  exact ⟨⟨present owner, present published, present bundle⟩, rfl⟩

/-- A field that was found for the owner was declared. -/
theorem ContentType.hasOwner_of_declaredFields (ty : ContentType) {name : String}
    (h : ty.declaredFields.owner = some name) : ty.hasOwner = true := by
  by_contra undeclared
  simp [declaredFields, undeclared] at h

/-- A field that was found for the published flag was declared. -/
theorem ContentType.hasPublished_of_declaredFields (ty : ContentType) {name : String}
    (h : ty.declaredFields.published = some name) : ty.hasPublished = true := by
  by_contra undeclared
  simp [declaredFields, undeclared] at h

namespace Grant

variable {operation : String} {ty : ContentType} {account : Account} {mode : GrantMode}

/-! ## Who is granted anything -/

theorem ifAny_eq_none_iff {t : FilterTree} : ifAny t = none ↔ t.children = [] := by
  simp [ifAny, FilterTree.isEmpty]

theorem children_admitBundles_eq_nil_iff {t : FilterTree} {field : String}
    {bundles : List String} :
    (admitBundles t field bundles).children = [] ↔ t.children = [] ∧ bundles = [] := by
  unfold admitBundles
  split
  next h => simp [List.isEmpty_iff.1 h]
  next h => simp [FilterTree.addPredicate, List.isEmpty_iff.not.1 h]

theorem grantedBundles_eq_nil_iff {name : String → String} :
    grantedBundles ty account name = [] ↔
      ∀ bundle ∈ ty.bundles, account.has (name bundle) = false := by
  simp [grantedBundles]

theorem entityGrants_eq_none_iff {bundleField : Option String}
    (h : bundleField = none → ty.bundles = []) :
    entityGrants operation ty account bundleField = none ↔
      ¬ (account.has (operation ++ " " ++ ty.id) = true ∨
        ∃ bundle ∈ ty.bundles,
          account.has (operation ++ " " ++ bundle ++ " " ++ ty.id) = true) := by
  unfold entityGrants
  rw [permission_plain]
  split
  next plain => simp [plain]
  next plain =>
    cases bundleField with
    | none => simp [plain, h rfl]
    | some field =>
      rw [ifAny_eq_none_iff, children_admitBundles_eq_nil_iff, grantedBundles_eq_nil_iff]
      simp [plain, permission_bundle, unrestricted, FilterTree.addContexts, FilterTree.any]

theorem children_ownBundles_eq_nil_iff {t : FilterTree} {ownerField bundleField : String}
    {bundles : List String} :
    (if bundles.isEmpty then t
      else t.add (.tree (ownInBundles account ownerField bundleField bundles))).children = [] ↔
        t.children = [] ∧ bundles = [] := by
  split
  next h => simp [List.isEmpty_iff.1 h]
  next h =>
    have contributed : (FilterNode.tree
        (ownInBundles account ownerField bundleField bundles)).contribution ≠ [] :=
      List.cons_ne_nil _ _
    rw [FilterTree.children_add, List.append_eq_nil_iff]
    simp [contributed, List.isEmpty_iff.not.1 h]

theorem ownerGrants_eq_none_iff {ownerField : String} {bundleField : Option String}
    (h : bundleField = none → ty.bundles = []) :
    ownerGrants operation ty account ownerField bundleField = none ↔
      ¬ (account.has (operation ++ " any " ++ ty.id) = true ∨
        account.has (operation ++ " own " ++ ty.id) = true ∨
        ∃ bundle ∈ ty.bundles,
          account.has (operation ++ " any " ++ bundle ++ " " ++ ty.id) = true ∨
            account.has (operation ++ " own " ++ bundle ++ " " ++ ty.id) = true) := by
  unfold ownerGrants
  rw [permission_any, permission_own]
  split
  next plain => simp [plain]
  next plain =>
    have ofType : (if account.has (operation ++ " own " ++ ty.id) = true then
        admitOwn unrestricted account ownerField else unrestricted).children = [] ↔
          account.has (operation ++ " own " ++ ty.id) = false := by
      split
      next own => simp [own, admitOwn, FilterTree.addPredicate]
      next own => simpa [unrestricted, FilterTree.addContexts, FilterTree.any] using own
    cases bundleField with
    | none =>
      rw [ifAny_eq_none_iff, ofType]
      simp [plain, h rfl]
    | some field =>
      rw [ifAny_eq_none_iff, children_ownBundles_eq_nil_iff, children_admitBundles_eq_nil_iff,
        ofType, grantedBundles_eq_nil_iff, grantedBundles_eq_nil_iff]
      simp only [permission_any_bundle, permission_own_bundle]
      grind

/-- Before the published flag is looked at, an account is granted something if it holds a
permission that counts. -/
theorem baseGrants_eq_none_iff (h : ty.KeysResolve) :
    baseGrants mode operation ty ty.declaredFields account = none ↔
      ¬ Policy.HoldsGrant operation ty account mode := by
  -- A type with bundles has a field for them.
  have bundled : ty.declaredFields.bundle = none → ty.bundles = [] := by
    intro none
    by_cases uses : ty.usesBundles = true
    · obtain ⟨name, hname⟩ := h.bundle uses
      simp [ContentType.declaredFields, uses, hname] at none
    · simp only [ContentType.usesBundles, Bool.or_eq_true, not_or] at uses
      simpa using uses.2
  unfold baseGrants Policy.HoldsGrant
  by_cases howner : ty.hasOwner = true
  · obtain ⟨owner, hkey⟩ := h.owner howner
    have field : ty.declaredFields.owner = some owner := by
      rw [ContentType.declaredFields, if_pos howner, hkey]
    by_cases hview : operation = "view" ∧ mode = .cacheable
    · have cached : operation = viewOperation ∧ mode = .cacheable := hview
      rw [field, if_neg fun both => both.2 hview]
      simp only [if_pos cached, entityGrants_eq_none_iff bundled]
    · have owned : ¬ (operation = viewOperation ∧ mode = .cacheable) := hview
      rw [field, if_pos ⟨howner, hview⟩]
      simp only [if_neg owned, ownerGrants_eq_none_iff bundled]
  · have field : ty.declaredFields.owner = none := by
      rw [ContentType.declaredFields, if_neg howner]
    rw [field, if_neg fun both => howner both.1]
    exact entityGrants_eq_none_iff bundled

/-! ## Filters that say that they vary by permissions -/

/-- The filter says that it varies by permissions. -/
def Varies (t : FilterTree) : Prop := userPermissionsContext ∈ t.cacheability.contexts

instance (t : FilterTree) : Decidable (Varies t) :=
  inferInstanceAs (Decidable (userPermissionsContext ∈ t.cacheability.contexts))

theorem varies_unrestricted : Varies unrestricted := by decide

theorem varies_denied : Varies denied := by decide

theorem Varies.addContexts {t : FilterTree} (h : Varies t) (names : List String) :
    Varies (t.addContexts names) :=
  (FilterTree.mem_contexts_addContexts _ t names).2 (.inr h)

theorem Varies.addPredicate {t : FilterTree} (h : Varies t) (p : Predicate) :
    Varies (t.addPredicate p) :=
  (FilterTree.mem_contexts_addPredicate _ t p).2 h

theorem Varies.addTree {t : FilterTree} (h : Varies t) (u : FilterTree) :
    Varies (t.add (.tree u)) :=
  (FilterTree.mem_contexts_addTree _ t u).2 (.inl h)

theorem Varies.ofAddedTree {u : FilterTree} (h : Varies u) (t : FilterTree) :
    Varies (t.add (.tree u)) :=
  (FilterTree.mem_contexts_addTree _ t u).2 (.inr h)

/-- Nothing that is granted before the published flag is looked at loses the dependency. -/
theorem keptByGrants_varies : KeptByGrants account Varies where
  unrestricted := varies_unrestricted
  admitOwn _ _ h := (h.addContexts [userContext]).addPredicate _
  inBundles _ _ _ h := h.addPredicate _
  ownInBundles _ _ _ _ h := h.addTree _

theorem varies_publishedOnly (t : FilterTree) (field : String) : Varies (publishedOnly t field) :=
  have restricted : Varies (FilterTree.all.addContexts [userPermissionsContext]) := by decide
  (restricted.addTree t).addPredicate _

/-- The filter for own records that are not published names the account only. -/
theorem not_varies_ownUnpublished (account : Account) (ownerField publishedField : String) :
    ¬ Varies (ownUnpublished account ownerField publishedField) := by
  have tagged : ¬ Varies (FilterTree.all.addContexts [userContext]) := by decide
  rw [Varies, ownUnpublished, FilterTree.mem_contexts_addPredicate,
    FilterTree.mem_contexts_addPredicate]
  exact tagged

/-- What may be viewed of a type with a published flag varies by permissions, unless nothing
was granted before the flag was looked at. -/
theorem varies_iff_of_mem_viewGrants {granted : Option FilterTree} {publishedField : String}
    {ownerField : Option String} {t : FilterTree}
    (h : t ∈ viewGrants ty account granted publishedField ownerField) :
    Varies t ↔ granted ≠ none := by
  rw [viewGrants_eq] at h
  cases granted with
  | none =>
    have drafts : t ∈ ownDrafts ty account publishedField ownerField := h
    unfold ownDrafts at drafts
    split at drafts
    · obtain ⟨field, -, rfl⟩ := Option.map_eq_some_iff.1 drafts
      exact iff_of_false (not_varies_ownUnpublished account field publishedField) (by simp)
    · cases drafts
  | some g =>
    have published := varies_publishedOnly g publishedField
    refine iff_of_true ?_ (by simp)
    cases hu : ownDrafts ty account publishedField ownerField with
    | none =>
      rw [hu] at h
      cases h
      exact published
    | some u =>
      rw [hu] at h
      cases h
      exact (published.ofAddedTree .any).addTree u

/-- An account that may view only own records that are not published gets the filter for
them. -/
theorem filter_drafts {a : Account} (h : Policy.OwnDraftsOnly operation ty a mode)
    (hty : ty.KeysResolve) :
    ∃ owner published, ty.ownerField = some owner ∧ ty.publishedField = some published ∧
      filter mode operation ty a = .ok (ownUnpublished a owner published) := by
  obtain ⟨owner, howner⟩ := hty.owner h.owner
  obtain ⟨published, hpublished⟩ := hty.published h.published
  have fields : ty.declaredFields.owner = some owner ∧
      ty.declaredFields.published = some published := by
    simp [ContentType.declaredFields, h.owner, h.published, howner, hpublished]
  have viewing : operation = viewOperation := h.viewing
  have made : grants mode operation ty ty.declaredFields a =
      some (ownUnpublished a owner published) := by
    rw [grants_eq, fields.2]
    simp only [if_pos viewing, viewGrants_eq, (baseGrants_eq_none_iff hty).2 h.noGrant,
      ownDrafts, permission_own_unpublished, h.drafts, fields.1]
    rfl
  refine ⟨owner, published, howner, hpublished, ?_⟩
  unfold filter decide
  rw [hty.roleFields_eq]
  simp [bind, Except.bind, pure, Except.pure, Except.map, h.noAdmin, made]

/-- A filter that does not say that it varies by permissions is for own records that are not
published. -/
theorem ownDraftsOnly_of_not_varies {t : FilterTree}
    (h : filter mode operation ty account = .ok t) (ht : ¬ Varies t) :
    Policy.OwnDraftsOnly operation ty account mode := by
  obtain ⟨fields, hfields, ⟨admin, rfl⟩ | ⟨admin, rfl⟩⟩ := filter_eq_ok h
  · exact absurd varies_unrestricted ht
  obtain ⟨resolves, rfl⟩ := ContentType.keysResolve_of_roleFields hfields
  cases hg : grants mode operation ty ty.declaredFields account with
  | none =>
    rw [hg] at ht
    exact absurd varies_denied ht
  | some g =>
    rw [hg, Option.getD_some] at ht
    rw [grants_eq] at hg
    split at hg
    next published hpublished =>
      split at hg
      next viewing =>
        have nothing := not_not.1 ((varies_iff_of_mem_viewGrants hg).not.1 ht)
        rw [viewGrants_eq, nothing] at hg
        -- With nothing granted before, the filter is the one for own drafts.
        have drafts : ownDrafts ty account published ty.declaredFields.owner = some g := hg
        unfold ownDrafts at drafts
        split at drafts
        next held =>
          obtain ⟨owner, howner, -⟩ := Option.map_eq_some_iff.1 drafts
          exact
            { viewing := viewing
              published := ty.hasPublished_of_declaredFields hpublished
              owner := ty.hasOwner_of_declaredFields howner
              drafts := held
              noAdmin := admin
              noGrant := (baseGrants_eq_none_iff resolves).1 nothing }
        next => cases drafts
      next => exact absurd (keptByGrants_varies.of_mem_baseGrants hg) ht
    next => exact absurd (keptByGrants_varies.of_mem_baseGrants hg) ht

/-- Every filter says that it varies by permissions, but for that of an account that may view
only own records that are not published. -/
theorem filter_varies_iff {t : FilterTree} (h : filter mode operation ty account = .ok t) :
    Varies t ↔ ¬ Policy.OwnDraftsOnly operation ty account mode := by
  constructor
  · intro varies only
    obtain ⟨fields, hfields, -⟩ := filter_eq_ok h
    obtain ⟨resolves, -⟩ := ContentType.keysResolve_of_roleFields hfields
    obtain ⟨owner, published, -, -, made⟩ := filter_drafts only resolves
    obtain rfl := Except.ok.inj (h.symm.trans made)
    exact not_varies_ownUnpublished account owner published varies
  · intro other
    by_contra ht
    exact other (ownDraftsOnly_of_not_varies h ht)

/-! ## Two filters for one account -/

/-- If the filters made for an account with two sets of permissions differ, each of them says
that it varies by permissions unless it is for own records that are not published only, and at
least one of them does. -/
theorem filter_varies_of_ne {a b : Account} {t u : FilterTree} (ids : a.id = b.id)
    (ht : filter mode operation ty a = .ok t) (hu : filter mode operation ty b = .ok u)
    (differ : t ≠ u) :
    (userPermissionsContext ∈ t.cacheability.contexts ↔
      ¬ Policy.OwnDraftsOnly operation ty a mode) ∧
    (userPermissionsContext ∈ u.cacheability.contexts ↔
      ¬ Policy.OwnDraftsOnly operation ty b mode) ∧
    (userPermissionsContext ∈ t.cacheability.contexts ∨
      userPermissionsContext ∈ u.cacheability.contexts) := by
  have left : userPermissionsContext ∈ t.cacheability.contexts ↔
      ¬ Policy.OwnDraftsOnly operation ty a mode := filter_varies_iff ht
  have right : userPermissionsContext ∈ u.cacheability.contexts ↔
      ¬ Policy.OwnDraftsOnly operation ty b mode := filter_varies_iff hu
  refine ⟨left, right, ?_⟩
  rw [left, right, ← not_and_or]
  rintro ⟨ofLeft, ofRight⟩
  obtain ⟨fields, hfields, -⟩ := filter_eq_ok ht
  obtain ⟨resolves, -⟩ := ContentType.keysResolve_of_roleFields hfields
  obtain ⟨owner, published, howner, hpublished, madeLeft⟩ := filter_drafts ofLeft resolves
  obtain ⟨owner', published', howner', hpublished', madeRight⟩ := filter_drafts ofRight resolves
  obtain rfl := Option.some.inj (howner.symm.trans howner')
  obtain rfl := Option.some.inj (hpublished.symm.trans hpublished')
  have same : ownUnpublished a owner published = ownUnpublished b owner published := by
    rw [ownUnpublished, ownUnpublished, ownedBy, ownedBy, ids]
  apply differ
  rw [Except.ok.inj (ht.symm.trans madeLeft), Except.ok.inj (hu.symm.trans madeRight), same]

/-! ## The permission is taken away -/

/-- A type with an owner and a published flag. -/
def ownedContent : ContentType := ((ContentType.named "content").withOwner "uid").withPublished
  "status"

/-- Someone who may view own unpublished content. -/
def draftAuthor : Account := .ofPermissions 7 ["view own unpublished content"]

/-- The same account without the permission. -/
def formerAuthor : Account := .ofPermissions 7 []

/-- The filter without the permission admits nothing and says that it varies by permissions;
the one with the permission does not say so. -/
theorem filter_varies_of_ne_draftAuthor :
    filter .cacheable "view" ownedContent draftAuthor =
      .ok (ownUnpublished draftAuthor "uid" "status") ∧
    filter .cacheable "view" ownedContent formerAuthor = .ok denied ∧
    ¬ (Policy.OwnDraftsOnly "view" ownedContent formerAuthor .cacheable) ∧
    Policy.OwnDraftsOnly "view" ownedContent draftAuthor .cacheable := by
  have made : filter .cacheable "view" ownedContent draftAuthor =
      .ok (ownUnpublished draftAuthor "uid" "status") := rfl
  have denies : filter .cacheable "view" ownedContent formerAuthor = .ok denied := rfl
  have differ : ownUnpublished draftAuthor "uid" "status" ≠ denied := by decide
  have ids : draftAuthor.id = formerAuthor.id := rfl
  obtain ⟨drafts, others, -⟩ := filter_varies_of_ne ids made denies differ
  exact ⟨made, denies, others.1 (by decide), not_not.1 fun h => absurd (drafts.2 h) (by decide)⟩

/-- Two different filters for one account, the first of which does not say that it varies by
permissions. -/
theorem filter_silent_draftAuthor :
    draftAuthor.id = formerAuthor.id ∧ draftAuthor.permissions ≠ formerAuthor.permissions ∧
    ∃ t u, filter .cacheable "view" ownedContent draftAuthor = .ok t ∧
      filter .cacheable "view" ownedContent formerAuthor = .ok u ∧ t ≠ u ∧
      userPermissionsContext ∉ t.cacheability.contexts :=
  ⟨rfl, by decide, ownUnpublished draftAuthor "uid" "status", denied, rfl, rfl, by decide,
    by decide⟩

end Grant

end RowAccess
