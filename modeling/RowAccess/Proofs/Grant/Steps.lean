import RowAccess.Proofs.Grant.Policy

/-!
# How a filter comes about

A filter is put together in a few steps: it starts from what restricts nothing, admits own
records or the records of bundles, and for viewing it is restricted to published records and
joined by the account's own drafts.  A property that each step keeps holds of every filter.

Main results:

- `Grant.filter_eq_ok`: what a filter is made from.
- `Grant.KeptByGrants.of_mem_baseGrants`: a property of what is granted before the published
  flag is looked at.
- `Grant.KeptByFilters.of_filter`: a property of every filter.
-/

namespace RowAccess

namespace Grant

/-! ## How a filter comes about -/

/-- A filter is made for a type that is not broken: nothing is restricted for an account that
administers the type, and any other account gets what is granted to it. -/
theorem filter_eq_ok {mode : GrantMode} {operation : String} {ty : ContentType}
    {account : Account} {t : FilterTree} (h : filter mode operation ty account = .ok t) :
    ∃ fields, ty.roleFields = .ok fields ∧
      (account.has ty.admin = true ∧ t = unrestricted ∨
        account.has ty.admin = false ∧
          t = (grants mode operation ty fields account).getD denied) := by
  unfold filter decide at h
  cases hf : ty.roleFields with
  | error e =>
    rw [hf] at h
    cases h
  | ok fields =>
    rw [hf] at h
    simp only [bind, Except.bind, pure, Except.pure] at h
    refine ⟨fields, rfl, ?_⟩
    split at h
    next admin =>
      cases h
      exact .inl ⟨admin, rfl⟩
    next admin =>
      cases h
      exact .inr ⟨by simpa using admin, rfl⟩

/-! ## The two parts of viewing -/

/-- What either of two partial results grants. -/
def either : Option FilterTree → Option FilterTree → Option FilterTree
  | some p, some u => some ((FilterTree.any.add (.tree p)).add (.tree u))
  | some p, none => some p
  | none, u => u

/-- The account's own records that are not published, if it may view them. -/
def ownDrafts (ty : ContentType) (account : Account) (publishedField : String)
    (ownerField : Option String) : Option FilterTree :=
  if account.has (permission ["view own unpublished", ty.id]) then
    ownerField.map fun field => ownUnpublished account field publishedField
  else none

theorem viewGrants_eq (ty : ContentType) (account : Account) (granted : Option FilterTree)
    (publishedField : String) (ownerField : Option String) :
    viewGrants ty account granted publishedField ownerField =
      either (granted.map fun t => publishedOnly t publishedField)
        (ownDrafts ty account publishedField ownerField) := by
  unfold viewGrants
  generalize (granted.map fun t => publishedOnly t publishedField) = published
  change (match published, ownDrafts ty account publishedField ownerField with
    | some p, some u => some ((FilterTree.any.add (.tree p)).add (.tree u))
    | some p, none => some p
    | none, u => u) = _
  cases published <;> cases ownDrafts ty account publishedField ownerField <;> rfl

/-! ## Properties that the steps keep -/

/-- A property that is kept while it is collected what is granted, the published flag aside. -/
structure KeptByGrants (account : Account) (P : FilterTree → Prop) : Prop where
  unrestricted : P unrestricted
  admitOwn : ∀ t field, P t → P (admitOwn t account field)
  inBundles : ∀ t field bundles, P t → P (t.addPredicate (inBundles field bundles))
  ownInBundles : ∀ t ownerField bundleField bundles, P t →
    P (t.add (.tree (ownInBundles account ownerField bundleField bundles)))

/-- A property that is kept by every step in which a filter is put together. -/
structure KeptByFilters (account : Account) (P : FilterTree → Prop) : Prop extends
    KeptByGrants account P where
  denied : P denied
  publishedOnly : ∀ t field, P t → P (publishedOnly t field)
  ownUnpublished : ∀ ownerField publishedField, P (ownUnpublished account ownerField publishedField)
  either : ∀ t u, P t → P u → P ((FilterTree.any.add (.tree t)).add (.tree u))

section Kept

variable {account : Account} {P : FilterTree → Prop} {mode : GrantMode} {operation : String}
  {ty : ContentType} {fields : ContentType.RoleFields} {t r : FilterTree}

/-- What was collected is granted as it is, if it is. -/
theorem eq_of_mem_ifAny (h : r ∈ ifAny t) : r = t := by
  unfold ifAny at h
  split at h
  · cases h
  · cases h
    rfl

namespace KeptByGrants

variable (kept : KeptByGrants account P)
include kept

theorem admitBundles (ht : P t) (field : String) (bundles : List String) :
    P (admitBundles t field bundles) := by
  unfold Grant.admitBundles
  split
  · exact ht
  · exact kept.inBundles t field bundles ht

theorem of_mem_entityGrants {bundleField : Option String}
    (h : t ∈ entityGrants operation ty account bundleField) : P t := by
  unfold entityGrants at h
  split at h
  · cases h
    exact kept.unrestricted
  · cases bundleField with
    | none => cases h
    | some field =>
      rw [eq_of_mem_ifAny h]
      exact kept.admitBundles kept.unrestricted field _

theorem of_mem_ownerGrants {ownerField : String} {bundleField : Option String}
    (h : t ∈ ownerGrants operation ty account ownerField bundleField) : P t := by
  unfold ownerGrants at h
  split at h
  · cases h
    exact kept.unrestricted
  · have ofType : P (if account.has (permission [operation, "own", ty.id]) = true then
        Grant.admitOwn Grant.unrestricted account ownerField else Grant.unrestricted) := by
      split
      · exact kept.admitOwn _ ownerField kept.unrestricted
      · exact kept.unrestricted
    cases bundleField with
    | none =>
      rw [eq_of_mem_ifAny h]
      exact ofType
    | some field =>
      rw [eq_of_mem_ifAny h]
      split
      · exact kept.admitBundles ofType field _
      · exact kept.ownInBundles _ ownerField field _ (kept.admitBundles ofType field _)

/-- A property that the steps keep holds of what is granted before the published flag is looked
at. -/
theorem of_mem_baseGrants (h : t ∈ baseGrants mode operation ty fields account) : P t := by
  unfold baseGrants at h
  split at h
  · split at h
    · exact kept.of_mem_entityGrants h
    · exact kept.of_mem_ownerGrants h
  · exact kept.of_mem_entityGrants h

end KeptByGrants

namespace KeptByFilters

variable (kept : KeptByFilters account P)
include kept

theorem of_mem_either {p u : Option FilterTree} (hp : ∀ r ∈ p, P r) (hu : ∀ r ∈ u, P r)
    (h : t ∈ Grant.either p u) : P t := by
  cases p with
  | none => exact hu t h
  | some published =>
    cases u with
    | none => exact hp t h
    | some unpublished =>
      cases h
      exact kept.either _ _ (hp published rfl) (hu unpublished rfl)

theorem of_mem_viewGrants {granted : Option FilterTree} {publishedField : String}
    {ownerField : Option String} (hgranted : ∀ g ∈ granted, P g)
    (h : t ∈ viewGrants ty account granted publishedField ownerField) : P t := by
  have published : ∀ p ∈ granted.map fun g => Grant.publishedOnly g publishedField, P p := by
    intro p hp
    obtain ⟨g, hg, rfl⟩ := Option.map_eq_some_iff.1 hp
    exact kept.publishedOnly g publishedField (hgranted g hg)
  have unpublished : ∀ u ∈ ownDrafts ty account publishedField ownerField, P u := by
    intro u hu
    unfold ownDrafts at hu
    split at hu
    · obtain ⟨field, -, rfl⟩ := Option.map_eq_some_iff.1 hu
      exact kept.ownUnpublished field publishedField
    · cases hu
  rw [viewGrants_eq] at h
  exact kept.of_mem_either published unpublished h

theorem of_mem_grants (h : t ∈ grants mode operation ty fields account) : P t := by
  rw [grants_eq] at h
  split at h
  · split at h
    · exact kept.of_mem_viewGrants (fun _ => kept.of_mem_baseGrants) h
    · exact kept.of_mem_baseGrants h
  · exact kept.of_mem_baseGrants h

/-- A property that the steps keep holds of every filter. -/
theorem of_filter (h : filter mode operation ty account = .ok t) : P t := by
  obtain ⟨fields, -, ⟨-, rfl⟩ | ⟨-, rfl⟩⟩ := filter_eq_ok h
  · exact kept.unrestricted
  · cases hg : grants mode operation ty fields account with
    | none => exact kept.denied
    | some g => exact kept.of_mem_grants hg

end KeptByFilters

end Kept

end Grant

end RowAccess
