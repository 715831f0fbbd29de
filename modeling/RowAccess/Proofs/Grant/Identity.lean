import Mathlib.Logic.Basic
import RowAccess.Proofs.Filter.Operands
import RowAccess.Proofs.Grant.Steps

/-!
# What a filter shows of who it is for

Two accounts with the same permissions get the same filter, up to the number of the account
wherever one stands in it.  A filter with a number in it is of no use to anyone else, and the
cache must be told: the context of the account is among the dependencies of a filter exactly
if the number of the account is among its operands.

The first fact relates two runs, the second is about one run only.  Both follow the steps in
which a filter is put together.

Main results:

- `Grant.filter_exchange`: the filter for another account with the same permissions.
- `Grant.signed_filter`: the dependency of a filter with an account's number in it.
- `Grant.filter_differs_iff`: two filters differ exactly if they say that they vary by account.
-/

namespace RowAccess

/-! ## Numbers of accounts -/

/-- Puts the number of one account where that of another stood. -/
def Value.exchange (a b : Account) (v : Value) : Value :=
  if v = .uint a.id then .uint b.id else v

theorem Value.exchange_of_ne {a b : Account} {v : Value} (h : v ≠ .uint a.id) :
    v.exchange a b = v := if_neg h

theorem Value.exchange_eq_self_iff {a b : Account} (h : a.id ≠ b.id) (v : Value) :
    v.exchange a b = v ↔ v ≠ .uint a.id := by
  constructor
  · rintro same rfl
    rw [exchange, if_pos rfl] at same
    exact h (Value.uint.inj same).symm
  · exact exchange_of_ne

/-- An equality with another operand of the same shape. -/
theorem Predicate.mapValue_equals {f : Value → Value} {v : Value}
    (h : (f v).isList = v.isList) (field : String) :
    (equals field v).mapValue f = equals field (f v) := by
  have compares : (defaultOp v).isNullCheck = false := by
    unfold defaultOp
    split <;> rfl
  rw [mapValue, equals, equals, make_field, make_op, make_of_not_isNullCheck compares,
    defaultOp, defaultOp, h]

/-- An exchange changes exactly the predicates that compare with the number. -/
theorem Predicate.mapValue_exchange_eq_self_iff {a b : Account} (h : a.id ≠ b.id)
    (p : Predicate) : p.mapValue (Value.exchange a b) = p ↔ p.value ≠ .uint a.id := by
  rw [← Value.exchange_eq_self_iff h]
  rcases p with ⟨field, op, value, null⟩
  by_cases hop : op.isNullCheck = true
  · obtain rfl := null hop
    simp [mapValue, make, hop, Value.exchange]
  · simp [mapValue, make, hop]

namespace Grant

/-! ## The filter for another account -/

section Exchange

variable {a b : Account}

theorem mapValue_ownedBy (a b : Account) (field : String) :
    (ownedBy a field).mapValue (Value.exchange a b) = ownedBy b field := by
  have number : (toValue a.id : Value).exchange a b = toValue b.id := if_pos rfl
  rw [ownedBy, Predicate.mapValue_equals, number]
  · rfl
  · rw [number]
    rfl

theorem mapValue_inBundles (a b : Account) (field : String) (bundles : List String) :
    (inBundles field bundles).mapValue (Value.exchange a b) = inBundles field bundles := by
  have kept : (Value.ofTexts bundles).exchange a b = .ofTexts bundles :=
    Value.exchange_of_ne (by simp [Value.ofTexts])
  rw [inBundles, Predicate.mapValue_equals, kept]
  rw [kept]

theorem mapValue_flag (a b : Account) (field : String) (n : Int64) :
    (Predicate.equals field (.int n)).mapValue (Value.exchange a b) =
      .equals field (.int n) := by
  have kept : (Value.int n).exchange a b = .int n := Value.exchange_of_ne (by simp)
  rw [Predicate.mapValue_equals, kept]
  rw [kept]

@[simp] theorem mapValues_unrestricted (f : Value → Value) :
    unrestricted.mapValues f = unrestricted := rfl

theorem mapValues_admitBundles (a b : Account) (t : FilterTree) (field : String)
    (bundles : List String) :
    (admitBundles t field bundles).mapValues (Value.exchange a b) =
      admitBundles (t.mapValues (Value.exchange a b)) field bundles := by
  unfold admitBundles
  split
  · rfl
  · rw [FilterTree.mapValues_addPredicate, mapValue_inBundles]

theorem mapValues_admitOwn (a b : Account) (t : FilterTree) (field : String) :
    (admitOwn t a field).mapValues (Value.exchange a b) =
      admitOwn (t.mapValues (Value.exchange a b)) b field := by
  simp [admitOwn, mapValue_ownedBy]

theorem mapValues_ownInBundles (a b : Account) (ownerField bundleField : String)
    (bundles : List String) :
    (ownInBundles a ownerField bundleField bundles).mapValues (Value.exchange a b) =
      ownInBundles b ownerField bundleField bundles := by
  have empty : FilterTree.all.mapValues (Value.exchange a b) = .all := rfl
  simp [ownInBundles, mapValue_ownedBy, mapValue_inBundles, empty]

theorem map_ifAny (f : Value → Value) (t : FilterTree) :
    (ifAny t).map (FilterTree.mapValues f) = ifAny (t.mapValues f) := by
  simp only [ifAny, FilterTree.isEmpty_mapValues]
  split <;> rfl

theorem has_eq (h : a.permissions = b.permissions) (name : String) : a.has name = b.has name := by
  rw [Account.has, Account.has, h]

theorem grantedBundles_eq (h : a.permissions = b.permissions) (ty : ContentType)
    (name : String → String) : grantedBundles ty a name = grantedBundles ty b name := by
  simp only [grantedBundles, has_eq h]

/-- Grants without an owner do not show the account at all. -/
theorem entityGrants_exchange (h : a.permissions = b.permissions) (operation : String)
    (ty : ContentType) (bundleField : Option String) :
    (entityGrants operation ty a bundleField).map (FilterTree.mapValues (Value.exchange a b)) =
      entityGrants operation ty b bundleField := by
  unfold entityGrants
  simp only [has_eq h, grantedBundles_eq h]
  split
  · rfl
  · cases bundleField with
    | none => rfl
    | some field => rw [map_ifAny, mapValues_admitBundles, mapValues_unrestricted]

theorem ownerGrants_exchange (h : a.permissions = b.permissions) (operation : String)
    (ty : ContentType) (ownerField : String) (bundleField : Option String) :
    (ownerGrants operation ty a ownerField bundleField).map
        (FilterTree.mapValues (Value.exchange a b)) =
      ownerGrants operation ty b ownerField bundleField := by
  unfold ownerGrants
  simp only [has_eq h, grantedBundles_eq h]
  split
  · rfl
  · have ofType : (if b.has (permission [operation, "own", ty.id]) = true then
          admitOwn unrestricted a ownerField else unrestricted).mapValues
            (Value.exchange a b) =
        if b.has (permission [operation, "own", ty.id]) = true then
          admitOwn unrestricted b ownerField else unrestricted := by
      split
      · rw [mapValues_admitOwn, mapValues_unrestricted]
      · rfl
    cases bundleField with
    | none => rw [map_ifAny, ofType]
    | some field =>
      simp only [map_ifAny]
      split
      · rw [mapValues_admitBundles, ofType]
      · rw [FilterTree.mapValues_add, FilterNode.mapValues, mapValues_admitBundles, ofType,
          mapValues_ownInBundles]

theorem mapValues_publishedOnly (a b : Account) (t : FilterTree) (field : String) :
    (publishedOnly t field).mapValues (Value.exchange a b) =
      publishedOnly (t.mapValues (Value.exchange a b)) field := by
  have empty : FilterTree.all.mapValues (Value.exchange a b) = .all := rfl
  simp [publishedOnly, mapValue_flag, FilterNode.mapValues, empty]

theorem mapValues_ownUnpublished (a b : Account) (ownerField publishedField : String) :
    (ownUnpublished a ownerField publishedField).mapValues (Value.exchange a b) =
      ownUnpublished b ownerField publishedField := by
  have empty : FilterTree.all.mapValues (Value.exchange a b) = .all := rfl
  simp [ownUnpublished, mapValue_ownedBy, mapValue_flag, empty]

theorem ownDrafts_exchange (h : a.permissions = b.permissions) (ty : ContentType)
    (publishedField : String) (ownerField : Option String) :
    (ownDrafts ty a publishedField ownerField).map (FilterTree.mapValues (Value.exchange a b)) =
      ownDrafts ty b publishedField ownerField := by
  unfold ownDrafts
  rw [has_eq h]
  split
  · cases ownerField with
    | none => rfl
    | some field => exact congrArg some (mapValues_ownUnpublished a b field publishedField)
  · rfl

theorem map_either (f : Value → Value) (p u : Option FilterTree) :
    (either p u).map (FilterTree.mapValues f) =
      either (p.map (FilterTree.mapValues f)) (u.map (FilterTree.mapValues f)) := by
  have empty : FilterTree.any.mapValues f = .any := rfl
  cases p <;> cases u <;> simp [either, FilterNode.mapValues, empty]

theorem viewGrants_exchange (h : a.permissions = b.permissions) (ty : ContentType)
    (granted : Option FilterTree) (publishedField : String) (ownerField : Option String) :
    (viewGrants ty a granted publishedField ownerField).map
        (FilterTree.mapValues (Value.exchange a b)) =
      viewGrants ty b (granted.map (FilterTree.mapValues (Value.exchange a b)))
        publishedField ownerField := by
  have published : (granted.map fun t => publishedOnly t publishedField).map
      (FilterTree.mapValues (Value.exchange a b)) =
        (granted.map (FilterTree.mapValues (Value.exchange a b))).map
          fun t => publishedOnly t publishedField := by
    cases granted with
    | none => rfl
    | some t => exact congrArg some (mapValues_publishedOnly a b t publishedField)
  rw [viewGrants_eq, viewGrants_eq, map_either, published, ownDrafts_exchange h]

theorem baseGrants_exchange (h : a.permissions = b.permissions) (mode : GrantMode)
    (operation : String) (ty : ContentType) (fields : ContentType.RoleFields) :
    (baseGrants mode operation ty fields a).map (FilterTree.mapValues (Value.exchange a b)) =
      baseGrants mode operation ty fields b := by
  unfold baseGrants
  split
  · split
    · exact entityGrants_exchange h _ _ _
    · exact ownerGrants_exchange h _ _ _ _
  · exact entityGrants_exchange h _ _ _

theorem grants_exchange (h : a.permissions = b.permissions) (mode : GrantMode)
    (operation : String) (ty : ContentType) (fields : ContentType.RoleFields) :
    (grants mode operation ty fields a).map (FilterTree.mapValues (Value.exchange a b)) =
      grants mode operation ty fields b := by
  rw [grants_eq, grants_eq]
  split
  · split
    · rw [viewGrants_exchange h, baseGrants_exchange h]
    · exact baseGrants_exchange h _ _ _ _
  · exact baseGrants_exchange h _ _ _ _

/-- The filter for another account with the same permissions is the same filter with the
number of the account exchanged. -/
theorem filter_exchange (h : a.permissions = b.permissions) (mode : GrantMode)
    (operation : String) (ty : ContentType) :
    filter mode operation ty b =
      (filter mode operation ty a).map (FilterTree.mapValues (Value.exchange a b)) := by
  have admin : b.has ty.admin = a.has ty.admin := (has_eq h _).symm
  unfold filter decide
  cases ty.roleFields with
  | error e => rfl
  | ok fields =>
    simp only [bind, Except.bind, pure, Except.pure, admin]
    split
    · rfl
    · simp only [Except.map, ← grants_exchange h]
      cases grants mode operation ty fields a <;> rfl

end Exchange

/-! ## The dependency of a filter with a number in it -/

/-- The number of an account is an operand of a filter. -/
def Names (account : Account) (t : FilterTree) : Prop :=
  ∃ p ∈ t.predicates, p.value = .uint account.id

/-- A filter says that it varies by account exactly if it has the number of the account in it. -/
def Signed (account : Account) (t : FilterTree) : Prop :=
  userContext ∈ t.cacheability.contexts ↔ Names account t

section OneRun

variable {account : Account} {t u : FilterTree}

theorem names_addContexts (names : List String) :
    Names account (t.addContexts names) ↔ Names account t := by
  rw [Names, FilterTree.predicates_addContexts, Names]

theorem names_addPredicate (p : Predicate) :
    Names account (t.addPredicate p) ↔ Names account t ∨ p.value = .uint account.id := by
  simp [Names, or_and_right, exists_or]

theorem names_addTree (u : FilterTree) :
    Names account (t.add (.tree u)) ↔ Names account t ∨ Names account u := by
  simp [Names, FilterNode.predicates, or_and_right, exists_or]

theorem value_ownedBy (account : Account) (field : String) :
    (ownedBy account field).value = .uint account.id := rfl

theorem value_inBundles_ne (account : Account) (field : String) (bundles : List String) :
    (inBundles field bundles).value ≠ .uint account.id := by
  have bundled : (inBundles field bundles).value = .ofTexts bundles := rfl
  simp [bundled, Value.ofTexts]

theorem value_flag_ne (account : Account) (field : String) (n : Int64) :
    (Predicate.equals field (.int n)).value ≠ .uint account.id := by
  have flag : (Predicate.equals field (.int n)).value = .int n := rfl
  simp [flag]

/-! ### Steps that keep the two together -/

theorem signed_all : Signed account .all :=
  iff_of_false (NameSet.not_mem_empty _) nofun

theorem signed_any : Signed account .any :=
  iff_of_false (NameSet.not_mem_empty _) nofun

theorem Signed.addContexts (h : Signed account t) {names : List String}
    (hn : userContext ∉ names) : Signed account (t.addContexts names) := by
  rw [Signed, FilterTree.mem_contexts_addContexts, names_addContexts, or_iff_right hn]
  exact h

/-- A predicate that does not compare with the number adds neither. -/
theorem Signed.addPredicate (h : Signed account t) {p : Predicate}
    (hp : p.value ≠ .uint account.id) : Signed account (t.addPredicate p) := by
  rw [Signed, FilterTree.mem_contexts_addPredicate, names_addPredicate, or_iff_left hp]
  exact h

/-- A tree brings its own dependency and its own operands along. -/
theorem Signed.addTree (h : Signed account t) (hu : Signed account u) :
    Signed account (t.add (.tree u)) := by
  rw [Signed, FilterTree.mem_contexts_addTree, names_addTree]
  exact or_congr h hu

theorem signed_unrestricted : Signed account unrestricted :=
  signed_any.addContexts (by decide)

theorem signed_denied : Signed account denied :=
  iff_of_false (by decide) nofun

/-- Own records are admitted with the number and with the dependency. -/
theorem signed_admitOwn (t : FilterTree) (field : String) :
    Signed account (admitOwn t account field) := by
  refine iff_of_true ?_ ?_
  · rw [admitOwn, FilterTree.mem_contexts_addPredicate, FilterTree.mem_contexts_addContexts]
    exact .inl (List.mem_singleton_self _)
  · rw [admitOwn, names_addPredicate]
    exact .inr (value_ownedBy account field)

theorem signed_ownInBundles (ownerField bundleField : String) (bundles : List String) :
    Signed account (ownInBundles account ownerField bundleField bundles) := by
  refine iff_of_true ?_ ?_
  · rw [ownInBundles, FilterTree.mem_contexts_addContexts]
    exact .inl (List.mem_singleton_self _)
  · rw [ownInBundles, names_addContexts, names_addPredicate, names_addPredicate]
    exact .inl (.inr (value_ownedBy account ownerField))

theorem Signed.publishedOnly (h : Signed account t) (field : String) :
    Signed account (publishedOnly t field) :=
  ((signed_all.addContexts (by decide)).addTree h).addPredicate (value_flag_ne account field 1)

theorem signed_ownUnpublished (ownerField publishedField : String) :
    Signed account (ownUnpublished account ownerField publishedField) :=
  (signed_admitOwn .all ownerField).addPredicate (value_flag_ne account publishedField 0)

/-- Every step in which a filter is put together keeps the two together. -/
theorem keptByFilters_signed : KeptByFilters account (Signed account) where
  unrestricted := signed_unrestricted
  admitOwn t field _ := signed_admitOwn t field
  inBundles _ field bundles h := h.addPredicate (value_inBundles_ne account field bundles)
  ownInBundles _ ownerField bundleField bundles h :=
    h.addTree (signed_ownInBundles ownerField bundleField bundles)
  denied := signed_denied
  publishedOnly _ field h := h.publishedOnly field
  ownUnpublished := signed_ownUnpublished
  either _ _ ht hu := (signed_any.addTree ht).addTree hu

/-- A filter says that it varies by account exactly if the number of the account is in it. -/
theorem signed_filter {mode : GrantMode} {operation : String} {ty : ContentType}
    (h : filter mode operation ty account = .ok t) : Signed account t :=
  keptByFilters_signed.of_filter h

end OneRun

/-! ## Two accounts with the same permissions -/

/-- For two accounts with the same permissions, either no filter is made for either of them
and for the same reason, or the two filters have the same contexts, and they differ exactly
if the context of the account is one of them. -/
theorem filter_differs_iff {a b : Account} (permissions : a.permissions = b.permissions)
    (ids : a.id ≠ b.id) (mode : GrantMode) (operation : String) (ty : ContentType) :
    (∃ e, filter mode operation ty a = .error e ∧ filter mode operation ty b = .error e) ∨
    ∃ t u, filter mode operation ty a = .ok t ∧ filter mode operation ty b = .ok u ∧
      t.cacheability.contexts = u.cacheability.contexts ∧
      (t ≠ u ↔ userContext ∈ t.cacheability.contexts) := by
  have other := filter_exchange permissions mode operation ty
  cases h : filter mode operation ty a with
  | error e => exact .inl ⟨e, rfl, by rw [other, h]; rfl⟩
  | ok t =>
    refine .inr ⟨t, t.mapValues (Value.exchange a b), rfl, by rw [other, h]; rfl, ?_, ?_⟩
    · rw [FilterTree.cacheability_mapValues]
    · have signed : userContext ∈ t.cacheability.contexts ↔ Names a t := signed_filter h
      rw [signed, Ne, eq_comm, FilterTree.mapValues_eq_self_iff]
      simp only [Predicate.mapValue_exchange_eq_self_iff ids, Names, not_forall, not_not,
        exists_prop]

/-- Someone else with the permissions of the page author. -/
def otherPageAuthor : Account := { pageAuthor with id := 8 }

/-- The two page authors may view different records, and both filters say so. -/
theorem filter_differs_iff_pageAuthors :
    pageAuthor.permissions = otherPageAuthor.permissions ∧ pageAuthor.id ≠ otherPageAuthor.id ∧
    ((∃ e, filter .uncacheable "view" contentWithBundles pageAuthor = .error e ∧
        filter .uncacheable "view" contentWithBundles otherPageAuthor = .error e) ∨
      ∃ t u, filter .uncacheable "view" contentWithBundles pageAuthor = .ok t ∧
        filter .uncacheable "view" contentWithBundles otherPageAuthor = .ok u ∧
        t.cacheability.contexts = u.cacheability.contexts ∧
        (t ≠ u ↔ userContext ∈ t.cacheability.contexts)) :=
  have permissions : pageAuthor.permissions = otherPageAuthor.permissions := rfl
  have ids : pageAuthor.id ≠ otherPageAuthor.id := by decide
  ⟨permissions, ids, filter_differs_iff permissions ids .uncacheable "view" contentWithBundles⟩

end Grant

end RowAccess
