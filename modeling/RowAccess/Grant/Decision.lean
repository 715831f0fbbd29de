import RowAccess.Filter.Tree
import RowAccess.Grant.Account
import RowAccess.Grant.ContentType
import RowAccess.Journal

/-!
# From permissions to filters

Which records of a type an account may act on follows from the permissions it holds.  The
permission that administers the type lifts every restriction.  Otherwise permissions of
the form `{operation} {type}`, `{operation} any {type}` and `{operation} own {type}`, and
the same with a bundle before the type, each admit some records, and viewing a type with a
published flag is restricted to published records and to the account's own others.

In the middle of the work an optional tree says what has been granted: no tree stands for
nothing at all, and a tree without children for everything.  No access is not an error: it
becomes a tree that admits nothing.

Main results:

- `decide_eq_error_iff`: a decision fails only for a broken type, whoever asks.
-/

namespace RowAccess

/-- The operations with a name of their own. -/
def viewOperation : String := "view"

/-- The name of the operation that changes a record. -/
def updateOperation : String := "update"

/-- The name of the operation that copies a record. -/
def duplicateOperation : String := "duplicate"

/-- The name of the operation that removes a record. -/
def deleteOperation : String := "delete"

/-- How viewing is granted on types with an owner. -/
inductive GrantMode where
  /-- Viewing has one permission for the type, so the filter varies by permissions only. -/
  | cacheable
  /-- Viewing distinguishes own records, so the filter varies by account. -/
  | uncacheable
  deriving DecidableEq

instance : Inhabited GrantMode := ⟨.cacheable⟩

namespace Grant

/-! ## Building blocks -/

/-- The tree that restricts nothing; it depends on the permissions of the account. -/
def unrestricted : FilterTree := FilterTree.any.addContexts [userPermissionsContext]

/-- The tree that admits nothing; it depends on the permissions of the account. -/
def denied : FilterTree := unrestricted.markAlwaysFalse true

/-- A tree that collected what was granted, unless nothing was. -/
def ifAny (t : FilterTree) : Option FilterTree :=
  if t.isEmpty then none else some t

/-- The name of a permission, put together from its words. -/
def permission (parts : List String) : String := " ".intercalate parts

/-- The predicate that a record belongs to an account. -/
def ownedBy (account : Account) (ownerField : String) : Predicate :=
  .equals ownerField (toValue account.id)

/-- The predicate that a record is in one of several bundles. -/
def inBundles (bundleField : String) (bundles : List String) : Predicate :=
  .equals bundleField (.ofTexts bundles)

/-- The bundles of a type for which an account holds the permission named. -/
def grantedBundles (ty : ContentType) (account : Account) (name : String → String) :
    List String :=
  ty.bundles.filter fun bundle => account.has (name bundle)

/-- Admits the records of several bundles, if there are any. -/
def admitBundles (t : FilterTree) (bundleField : String) (bundles : List String) :
    FilterTree :=
  if bundles.isEmpty then t else t.addPredicate (inBundles bundleField bundles)

/-! ## What is granted -/

/-- What is granted on types without an owner, and for viewing in the cacheable mode. -/
def entityGrants (operation : String) (ty : ContentType) (account : Account)
    (bundleField : Option String) : Option FilterTree :=
  if account.has (permission [operation, ty.id]) then some unrestricted
  else
    match bundleField with
    | some field =>
      ifAny <| admitBundles unrestricted field <|
        grantedBundles ty account fun bundle => permission [operation, bundle, ty.id]
    | none => none

/-- The records of several bundles that belong to an account. -/
def ownInBundles (account : Account) (ownerField bundleField : String)
    (bundles : List String) : FilterTree :=
  ((FilterTree.all.addPredicate (ownedBy account ownerField)).addPredicate
    (inBundles bundleField bundles)).addContexts [userContext]

/-- Admits an account's own records of the type. -/
def admitOwn (t : FilterTree) (account : Account) (ownerField : String) : FilterTree :=
  (t.addContexts [userContext]).addPredicate (ownedBy account ownerField)

/-- What is granted on types with an owner. -/
def ownerGrants (operation : String) (ty : ContentType) (account : Account)
    (ownerField : String) (bundleField : Option String) : Option FilterTree :=
  if account.has (permission [operation, "any", ty.id]) then some unrestricted
  else
    let ofType :=
      if account.has (permission [operation, "own", ty.id]) then
        admitOwn unrestricted account ownerField
      else unrestricted
    match bundleField with
    | some field =>
      let anyBundles := grantedBundles ty account fun bundle =>
        permission [operation, "any", bundle, ty.id]
      let ownBundles := grantedBundles ty account fun bundle =>
        permission [operation, "own", bundle, ty.id]
      let ofAny := admitBundles ofType field anyBundles
      ifAny <|
        if ownBundles.isEmpty then ofAny
        else ofAny.add (.tree (ownInBundles account ownerField field ownBundles))
    | none => ifAny ofType

/-- Restricts what is granted to published records. -/
def publishedOnly (granted : FilterTree) (publishedField : String) : FilterTree :=
  ((FilterTree.all.addContexts [userPermissionsContext]).add (.tree granted)).addPredicate
    (.equals publishedField (.int 1))

/-- An account's own records that are not published. -/
def ownUnpublished (account : Account) (ownerField publishedField : String) : FilterTree :=
  ((FilterTree.all.addContexts [userContext]).addPredicate
    (ownedBy account ownerField)).addPredicate (.equals publishedField (.int 0))

/-- What may be viewed of a type with a published flag: the published records of those
granted, and with the permission for it the account's own records that are not. -/
def viewGrants (ty : ContentType) (account : Account) (granted : Option FilterTree)
    (publishedField : String) (ownerField : Option String) : Option FilterTree :=
  let published := granted.map fun t => publishedOnly t publishedField
  let unpublished :=
    if account.has (permission ["view own unpublished", ty.id]) then
      ownerField.map fun field => ownUnpublished account field publishedField
    else none
  match published, unpublished with
  | some p, some u => some ((FilterTree.any.add (.tree p)).add (.tree u))
  | some p, none => some p
  | none, u => u

/-- Everything granted to an account that does not administer the type. -/
def grants (mode : GrantMode) (operation : String) (ty : ContentType)
    (fields : ContentType.RoleFields) (account : Account) : Option FilterTree :=
  let granted :=
    match fields.owner with
    | some owner =>
      if operation = viewOperation ∧ mode = .cacheable then
        entityGrants operation ty account fields.bundle
      else ownerGrants operation ty account owner fields.bundle
    | none => entityGrants operation ty account fields.bundle
  match fields.published with
  | some published =>
    if operation = viewOperation then
      viewGrants ty account granted published fields.owner
    else granted
  | none => granted

end Grant

/-! ## Decisions -/

/-- How a decision came out, as it is reported. -/
inductive GrantOutcome where
  | admin
  | denied
  | unrestricted
  | restricted
  deriving DecidableEq

/-- The written form of an outcome. -/
def GrantOutcome.label : GrantOutcome → String
  | admin => "admin"
  | denied => "denied"
  | unrestricted => "unrestricted"
  | restricted => "restricted"

/-- The outcome that a tree stands for. -/
def GrantOutcome.ofTree (t : FilterTree) : GrantOutcome :=
  if t.alwaysFalse then denied else if t.isEmpty then unrestricted else restricted

/-- The filter for an account and how it came about. -/
structure Decision where
  tree : FilterTree
  outcome : GrantOutcome

namespace Grant

/-- Decides which records of a type an account may act on. -/
def decide (mode : GrantMode) (operation : String) (ty : ContentType) (account : Account) :
    Except AccessError Decision := do
  let fields ← ty.roleFields
  if account.has ty.admin then
    return ⟨unrestricted, .admin⟩
  else
    let tree := (grants mode operation ty fields account).getD denied
    return ⟨tree, .ofTree tree⟩

/-- The filter that admits the records of a type an account may act on. -/
def filter (mode : GrantMode) (operation : String) (ty : ContentType) (account : Account) :
    Except AccessError FilterTree :=
  (decide mode operation ty account).map Decision.tree

/-- The journal record of a decision. -/
def decisionRecord (operation : String) (ty : ContentType) (d : Decision) : LogRecord where
  level := .debug
  event := "access.build"
  details := [("type", ty.id), ("op", operation), ("outcome", d.outcome.label)]

/-- A decision fails exactly as looking up the fields of the type does, so for a broken type
whoever asks and whatever for. -/
theorem decide_eq_error_iff (mode : GrantMode) (operation : String) (ty : ContentType)
    (account : Account) (e : AccessError) :
    decide mode operation ty account = .error e ↔ ty.roleFields = .error e := by
  unfold decide
  cases ty.roleFields with
  | error e' => simp [bind, Except.bind]
  | ok fields =>
    simp only [bind, Except.bind, pure, Except.pure]
    split <;> simp

end Grant

end RowAccess
