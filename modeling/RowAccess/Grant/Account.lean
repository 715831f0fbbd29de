import RowAccess.Text.NameSet

/-!
# Accounts

An account is whoever a filter is made for: a number and a flat set of permissions.

Main results:

- `Account.has_grant`: granting a permission adds that one and no other.
-/

namespace RowAccess

/-- An account with its permissions. -/
structure Account where
  id : UInt64
  permissions : NameSet
  deriving DecidableEq

namespace Account

/-- The account with a number and a list of permissions. -/
def ofPermissions (id : UInt64) (permissions : List String) : Account :=
  ⟨id, .ofList permissions⟩

/-- The account of a visitor, with the number 0 and no permissions. -/
def anonymous : Account := ⟨0, ∅⟩

/-- Grants a permission. -/
def grant (a : Account) (permission : String) : Account :=
  { a with permissions := a.permissions.insert permission }

/-- Whether the account holds a permission. -/
def has (a : Account) (permission : String) : Bool := permission ∈ a.permissions

@[simp] theorem has_anonymous (permission : String) : anonymous.has permission = false :=
  decide_eq_false (NameSet.not_mem_empty permission)

/-- Granting a permission adds that one and no other. -/
theorem has_grant (a : Account) (granted permission : String) :
    (a.grant granted).has permission = (decide (permission = granted) || a.has permission) := by
  simp [has, grant]

end Account

end RowAccess
