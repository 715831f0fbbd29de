import RowAccess.Event.Registry
import RowAccess.Grant.Decision

/-!
# Handlers of a content type

A handler answers for one content type which records an account may act on: it decides from
permissions and lets subscribers change the result.  A type without a decision of its own
starts from the tree that restricts nothing, so only subscribers can restrict it.
-/

namespace RowAccess

/-- What is needed to answer for a content type. -/
structure AccessHandler (m : Type → Type) where
  contentType : ContentType
  /-- Where filters are announced. -/
  bus : EventBus m
  /-- How to decide from permissions; without it everything is admitted at first. -/
  mode : Option GrantMode := some .cacheable
  /-- The account meant where none is named. -/
  currentAccount : Option Account := none

namespace AccessHandler

variable {m : Type → Type}

/-- The account a filter is for: the one named, else the current one, else the visitor. -/
def accountFor (h : AccessHandler m) (account : Option Account) : Account :=
  (account <|> h.currentAccount).getD .anonymous

/-- The filter to start from, with the journal records of how it came about. -/
def initialTree (h : AccessHandler m) (operation : String) (account : Account) :
    Except AccessError (FilterTree × List LogRecord) :=
  match h.mode with
  | none => .ok (.all, [])
  | some mode => do
    let decision ← Grant.decide mode operation h.contentType account
    return (decision.tree, [Grant.decisionRecord operation h.contentType decision])

/-- The filter for an operation after the subscribers have changed it.  A broken type is
reported before anything is announced. -/
def conditions [Monad m] [Journal m] (h : AccessHandler m) (operation : String)
    (account : Option Account) : m (Except AccessError FilterTree) := do
  let account := h.accountFor account
  match h.initialTree operation account with
  | .error e => return .error e
  | .ok (tree, records) =>
    Journal.recordAll records
    return .ok (← h.bus.announce ⟨operation, h.contentType.id, account⟩ tree)

end AccessHandler

end RowAccess
