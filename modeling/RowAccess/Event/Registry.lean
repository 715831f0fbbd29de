import RowAccess.Filter.Tree
import RowAccess.Grant.Account
import RowAccess.Journal

/-!
# Access events

A computed filter is announced before it is used, so that others may add to it, replace it
or deny everything.  The announcement goes out on a channel for all types first and on the
channel of the type second; on each channel the subscribers run in the order in which they
were registered, and each sees the tree that the one before it left.

Main results:

- `typeChannel_inj`, `typeChannel_ne_generic`: types have channels of their own.
-/

namespace RowAccess

/-- The channel on which the filters of all types are announced. -/
def queryAccessChannel : String := "rowgate.query_access"

/-- The channel on which the filters of one type are announced. -/
def typeChannel (typeId : String) : String := queryAccessChannel ++ "." ++ typeId

/-- Different types have different channels. -/
theorem typeChannel_inj {a b : String} : typeChannel a = typeChannel b ↔ a = b := by
  constructor
  · intro h
    have := congrArg String.toList h
    simp only [typeChannel, String.toList_append] at this
    exact String.toList_inj.1 (List.append_cancel_left this)
  · rintro rfl
    rfl

/-- No type has the channel for all types. -/
theorem typeChannel_ne_generic (typeId : String) : typeChannel typeId ≠ queryAccessChannel := by
  intro h
  have := congrArg (List.length ∘ String.toList) h
  simp [typeChannel] at this

/-! ## Subscribers -/

/-- What a filter is wanted for. -/
structure AccessRequest where
  operation : String
  typeId : String
  account : Account

/-- A subscriber turns the tree that was announced into the tree that goes on. -/
abbrev Subscriber (m : Type → Type) := AccessRequest → FilterTree → m FilterTree

/-- Something that announces a tree on a channel. -/
structure EventBus (m : Type → Type) where
  dispatch : String → AccessRequest → FilterTree → m FilterTree

variable {m : Type → Type}

/-- Runs subscribers one after the other, each on the tree that the one before it left. -/
def runSubscribers [Monad m] (subscribers : List (Subscriber m)) (request : AccessRequest)
    (tree : FilterTree) : m FilterTree :=
  subscribers.foldlM (fun t subscriber => subscriber request t) tree

/-- Announces a tree on the channel for all types and then on that of its type. -/
def EventBus.announce [Monad m] (bus : EventBus m) (request : AccessRequest)
    (tree : FilterTree) : m FilterTree := do
  let tree ← bus.dispatch queryAccessChannel request tree
  bus.dispatch (typeChannel request.typeId) request tree

/-! ## Registration -/

/-- The subscribers of each channel, in the order of registration. -/
structure Registry (m : Type → Type) where
  subscribersOf : String → List (Subscriber m)

namespace Registry

/-- The registry without subscribers. -/
def empty : Registry m := ⟨fun _ => []⟩

/-- Registers a subscriber on a channel, behind those that are there. -/
def subscribe (r : Registry m) (channel : String) (subscriber : Subscriber m) : Registry m where
  subscribersOf other :=
    if other = channel then r.subscribersOf channel ++ [subscriber] else r.subscribersOf other

/-- Registers a subscriber for all types. -/
def subscribeAll (r : Registry m) (subscriber : Subscriber m) : Registry m :=
  r.subscribe queryAccessChannel subscriber

/-- Registers a subscriber for one type. -/
def subscribeType (r : Registry m) (typeId : String) (subscriber : Subscriber m) :
    Registry m :=
  r.subscribe (typeChannel typeId) subscriber

/-- The number of subscribers of a channel. -/
def subscriberCount (r : Registry m) (channel : String) : Nat :=
  (r.subscribersOf channel).length

/-- A registration comes last on its own channel and changes no other. -/
theorem subscribersOf_subscribe (r : Registry m) (channel other : String)
    (subscriber : Subscriber m) :
    (r.subscribe channel subscriber).subscribersOf other =
      r.subscribersOf other ++ if channel = other then [subscriber] else [] := by
  by_cases h : channel = other
  · simp [subscribe, h]
  · simp [subscribe, h, Ne.symm h]

/-- The journal record of an announcement. -/
def dispatchRecord (channel : String) (subscribers : Nat) : LogRecord where
  level := .trace
  event := "access.dispatch"
  details := [("channel", channel), ("subscribers", toString subscribers)]

/-- Announces a tree to the subscribers of a channel; a channel without any is silent. -/
def dispatch [Monad m] [Journal m] (r : Registry m) (channel : String)
    (request : AccessRequest) (tree : FilterTree) : m FilterTree := do
  match r.subscribersOf channel with
  | [] => return tree
  | subscribers =>
    Journal.record (dispatchRecord channel subscribers.length)
    runSubscribers subscribers request tree

/-- The registry as an event bus. -/
def bus [Monad m] [Journal m] (r : Registry m) : EventBus m := ⟨r.dispatch⟩

end Registry

end RowAccess
