import RowAccess.Event.Handler

/-!
# Who hears of a filter

Subscribers are registered one after the other, on any channels, and the order of registration is
all that decides who hears of a filter and when.  The registrations are kept here as a list, in
which the place of a subscriber is its number.  An announcement goes to the subscribers for all
types and then to those of the type, each time from lower to higher numbers; each of them is called
once, with the tree that the one before it left, and nobody else is called.

To say so without a look into the registry, the subscribers are watched: a watched subscriber notes
its number and the tree that it was called with before it does its work.

Main results:

- `Registry.subscribersOf_after`: the subscribers of a channel are those that were registered on it.
- `Registry.run_announce`: what is observed of an announcement.
- `nodup_order`, `mem_order`: nobody is called twice, and who is called.
- `announce_delivers`: all of this together, and what a handler announces.
-/

namespace RowAccess

/-! ## Registrations -/

/-- Whom a subscriber is registered for. -/
inductive Audience where
  /-- Whoever announces on a channel. -/
  | channel (name : String)
  | everyType
  | type (typeId : String)
  deriving DecidableEq

/-- The channel on which the audience is. -/
def Audience.channelName : Audience → String
  | channel name => name
  | everyType => queryAccessChannel
  | type typeId => typeChannel typeId

/-- What was registered on a channel, in the order of registration. -/
def heard {α : Type} (log : List (Audience × α)) (channel : String) : List α :=
  (log.filter fun entry => entry.1.channelName = channel).map Prod.snd

theorem heard_cons {α : Type} (entry : Audience × α) (log : List (Audience × α))
    (channel : String) :
    heard (entry :: log) channel =
      (if entry.1.channelName = channel then [entry.2] else []) ++ heard log channel := by
  by_cases h : entry.1.channelName = channel <;> simp [heard, h]

/-- What becomes of every registration becomes of those that are heard. -/
theorem heard_map {α β : Type} (f : α → β) (log : List (Audience × α)) (channel : String) :
    heard (log.map fun entry => (entry.1, f entry.2)) channel = (heard log channel).map f := by
  simp [heard, List.filter_map, Function.comp_def]

namespace Registry

variable {m : Type → Type}

/-- Registers a subscriber for an audience. -/
def register (r : Registry m) (audience : Audience) (subscriber : Subscriber m) : Registry m :=
  match audience with
  | .channel name => r.subscribe name subscriber
  | .everyType => r.subscribeAll subscriber
  | .type typeId => r.subscribeType typeId subscriber

/-- The registry after several registrations, one after the other. -/
def after (r : Registry m) (log : List (Audience × Subscriber m)) : Registry m :=
  log.foldl (fun r entry => r.register entry.1 entry.2) r

/-- A registration comes last on the channel of its audience and changes no other. -/
theorem subscribersOf_register (r : Registry m) (audience : Audience) (subscriber : Subscriber m)
    (channel : String) :
    (r.register audience subscriber).subscribersOf channel =
      r.subscribersOf channel ++ if audience.channelName = channel then [subscriber] else [] := by
  cases audience with
  | channel name => exact r.subscribersOf_subscribe name channel subscriber
  | everyType => exact r.subscribersOf_subscribe queryAccessChannel channel subscriber
  | type typeId => exact r.subscribersOf_subscribe (typeChannel typeId) channel subscriber

/-- The subscribers of a channel are those that were registered on it, in that order. -/
theorem subscribersOf_after (r : Registry m) (log : List (Audience × Subscriber m))
    (channel : String) :
    (r.after log).subscribersOf channel = r.subscribersOf channel ++ heard log channel := by
  induction log generalizing r with
  | nil => simp [after, heard]
  | cons entry log ih =>
    rw [heard_cons, ← List.append_assoc, ← subscribersOf_register]
    exact ih (r.register entry.1 entry.2)

theorem subscribersOf_after_empty (log : List (Audience × Subscriber m)) (channel : String) :
    (empty.after log).subscribersOf channel = heard log channel := by
  rw [subscribersOf_after]
  exact List.nil_append _

section Dispatch

variable [Monad m] [Journal m]

/-- Calls several subscribers of a channel, each with the tree that the one before it left.  A
channel that nobody listens to is not mentioned. -/
def call (channel : String) (subscribers : List (Subscriber m)) (request : AccessRequest)
    (tree : FilterTree) : m FilterTree := do
  unless subscribers.isEmpty do
    Journal.record (dispatchRecord channel subscribers.length)
  subscribers.foldlM (fun t subscriber => subscriber request t) tree

/-- An announcement on a channel calls its subscribers. -/
theorem dispatch_eq_call [LawfulMonad m] (r : Registry m) (channel : String)
    (request : AccessRequest) (tree : FilterTree) :
    r.dispatch channel request tree = call channel (r.subscribersOf channel) request tree := by
  rw [dispatch, call]
  cases r.subscribersOf channel with
  | nil => simp
  | cons subscriber rest => simp [runSubscribers]

/-- An announcement calls the subscribers for all types and then those of the type. -/
theorem announce_after [LawfulMonad m] (log : List (Audience × Subscriber m))
    (request : AccessRequest) (tree : FilterTree) :
    (empty.after log).bus.announce request tree =
      (call queryAccessChannel (heard log queryAccessChannel) request tree >>=
        call (typeChannel request.typeId) (heard log (typeChannel request.typeId)) request) := by
  simp only [EventBus.announce, bus, dispatch_eq_call, subscribersOf_after_empty]

end Dispatch

end Registry

/-! ## Watched subscribers -/

/-- What a subscriber makes of a tree. -/
abbrev Rewriting := AccessRequest → FilterTree → FilterTree

/-- What can be observed of an announcement. -/
inductive Observation where
  | record (r : LogRecord)
  /-- A subscriber was called with a tree. -/
  | call (place : Nat) (request : AccessRequest) (tree : FilterTree)

/-- Computations that are observed. -/
abbrev Observed := StateM (List Observation)

instance : Journal Observed := ⟨fun r => modify (· ++ [.record r])⟩

namespace Observed

variable {α β : Type}

theorem run_pure (a : α) (past : List Observation) : (pure a : Observed α).run past = (a, past) :=
  rfl

theorem run_bind (x : Observed α) (f : α → Observed β) (past : List Observation) :
    (x >>= f).run past = (f (x.run past).1).run (x.run past).2 := rfl

theorem run_record (r : LogRecord) (past : List Observation) :
    (Journal.record r : Observed Unit).run past = ((), past ++ [.record r]) := rfl

end Observed

/-- A subscriber that notes that it was called. -/
def watch (subscriber : Nat × Rewriting) : Subscriber Observed := fun request tree => do
  modify (· ++ [.call subscriber.1 request tree])
  return subscriber.2 request tree

/-- Registrations with their places. -/
def numbered (log : List (Audience × Rewriting)) : List (Audience × Nat × Rewriting) :=
  log.mapIdx fun place entry => (entry.1, place, entry.2)

/-- The same registrations, of watched subscribers. -/
def watched (log : List (Audience × Rewriting)) : List (Audience × Subscriber Observed) :=
  (numbered log).map fun entry => (entry.1, watch entry.2)

/-- What several subscribers make of a tree, one after the other. -/
def rewritten (request : AccessRequest) (tree : FilterTree)
    (subscribers : List (Nat × Rewriting)) : FilterTree :=
  subscribers.foldl (fun t subscriber => subscriber.2 request t) tree

/-- The calls of several subscribers, each with the tree that the one before it left. -/
def calls (request : AccessRequest) : FilterTree → List (Nat × Rewriting) → List Observation
  | _, [] => []
  | tree, subscriber :: rest =>
    .call subscriber.1 request tree :: calls request (subscriber.2 request tree) rest

/-- What is observed of an announcement on a channel. -/
def observations (channel : String) (request : AccessRequest) (tree : FilterTree)
    (subscribers : List (Nat × Rewriting)) : List Observation :=
  (if subscribers.isEmpty then []
    else [.record (Registry.dispatchRecord channel subscribers.length)]) ++
    calls request tree subscribers

/-- A subscriber that is watched is observed to be called and does its work. -/
theorem run_watch (subscriber : Nat × Rewriting) (request : AccessRequest) (tree : FilterTree)
    (past : List Observation) :
    (watch subscriber request tree).run past =
      (subscriber.2 request tree, past ++ [.call subscriber.1 request tree]) := rfl

/-- So it is with several. -/
theorem run_foldlM_watch (subscribers : List (Nat × Rewriting)) (request : AccessRequest)
    (tree : FilterTree) (past : List Observation) :
    ((subscribers.map watch).foldlM (fun t (subscriber : Subscriber Observed) =>
        subscriber request t) tree).run past =
      (rewritten request tree subscribers, past ++ calls request tree subscribers) := by
  induction subscribers generalizing tree past with
  | nil => simp only [List.map_nil, List.foldlM_nil, Observed.run_pure, rewritten, List.foldl_nil,
      calls, List.append_nil]
  | cons subscriber rest ih =>
    rw [List.map_cons, List.foldlM_cons, Observed.run_bind, run_watch, ih, calls]
    simp [rewritten]

/-- What is observed where the subscribers of a channel are called. -/
theorem Registry.run_call (channel : String) (subscribers : List (Nat × Rewriting))
    (request : AccessRequest) (tree : FilterTree) (past : List Observation) :
    (call channel (subscribers.map watch) request tree).run past =
      (rewritten request tree subscribers,
        past ++ observations channel request tree subscribers) := by
  cases subscribers with
  | nil =>
    have silent : call channel [] request tree = (pure tree : Observed FilterTree) := by
      simp [call]
    rw [List.map_nil, silent, Observed.run_pure]
    simp [rewritten, observations, calls]
  | cons subscriber rest =>
    have mentioned : call channel ((subscriber :: rest).map watch) request tree =
        (Journal.record (dispatchRecord channel (rest.length + 1)) >>= fun _ =>
          ((subscriber :: rest).map watch).foldlM (fun t (s : Subscriber Observed) =>
            s request t) tree) := by
      simp [call]
    rw [mentioned, Observed.run_bind, Observed.run_record, run_foldlM_watch]
    simp [observations]

/-! ## The order of calls -/

/-- The subscribers that are called for a type, in the order of the calls. -/
def order (log : List (Audience × Rewriting)) (typeId : String) : List (Nat × Rewriting) :=
  heard (numbered log) queryAccessChannel ++ heard (numbered log) (typeChannel typeId)

/-- What is observed of an announcement. -/
theorem Registry.run_announce (log : List (Audience × Rewriting)) (request : AccessRequest)
    (tree : FilterTree) (past : List Observation) :
    ((empty.after (watched log)).bus.announce request tree).run past =
      (rewritten request tree (order log request.typeId),
        past ++ observations queryAccessChannel request tree
            (heard (numbered log) queryAccessChannel) ++
          observations (typeChannel request.typeId) request
            (rewritten request tree (heard (numbered log) queryAccessChannel))
            (heard (numbered log) (typeChannel request.typeId))) := by
  have listeners (channel : String) :
      heard (watched log) channel = (heard (numbered log) channel).map watch :=
    heard_map watch (numbered log) channel
  rw [announce_after, listeners, listeners, Observed.run_bind, run_call, run_call]
  simp [order, rewritten]

/-- Who is heard on a channel was registered on it, at the place of the number. -/
theorem mem_heard_numbered {log : List (Audience × Rewriting)} {channel : String} {place : Nat}
    {rewrite : Rewriting} :
    (place, rewrite) ∈ heard (numbered log) channel ↔
      ∃ audience, log[place]? = some (audience, rewrite) ∧ audience.channelName = channel := by
  rw [heard, List.mem_map]
  constructor
  · rintro ⟨⟨audience, entry⟩, kept, rfl⟩
    obtain ⟨registered, same⟩ := List.mem_filter.1 kept
    obtain ⟨i, hi, found⟩ := List.mem_mapIdx.1 registered
    simp only [Prod.mk.injEq] at found
    obtain ⟨rfl, rfl, rfl⟩ := found
    exact ⟨_, List.getElem?_eq_getElem hi, by simpa using same⟩
  · rintro ⟨audience, registered, same⟩
    obtain ⟨hi, found⟩ := List.getElem?_eq_some_iff.1 registered
    refine ⟨(audience, place, rewrite), List.mem_filter.2 ⟨?_, by simpa using same⟩, rfl⟩
    exact List.mem_mapIdx.2 ⟨place, hi, by simp [found]⟩

/-- Who is heard on a channel is heard in the order of registration. -/
theorem pairwise_heard_numbered (log : List (Audience × Rewriting)) (channel : String) :
    ((heard (numbered log) channel).map Prod.fst).Pairwise (· < ·) := by
  have places : ((numbered log).map fun entry => entry.2.1) = List.range log.length := by
    refine List.ext_getElem (by simp [numbered]) fun i hi hi' => ?_
    simp [numbered]
  have kept : ((heard (numbered log) channel).map Prod.fst).Sublist (List.range log.length) := by
    rw [← places, heard, List.map_map]
    exact List.filter_sublist.map _
  exact List.pairwise_lt_range.sublist kept

/-- Who is called for a type. -/
theorem mem_order {log : List (Audience × Rewriting)} {typeId : String} {place : Nat}
    {rewrite : Rewriting} :
    (place, rewrite) ∈ order log typeId ↔
      ∃ audience, log[place]? = some (audience, rewrite) ∧
        (audience.channelName = queryAccessChannel ∨
          audience.channelName = typeChannel typeId) := by
  rw [order, List.mem_append, mem_heard_numbered, mem_heard_numbered, ← exists_or]
  simp only [and_or_left]

/-- Nobody is called twice. -/
theorem nodup_order (log : List (Audience × Rewriting)) (typeId : String) :
    ((order log typeId).map Prod.fst).Nodup := by
  have distinct (channel : String) : ((heard (numbered log) channel).map Prod.fst).Nodup :=
    (pairwise_heard_numbered log channel).imp fun h => Nat.ne_of_lt h
  rw [order, List.map_append, List.nodup_append]
  refine ⟨distinct _, distinct _, ?_⟩
  rintro place hall _ hown rfl
  obtain ⟨⟨_, rewrite⟩, forAll, rfl⟩ := List.mem_map.1 hall
  obtain ⟨⟨_, rewrite'⟩, forType, same⟩ := List.mem_map.1 hown
  obtain rfl : _ = _ := same
  obtain ⟨audience, registered, onAll⟩ := mem_heard_numbered.1 forAll
  obtain ⟨audience', registered', onType⟩ := mem_heard_numbered.1 forType
  rw [registered, Option.some.injEq, Prod.mk.injEq] at registered'
  obtain ⟨rfl, -⟩ := registered'
  exact typeChannel_ne_generic typeId (onType.symm.trans onAll)

/-! ## What a handler announces -/

namespace AccessHandler

variable {m : Type → Type}

/-- What a handler starts from: what the permissions of the account come to, or, where nothing is
decided from permissions, the tree that restricts nothing. -/
def start (h : AccessHandler m) (operation : String) (account : Option Account) :
    Except AccessError FilterTree :=
  match h.mode with
  | none => .ok .all
  | some mode => Grant.filter mode operation h.contentType (h.accountFor account)

/-- The tree that a handler starts from, with a journal record about a decision at most. -/
theorem initialTree_eq (h : AccessHandler m) (operation : String) (account : Option Account) :
    (∃ e, h.start operation account = .error e ∧
      h.initialTree operation (h.accountFor account) = .error e) ∨
    ∃ t records, h.start operation account = .ok t ∧
      (∀ r ∈ records, ∀ channel count, r ≠ Registry.dispatchRecord channel count) ∧
      h.initialTree operation (h.accountFor account) = .ok (t, records) := by
  rw [start, initialTree]
  cases h.mode with
  | none => exact .inr ⟨.all, [], rfl, by simp, rfl⟩
  | some mode =>
    simp only [Grant.filter]
    cases Grant.decide mode operation h.contentType (h.accountFor account) with
    | error e => exact .inl ⟨e, rfl, rfl⟩
    | ok decision =>
      refine .inr ⟨decision.tree, _, rfl, ?_, rfl⟩
      simp [Grant.decisionRecord, Registry.dispatchRecord]

variable [Monad m] [Journal m] {h : AccessHandler m} {operation : String}
  {account : Option Account}

/-- A handler that has nothing to start from announces nothing. -/
theorem conditions_of_start_eq_error {e : AccessError}
    (failed : h.start operation account = .error e) :
    h.conditions operation account = pure (.error e) := by
  rcases h.initialTree_eq operation account with ⟨e', start, initial⟩ | ⟨t, records, start, -, -⟩
  · obtain rfl := Except.error.inj (failed.symm.trans start)
    rw [conditions, initial]
  · rw [failed] at start
    cases start

/-- Any other handler answers with what the subscribers make of the tree that it starts from. -/
theorem conditions_of_start_eq_ok {t : FilterTree} (started : h.start operation account = .ok t) :
    ∃ records, (∀ r ∈ records, ∀ channel count, r ≠ Registry.dispatchRecord channel count) ∧
      h.conditions operation account = (do
        Journal.recordAll records
        return .ok (← h.bus.announce ⟨operation, h.contentType.id, h.accountFor account⟩ t)) := by
  rcases h.initialTree_eq operation account with
    ⟨e, start, -⟩ | ⟨t', records, start, other, initial⟩
  · rw [started] at start
    cases start
  · obtain rfl := Except.ok.inj (started.symm.trans start)
    refine ⟨records, other, ?_⟩
    rw [conditions, initial]

end AccessHandler

/-- However subscribers were registered, an announcement calls those for all types and then those of
the type, on each channel in the order of registration; each is called once, with the tree that the
one before it left, and no other is called.  Types have channels of their own.  A handler answers
with what comes of the tree that it starts from, and announces nothing where there is none. -/
theorem announce_delivers :
    (∀ (m : Type → Type) [Monad m] [LawfulMonad m] [Journal m]
      (log : List (Audience × Subscriber m)) (request : AccessRequest) (tree : FilterTree),
      (Registry.empty.after log).bus.announce request tree =
        (Registry.call queryAccessChannel (heard log queryAccessChannel) request tree >>=
          Registry.call (typeChannel request.typeId) (heard log (typeChannel request.typeId))
            request)) ∧
    (∀ (log : List (Audience × Rewriting)) (request : AccessRequest) (tree : FilterTree)
      (past : List Observation),
      ((Registry.empty.after (watched log)).bus.announce request tree).run past =
        (rewritten request tree (order log request.typeId),
          past ++ observations queryAccessChannel request tree
              (heard (numbered log) queryAccessChannel) ++
            observations (typeChannel request.typeId) request
              (rewritten request tree (heard (numbered log) queryAccessChannel))
              (heard (numbered log) (typeChannel request.typeId)))) ∧
    (∀ (log : List (Audience × Rewriting)) (channel : String),
      ((heard (numbered log) channel).map Prod.fst).Pairwise (· < ·)) ∧
    (∀ (log : List (Audience × Rewriting)) (typeId : String),
      ((order log typeId).map Prod.fst).Nodup ∧
      ∀ place rewrite, (place, rewrite) ∈ order log typeId ↔
        ∃ audience, log[place]? = some (audience, rewrite) ∧
          (audience.channelName = queryAccessChannel ∨
            audience.channelName = typeChannel typeId)) ∧
    (∀ a b : String, a ≠ b →
      typeChannel a ≠ typeChannel b ∧ typeChannel a ≠ queryAccessChannel) ∧
    ∀ (m : Type → Type) [Monad m] [Journal m] (h : AccessHandler m) (operation : String)
      (account : Option Account),
      (∀ e, h.start operation account = .error e →
        h.conditions operation account = pure (.error e)) ∧
      ∀ t, h.start operation account = .ok t →
        ∃ records, (∀ r ∈ records, ∀ channel count, r ≠ Registry.dispatchRecord channel count) ∧
          h.conditions operation account = (do
            Journal.recordAll records
            return .ok
              (← h.bus.announce ⟨operation, h.contentType.id, h.accountFor account⟩ t)) := by
  refine ⟨?_, Registry.run_announce, pairwise_heard_numbered, ?_, ?_, ?_⟩
  · intro m _ _ _ log request tree
    exact Registry.announce_after log request tree
  · intro log typeId
    exact ⟨nodup_order log typeId, fun _ _ => mem_order⟩
  · intro a b different
    exact ⟨fun same => different (typeChannel_inj.1 same), typeChannel_ne_generic a⟩
  · intro m _ _ h operation account
    exact ⟨fun e => AccessHandler.conditions_of_start_eq_error,
      fun t => AccessHandler.conditions_of_start_eq_ok⟩

/-! ## Registrations that alternate -/

/-- A subscriber that asks for a field to be set. -/
def asking (field : String) : Rewriting := fun _ t => t.addPredicate (.isNotNull field)

/-- Subscribers for pages, for all types and for users in turn; one of them starts over. -/
def alternating : List (Audience × Rewriting) :=
  [(.type "page", asking "title"), (.everyType, asking "body"), (.type "user", asking "mail"),
    (.channel "rowgate.query_access.page", asking "path"),
    (.channel "rowgate.query_access", fun _ _ => .any)]

/-- A type whose bundles have no field. -/
def withoutBundleField : ContentType := { ContentType.named "page" with bundles := ["article"] }

/-- Of five subscribers four hear of a filter for pages, in another order than they were
registered; for a broken type nobody hears of anything. -/
theorem announce_delivers_alternating (past : List Observation) :
    (order alternating "page").map Prod.fst = [1, 4, 0, 3] ∧
    (((Registry.empty.after (watched alternating)).bus.announce ⟨"view", "page", .anonymous⟩
      .all).run past).1 = asking "path" ⟨"view", "page", .anonymous⟩
        (asking "title" ⟨"view", "page", .anonymous⟩ .any) ∧
    "page" ≠ "user" ∧ typeChannel "page" ≠ typeChannel "user" ∧
    (AccessHandler.mk withoutBundleField (Registry.empty.after (watched alternating)).bus
      (some .cacheable) none).conditions "view" none =
        pure (.error (.missingBundleKey "page")) := by
  obtain ⟨-, announced, -, -, channels, handled⟩ := announce_delivers
  have different : "page" ≠ "user" := by decide
  refine ⟨by decide, ?_, different, (channels _ _ different).1, ?_⟩
  · rw [announced]
    rfl
  · exact (handled _ _ "view" none).1 (.missingBundleKey "page") rfl

end RowAccess
