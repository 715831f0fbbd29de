import RowAccess.Event.Handler
import RowAccess.Lowering.Compiler

/-!
# Restricting a statement

Everything together: a handler says which records an account may act on, a compiler puts
that into a caller's statement, and what the filter depends on is added to the caller's
cacheability.  A failure leaves the cacheability as it was.

Main results:

- `Restriction.skipped_eq`: a request that skips access checks changes nothing.
-/

namespace RowAccess

open Sql

/-- The version of the library, as it is reported to callers. -/
def version : String := "0.4.2"

/-- What a statement is to be restricted for. -/
structure RestrictionRequest where
  /-- The operation; viewing, unless another is named. -/
  operation : Option String := none
  account : Option Account := none
  /-- Whether access is not checked at all. -/
  skipAccess : Bool := false
  revisionScoped : Bool := false

/-- What came of restricting a statement. -/
structure Restriction where
  query : Query
  cache : Cacheability
  /-- The report of the compile, or nothing if access was not checked. -/
  outcome : Except Failure (Option CompileReport)

namespace Restriction

variable {m : Type → Type} [Monad m] [Journal m]

/-- Puts a computed filter into a statement. -/
def ofTree (compiler : Compiler) (revisionScoped : Bool) (query : Query)
    (cache : Cacheability) (tree : FilterTree) : Restriction × List LogRecord :=
  let compiled := compiler.compile tree query revisionScoped
  match compiled.outcome with
  | .ok report => (⟨compiled.query, cache.merge tree.cacheability, .ok (some report)⟩, compiled.log)
  | .error e => (⟨compiled.query, cache, .error e.failure⟩, compiled.log)

/-- Restricts a statement to the records an account may act on. -/
def apply (handler : AccessHandler m) (compiler : Compiler) (request : RestrictionRequest)
    (query : Query) (cache : Cacheability) : m Restriction := do
  if request.skipAccess then
    return ⟨query, cache, .ok none⟩
  else
    match ← handler.conditions (request.operation.getD viewOperation) request.account with
    | .error e => return ⟨query, cache, .error e.failure⟩
    | .ok tree =>
      let restricted := ofTree compiler request.revisionScoped query cache tree
      Journal.recordAll restricted.2
      return restricted.1

/-- A request that skips access checks changes nothing. -/
theorem skipped_eq (handler : AccessHandler m) (compiler : Compiler)
    {request : RestrictionRequest} (h : request.skipAccess = true) (query : Query)
    (cache : Cacheability) :
    apply handler compiler request query cache = pure ⟨query, cache, .ok none⟩ := by
  simp [apply, h]

end Restriction

end RowAccess
