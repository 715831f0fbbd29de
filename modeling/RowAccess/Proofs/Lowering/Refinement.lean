import Mathlib.Data.Fintype.Order
import RowAccess.Proofs.Lowering.Walk
import RowAccess.Storage.TableMapping

/-!
# A compile keeps the meaning of a filter

An entity compiler leaves no predicate out.  When it succeeds, the conditions of the statement
are worth what they were worth before and what the tree is worth, each predicate being worth
the clause that was added for it.

Main results:

- `Compiler.truth_compile`: the truth of the conditions after a compile.
-/

namespace RowAccess

open Sql

namespace Compiler

/-- An entity compiler looks fields up from the base of the statement. -/
theorem anchor_of_entity {c : Compiler} (hc : c.backend = .entity) (q : Query) :
    c.anchor q = .ok q.base := by
  rw [anchor, relationship?, hc]

/-- After a compile by an entity compiler the conditions of a statement are worth what they were
worth before and what the tree is worth.  The compile added one clause for each predicate that
is not below a tree that admits nothing, in depth-first order, and the predicate is worth that
clause. -/
theorem truth_compile {c : Compiler} {t : FilterTree} {q : Query} {revisionScoped : Bool}
    {report : CompileReport} (hc : c.backend = .entity) (ht : t.Built) (hq : q.Reachable)
    (hok : (c.compile t q revisionScoped).outcome = .ok report) :
    ∃ clauses : List Clause,
      (c.compile t q revisionScoped).query.conditions.depthFirstClauses =
        q.conditions.depthFirstClauses ++ clauses ∧
      List.Forall₂
        (fun p clause => LookupScope.Emits ⟨c, q.base, revisionScoped⟩
          (c.compile t q revisionScoped).query p [clause]) t.livePredicates clauses ∧
      ∀ {α : Type*} [Lattice α] [BoundedOrder α] (ρ : Assignment α),
        ρ.expression alwaysFalse = ⊥ →
          (c.compile t q revisionScoped).query.conditions.truth ρ =
            q.conditions.truth ρ ⊓ t.value (clauses.map ρ.clause) := by
  rcases compile_ok hq.nested hok with ⟨anchor, ha, items, grown, lowered⟩
  rw [anchor_of_entity hc] at ha
  obtain rfl := Except.ok.inj ha
  have hs := hq.nested
  have hs' := (c.compile_reachable t hq revisionScoped).nested
  have single : OneClauseEach (LookupScope.Emits ⟨c, q.base, revisionScoped⟩
      (c.compile t q revisionScoped).query) := LookupScope.Emits.oneClauseEach hc _
  refine ⟨_, ?_, lowered.forall₂_clauses single, ?_⟩
  · rw [ConditionSet.depthFirstClauses, grown.rootParts_eq hs hs', List.flatMap_append]
    rfl
  · intro α _ _ ρ hρ
    rw [grown.truth_eq ρ hs hs', FilterTree.value_of_lowers single hρ ht.normal lowered]

end Compiler

/-! ## A nested filter on a statement with a condition of its own -/

/-- Fields of articles, all of them in the base table. -/
def articleStorage : StorageResolver where
  tables := { baseTable := "node", idKey := "nid" }
  storage? := fun field _ => some ⟨"node", none, field, false, true⟩

/-- Pages that are published or belong to the reader; a third alternative admits nothing. -/
def publishedOrOwnPages : FilterTree :=
  (FilterTree.all.add (.leaf (.equals "type" (.text "page")))).add
    (.tree (((FilterTree.any.add (.leaf (.equals "status" (.int 1)))).add
      (.leaf (.equals "uid" (.uint 7)))).add
        (.tree ((FilterTree.all.add (.leaf (.isNull "title"))).markAlwaysFalse true))))

/-- A statement whose caller wants promoted articles only. -/
def promotedArticles : Query :=
  (Query.select "node").pushCondition .root (.expression "node.promote = 1")

/-- Published or own pages are what is left of the promoted articles. -/
theorem Compiler.truth_compile_publishedOrOwnPages :
    publishedOrOwnPages.Built ∧ promotedArticles.Reachable ∧
    (Compiler.compile ⟨articleStorage, .entity, {}⟩ publishedOrOwnPages promotedArticles
      false).outcome = .ok ⟨4, [], [], false⟩ ∧
    ∃ clauses : List Clause,
      (Compiler.compile ⟨articleStorage, .entity, {}⟩ publishedOrOwnPages promotedArticles
        false).query.conditions.depthFirstClauses = [] ++ clauses ∧
      ∀ ρ : Assignment Bool, ρ.expression alwaysFalse = ⊥ →
        (Compiler.compile ⟨articleStorage, .entity, {}⟩ publishedOrOwnPages promotedArticles
          false).query.conditions.truth ρ =
            (promotedArticles.conditions.truth ρ ⊓
              publishedOrOwnPages.value (clauses.map ρ.clause)) := by
  have built : publishedOrOwnPages.Built :=
    .addTree (.addLeaf (.empty .and) _) (.addTree (.addLeaf (.addLeaf (.empty .or) _) _)
      (.mark (.addLeaf (.empty .and) _) true))
  have reachable : promotedArticles.Reachable :=
    Query.stable_reachable.pushCondition _ _ _ (.select "node") (by decide) rfl
  have done : (Compiler.compile ⟨articleStorage, .entity, {}⟩ publishedOrOwnPages
      promotedArticles false).outcome = .ok ⟨4, [], [], false⟩ := rfl
  rcases truth_compile rfl built reachable done with ⟨clauses, added, -, truth⟩
  exact ⟨built, reachable, done, clauses, added, fun ρ hρ => truth ρ hρ⟩

end RowAccess
