import RowAccess.Restriction
import RowAccess.Storage.TableMapping

/-!
# What a filter depends on

A filter is put together step by step, and trees that are added to others are simplified on
the way.  Whatever the steps were, what the finished tree depends on is the merge of what
the steps declared, and a restricted statement passes exactly that on to its caller.  The
order of the declarations does not matter, nor does repeating one, since merging is the
join of a semilattice.

Main results:

- `Cacheability.mergeAll_eq_of_mem_iff`: only which sets are merged matters.
- `FilterTree.Construction.cacheability_tree`: a tree depends on the merge of what the steps
  of its construction declared.
- `Restriction.cacheability_exact`: no dependency is lost or invented on the way from the
  steps to the caller.
-/

namespace RowAccess

/-! ## Merging many dependency sets -/

namespace Cacheability

/-- The dependency set that only names contexts. -/
def ofContexts (names : List String) : Cacheability := ⟨.ofList names, ∅, .permanent⟩

/-- The dependency set that only names tags. -/
def ofTags (names : List String) : Cacheability := ⟨∅, .ofList names, .permanent⟩

/-- The dependency set that only restricts the lifetime. -/
def ofMaxAge (age : MaxAge) : Cacheability := ⟨∅, ∅, age⟩

/-- Adding contexts merges the set that names them. -/
theorem addContexts_eq_merge (c : Cacheability) (names : List String) :
    c.addContexts names = c.merge (ofContexts names) := by
  apply ext_mem
  · intro x
    rw [mem_contexts_merge, addContexts, NameSet.mem_insertAll, ofContexts, NameSet.mem_ofList]
  · intro x
    rw [mem_tags_merge]
    exact (or_iff_left (NameSet.not_mem_empty x)).symm
  · exact (MaxAge.merge_permanent _).symm

/-- Adding tags merges the set that names them. -/
theorem addTags_eq_merge (c : Cacheability) (names : List String) :
    c.addTags names = c.merge (ofTags names) := by
  apply ext_mem
  · intro x
    rw [mem_contexts_merge]
    exact (or_iff_left (NameSet.not_mem_empty x)).symm
  · intro x
    rw [mem_tags_merge, addTags, NameSet.mem_insertAll, ofTags, NameSet.mem_ofList]
  · exact (MaxAge.merge_permanent _).symm

/-- Restricting the lifetime merges the set that restricts it. -/
theorem mergeMaxAge_eq_merge (c : Cacheability) (age : MaxAge) :
    c.mergeMaxAge age = c.merge (ofMaxAge age) := by
  apply ext_mem
  · intro x
    rw [mem_contexts_merge]
    exact (or_iff_left (NameSet.not_mem_empty x)).symm
  · intro x
    rw [mem_tags_merge]
    exact (or_iff_left (NameSet.not_mem_empty x)).symm
  · rfl

/-- The dependencies of all sets of a list together. -/
def mergeAll (parts : List Cacheability) : Cacheability := parts.foldr merge ∅

@[simp] theorem mergeAll_nil : mergeAll [] = ∅ := rfl

@[simp] theorem mergeAll_cons (c : Cacheability) (parts : List Cacheability) :
    mergeAll (c :: parts) = c.merge (mergeAll parts) := rfl

theorem mergeAll_append (parts others : List Cacheability) :
    mergeAll (parts ++ others) = (mergeAll parts).merge (mergeAll others) := by
  induction parts with
  | nil => simp
  | cons c parts ih => simp [ih, merge_assoc]

/-- A set that was merged already adds nothing. -/
theorem merge_mergeAll_of_mem {c : Cacheability} {parts : List Cacheability} (h : c ∈ parts) :
    c.merge (mergeAll parts) = mergeAll parts := by
  induction parts with
  | nil => exact absurd h List.not_mem_nil
  | cons d parts ih =>
    rw [mergeAll_cons]
    rcases List.mem_cons.1 h with rfl | h
    · rw [← merge_assoc, merge_self]
    · rw [← merge_assoc, merge_comm c d, merge_assoc, ih h]

/-- Sets that were all merged already add nothing. -/
theorem mergeAll_merge_of_subset {parts others : List Cacheability} (h : others ⊆ parts) :
    (mergeAll others).merge (mergeAll parts) = mergeAll parts := by
  induction others with
  | nil => simp
  | cons c others ih =>
    obtain ⟨first, rest⟩ := List.cons_subset.1 h
    rw [mergeAll_cons, merge_assoc, ih rest, merge_mergeAll_of_mem first]

/-- Neither the order of the sets nor their repetition matters. -/
theorem mergeAll_eq_of_mem_iff {parts others : List Cacheability}
    (h : ∀ c, c ∈ parts ↔ c ∈ others) : mergeAll parts = mergeAll others := by
  have forth : parts ⊆ others := fun c hc => (h c).1 hc
  have back : others ⊆ parts := fun c hc => (h c).2 hc
  calc mergeAll parts
      = (mergeAll others).merge (mergeAll parts) := (mergeAll_merge_of_subset back).symm
    _ = (mergeAll parts).merge (mergeAll others) := merge_comm _ _
    _ = mergeAll others := mergeAll_merge_of_subset forth

end Cacheability

/-! ## Setting the dependencies of a node -/

namespace FilterTree

/-- What is merged into the node's own dependencies is merged into those of the tree. -/
theorem cacheability_merge_cache (t : FilterTree) (c : Cacheability) :
    FilterTree.cacheability { t with cache := t.cache.merge c } = t.cacheability.merge c := by
  rw [cacheability_eq, cacheability_eq t, Cacheability.merge_assoc, Cacheability.merge_comm c,
    ← Cacheability.merge_assoc]

@[simp] theorem cacheability_addContexts (t : FilterTree) (names : List String) :
    (t.addContexts names).cacheability = t.cacheability.merge (.ofContexts names) := by
  rw [addContexts, Cacheability.addContexts_eq_merge, cacheability_merge_cache]

@[simp] theorem cacheability_addTags (t : FilterTree) (names : List String) :
    (t.addTags names).cacheability = t.cacheability.merge (.ofTags names) := by
  rw [addTags, Cacheability.addTags_eq_merge, cacheability_merge_cache]

@[simp] theorem cacheability_mergeMaxAge (t : FilterTree) (age : MaxAge) :
    (t.mergeMaxAge age).cacheability = t.cacheability.merge (.ofMaxAge age) := by
  rw [mergeMaxAge, Cacheability.mergeMaxAge_eq_merge, cacheability_merge_cache]

@[simp] theorem cacheability_markAlwaysFalse (t : FilterTree) (mark : Bool) :
    (t.markAlwaysFalse mark).cacheability = t.cacheability := by
  rw [markAlwaysFalse, cacheability_eq, cacheability_eq t]

@[simp] theorem cacheability_childless (conjunction : Conjunction) :
    FilterTree.cacheability { conjunction := conjunction } = ∅ := by
  rw [cacheability_eq, FilterNode.cacheabilityAll, Cacheability.empty_merge]

/-- Wrapping a tree into a new one keeps what it depends on. -/
theorem cacheability_wrap (conjunction : Conjunction) (t : FilterTree) :
    (FilterTree.add { conjunction := conjunction } (.tree t)).cacheability = t.cacheability := by
  rw [cacheability_add, cacheability_childless, Cacheability.empty_merge, FilterNode.cacheability]

/-! ## Constructions -/

/-- A way to build a tree: the operations of the library, in any order, on new trees and on
trees that are there already. -/
inductive Construction where
  | new (conjunction : Conjunction)
  /-- A tree that was built before. -/
  | given (t : FilterTree)
  | addLeaf (c : Construction) (p : Predicate)
  | addTree (c d : Construction)
  | setMark (c : Construction) (mark : Bool)
  | contexts (c : Construction) (names : List String)
  | tags (c : Construction) (names : List String)
  | maxAge (c : Construction) (age : MaxAge)

namespace Construction

/-- The tree that a construction makes. -/
def tree : Construction → FilterTree
  | new conjunction => { conjunction := conjunction }
  | given t => t
  | addLeaf c p => c.tree.add (.leaf p)
  | addTree c d => c.tree.add (.tree d.tree)
  | setMark c mark => c.tree.markAlwaysFalse mark
  | contexts c names => c.tree.addContexts names
  | tags c names => c.tree.addTags names
  | maxAge c age => c.tree.mergeMaxAge age

/-- What the steps of a construction declare, from first to last. -/
def declared : Construction → List Cacheability
  | new _ => []
  | given t => [t.cacheability]
  | addLeaf c _ => c.declared
  | addTree c d => c.declared ++ d.declared
  | setMark c _ => c.declared
  | contexts c names => c.declared ++ [.ofContexts names]
  | tags c names => c.declared ++ [.ofTags names]
  | maxAge c age => c.declared ++ [.ofMaxAge age]

/-- A tree depends on the merge of what the steps of its construction declared. -/
theorem cacheability_tree (c : Construction) :
    c.tree.cacheability = Cacheability.mergeAll c.declared := by
  induction c with
  | new conjunction => rw [tree, cacheability_childless, declared, Cacheability.mergeAll_nil]
  | given t =>
    rw [tree, declared, Cacheability.mergeAll_cons, Cacheability.mergeAll_nil,
      Cacheability.merge_empty]
  | addLeaf c p ih =>
    rw [tree, cacheability_add, FilterNode.cacheability, Cacheability.merge_empty, ih, declared]
  | addTree c d ihc ihd =>
    rw [tree, cacheability_add, FilterNode.cacheability, ihc, ihd, declared,
      Cacheability.mergeAll_append]
  | setMark c mark ih => rw [tree, cacheability_markAlwaysFalse, ih, declared]
  | contexts c names ih =>
    simp [tree, declared, ih, Cacheability.mergeAll_append]
  | tags c names ih =>
    simp [tree, declared, ih, Cacheability.mergeAll_append]
  | maxAge c age ih =>
    simp [tree, declared, ih, Cacheability.mergeAll_append]

end Construction

end FilterTree

/-! ## What reaches the caller -/

namespace Restriction

variable {m : Type → Type} [Monad m] [LawfulMonad m] [Journal m]

/-- What becomes of a statement once the handler has answered, with the journal records. -/
def ofAnswer (compiler : Compiler) (request : RestrictionRequest) (query : Sql.Query)
    (cache : Cacheability) : Except AccessError FilterTree → Restriction × List LogRecord
  | .error e => (⟨query, cache, .error e.failure⟩, [])
  | .ok tree => ofTree compiler request.revisionScoped query cache tree

/-- Restricting a statement is asking the handler and acting on its answer. -/
theorem apply_eq_ofAnswer (handler : AccessHandler m) (compiler : Compiler)
    {request : RestrictionRequest} (checked : request.skipAccess = false) (query : Sql.Query)
    (cache : Cacheability) :
    apply handler compiler request query cache = (do
      let answer ← handler.conditions (request.operation.getD viewOperation) request.account
      let restricted := ofAnswer compiler request query cache answer
      Journal.recordAll restricted.2
      return restricted.1) := by
  rw [apply, checked, if_neg Bool.false_ne_true]
  refine bind_congr fun answer => ?_
  cases answer with
  | error e => simp [ofAnswer, Journal.recordAll]
  | ok tree => rfl

/-- A tree that could be put into the statement. -/
theorem ofTree_ok {compiler : Compiler} {revisionScoped : Bool} {query : Sql.Query}
    {tree : FilterTree} {report : CompileReport}
    (h : (compiler.compile tree query revisionScoped).outcome = .ok report)
    (cache : Cacheability) :
    (ofTree compiler revisionScoped query cache tree).1 =
      ⟨(compiler.compile tree query revisionScoped).query, cache.merge tree.cacheability,
        .ok (some report)⟩ := by
  simp only [ofTree, h]

/-- A tree that could not be put into the statement. -/
theorem ofTree_error {compiler : Compiler} {revisionScoped : Bool} {query : Sql.Query}
    {tree : FilterTree} {e : CompileError}
    (h : (compiler.compile tree query revisionScoped).outcome = .error e)
    (cache : Cacheability) :
    (ofTree compiler revisionScoped query cache tree).1 =
      ⟨(compiler.compile tree query revisionScoped).query, cache, .error e.failure⟩ := by
  simp only [ofTree, h]

/-- A tree that was put into the statement leaves all it depends on, and nothing else, with
the caller. -/
theorem cache_ofTree {compiler : Compiler} {revisionScoped : Bool} {query : Sql.Query}
    {cache : Cacheability} {tree : FilterTree} {report : Option CompileReport}
    (h : (ofTree compiler revisionScoped query cache tree).1.outcome = .ok report) :
    (ofTree compiler revisionScoped query cache tree).1.cache = cache.merge tree.cacheability := by
  cases outcome : (compiler.compile tree query revisionScoped).outcome with
  | ok report => rw [ofTree_ok outcome]
  | error e =>
    rw [ofTree_error outcome] at h
    cases h

/-- A failure leaves the caller's dependencies as they were. -/
theorem cache_ofAnswer_of_error {compiler : Compiler} {request : RestrictionRequest}
    {query : Sql.Query} {cache : Cacheability} {answer : Except AccessError FilterTree}
    {failure : Failure}
    (h : (ofAnswer compiler request query cache answer).1.outcome = .error failure) :
    (ofAnswer compiler request query cache answer).1.cache = cache := by
  cases answer with
  | error e => rfl
  | ok tree =>
    rw [ofAnswer] at h ⊢
    cases outcome : (compiler.compile tree query request.revisionScoped).outcome with
    | ok report =>
      rw [ofTree_ok outcome] at h
      cases h
    | error e => rw [ofTree_error outcome]

/-- No dependency is lost or invented.  An addition adds what the added node depends on,
however the node is simplified; merging is associative, commutative and idempotent, and the
empty set is neutral; so a tree depends on the merge, in any order, of all that the steps of
its construction declared; and a statement that was restricted leaves what the handler's tree
depends on with the caller. -/
theorem cacheability_exact :
    (∀ (t : FilterTree) (n : FilterNode),
        (t.add n).cacheability = t.cacheability.merge n.cacheability) ∧
      ((∀ c d e : Cacheability, (c.merge d).merge e = c.merge (d.merge e)) ∧
        (∀ c d : Cacheability, c.merge d = d.merge c) ∧
        (∀ c : Cacheability, c.merge c = c) ∧
        ∀ c : Cacheability, (∅ : Cacheability).merge c = c ∧ c.merge ∅ = c) ∧
      (∀ (c : FilterTree.Construction) (declared : List Cacheability),
        (∀ d, d ∈ declared ↔ d ∈ c.declared) →
        c.tree.cacheability = Cacheability.mergeAll declared) ∧
      ∀ (handler : AccessHandler m) (compiler : Compiler) (request : RestrictionRequest)
        (query : Sql.Query) (cache : Cacheability), request.skipAccess = false →
        (apply handler compiler request query cache = (do
            let answer ←
              handler.conditions (request.operation.getD viewOperation) request.account
            Journal.recordAll (ofAnswer compiler request query cache answer).2
            return (ofAnswer compiler request query cache answer).1)) ∧
          (∀ (tree : FilterTree) (report : Option CompileReport),
            (ofAnswer compiler request query cache (.ok tree)).1.outcome = .ok report →
            (ofAnswer compiler request query cache (.ok tree)).1.cache
              = cache.merge tree.cacheability) ∧
          ∀ (answer : Except AccessError FilterTree) (failure : Failure),
            (ofAnswer compiler request query cache answer).1.outcome = .error failure →
            (ofAnswer compiler request query cache answer).1.cache = cache := by
  refine ⟨FilterTree.cacheability_add, ?laws, ?constructions, ?callers⟩
  case laws =>
    exact ⟨Cacheability.merge_assoc, Cacheability.merge_comm, Cacheability.merge_self,
      fun c => ⟨Cacheability.empty_merge c, Cacheability.merge_empty c⟩⟩
  case constructions =>
    intro c declared same
    rw [c.cacheability_tree]
    exact (Cacheability.mergeAll_eq_of_mem_iff same).symm
  case callers =>
    intro handler compiler request query cache checked
    refine ⟨apply_eq_ofAnswer handler compiler checked query cache, ?_, ?_⟩
    · intro tree report h
      exact cache_ofTree h
    · intro answer failure h
      exact cache_ofAnswer_of_error h

/-! ## Tagged pages -/

/-- A filter that varies by the account, to which a tree with a single predicate was added
that has a tag and a lifetime, and which was wrapped into a new tree in the end. -/
def taggedPages : FilterTree.Construction :=
  .addTree (.new .or)
    (.addTree (.contexts (.new .and) [userContext])
      (.maxAge (.tags (.addLeaf (.new .or) (.equals "status" (.bool true))) ["node_list"]) ⟨60⟩))

/-- Pages that are stored in one table. -/
def pageCompiler : Compiler where
  resolver := ((TableMapping.ofTables "node" { baseTable := "node", idKey := "nid" }).withField
    (FieldDefinition.single "status" "value")).resolver
  backend := .entity

/-- What the caller depended on before. -/
def rendered : Cacheability := .ofTags ["rendered"]

/-- The journal kept as a list. -/
instance : Journal (StateM (List LogRecord)) := ⟨fun r => modify (· ++ [r])⟩

/-- The caller's dependencies after the filter of the pages was put into the statement. -/
theorem cacheability_exact_taggedPages :
    taggedPages.tree.cacheability = .mergeAll taggedPages.declared.reverse ∧
    (ofAnswer pageCompiler {} (.select "node" none) rendered (.ok taggedPages.tree)).1.outcome
      = .ok (some ⟨1, [], [], false⟩) ∧
    (ofAnswer pageCompiler {} (.select "node" none) rendered (.ok taggedPages.tree)).1.cache
      = .merge rendered taggedPages.tree.cacheability ∧
    Cacheability.merge rendered taggedPages.tree.cacheability
      = ⟨.ofList ["user"], .ofList ["node_list", "rendered"], ⟨60⟩⟩ := by
  obtain ⟨-, -, constructions, callers⟩ := cacheability_exact (m := StateM (List LogRecord))
  have done : (ofAnswer pageCompiler {} (.select "node" none) rendered
      (.ok taggedPages.tree)).1.outcome = .ok (some ⟨1, [], [], false⟩) := rfl
  refine ⟨constructions taggedPages _ fun d => List.mem_reverse, done, ?_, by decide⟩
  obtain ⟨-, restricted, -⟩ := callers ⟨.named "node", Registry.bus .empty, none, none⟩
    pageCompiler {} (.select "node" none) rendered rfl
  exact restricted taggedPages.tree _ done

end Restriction

end RowAccess
