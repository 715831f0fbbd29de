import RowAccess.Proofs.Lowering.Dedicated
import RowAccess.Proofs.Lowering.Runs

/-!
# Which names a statement may use

Joins are written in the order in which they were registered, so a join may only be on a column of
the base or of an earlier join.  Relationships and compiles ask for joins on columns of an anchor,
which is the base or a join, and compiles add clauses on columns of an anchor or of a join that
they asked for.  So every name is known where it is used, whatever was done to the statement and
however it ended; only a caller that asks for a join directly can use a name that is not known.

Main results:

- `LookupScope.Reaches.mem_names`: a field is reached under a name of the statement.
- `Query.inOrder_ensureAll`: requests on columns of the statement keep its joins in order.
- `Query.wellScoped_after`: relationships and compiles use known names only.
-/

namespace RowAccess

open Sql

namespace Sql

/-! ## Names -/

/-- A column is of one of the tables that are named. -/
def OwnedBy (names : List String) (column : String) : Prop :=
  ∃ owner ∈ names, ∃ name, column = Text.qualify owner name

theorem OwnedBy.mono {names more : List String} {column : String} (h : OwnedBy names column)
    (hsub : names ⊆ more) : OwnedBy more column := by
  obtain ⟨owner, howner, name, rfl⟩ := h
  exact ⟨owner, hsub howner, name, rfl⟩

/-- Aliases stay. -/
theorem JoinSet.Extends.aliases {s s' : JoinSet} (h : s.Extends s') : s.aliases ⊆ s'.aliases := by
  intro name hname
  obtain ⟨j, hj, rfl⟩ := List.mem_map.1 hname
  obtain ⟨j', hj', same⟩ := h.exists_mem hj
  rw [← Join.aliasName_of_plain_eq same]
  exact List.mem_map_of_mem hj'

/-- Each join is on a column of the base or of an earlier join. -/
def InOrder (base : String) (joins : List Join) : Prop :=
  ∀ i j, joins[i]? = some j → OwnedBy (base :: (joins.map Join.aliasName).take i) j.left

/-- The order of joins does not depend on their kinds. -/
theorem InOrder.widenAnswer {base : String} {joins : List Join} (h : InOrder base joins)
    (r : JoinRequest) : InOrder base (JoinSet.widenAnswer r joins) := by
  intro i j' hj'
  have keys := congrArg (fun keys => keys[i]?) (JoinSet.map_key_widenAnswer r joins)
  simp only [List.getElem?_map, hj', Option.map_some] at keys
  obtain ⟨j, hj, same⟩ := Option.map_eq_some_iff.1 keys.symm
  have left : j.left = j'.left := congrArg (fun key => key.2.1) same
  rw [JoinSet.aliases_widenAnswer, ← left]
  exact h i j hj

/-- A further join may be on a column of the base or of any join. -/
theorem InOrder.append {base : String} {joins : List Join} (h : InOrder base joins) {j : Join}
    (hj : OwnedBy (base :: joins.map Join.aliasName) j.left) : InOrder base (joins ++ [j]) := by
  intro i j' hj'
  rw [List.map_append]
  rcases Nat.lt_or_ge i joins.length with inside | behind
  · rw [List.getElem?_append_left inside] at hj'
    rw [List.take_append_of_le_length (by simpa using inside.le)]
    exact h i j' hj'
  · rw [List.getElem?_append_right behind, List.getElem?_singleton] at hj'
    split at hj'
    next last =>
      obtain rfl := Option.some.inj hj'
      have all : i = (joins.map Join.aliasName).length := by
        rw [List.length_map]
        omega
      rw [all, List.take_left']
      · exact hj
      · rfl
    next => cases hj'

namespace Query

/-- What is used in a statement is known there. -/
structure WellScoped (q : Query) : Prop where
  /-- Each join is on a column of the base or of an earlier join. -/
  joins : ∀ i j, q.joins.joins[i]? = some j →
    OwnedBy (q.aliasName :: q.joins.aliases.take i) j.left
  /-- Each clause is about a column of the base or of a join. -/
  clauses : ∀ c ∈ q.conditions.clauses, OwnedBy (q.aliasName :: q.joins.aliases) c.column
  /-- Each relationship leads to a table that was joined for it. -/
  relationships : ∀ name ∈ q.relationships.map Prod.fst, ∃ anchor,
    q.relationship? name = some anchor ∧
      ∃ j ∈ q.joins.joins, j.aliasName = anchor.aliasName ∧ j.table = anchor.table

/-- The joins of a statement are in order, and the alias of each relationship is that of a join. -/
structure Rooted (q : Query) : Prop where
  order : InOrder q.aliasName q.joins.joins
  named : ∀ entry ∈ q.relationships, entry.2 ∈ q.joins.aliases

/-! ## Anchors -/

/-- A relationship that is known leads to a join. -/
theorem exists_join_of_relationship? {q : Query} {name : String} {anchor : Anchor}
    (h : q.relationship? name = some anchor) :
    ∃ j ∈ q.joins.joins, j.aliasName = anchor.aliasName ∧ j.table = anchor.table := by
  rw [relationship?] at h
  split at h
  next => cases h
  next =>
    obtain ⟨aliasName, -, h⟩ := Option.bind_eq_some_iff.1 h
    obtain ⟨j, hj, h⟩ := Option.bind_eq_some_iff.1 h
    obtain rfl := Option.some.inj h
    have same := List.find?_some hj
    exact ⟨j, List.mem_of_find?_eq_some hj, of_decide_eq_true same, rfl⟩

theorem mem_names_of_relationship? {q : Query} {name : String} {anchor : Anchor}
    (h : q.relationship? name = some anchor) : anchor.aliasName ∈ q.names := by
  obtain ⟨j, hj, same, -⟩ := exists_join_of_relationship? h
  rw [← same]
  exact List.mem_cons_of_mem _ (List.mem_map_of_mem hj)

/-- A relationship hangs off the base or a join. -/
theorem mem_names_of_origin? {q : Query} {origin : Option String} {anchor : Anchor}
    (h : q.origin? origin = some anchor) : anchor.aliasName ∈ q.names := by
  cases origin with
  | some earlier => exact mem_names_of_relationship? h
  | none =>
    rw [origin?] at h
    split at h
    next => cases h
    next =>
      obtain rfl := Option.some.inj h
      exact List.mem_cons_self

/-- A relationship whose alias is that of a join leads there. -/
theorem Rooted.exists_relationship? {q : Query} (h : q.Rooted) {name : String}
    (hname : name ∈ q.relationships.map Prod.fst) :
    ∃ anchor, q.relationship? name = some anchor := by
  have known := h.named
  cases hform : q.form with
  | select =>
    rw [relationships, hform] at hname
    cases hname
  | listing entries =>
    rw [relationships, hform] at hname known
    obtain ⟨entry, hentry, same⟩ := List.mem_map.1 hname
    obtain ⟨aliasName, found⟩ : ∃ aliasName, entries.lookup name = some aliasName :=
      Option.isSome_iff_exists.1 (List.lookup_isSome_iff.2 ⟨entry, hentry, by simp [same]⟩)
    obtain ⟨before, behind, split, -⟩ := List.lookup_eq_some_iff.1 found
    have mem : (name, aliasName) ∈ entries := by simp [split]
    obtain ⟨j, hj, named⟩ := List.mem_map.1 (known _ mem)
    obtain ⟨j', found'⟩ : ∃ j', q.joins.byAlias? aliasName = some j' :=
      Option.isSome_iff_exists.1 (List.find?_isSome.2 ⟨j, hj, by simpa using named⟩)
    refine ⟨⟨aliasName, j'.table⟩, ?_⟩
    rw [relationship?, hform]
    simp only [found, found', Option.bind_eq_bind, Option.bind_some]
    rfl

/-! ## Requests -/

/-- Names stay. -/
theorem names_subset {q q' : Query} (base : q'.aliasName = q.aliasName)
    (hx : q.joins.Extends q'.joins) : q.names ⊆ q'.names := by
  rw [names, names, base]
  exact List.cons_subset_cons _ hx.aliases

/-- A request on a column of the statement keeps the joins in order. -/
theorem inOrder_ensureJoin {q : Query} (h : InOrder q.aliasName q.joins.joins) {r : JoinRequest}
    (hr : OwnedBy q.names r.left) : InOrder q.aliasName (q.ensureJoin r).1.joins.joins := by
  rw [ensureJoin]
  cases answered : q.joins.answer? r with
  | some j =>
    rw [JoinSet.ensure_of_answers answered]
    exact h.widenAnswer r
  | none =>
    rw [JoinSet.ensure_of_not_answers answered]
    exact h.append hr

/-- Requests on columns of the statement keep its joins in order. -/
theorem inOrder_ensureAll {q : Query} (h : InOrder q.aliasName q.joins.joins)
    {requests : List JoinRequest} (hr : ∀ r ∈ requests, OwnedBy q.names r.left) :
    InOrder q.aliasName (q.ensureAll requests).joins.joins := by
  induction requests generalizing q with
  | nil => exact h
  | cons r requests ih =>
    obtain ⟨first, rest⟩ := List.forall_mem_cons.1 hr
    rw [ensureAll_cons]
    have extended : q.joins.Extends (q.ensureJoin r).1.joins := q.joins.extends_ensure r _ _
    exact ih (inOrder_ensureJoin h first) fun r' hr' =>
      (rest r' hr').mono (names_subset rfl extended)

end Query

end Sql

/-! ## Lookups -/

/-- Fields are looked up from the base or from a join. -/
theorem Compiler.mem_names_of_anchor {c : Compiler} {q : Query} {anchor : Anchor}
    (h : c.anchor q = .ok anchor) : anchor.aliasName ∈ q.names := by
  rw [Compiler.anchor] at h
  split at h
  next =>
    obtain rfl := Except.ok.inj h
    exact List.mem_cons_self
  next name _ =>
    split at h
    next anchor' found =>
      obtain rfl := Except.ok.inj h
      exact Query.mem_names_of_relationship? found
    next => cases h

theorem Sql.Query.Links.mem_names {q : Query} {r : JoinRequest} {aliasName : String}
    (h : q.Links r aliasName) : aliasName ∈ q.names := by
  obtain ⟨j, hj, -, rfl⟩ := h
  exact List.mem_cons_of_mem _ (List.mem_map_of_mem hj)

/-- A field is reached under a name of the statement. -/
theorem LookupScope.Reaches.mem_names {scope : LookupScope} {q : Query} {storage : FieldStorage}
    {aliasName : String} (h : scope.Reaches q storage aliasName)
    (hanchor : scope.anchor.aliasName ∈ q.names) : aliasName ∈ q.names := by
  cases h with
  | dedicated h link => exact link.mem_names
  | anchor h same => exact hanchor
  | found h other hfind =>
    obtain ⟨j, hj, rfl⟩ := Option.map_eq_some_iff.1 hfind
    exact List.mem_cons_of_mem _ (List.mem_map_of_mem (List.mem_of_find?_eq_some hj))
  | dotted h other hdot link => exact link.mem_names

/-- A field that was looked up from a table of the statement has a column of one. -/
theorem Lookup.Stands.owned {l : Lookup} {q : Query} (h : l.Stands q)
    (hanchor : l.scope.anchor.aliasName ∈ q.names) : OwnedBy q.names l.column := by
  obtain ⟨_, storage, aliasName, -, -, reach, column⟩ := h.reached
  exact ⟨aliasName, reach.mem_names hanchor, storage.column, column⟩

namespace Step

/-- A step keeps the names of the statement. -/
theorem names_subset (s : Step) (q : Query) : q.names ⊆ (s.apply q).names := by
  refine Query.names_subset (congrArg Anchor.aliasName (s.sameBase_apply q).base) ?_
  rw [joins_apply]
  exact q.extends_ensureAll _

/-- The fields that a step looks up are looked up from a table of the statement. -/
theorem anchor_mem_names (s : Step) {q : Query} :
    ∀ l ∈ s.lookups q, l.scope.anchor.aliasName ∈ q.names := by
  cases s with
  | join r => exact List.forall_mem_nil _
  | relate name origin table kind leftColumn rightColumn => exact List.forall_mem_nil _
  | compile c t revisionScoped =>
    intro l hl
    rw [lookups, Compiler.trail] at hl
    cases ha : c.anchor q with
    | error e =>
      rw [ha] at hl
      cases hl
    | ok anchor =>
      rw [ha] at hl
      have own := (LookupScope.trail_stands _ _ _ l hl).1
      rw [own]
      exact Compiler.mem_names_of_anchor ha

/-- Unless it is made by the caller, a request is on a column of the statement. -/
theorem owned_of_mem_requests {s : Step} (hs : ∀ r, s ≠ .join r) {q : Query} :
    ∀ r ∈ s.requests q, OwnedBy q.names r.left := by
  intro r hr
  cases s with
  | join r' => exact absurd rfl (hs r')
  | relate name origin table kind leftColumn rightColumn =>
    obtain ⟨anchor, horigin, rfl⟩ := Option.map_eq_some_iff.1 (Option.mem_toList.1 hr)
    exact ⟨anchor.aliasName, Query.mem_names_of_origin? horigin, leftColumn, rfl⟩
  | compile c t revisionScoped =>
    obtain ⟨l, hl, asked⟩ := List.mem_filterMap.1 hr
    obtain ⟨key, left⟩ := (c.stands_of_mem_trail t q revisionScoped l hl).request r asked
    exact ⟨_, (compile c t revisionScoped).anchor_mem_names l hl, key, left⟩

/-- Unless the caller asks for a join, a step keeps the joins in order and gives relationships the
aliases of joins. -/
theorem rooted_apply {s : Step} (hs : ∀ r, s ≠ .join r) {q : Query} (hq : q.Rooted) :
    (s.apply q).Rooted := by
  have same : (s.apply q).aliasName = q.aliasName :=
    congrArg Anchor.aliasName (s.sameBase_apply q).base
  have extended : q.joins.Extends (s.apply q).joins := by
    rw [joins_apply]
    exact q.extends_ensureAll _
  constructor
  · rw [same, joins_apply]
    exact Query.inOrder_ensureAll hq.order (owned_of_mem_requests hs)
  · have earlier : ∀ entry ∈ q.relationships, entry.2 ∈ (s.apply q).joins.aliases :=
      fun entry hentry => extended.aliases (hq.named entry hentry)
    cases s with
    | join r => exact absurd rfl (hs r)
    | relate name origin table kind leftColumn rightColumn =>
      rcases relate_cases name origin table kind leftColumn rightColumn q with
        ⟨-, refused⟩ | ⟨r, -, -, done⟩
      · rw [refused]
        exact hq.named
      · rw [done] at earlier ⊢
        obtain ⟨j, hj, -, linked⟩ := q.links_ensureJoin r
        refine List.forall_mem_cons.2 ⟨?_, earlier⟩
        rw [← linked]
        exact List.mem_map_of_mem hj
    | compile c t revisionScoped =>
      have same : (c.compile t q revisionScoped).query.relationships = q.relationships := by
        rw [Query.relationships, Query.relationships, c.form_compile]
      rw [apply, same]
      exact earlier

end Step

/-! ## Runs -/

namespace Sql.Query

/-- What was looked up is under a name of the statement. -/
theorem owned_of_mem_lookups (q : Query) (steps : List Step) :
    ∀ l ∈ q.lookups steps, OwnedBy (q.after steps).names l.column := by
  have known : ∀ l ∈ q.lookups steps, l.scope.anchor.aliasName ∈ (q.after steps).names := by
    induction steps generalizing q with
    | nil => exact List.forall_mem_nil _
    | cons s steps ih =>
      intro l hl
      rcases List.mem_append.1 hl with first | rest
      · have base : (q.after (s :: steps)).aliasName = q.aliasName :=
          congrArg Anchor.aliasName (q.sameBase_after (s :: steps)).base
        exact names_subset base (q.extends_after (s :: steps)) (s.anchor_mem_names l first)
      · exact ih (s.apply q) l rest
  intro l hl
  exact (q.stands_of_mem_lookups steps l hl).owned (known l hl)

/-- Unless the caller asks for a join, joins stay in order and relationships have the aliases of
joins. -/
theorem Rooted.after {q : Query} (hq : q.Rooted) {steps : List Step}
    (own : ∀ r, Step.join r ∉ steps) : (q.after steps).Rooted := by
  induction steps generalizing q with
  | nil => exact hq
  | cons s steps ih =>
    have first (r : JoinRequest) : s ≠ .join r := fun h => own r (h ▸ List.mem_cons_self)
    have rest (r : JoinRequest) : Step.join r ∉ steps := fun h => own r (List.mem_cons_of_mem _ h)
    exact ih (s.rooted_apply first hq) rest

/-- A statement that nothing was done to. -/
inductive Fresh : Query → Prop where
  | select (table : String) (aliasName : Option String) : Fresh (.select table aliasName)
  | listing (table : String) : Fresh (.listing table)

/-- Relationships and compiles, also those that fail, leave a statement that uses known names
only. -/
theorem wellScoped_after {q : Query} (hq : q.Fresh) {steps : List Step}
    (own : ∀ r, Step.join r ∉ steps) : (q.after steps).WellScoped := by
  have start : q.Rooted ∧ q.conditions = ∅ := by
    cases hq with
    | select table aliasName => exact ⟨⟨nofun, nofun⟩, rfl⟩
    | listing table => exact ⟨⟨nofun, nofun⟩, rfl⟩
  obtain ⟨rooted, empty⟩ := start
  have tree : q.conditions.Tree := empty ▸ ConditionSet.tree_empty
  have rooted' := rooted.after own
  constructor
  · exact rooted'.order
  · intro c hc
    rw [(tree_after tree steps).mem_clauses_iff, depthFirstClauses_after tree, empty] at hc
    obtain ⟨l, hl, found⟩ := List.mem_filterMap.1 hc
    rw [(q.stands_of_mem_lookups steps l hl).column_clause found]
    exact q.owned_of_mem_lookups steps l hl
  · intro name hname
    obtain ⟨anchor, found⟩ := rooted'.exists_relationship? hname
    exact ⟨anchor, found, exists_join_of_relationship? found⟩

end Sql.Query

/-- Filters on the picture of the author of an article and on the owner of that picture, whose
relationship is registered under the name of the author.  The second filter is refused half-way. -/
def authorSteps : List Step :=
  [.relate "author" none "users" .left "uid" "uid",
    .relate "picture" (some "author") "files" .inner "picture" "fid",
    .compile ⟨articlesWithTags.resolver, .listing (some "picture"), {}⟩
      (FilterTree.all.addPredicate (.equals "tags" (.text "news"))) false,
    .relate "author" (some "picture") "users" .inner "owner" "uid",
    .compile ⟨articlesWithTags.resolver, .listing (some "author"), {}⟩
      ((FilterTree.all.addPredicate (.isNull "tags")).addPredicate (.make "tags" .between (.int 1)))
      false]

/-- Joins hang off joins of earlier relationships, and clauses stay where they were put. -/
theorem Sql.Query.wellScoped_after_authorSteps :
    (Query.listing "node").Fresh ∧ (∀ r, Step.join r ∉ authorSteps) ∧
    ((Query.listing "node").after authorSteps).WellScoped ∧
    ((Query.listing "node").after authorSteps).joins.joins.map (fun j => (j.aliasName, j.left)) =
      [("users", "node.uid"), ("users_files", "users.picture"),
        ("users_files_node__tags", "users_files.nid"), ("users_files_users", "users_files.owner"),
        ("users_files_users_node__tags", "users_files_users.nid")] ∧
    ((Query.listing "node").after authorSteps).conditions.clauses.map Clause.column =
      ["users_files_node__tags.tags_value", "users_files_users_node__tags.tags_value"] := by
  have own (r : JoinRequest) : Step.join r ∉ authorSteps := by simp [authorSteps]
  exact ⟨.listing "node", own, wellScoped_after (.listing "node") own, by rfl, by rfl⟩

end RowAccess
