import Mathlib.Data.List.Induction
import RowAccess.Proofs.Lowering.Literals
import RowAccess.Proofs.Storage.Columns

/-!
# Definitions of fields

The definition of a field is made by calls that each add to it: one more property, another table, or
that the case of the main property does not count.  Which calls are made decides what the definition
says, and their order does not, with one exception.  The call that adds a property says that the case
of that property counts, and if it names the main property, it takes back what was said before.  So
the case of the main property does not count if a call said so and the main property was not named
again behind it.

Main results:

- `FieldDefinition.caseInsensitive_built_of_perm`: the order of the calls decides nothing else.
- `FieldDefinition.built_eq_iff_of_perm`: when two orders make the same definition.
- `Lowering.compares_of_clause`: what becomes of an equality.
- `FieldDefinition.calls_commute_iff`: so it is for what is looked up, and for compiles.
- `FieldDefinition.caseCounts_renamedMain`: the exception.
-/

namespace RowAccess

open Sql

/-! ## Calls -/

/-- A call that adds to the definition of a field. -/
inductive FieldCall where
  | property (name : String)
  | caseInsensitive
  | dataTable
  | dedicated
  deriving DecidableEq

namespace FieldDefinition

/-- The definition after a call. -/
def call (f : FieldDefinition) : FieldCall → FieldDefinition
  | .property name => f.withProperty name
  | .caseInsensitive => f.caseInsensitive
  | .dataTable => f.onDataTable
  | .dedicated => f.asDedicated

/-- The definition that calls make from that of a field with its main property. -/
def built (name main : String) (calls : List FieldCall) : FieldDefinition :=
  calls.foldl call (single name main)

/-- A call says that the case of the main property does not count, and no call behind it names that
property again. -/
def CaseDropped (main : String) (calls : List FieldCall) : Prop :=
  ∃ before after, calls = before ++ .caseInsensitive :: after ∧ .property main ∉ after

@[simp] theorem name_caseInsensitive (f : FieldDefinition) : f.caseInsensitive.name = f.name := rfl

@[simp] theorem mainProperty_caseInsensitive (f : FieldDefinition) :
    f.caseInsensitive.mainProperty = f.mainProperty := rfl

@[simp] theorem properties_caseInsensitive (f : FieldDefinition) :
    f.caseInsensitive.properties = f.properties := rfl

@[simp] theorem dedicated_caseInsensitive (f : FieldDefinition) :
    f.caseInsensitive.dedicated = f.dedicated := rfl

@[simp] theorem table_caseInsensitive (f : FieldDefinition) :
    f.caseInsensitive.table = f.table := rfl

variable {name main : String} {calls calls' : List FieldCall}

@[simp] theorem built_nil : built name main [] = single name main := rfl

@[simp] theorem built_concat (c : FieldCall) :
    built name main (calls ++ [c]) = (built name main calls).call c := by
  simp [built]

/-- The last call says so, or it does not take back what was said before it. -/
theorem caseDropped_concat {c : FieldCall} :
    CaseDropped main (calls ++ [c]) ↔
      c = .caseInsensitive ∨ c ≠ .property main ∧ CaseDropped main calls := by
  constructor
  · rintro ⟨before, after, split, kept⟩
    rcases List.eq_nil_or_concat after with rfl | ⟨after, d, rfl⟩
    · have last := (List.append_inj' split rfl).2
      exact .inl (List.singleton_inj.1 last)
    · have split : calls ++ [c] = (before ++ .caseInsensitive :: after) ++ [d] := by
        simpa using split
      obtain ⟨rfl, last⟩ := List.append_inj' split rfl
      obtain rfl : c = d := List.singleton_inj.1 last
      simp only [List.concat_eq_append, List.mem_append, List.mem_singleton, not_or] at kept
      exact .inr ⟨fun h => kept.2 h.symm, before, after, rfl, kept.1⟩
  · rintro (rfl | ⟨other, before, after, rfl, kept⟩)
    · exact ⟨calls, [], rfl, List.not_mem_nil⟩
    · refine ⟨before, after ++ [c], by simp, ?_⟩
      simp only [List.mem_append, List.mem_singleton, not_or]
      exact ⟨kept, fun h => other h.symm⟩

/-- If no call takes it back, it is enough that some call says so. -/
theorem caseDropped_iff_of_apart (h : .property main ∉ calls ∨ .caseInsensitive ∉ calls) :
    CaseDropped main calls ↔ .caseInsensitive ∈ calls := by
  constructor
  · rintro ⟨before, after, rfl, -⟩
    simp
  · intro mem
    obtain ⟨before, after, rfl⟩ := List.append_of_mem mem
    have kept := h.resolve_right (not_not_intro mem)
    exact ⟨before, after, rfl, fun again => kept (by simp [again])⟩

/-! ## What calls make -/

@[simp] theorem name_built : (built name main calls).name = name := by
  induction calls using List.reverseRecOn with
  | nil => rfl
  | append_singleton calls c ih => rw [built_concat]; cases c <;> exact ih

@[simp] theorem mainProperty_built : (built name main calls).mainProperty = main := by
  induction calls using List.reverseRecOn with
  | nil => rfl
  | append_singleton calls c ih => rw [built_concat]; cases c <;> exact ih

theorem mem_properties_built {property : String} :
    property ∈ (built name main calls).properties ↔
      property = main ∨ .property property ∈ calls := by
  induction calls using List.reverseRecOn with
  | nil =>
    rw [built_nil, single, NameSet.mem_insert]
    simp [NameSet.empty, NameSet.mem_def]
  | append_singleton calls c ih =>
    rw [built_concat]
    cases c with
    | property name =>
      simp only [call, withProperty, NameSet.mem_insert, ih, List.mem_append, List.mem_singleton,
        FieldCall.property.injEq]
      tauto
    | caseInsensitive | dataTable | dedicated =>
      simpa [call, caseInsensitive, onDataTable, asDedicated] using ih

theorem dedicated_built : (built name main calls).dedicated = true ↔ .dedicated ∈ calls := by
  induction calls using List.reverseRecOn with
  | nil => simp [single]
  | append_singleton calls c ih =>
    rw [built_concat]
    cases c <;> simp [call, withProperty, caseInsensitive, onDataTable, asDedicated, ih]

theorem table_built : (built name main calls).table = .data ↔ .dataTable ∈ calls := by
  induction calls using List.reverseRecOn with
  | nil => simp [single]
  | append_singleton calls c ih =>
    rw [built_concat]
    cases c <;> simp [call, withProperty, caseInsensitive, onDataTable, asDedicated, ih]

/-- The case of the main property does not count if the calls leave it so. -/
theorem mainCaseSensitive_built :
    (built name main calls).mainCaseSensitive = false ↔ CaseDropped main calls := by
  induction calls using List.reverseRecOn with
  | nil =>
    refine iff_of_false (by simp [single]) ?_
    rintro ⟨before, after, split, -⟩
    simp at split
  | append_singleton calls c ih =>
    rw [built_concat, caseDropped_concat, ← ih]
    cases c <;> simp [call, withProperty, caseInsensitive, onDataTable, asDedicated, and_comm]

/-! ## The order of calls -/

/-- Definitions that say the same in each respect are equal. -/
theorem eq_of_parts {f g : FieldDefinition} (hname : f.name = g.name)
    (hmain : f.mainProperty = g.mainProperty)
    (hproperties : ∀ property, property ∈ f.properties ↔ property ∈ g.properties)
    (hcase : f.mainCaseSensitive = false ↔ g.mainCaseSensitive = false)
    (hdedicated : f.dedicated = true ↔ g.dedicated = true)
    (htable : f.table = .data ↔ g.table = .data) : f = g := by
  obtain ⟨fname, fmain, fproperties, fcase, fdedicated, ftable, fmem⟩ := f
  obtain ⟨gname, gmain, gproperties, gcase, gdedicated, gtable, gmem⟩ := g
  obtain rfl : fproperties = gproperties := NameSet.ext_mem hproperties
  cases fcase <;> cases gcase <;> cases fdedicated <;> cases gdedicated <;> cases ftable <;>
    cases gtable <;> simp_all

/-- Up to the case of the main property, the same calls in any order make the same definition. -/
theorem caseInsensitive_built_of_perm (h : calls.Perm calls') :
    (built name main calls).caseInsensitive = (built name main calls').caseInsensitive := by
  apply eq_of_parts
  · simp
  · simp
  · intro property
    simp [mem_properties_built, h.mem_iff]
  · exact Iff.rfl
  · simp [dedicated_built, h.mem_iff]
  · simp [table_built, h.mem_iff]

/-- Definitions that differ at most in the case of the main property, and agree on it, are equal. -/
theorem eq_of_caseInsensitive_eq {f g : FieldDefinition}
    (rest : f.caseInsensitive = g.caseInsensitive)
    (counts : f.mainCaseSensitive = false ↔ g.mainCaseSensitive = false) : f = g := by
  have same : f.mainCaseSensitive = g.mainCaseSensitive := by
    rw [Bool.eq_iff_iff]
    simpa using not_congr counts
  calc
    f = { f.caseInsensitive with mainCaseSensitive := f.mainCaseSensitive } := rfl
    _ = { g.caseInsensitive with mainCaseSensitive := g.mainCaseSensitive } := by rw [rest, same]
    _ = g := rfl

/-- The same calls in two orders make the same definition if both leave the case of the main property
the same. -/
theorem built_eq_iff_of_perm (h : calls.Perm calls') :
    built name main calls = built name main calls' ↔
      (CaseDropped main calls ↔ CaseDropped main calls') := by
  constructor
  · intro same
    rw [← @mainCaseSensitive_built name, same, mainCaseSensitive_built]
  · intro same
    refine eq_of_caseInsensitive_eq (caseInsensitive_built_of_perm h) ?_
    rw [mainCaseSensitive_built, mainCaseSensitive_built]
    exact same

end FieldDefinition

/-! ## Looking up -/

/-- How a property is stored, but for whether its case counts. -/
def FieldStorage.caseless (s : FieldStorage) : FieldStorage := { s with caseSensitive := false }

namespace TableMapping

variable (m : TableMapping)

/-- A field that is defined is looked up by its definition, and any other as before. -/
theorem storage?_withField (f : FieldDefinition) (field : String) (property : Option String) :
    (m.withField f).storage? field property =
      if field = f.name then
        (f.caseSensitive? (property.getD f.mainProperty)).map
          (m.storageOf f (property.getD f.mainProperty))
      else m.storage? field property := by
  rw [storage?_eq_bind, field?_withField]
  split
  · rfl
  · rw [storage?_eq_bind]
    rfl

theorem caseSensitive_storageOf (f : FieldDefinition) (property : String) (caseSensitive : Bool) :
    (m.storageOf f property caseSensitive).caseSensitive = caseSensitive := by
  unfold storageOf
  split
  · rfl
  · rfl

theorem caseless_storageOf (f : FieldDefinition) (property : String) (before after : Bool) :
    (m.storageOf f.caseInsensitive property after).caseless =
      (m.storageOf f property before).caseless := by
  unfold storageOf
  rw [FieldDefinition.dedicated_caseInsensitive]
  split
  · rfl
  · rfl

/-- What a field is looked up as, if its case does not count, is what it is looked up as otherwise,
but for the case. -/
theorem caseless_storage?_withField (f : FieldDefinition) (field : String)
    (property : Option String) :
    ((m.withField f.caseInsensitive).storage? field property).map FieldStorage.caseless =
      ((m.withField f).storage? field property).map FieldStorage.caseless := by
  rw [storage?_withField, storage?_withField, FieldDefinition.name_caseInsensitive]
  split
  · unfold FieldDefinition.caseSensitive?
    rw [FieldDefinition.mainProperty_caseInsensitive, FieldDefinition.properties_caseInsensitive]
    split
    · exact congrArg some (m.caseless_storageOf f _ _ _)
    · rfl
  · rfl

/-- So what is looked up does not depend on the order of the calls that defined the field, but for
whether the case counts. -/
theorem caseless_storage?_of_perm {name main : String} {calls calls' : List FieldCall}
    (h : calls.Perm calls') (field : String) (property : Option String) :
    ((m.withField (.built name main calls)).storage? field property).map FieldStorage.caseless =
      ((m.withField (.built name main calls')).storage? field property).map
        FieldStorage.caseless := by
  rw [← caseless_storage?_withField, FieldDefinition.caseInsensitive_built_of_perm h,
    caseless_storage?_withField]

variable {m}

/-- The main property is found, and its case counts as the definition has it. -/
theorem exists_storage?_main {field : String} {f : FieldDefinition} (hf : m.field? field = some f)
    {property : Option String} (hp : property = none ∨ property = some f.mainProperty) :
    ∃ storage, m.storage? field property = some storage ∧
      storage.caseSensitive = f.mainCaseSensitive := by
  have main : property.getD f.mainProperty = f.mainProperty := by
    rcases hp with rfl | rfl <;> rfl
  have counts : f.caseSensitive? f.mainProperty = some f.mainCaseSensitive := by
    rw [FieldDefinition.caseSensitive?, if_pos f.main_mem, if_pos rfl]
  refine ⟨m.storageOf f f.mainProperty f.mainCaseSensitive, ?_, m.caseSensitive_storageOf _ _ _⟩
  rw [storage?_eq_bind, hf, Option.bind_some, main, counts, Option.map_some]

/-- The main property is found, and its case does not count if the calls leave it so. -/
theorem exists_storage?_built {name main : String} {calls : List FieldCall}
    (hf : m.field? name = some (.built name main calls)) {property : Option String}
    (hp : property = none ∨ property = some main) :
    ∃ storage, m.storage? name property = some storage ∧
      (storage.caseSensitive = false ↔ FieldDefinition.CaseDropped main calls) := by
  rw [← @FieldDefinition.mainProperty_built name main calls] at hp
  obtain ⟨storage, found, counts⟩ := exists_storage?_main hf hp
  refine ⟨storage, found, ?_⟩
  rw [counts, FieldDefinition.mainCaseSensitive_built]

/-- Two orders of calls define what is looked up in the same way if both leave the case of the main
property the same. -/
theorem storage?_eq_iff_of_perm (m : TableMapping) {name main : String}
    {calls calls' : List FieldCall} (h : calls.Perm calls') :
    (∀ field property, (m.withField (.built name main calls)).storage? field property =
        (m.withField (.built name main calls')).storage? field property) ↔
      (FieldDefinition.CaseDropped main calls ↔ FieldDefinition.CaseDropped main calls') := by
  constructor
  · intro same
    have defined (calls : List FieldCall) :
        (m.withField (.built name main calls)).field? name = some (.built name main calls) := by
      rw [field?_withField, FieldDefinition.name_built, if_pos rfl]
    obtain ⟨storage, found, counts⟩ := exists_storage?_built (defined calls) (.inl rfl)
    obtain ⟨storage', found', counts'⟩ := exists_storage?_built (defined calls') (.inl rfl)
    obtain rfl : storage = storage' := by
      rw [same, found'] at found
      exact (Option.some.inj found).symm
    exact counts.symm.trans counts'
  · intro same field property
    rw [(FieldDefinition.built_eq_iff_of_perm h).2 same]

end TableMapping

/-! ## Equalities -/

/-- The clause compares with the pattern that is literally the operand. -/
def Predicate.ComparesPattern (p : Predicate) (escape : Char) (c : Clause) : Prop :=
  ∃ operand, p.value = .text operand ∧
    c.op = (if p.op = .eq then .like escape else .notLike escape) ∧
    c.value = .text (LikePattern.escapeText operand escape)

/-- The clause compares as the predicate does. -/
def Predicate.ComparesPlainly (p : Predicate) (c : Clause) : Prop :=
  c.op = .compare p.op ∧ c.value = p.value

theorem Predicate.ComparesPattern.not_comparesPlainly {p : Predicate} {escape : Char} {c : Clause}
    (h : p.ComparesPattern escape c) : ¬ p.ComparesPlainly c := by
  obtain ⟨operand, -, hop, -⟩ := h
  rintro ⟨plain, -⟩
  rw [plain] at hop
  split at hop <;> cases hop

namespace Lowering

variable {p : Predicate} {column : String} {caseSensitive : Bool} {options : CompileOptions}
  {c : Clause}

/-- On a column whose case does not count, an equality with a text or its negation becomes a
comparison with a pattern. -/
theorem comparesPattern_of_clause {operand : String}
    (h : clause p column false options = .ok c) (rewrite : options.caseInsensitiveLike = true)
    (hop : p.op = .eq ∨ p.op = .ne) (hv : p.value = .text operand) :
    p.ComparesPattern options.likeEscape c := by
  rw [clause_of_text h rewrite hop hv]
  refine ⟨operand, hv, ?_, rfl⟩
  rcases hop with hop | hop
  · simp [PatternTest.op, hop]
  · simp [PatternTest.op, hop]

/-- In any other case it stays what it is. -/
theorem comparesPlainly_of_clause (h : clause p column caseSensitive options = .ok c)
    (hop : p.op = .eq ∨ p.op = .ne)
    (other : ¬ (caseSensitive = false ∧ options.caseInsensitiveLike = true ∧
      ∃ operand, p.value = .text operand)) : p.ComparesPlainly c := by
  obtain ⟨value, hoperand, rfl⟩ := exists_operand_of_clause h
  have kept : value = p.value := by
    rcases hop with hop | hop <;> simp [operand, hop] at hoperand <;> exact hoperand.symm
  subst kept
  unfold clauseFor
  cases hv : p.value with
  | text operand =>
    have plain : ¬ (!caseSensitive && options.caseInsensitiveLike) = true := by
      intro pattern
      obtain ⟨insensitive, rewrite⟩ := (Bool.and_eq_true _ _).mp pattern
      exact other ⟨by simpa using insensitive, rewrite, operand, hv⟩
    rcases hop with hop | hop
    · simp [Predicate.ComparesPlainly, hop, hv, plain]
    · simp [Predicate.ComparesPlainly, hop, hv, plain]
  | _ =>
    rcases hop with hop | hop
    · simp [Predicate.ComparesPlainly, hop, hv]
    · simp [Predicate.ComparesPlainly, hop, hv]

/-- An equality or its negation becomes a comparison with a pattern if the case of the column does
not count, unless the options ignore that, and if the operand is a text. -/
theorem compares_of_clause (h : clause p column caseSensitive options = .ok c)
    (hop : p.op = .eq ∨ p.op = .ne) :
    (p.ComparesPattern options.likeEscape c ↔
      caseSensitive = false ∧ options.caseInsensitiveLike = true ∧
        ∃ operand, p.value = .text operand) ∧
    (p.ComparesPlainly c ↔ ¬ p.ComparesPattern options.likeEscape c) := by
  by_cases cond : caseSensitive = false ∧ options.caseInsensitiveLike = true ∧
      ∃ operand, p.value = .text operand
  · obtain ⟨rfl, rewrite, operand, hv⟩ := cond
    have pattern := comparesPattern_of_clause h rewrite hop hv
    exact ⟨iff_of_true pattern ⟨rfl, rewrite, operand, hv⟩,
      iff_of_false pattern.not_comparesPlainly (not_not_intro pattern)⟩
  · have plain := comparesPlainly_of_clause h hop cond
    have notPattern : ¬ p.ComparesPattern options.likeEscape c :=
      fun pattern => pattern.not_comparesPlainly plain
    exact ⟨iff_of_false notPattern cond, iff_of_true plain notPattern⟩

end Lowering

/-- The predicate compares the main property of a field. -/
def Predicate.OnMain (p : Predicate) (name main : String) : Prop :=
  ∃ path, p.path = .ok path ∧ path.field = name ∧
    (path.property = none ∨ path.property = some main)

/-- An equality on the main property, or its negation, becomes one clause.  It compares with a
pattern if the calls leave the case of the property without account, unless the options ignore that,
and if the operand is a text; and it is what the predicate is otherwise. -/
theorem LookupScope.Emits.compares {scope : LookupScope} {q : Query} {p : Predicate}
    {clauses : List Clause} (h : scope.Emits q p clauses) {m : TableMapping} {name main : String}
    {calls : List FieldCall} (mapped : scope.compiler.resolver = m.resolver)
    (hf : m.field? name = some (.built name main calls)) (hp : p.OnMain name main)
    (hop : p.op = .eq ∨ p.op = .ne) :
    ∃ c, clauses = [c] ∧
      (p.ComparesPattern scope.compiler.options.likeEscape c ↔
        FieldDefinition.CaseDropped main calls ∧
          scope.compiler.options.caseInsensitiveLike = true ∧
            ∃ operand, p.value = .text operand) ∧
      (p.ComparesPlainly c ↔ ¬ p.ComparesPattern scope.compiler.options.likeEscape c) := by
  obtain ⟨path, hpath, rfl, hproperty⟩ := hp
  obtain ⟨storage, found, counts⟩ := TableMapping.exists_storage?_built hf hproperty
  have stored : scope.Stores p storage := ⟨path, hpath, by rw [mapped]; exact found⟩
  obtain ⟨aliasName, c, rfl, -, hclause⟩ := h.of_stores stored
  refine ⟨c, rfl, ?_⟩
  rw [← counts]
  exact Lowering.compares_of_clause hclause hop

namespace FieldDefinition

/-- The order of the calls that define a field matters for nothing but the case of the main property.
Two orders make the same definition, and the mapping looks up the same, just if both leave that the
same; and so they do if the calls never say that the case does not count, or never name the main
property.  If the calls leave it so, and only then, the main property is looked up as one whose case
does not count, and its equalities with texts become comparisons with patterns. -/
theorem calls_commute_iff (name main : String) {calls calls' : List FieldCall}
    (h : calls.Perm calls') :
    (built name main calls = built name main calls' ↔
      (CaseDropped main calls ↔ CaseDropped main calls')) ∧
    (.property main ∉ calls ∨ .caseInsensitive ∉ calls →
      (CaseDropped main calls ↔ .caseInsensitive ∈ calls) ∧
        built name main calls = built name main calls') ∧
    (∀ m : TableMapping,
      ((∀ field property, (m.withField (built name main calls)).storage? field property =
          (m.withField (built name main calls')).storage? field property) ↔
        (CaseDropped main calls ↔ CaseDropped main calls')) ∧
      ∀ field property,
        ((m.withField (built name main calls)).storage? field property).map
            FieldStorage.caseless =
          ((m.withField (built name main calls')).storage? field property).map
            FieldStorage.caseless) ∧
    ∀ m : TableMapping, m.field? name = some (built name main calls) →
      (∀ property, property = none ∨ property = some main →
        ∃ storage, m.storage? name property = some storage ∧
          (storage.caseSensitive = false ↔ CaseDropped main calls)) ∧
      ∀ (backend : Backend) (options : CompileOptions) (t : FilterTree) (q : Query)
        (revisionScoped : Bool), q.Reachable →
          ∃ handled rest emitted, t.livePredicates = handled ++ rest ∧
            (errorOf (Compiler.compile ⟨m.resolver, backend, options⟩ t q revisionScoped).outcome =
              none → rest = []) ∧
            (Compiler.compile ⟨m.resolver, backend, options⟩ t q
                revisionScoped).query.conditions.depthFirstClauses =
              q.conditions.depthFirstClauses ++ emitted.flatten ∧
            List.Forall₂ (fun p clauses => p.OnMain name main → p.op = .eq ∨ p.op = .ne →
              ∃ c, clauses = [c] ∧
                (p.ComparesPattern options.likeEscape c ↔
                  CaseDropped main calls ∧ options.caseInsensitiveLike = true ∧
                    ∃ operand, p.value = .text operand) ∧
                (p.ComparesPlainly c ↔ ¬ p.ComparesPattern options.likeEscape c))
              handled emitted := by
  refine ⟨built_eq_iff_of_perm h, fun apart => ?_, fun m => ?_, fun m hf => ⟨?_, ?_⟩⟩
  · have dropped := caseDropped_iff_of_apart apart
    rw [h.mem_iff, h.mem_iff] at apart
    refine ⟨dropped, (built_eq_iff_of_perm h).2 ?_⟩
    rw [dropped, caseDropped_iff_of_apart apart, h.mem_iff]
  · exact ⟨m.storage?_eq_iff_of_perm h, m.caseless_storage?_of_perm h⟩
  · exact fun property hp => TableMapping.exists_storage?_built hf hp
  · intro backend options t q revisionScoped hq
    obtain ⟨handled, rest, emitted, split, complete, added, each⟩ :=
      Compiler.exists_emits_compile ⟨m.resolver, backend, options⟩ t revisionScoped hq.nested
    refine ⟨handled, rest, emitted, split, complete, added, each.imp ?_⟩
    rintro p clauses ⟨anchor, -, emits⟩ onMain hop
    exact emits.compares rfl hf onMain hop

/-- Articles with a text and its format, where the case of the text does not count. -/
def formattedArticles : TableMapping :=
  (TableMapping.ofTables "node"
    { baseTable := "node", idKey := "nid", dataTable := some "node_field_data" }).withField
    (built "body" "value" [.caseInsensitive, .dataTable, .property "format"])

/-- The format may be added first, and either way a text is looked for by a pattern. -/
theorem calls_commute_iff_formattedArticles :
    List.Perm [FieldCall.caseInsensitive, .dataTable, .property "format"]
        [.property "format", .caseInsensitive, .dataTable] ∧
      built "body" "value" [.caseInsensitive, .dataTable, .property "format"] =
        built "body" "value" [.property "format", .caseInsensitive, .dataTable] ∧
      (Query.select "node").Reachable ∧
      ∃ clause,
        (Compiler.compile ⟨formattedArticles.resolver, .entity, {}⟩
            (FilterTree.all.add (.leaf (.equals "body" (.text "Draft")))) (Query.select "node")
            false).query.conditions.depthFirstClauses = [clause] ∧
          (Predicate.equals "body" (.text "Draft")).ComparesPattern '\\' clause := by
  have orders : List.Perm [FieldCall.caseInsensitive, .dataTable, .property "format"]
      [.property "format", .caseInsensitive, .dataTable] := by decide
  have start : (Query.select "node").Reachable := .select "node"
  obtain ⟨-, apart, -, defined⟩ := calls_commute_iff "body" "value" orders
  obtain ⟨dropped, same⟩ := apart (.inl (by decide))
  refine ⟨orders, same, start, ?_⟩
  obtain ⟨handled, rest, emitted, split, complete, added, each⟩ :=
    (defined formattedArticles rfl).2 .entity {}
      (FilterTree.all.add (.leaf (.equals "body" (.text "Draft")))) _ false start
  obtain rfl := complete rfl
  rw [List.append_nil] at split
  obtain rfl : [Predicate.equals "body" (.text "Draft")] = handled := split
  obtain ⟨clauses, _, compares, others, rfl⟩ := List.forall₂_cons_left_iff.1 each
  obtain rfl := List.forall₂_nil_left_iff.1 others
  obtain ⟨clause, rfl, pattern, -⟩ :=
    compares ⟨⟨"body", none⟩, rfl, rfl, .inl rfl⟩ (.inl rfl)
  exact ⟨clause, added, pattern.2 ⟨dropped.2 (by decide), rfl, "Draft", rfl⟩⟩

/-- The main property named again behind takes back that its case does not count, and then a title is
compared as it is. -/
theorem caseCounts_renamedMain :
    List.Perm [FieldCall.caseInsensitive, .property "value"]
        [.property "value", .caseInsensitive] ∧
      built "title" "value" [.caseInsensitive, .property "value"] ≠
        built "title" "value" [.property "value", .caseInsensitive] ∧
      (Compiler.compile ⟨TableMapping.resolver
            ((TableMapping.ofTables "node" { baseTable := "node", idKey := "nid" }).withField
              (built "title" "value" [.caseInsensitive, .property "value"])), .entity, {}⟩
          (FilterTree.all.add (.leaf (.equals "title" (.text "Draft")))) (Query.select "node")
          false).query.conditions.depthFirstClauses =
        [⟨"node.title", .compare .eq, .text "Draft"⟩] := by
  refine ⟨?_, ?_, rfl⟩
  · decide
  · decide

end FieldDefinition

end RowAccess
