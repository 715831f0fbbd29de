import Mathlib.Data.List.Basic
import Mathlib.Order.BoundedOrder.Lattice
import Mathlib.Order.Lattice
import RowAccess.Proofs.Sql.Joins
import RowAccess.Proofs.Sql.Valuation

/-!
# The records that a statement returns

A statement is read against tables of rows.  The base table gives a record; each join in turn
looks rows up by a column that is already there, and gives one reading of the statement for
each of them.  A join that finds no row gives no reading, or, if it keeps rows without a
partner, one reading with nulls in place of the row.  A record is returned if the conditions
are true in one of its readings; a comparison with the null is neither true nor false.

What an engine makes of two values is left to it, so nothing here depends on collations or on
the order of values.

Main results:

- `Query.returns_loosen`: keeping more rows without a partner loses no record.
- `Query.returns_iff_loosen`: which records are lost where they are dropped, if all joins hang
  off the base.
-/

namespace RowAccess.Sql

/-! ## Truth values -/

/-- The truth values of conditions. -/
inductive Ternary where
  | no
  | unknown
  | yes
  deriving DecidableEq

namespace Ternary

/-- How true a value is. -/
def rank : Ternary → Nat
  | no => 0
  | unknown => 1
  | yes => 2

theorem rank_injective : Function.Injective rank := by
  intro a b h
  cases a <;> cases b <;> first | rfl | cases h

instance : LinearOrder Ternary := LinearOrder.lift' rank rank_injective

instance : BoundedOrder Ternary where
  top := yes
  le_top a := by
    change rank a ≤ 2
    cases a <;> decide
  bot := no
  bot_le a := Nat.zero_le (rank a)

end Ternary

/-! ## Databases -/

/-- A row of a table: the value in each column, and the null in a column that it lacks. -/
abbrev Record := String → Value

/-- The row that stands for a partner that is missing. -/
def Record.absent : Record := fun _ => .null

/-- The rows of each table. -/
structure Database where
  rows : String → List Record

/-- One reading of a statement: which row each alias stands for, latest first. -/
abbrev Scope := List (String × Record)

/-- What is left to the engine that runs a statement. -/
structure Engine where
  /-- Whether two values other than the null are equal. -/
  equal : Value → Value → Bool
  /-- How a stored value other than the null compares in a clause. -/
  compares : Clause → Value → Ternary
  /-- What a raw condition comes to. -/
  holds : String → Scope → Ternary

/-- Whether two stored values join their rows; the null joins nothing. -/
def Engine.joins (engine : Engine) (v w : Value) : Bool :=
  v ≠ .null && w ≠ .null && engine.equal v w

/-- The value of a column qualified by an alias. -/
def Scope.value (s : Scope) (column : String) : Value :=
  let parts := Text.splitAtDot column
  ((s.lookup parts.1).bind fun row => parts.2.map row).getD .null

/-- Where an alias stands for a missing row, its columns are null. -/
theorem Scope.value_qualify_absent {s : Scope} {aliasName : String}
    (h : s.lookup aliasName = some .absent) (dotFree : '.' ∉ aliasName.toList)
    (column : String) : s.value (Text.qualify aliasName column) = .null := by
  rw [value, Text.splitAtDot_qualify dotFree, h]
  rfl

/-! ## Joins -/

namespace Join

/-- The rows that a join finds for a value of the column already present. -/
def partners (engine : Engine) (db : Database) (j : Join) (v : Value) : List Record :=
  (db.rows j.table).filter fun row => engine.joins v (row j.rightColumn)

/-- The readings after a join. -/
def extend (engine : Engine) (db : Database) (j : Join) (s : Scope) : List Scope :=
  match j.partners engine db (s.value j.left) with
  | [] => if j.kind = .left then [(j.aliasName, .absent) :: s] else []
  | found => found.map fun row => (j.aliasName, row) :: s

/-- Keeps rows without a partner, if the table is one of those given. -/
def loosen (tables : String → Bool) (j : Join) : Join :=
  if tables j.table then { j with kind := .left } else j

end Join

/-- The readings after several joins. -/
def scopes (engine : Engine) (db : Database) : List Join → Scope → List Scope
  | [], s => [s]
  | j :: js, s => (j.extend engine db s).flatMap (scopes engine db js)

/-! ## Conditions -/

/-- What a clause is worth for a stored value.  The null checks look at the null, membership
in no values at all is decided without the value, and any other comparison with the null is
neither true nor false. -/
def Clause.worth (engine : Engine) (c : Clause) (stored : Value) : Ternary :=
  let compared := if stored = .null then .unknown else engine.compares c stored
  match c.op with
  | .compare .isNull => if stored = .null then .yes else .no
  | .compare .isNotNull => if stored = .null then .no else .yes
  | .compare .inList => if (Clause.items c.value).isEmpty then .no else compared
  | .compare .notInList => if (Clause.items c.value).isEmpty then .yes else compared
  | _ => compared

/-- The null meets the check for it, and it is not among no values. -/
theorem Clause.op_of_worth_null {engine : Engine} {c : Clause}
    (h : c.worth engine .null = .yes) :
    c.op = .compare .isNull ∨ c.op = .compare .notInList ∧ Clause.items c.value = [] := by
  rcases c with ⟨column, op | escape | escape, value⟩
  · cases op with
    | isNull => exact .inl rfl
    | notInList =>
      by_cases empty : Clause.items value = []
      · exact .inr ⟨rfl, empty⟩
      · simp [worth, empty] at h
    | inList =>
      by_cases empty : Clause.items value = [] <;> simp [worth, empty] at h
    | _ => simp [worth] at h
  · simp [worth] at h
  · simp [worth] at h

/-- What the parts of a condition are worth in a reading. -/
def Scope.assignment (engine : Engine) (s : Scope) : Assignment Ternary where
  clause c := c.worth engine (s.value c.column)
  expression text := if text = alwaysFalse then .no else engine.holds text s

namespace Query

/-- The statement returns a record of its base table. -/
def Returns (engine : Engine) (db : Database) (q : Query) (record : Record) : Prop :=
  record ∈ db.rows q.table ∧
    ∃ s ∈ scopes engine db q.joins.joins [(q.aliasName, record)],
      q.conditions.truth (s.assignment engine) = .yes

/-- The statement with rows without a partner kept in joins of the tables given. -/
def loosen (tables : String → Bool) (q : Query) : Query :=
  { q with joins := ⟨q.joins.joins.map (Join.loosen tables)⟩ }

/-- The value by which a join of the statement looks for partners of a record, if the join
hangs off the base. -/
def link (q : Query) (record : Record) (j : Join) : Value :=
  Scope.value [(q.aliasName, record)] j.left

/-- Every join hangs off the base, and no alias is used twice. -/
structure IsStar (q : Query) : Prop where
  hangs : ∀ j ∈ q.joins.joins, j.hangsOff q.aliasName = true
  fresh : q.aliasName ∉ q.joins.aliases
  distinct : q.joins.aliases.Nodup

end Query

/-! ## Readings -/

section Readings

variable {engine : Engine} {db : Database} {tables : String → Bool}

@[simp] theorem Join.loosen_aliasName (j : Join) : (j.loosen tables).aliasName = j.aliasName := by
  unfold loosen
  split <;> rfl

@[simp] theorem Join.loosen_left (j : Join) : (j.loosen tables).left = j.left := by
  unfold loosen
  split <;> rfl

@[simp] theorem Join.partners_loosen (j : Join) (v : Value) :
    (j.loosen tables).partners engine db v = j.partners engine db v := by
  unfold loosen
  split <;> rfl

/-- A reading after a join has the row of the join in front. -/
theorem Join.exists_row_of_mem_extend {j : Join} {s s' : Scope}
    (h : s' ∈ j.extend engine db s) : ∃ row, s' = (j.aliasName, row) :: s := by
  unfold extend at h
  split at h
  · split at h
    · exact ⟨.absent, List.mem_singleton.1 h⟩
    · cases h
  · obtain ⟨row, -, rfl⟩ := List.mem_map.1 h
    exact ⟨row, rfl⟩

/-- A join leaves the rows of other aliases as they are. -/
theorem Join.lookup_of_mem_extend {j : Join} {s s' : Scope} {aliasName : String}
    (h : s' ∈ j.extend engine db s) (other : j.aliasName ≠ aliasName) :
    s'.lookup aliasName = s.lookup aliasName := by
  obtain ⟨row, rfl⟩ := exists_row_of_mem_extend h
  have apart : (aliasName == j.aliasName) = false := by simpa using other.symm
  rw [List.lookup_cons, apart]

/-- A join that finds a row, or whose table is not given, does the same when loosened. -/
theorem Join.extend_loosen {j : Join} {s : Scope}
    (h : tables j.table = true → j.kind = .inner →
      j.partners engine db (s.value j.left) ≠ []) :
    (j.loosen tables).extend engine db s = j.extend engine db s := by
  unfold loosen
  split
  next given =>
    cases hkind : j.kind with
    | left =>
      rw [← hkind]
    | inner =>
      obtain ⟨row, rows, found⟩ := List.exists_cons_of_ne_nil (h given hkind)
      have same : Join.partners engine db { j with kind := .left } (s.value j.left) =
          row :: rows := found
      rw [extend, extend, found, same]
  next => rfl

/-- A loosened join has all the readings of the join. -/
theorem Join.mem_extend_loosen {j : Join} {s s' : Scope} (h : s' ∈ j.extend engine db s) :
    s' ∈ (j.loosen tables).extend engine db s := by
  rw [extend_loosen]
  · exact h
  · rintro - hkind none
    rw [extend, none, hkind] at h
    cases h

/-- Loosened joins have all the readings of the joins. -/
theorem mem_scopes_loosen {js : List Join} {s s' : Scope} (h : s' ∈ scopes engine db js s) :
    s' ∈ scopes engine db (js.map (Join.loosen tables)) s := by
  induction js generalizing s with
  | nil => exact h
  | cons j js ih =>
    obtain ⟨next, hnext, hs'⟩ := List.mem_flatMap.1 h
    exact List.mem_flatMap.2 ⟨next, Join.mem_extend_loosen hnext, ih hs'⟩

/-- Joins leave the rows of other aliases as they are. -/
theorem lookup_of_mem_scopes {js : List Join} {s s' : Scope} {aliasName : String}
    (other : ∀ j ∈ js, j.aliasName ≠ aliasName) (h : s' ∈ scopes engine db js s) :
    s'.lookup aliasName = s.lookup aliasName := by
  induction js generalizing s with
  | nil => rw [List.mem_singleton.1 h]
  | cons j js ih =>
    obtain ⟨next, hnext, hs'⟩ := List.mem_flatMap.1 h
    rw [ih (fun i hi => other i (List.mem_cons_of_mem _ hi)) hs',
      Join.lookup_of_mem_extend hnext (other j List.mem_cons_self)]

/-! ### Joins that hang off the base -/

/-- Joins that look at the row of one alias only, which none of them takes. -/
def HangOff (base : String) (js : List Join) : Prop :=
  ∀ j ∈ js, j.hangsOff base = true ∧ j.aliasName ≠ base

theorem HangOff.tail {base : String} {j : Join} {js : List Join} (h : HangOff base (j :: js)) :
    HangOff base js := fun i hi => h i (List.mem_cons_of_mem j hi)

section Base

variable {base : String} {record : Record} {js : List Join} {s s' : Scope}

/-- Where the record is the row of the base, a join that hangs off the base looks at the
record. -/
theorem Join.value_left_eq {j : Join} (h : j.hangsOff base = true)
    (hs : s.lookup base = some record) :
    s.value j.left = Scope.value [(base, record)] j.left := by
  have owner : (Text.splitAtDot j.left).1 = base := by
    rw [hangsOff, Bool.and_eq_true] at h
    exact of_decide_eq_true h.2
  simp only [Scope.value, owner, hs, List.lookup_cons_self]

/-- Inner joins have found a row in every reading. -/
theorem partners_ne_nil_of_mem_scopes (hjs : HangOff base js) (hs : s.lookup base = some record)
    (h : s' ∈ scopes engine db js s) {j : Join} (hj : j ∈ js) (hkind : j.kind = .inner) :
    j.partners engine db (Scope.value [(base, record)] j.left) ≠ [] := by
  induction js generalizing s with
  | nil => cases hj
  | cons i js ih =>
    obtain ⟨next, hnext, hs'⟩ := List.mem_flatMap.1 h
    obtain ⟨hangs, other⟩ := hjs i List.mem_cons_self
    rcases List.mem_cons.1 hj with rfl | later
    · intro none
      rw [Join.extend, Join.value_left_eq hangs hs, none, hkind] at hnext
      cases hnext
    · refine ih hjs.tail ?_ hs' later
      rw [Join.lookup_of_mem_extend hnext other, hs]

/-- Joins that find a row may as well be loosened. -/
theorem scopes_loosen (hjs : HangOff base js) (hs : s.lookup base = some record)
    (found : ∀ j ∈ js, tables j.table = true → j.kind = .inner →
      j.partners engine db (Scope.value [(base, record)] j.left) ≠ []) :
    scopes engine db (js.map (Join.loosen tables)) s = scopes engine db js s := by
  induction js generalizing s with
  | nil => rfl
  | cons j js ih =>
    obtain ⟨hangs, other⟩ := hjs j List.mem_cons_self
    have first : (j.loosen tables).extend engine db s = j.extend engine db s := by
      refine Join.extend_loosen fun given hkind => ?_
      rw [Join.value_left_eq hangs hs]
      exact found j List.mem_cons_self given hkind
    rw [List.map_cons, scopes, scopes, first]
    refine List.flatMap_congr fun next hnext => ?_
    refine ih hjs.tail ?_ fun i hi => found i (List.mem_cons_of_mem _ hi)
    rw [Join.lookup_of_mem_extend hnext other, hs]

/-- A join that finds no row stands for the missing one in every reading. -/
theorem lookup_absent_of_mem_scopes (hjs : HangOff base js)
    (distinct : (js.map Join.aliasName).Nodup) (hs : s.lookup base = some record)
    (h : s' ∈ scopes engine db js s) {j : Join} (hj : j ∈ js)
    (none : j.partners engine db (Scope.value [(base, record)] j.left) = []) :
    s'.lookup j.aliasName = some .absent := by
  induction js generalizing s with
  | nil => cases hj
  | cons i js ih =>
    obtain ⟨next, hnext, hs'⟩ := List.mem_flatMap.1 h
    obtain ⟨fresh, rest⟩ := List.nodup_cons.1 distinct
    obtain ⟨hangs, other⟩ := hjs i List.mem_cons_self
    rcases List.mem_cons.1 hj with rfl | later
    · have apart : ∀ i ∈ js, i.aliasName ≠ j.aliasName := by
        intro i hi same
        exact fresh (same ▸ List.mem_map_of_mem hi)
      rw [lookup_of_mem_scopes apart hs']
      rw [Join.extend, Join.value_left_eq hangs hs, none] at hnext
      by_cases hkind : j.kind = .left
      · rw [hkind] at hnext
        rw [List.mem_singleton.1 hnext, List.lookup_cons_self]
      · simp [hkind] at hnext
    · refine ih hjs.tail rest ?_ hs' later
      rw [Join.lookup_of_mem_extend hnext other, hs]

end Base

end Readings

/-! ## Records returned -/

namespace Query

variable {engine : Engine} {db : Database} {tables : String → Bool} {q : Query}
  {record : Record}

theorem IsStar.hangOff (hq : q.IsStar) : HangOff q.aliasName q.joins.joins := by
  intro j hj
  refine ⟨hq.hangs j hj, fun same => hq.fresh ?_⟩
  exact same ▸ List.mem_map_of_mem hj

/-- Loosened joins hang off the base as before. -/
theorem IsStar.hangOff_loosen (hq : q.IsStar) :
    HangOff q.aliasName (q.joins.joins.map (Join.loosen tables)) := by
  intro i hi
  obtain ⟨j, hj, rfl⟩ := List.mem_map.1 hi
  have hangs : (j.loosen tables).hangsOff q.aliasName = j.hangsOff q.aliasName := by
    rw [Join.hangsOff, Join.loosen_left, Join.hangsOff]
  rw [hangs, Join.loosen_aliasName]
  exact hq.hangOff j hj

/-- A join that finds no row stands for the missing one also when joins are loosened. -/
theorem IsStar.lookup_absent (hq : q.IsStar) {s : Scope}
    (hs : s ∈ scopes engine db (q.loosen tables).joins.joins [(q.aliasName, record)])
    {j : Join} (hj : j ∈ q.joins.joins) (none : j.partners engine db (q.link record j) = []) :
    s.lookup j.aliasName = some .absent := by
  have distinct : ((q.joins.joins.map (Join.loosen tables)).map Join.aliasName).Nodup := by
    have same : Join.aliasName ∘ Join.loosen tables = Join.aliasName :=
      funext Join.loosen_aliasName
    rw [List.map_map, same]
    exact hq.distinct
  have alone : (j.loosen tables).partners engine db
      (Scope.value [(q.aliasName, record)] (j.loosen tables).left) = [] := by
    rw [Join.partners_loosen, Join.loosen_left]
    exact none
  rw [← show (j.loosen tables).aliasName = j.aliasName from j.loosen_aliasName]
  exact lookup_absent_of_mem_scopes hq.hangOff_loosen distinct List.lookup_cons_self hs
    (List.mem_map_of_mem hj) alone

/-- Inner joins find a row for every record that is returned. -/
theorem IsStar.partners_ne_nil (hq : q.IsStar) (h : q.Returns engine db record) {j : Join}
    (hj : j ∈ q.joins.joins) (hkind : j.kind = .inner) :
    j.partners engine db (q.link record j) ≠ [] := by
  obtain ⟨-, s, hs, -⟩ := h
  exact partners_ne_nil_of_mem_scopes hq.hangOff List.lookup_cons_self hs hj hkind

/-- Keeping more rows without a partner loses no record. -/
theorem returns_loosen (h : q.Returns engine db record) :
    (q.loosen tables).Returns engine db record := by
  obtain ⟨stored, s, hs, holds⟩ := h
  exact ⟨stored, s, mem_scopes_loosen hs, holds⟩

/-- If all joins hang off the base, dropping rows without a partner loses the records for which
one of the inner joins finds no row. -/
theorem returns_iff_loosen (hq : q.IsStar) :
    q.Returns engine db record ↔
      (q.loosen tables).Returns engine db record ∧
        ∀ j ∈ q.joins.joins, tables j.table = true → j.kind = .inner →
          j.partners engine db (q.link record j) ≠ [] := by
  constructor
  · intro h
    exact ⟨returns_loosen h, fun j hj _ hkind => hq.partners_ne_nil h hj hkind⟩
  · rintro ⟨⟨stored, s, hs, holds⟩, found⟩
    refine ⟨stored, s, ?_, holds⟩
    rw [← scopes_loosen hq.hangOff List.lookup_cons_self found]
    exact hs

end Query

end RowAccess.Sql
