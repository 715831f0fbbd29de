/-!
# Sets of names

Cache contexts, cache tags, permissions and property names are finite sets of names that
are reported in ascending order of code points.  A `NameSet` keeps its members in that
order without repetition, so two sets with the same members are the same value.

Main results:

- `NameSet.mem_insert`, `NameSet.mem_union`, `NameSet.mem_ofList`: the members after each
  operation.
- `NameSet.ext_mem`: sets with the same members are equal.
-/

namespace RowAccess

/-- A finite set of names, listed in strictly ascending order. -/
structure NameSet where
  /-- The members in ascending order. -/
  names : List String
  /-- The listing is strictly ascending, so no name occurs twice. -/
  ascending : names.Pairwise (· < ·)
  deriving DecidableEq

namespace NameSet

/-! ## Listings -/

/-- Puts a name at its place in an ascending listing; a name already there stays. -/
def place (name : String) : List String → List String
  | [] => [name]
  | n :: rest =>
    if name < n then name :: n :: rest
    else if name = n then n :: rest
    else n :: place name rest

theorem mem_place {x name : String} {names : List String} :
    x ∈ place name names ↔ x = name ∨ x ∈ names := by
  induction names with
  | nil => simp [place]
  | cons n rest ih =>
    simp only [place]
    split
    · simp
    · split
      · simp_all
      · simp only [List.mem_cons, ih]
        grind

theorem pairwise_place {name : String} {names : List String}
    (h : names.Pairwise (· < ·)) : (place name names).Pairwise (· < ·) := by
  induction names with
  | nil => simp [place]
  | cons n rest ih =>
    obtain ⟨hn, hrest⟩ := List.pairwise_cons.1 h
    simp only [place]
    split
    next hlt =>
      refine List.pairwise_cons.2 ⟨fun y hy => ?_, h⟩
      rcases List.mem_cons.1 hy with rfl | hy
      · exact hlt
      · exact String.lt_trans hlt (hn y hy)
    next hlt =>
      split
      · exact h
      next hne =>
        refine List.pairwise_cons.2 ⟨fun y hy => ?_, ih hrest⟩
        rcases mem_place.1 hy with rfl | hy
        · exact (Std.lt_trichotomy n y).resolve_right (by
            rintro (rfl | h')
            · exact hne rfl
            · exact hlt h')
        · exact hn y hy

/-! ## Operations -/

/-- The set without members. -/
def empty : NameSet := ⟨[], List.Pairwise.nil⟩

instance : EmptyCollection NameSet := ⟨empty⟩
instance : Inhabited NameSet := ⟨∅⟩

instance : Membership String NameSet := ⟨fun s x => x ∈ s.names⟩

instance (x : String) (s : NameSet) : Decidable (x ∈ s) :=
  inferInstanceAs (Decidable (x ∈ s.names))

/-- The set with one more member. -/
def insert (s : NameSet) (name : String) : NameSet :=
  ⟨place name s.names, pairwise_place s.ascending⟩

/-- The set with all members of a list added. -/
def insertAll (s : NameSet) (names : List String) : NameSet :=
  names.foldl insert s

/-- The set of the members of a list. -/
def ofList (names : List String) : NameSet :=
  insertAll ∅ names

/-- The members of both sets together. -/
def union (s t : NameSet) : NameSet :=
  s.insertAll t.names

instance : Union NameSet := ⟨union⟩

/-- The number of members. -/
def size (s : NameSet) : Nat := s.names.length

/-- Whether the set has no members. -/
def isEmpty (s : NameSet) : Bool := s.names.isEmpty

/-! ## Membership after each operation -/

theorem mem_def {x : String} {s : NameSet} : x ∈ s ↔ x ∈ s.names := Iff.rfl

@[simp] theorem not_mem_empty (x : String) : x ∉ (∅ : NameSet) :=
  List.not_mem_nil

@[simp] theorem mem_insert {x name : String} {s : NameSet} :
    x ∈ s.insert name ↔ x = name ∨ x ∈ s :=
  mem_place

@[simp] theorem mem_insertAll {x : String} {s : NameSet} {names : List String} :
    x ∈ s.insertAll names ↔ x ∈ s ∨ x ∈ names := by
  induction names generalizing s with
  | nil => simp [insertAll]
  | cons n rest ih =>
    have : s.insertAll (n :: rest) = (s.insert n).insertAll rest := rfl
    rw [this, ih, mem_insert, List.mem_cons]
    grind

@[simp] theorem mem_ofList {x : String} {names : List String} :
    x ∈ ofList names ↔ x ∈ names := by
  simp [ofList]

@[simp] theorem mem_union {x : String} {s t : NameSet} : x ∈ s ∪ t ↔ x ∈ s ∨ x ∈ t :=
  mem_insertAll

/-! ## Extensionality -/

private theorem eq_of_ascending {xs ys : List String} (hx : xs.Pairwise (· < ·))
    (hy : ys.Pairwise (· < ·)) (h : ∀ x, x ∈ xs ↔ x ∈ ys) : xs = ys := by
  induction xs generalizing ys with
  | nil =>
    cases ys with
    | nil => rfl
    | cons y ys => exact absurd ((h y).2 List.mem_cons_self) List.not_mem_nil
  | cons x xs ih =>
    cases ys with
    | nil => exact absurd ((h x).1 List.mem_cons_self) List.not_mem_nil
    | cons y ys =>
      obtain ⟨hxs, hxTail⟩ := List.pairwise_cons.1 hx
      obtain ⟨hys, hyTail⟩ := List.pairwise_cons.1 hy
      have irrefl (a : String) : ¬ a < a := String.lt_irrefl a
      have hxy : x = y := by
        rcases List.mem_cons.1 ((h x).1 List.mem_cons_self) with e | hm
        · exact e
        · rcases List.mem_cons.1 ((h y).2 List.mem_cons_self) with e | hm'
          · exact e.symm
          · exact absurd (String.lt_trans (hys x hm) (hxs y hm')) (irrefl y)
      subst hxy
      refine congrArg (x :: ·) (ih hxTail hyTail fun z => ⟨fun hz => ?_, fun hz => ?_⟩)
      · rcases List.mem_cons.1 ((h z).1 (List.mem_cons_of_mem _ hz)) with rfl | hm
        · exact absurd (hxs z hz) (irrefl z)
        · exact hm
      · rcases List.mem_cons.1 ((h z).2 (List.mem_cons_of_mem _ hz)) with rfl | hm
        · exact absurd (hys z hz) (irrefl z)
        · exact hm

/-- Sets with the same members are equal. -/
theorem ext_mem {s t : NameSet} (h : ∀ x, x ∈ s ↔ x ∈ t) : s = t := by
  obtain ⟨xs, hx⟩ := s
  obtain ⟨ys, hy⟩ := t
  have : xs = ys := eq_of_ascending hx hy h
  subst this
  rfl

end NameSet

end RowAccess
