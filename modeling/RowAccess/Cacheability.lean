import RowAccess.Text.NameSet

/-!
# Cacheability

A computed filter may be cached as long as nothing it depends on has changed.  Its
`Cacheability` names what it varies by (contexts), what invalidates it (tags) and how long
it lasts.  Merging two of them never forgets a dependency: contexts and tags are united and
the shorter lifetime is kept.

Main results:

- `MaxAge.permanent_merge`, `MaxAge.merge_permanent`: a permanent lifetime never constrains.
- `Cacheability.mem_contexts_merge`, `Cacheability.mem_tags_merge`: the members after a merge.
- `Cacheability.merge_comm`, `Cacheability.merge_assoc`, `Cacheability.merge_self`,
  `Cacheability.empty_merge`: merging is the join of a semilattice with a least element.
-/

namespace RowAccess

/-- The context of a filter that varies by the permissions of the current account. -/
def userPermissionsContext : String := "user.permissions"

/-- The context of a filter that varies by the identity of the current account. -/
def userContext : String := "user"

/-! ## Lifetimes -/

/-- A cache lifetime in seconds; `-1` stands for an entry that never expires. -/
structure MaxAge where
  seconds : Int64
  deriving DecidableEq

namespace MaxAge

/-- The lifetime of an entry that never expires. -/
def permanent : MaxAge := ⟨-1⟩

/-- The lifetime of an entry that must not be kept at all. -/
def uncacheable : MaxAge := ⟨0⟩

instance : Inhabited MaxAge := ⟨permanent⟩

/-- Whether the lifetime never ends. -/
def isPermanent (a : MaxAge) : Bool := a = permanent

/-- The more restrictive of two lifetimes: a permanent one gives way to the other, and of
two others the one with the smaller number of seconds is kept. -/
def merge (a b : MaxAge) : MaxAge :=
  if a = permanent then b
  else if b = permanent then a
  else if a.seconds ≤ b.seconds then a
  else b

@[simp] theorem permanent_merge (a : MaxAge) : permanent.merge a = a := by
  simp [merge]

@[simp] theorem merge_permanent (a : MaxAge) : a.merge permanent = a := by
  unfold merge
  split <;> simp_all

theorem merge_self (a : MaxAge) : a.merge a = a := by
  simp [merge]

theorem merge_comm (a b : MaxAge) : a.merge b = b.merge a := by
  have total := Int64.le_total a.seconds b.seconds
  have antisymm (h : a.seconds ≤ b.seconds) (h' : b.seconds ≤ a.seconds) : a = b :=
    congrArg MaxAge.mk (Int64.le_antisymm h h')
  unfold merge
  grind

theorem merge_assoc (a b c : MaxAge) : (a.merge b).merge c = a.merge (b.merge c) := by
  have trans {x y z : Int64} (h : x ≤ y) (h' : y ≤ z) : x ≤ z := Int64.le_trans h h'
  have total (x y : Int64) : x ≤ y ∨ y ≤ x := Int64.le_total x y
  have antisymm {x y : MaxAge} (h : x.seconds ≤ y.seconds) (h' : y.seconds ≤ x.seconds) :
      x = y := congrArg MaxAge.mk (Int64.le_antisymm h h')
  unfold merge
  grind

end MaxAge

/-! ## Dependency sets -/

/-- What a computed result depends on, and for how long it may be kept. -/
structure Cacheability where
  /-- What the result varies by. -/
  contexts : NameSet
  /-- What invalidates the result. -/
  tags : NameSet
  /-- How long the result may be kept. -/
  maxAge : MaxAge
  deriving DecidableEq

namespace Cacheability

/-- The dependencies of a result that depends on nothing. -/
def empty : Cacheability := ⟨∅, ∅, .permanent⟩

instance : EmptyCollection Cacheability := ⟨empty⟩
instance : Inhabited Cacheability := ⟨∅⟩

/-- Adds contexts. -/
def addContexts (c : Cacheability) (names : List String) : Cacheability :=
  { c with contexts := c.contexts.insertAll names }

/-- Adds tags. -/
def addTags (c : Cacheability) (names : List String) : Cacheability :=
  { c with tags := c.tags.insertAll names }

/-- Restricts the lifetime. -/
def mergeMaxAge (c : Cacheability) (age : MaxAge) : Cacheability :=
  { c with maxAge := c.maxAge.merge age }

/-- The dependencies of both sets together. -/
def merge (c d : Cacheability) : Cacheability where
  contexts := c.contexts ∪ d.contexts
  tags := c.tags ∪ d.tags
  maxAge := c.maxAge.merge d.maxAge

/-- Whether nothing constrains the result. -/
def isEmpty (c : Cacheability) : Bool :=
  c.contexts.isEmpty && c.tags.isEmpty && c.maxAge.isPermanent

theorem mem_contexts_merge {x : String} {c d : Cacheability} :
    x ∈ (c.merge d).contexts ↔ x ∈ c.contexts ∨ x ∈ d.contexts :=
  NameSet.mem_union

theorem mem_tags_merge {x : String} {c d : Cacheability} :
    x ∈ (c.merge d).tags ↔ x ∈ c.tags ∨ x ∈ d.tags :=
  NameSet.mem_union

@[simp] theorem maxAge_merge (c d : Cacheability) :
    (c.merge d).maxAge = c.maxAge.merge d.maxAge := rfl

/-- Dependency sets with the same members and lifetime are equal. -/
theorem ext_mem {c d : Cacheability} (contexts : ∀ x, x ∈ c.contexts ↔ x ∈ d.contexts)
    (tags : ∀ x, x ∈ c.tags ↔ x ∈ d.tags) (maxAge : c.maxAge = d.maxAge) : c = d := by
  obtain ⟨cc, ct, ca⟩ := c
  obtain ⟨dc, dt, da⟩ := d
  obtain rfl : cc = dc := NameSet.ext_mem contexts
  obtain rfl : ct = dt := NameSet.ext_mem tags
  obtain rfl : ca = da := maxAge
  rfl

/-! ## The laws of merging -/

theorem merge_comm (c d : Cacheability) : c.merge d = d.merge c := by
  apply ext_mem <;> simp only [mem_contexts_merge, mem_tags_merge, maxAge_merge]
  · exact fun _ => or_comm
  · exact fun _ => or_comm
  · exact MaxAge.merge_comm _ _

theorem merge_assoc (c d e : Cacheability) : (c.merge d).merge e = c.merge (d.merge e) := by
  apply ext_mem <;> simp only [mem_contexts_merge, mem_tags_merge, maxAge_merge]
  · exact fun _ => or_assoc
  · exact fun _ => or_assoc
  · exact MaxAge.merge_assoc _ _ _

theorem merge_self (c : Cacheability) : c.merge c = c := by
  apply ext_mem <;> simp only [mem_contexts_merge, mem_tags_merge, maxAge_merge]
  · exact fun _ => or_self_iff
  · exact fun _ => or_self_iff
  · exact MaxAge.merge_self _

@[simp] theorem empty_merge (c : Cacheability) : (∅ : Cacheability).merge c = c :=
  ext_mem (fun x => mem_contexts_merge.trans (or_iff_right (NameSet.not_mem_empty x)))
    (fun x => mem_tags_merge.trans (or_iff_right (NameSet.not_mem_empty x)))
    (MaxAge.permanent_merge _)

@[simp] theorem merge_empty (c : Cacheability) : c.merge ∅ = c := by
  rw [merge_comm, empty_merge]

end Cacheability

end RowAccess
