/-!
# Options of lowering

How predicates on columns whose case does not count are put into a statement.

Main results:

- `CompileOptions.mem_reservedEscapes`: the characters that cannot escape.
-/

namespace RowAccess

/-- How predicates are put into a statement. -/
structure CompileOptions where
  /-- Whether equality on a column whose case does not count becomes a pattern match. -/
  caseInsensitiveLike : Bool := true
  /-- The escape character of patterns. -/
  likeEscape : Char := '\\'
  deriving DecidableEq

namespace CompileOptions

instance : Inhabited CompileOptions := ⟨{}⟩

/-- The characters that cannot escape: the quote would end the literal it is written in, and
the wildcards would lose their meaning. -/
def reservedEscapes : List Char := ['\'', '%', '_']

theorem mem_reservedEscapes {c : Char} :
    c ∈ reservedEscapes ↔ c = '\'' ∨ c = '%' ∨ c = '_' := by
  simp [reservedEscapes]

end CompileOptions

end RowAccess
