/-!
# Blank characters and words

This module fixes which characters separate words: the characters with the Unicode
property `White_Space`.  A text is blank when it holds nothing else, and its words are
its maximal runs of other characters.

Main results:

- `isBlank_of_isWhitespace`: the white space of ASCII is blank.
- `wordsOf_append_blank`: a blank between two texts separates their words.
- `ne_nil_of_mem_wordsOf`: a word is never empty.
-/

namespace RowAccess.Text

/-! ## Blank characters -/

/-- The ranges of code points with the property `White_Space`, ends included. -/
def blankRanges : List (Nat × Nat) :=
  [(0x09, 0x0D), (0x20, 0x20), (0x85, 0x85), (0xA0, 0xA0), (0x1680, 0x1680),
   (0x2000, 0x200A), (0x2028, 0x2029), (0x202F, 0x202F), (0x205F, 0x205F),
   (0x3000, 0x3000)]

/-- A character is blank when it lies in one of the `blankRanges`. -/
def isBlank (c : Char) : Bool :=
  blankRanges.any fun r => r.1 ≤ c.toNat && c.toNat ≤ r.2

/-- Every white-space character of ASCII is blank. -/
theorem isBlank_of_isWhitespace {c : Char} (h : c.isWhitespace = true) :
    isBlank c = true := by
  simp only [Char.isWhitespace, Bool.or_eq_true, decide_eq_true_eq] at h
  rcases h with ((rfl | rfl) | rfl) | rfl <;> decide

/-- A text is blank when each of its characters is; the empty text is blank. -/
def allBlank (s : String) : Bool :=
  s.toList.all isBlank

/-! ## Words -/

/-- The words of a list of characters, in order. -/
def wordsOf (cs : List Char) : List (List Char) :=
  (cs.splitOnP isBlank).filter (· ≠ [])

/-- The words of a text, in order. -/
def words (s : String) : List String :=
  (wordsOf s.toList).map String.ofList

/-- A word is never empty. -/
theorem ne_nil_of_mem_wordsOf {w cs : List Char} (h : w ∈ wordsOf cs) : w ≠ [] := by
  simpa using (List.mem_filter.1 h).2

/-- A blank between two texts separates their words. -/
theorem wordsOf_append_blank {c : Char} (hc : isBlank c = true) (xs ys : List Char) :
    wordsOf (xs ++ c :: ys) = wordsOf xs ++ wordsOf ys := by
  simp only [wordsOf, List.splitOnP_append_cons xs ys hc, List.filter_append]

end RowAccess.Text
