/-!
# Dotted texts

A qualified name is two texts joined by a dot.  Reading one splits at the first dot, so the
part in front never holds a dot and the part behind may.

Main results:

- `splitDot_append_dot`, `splitAtDot_qualify`: a dot-free text, a dot and a rest are split at
  that dot.
- `join_splitDot`: the parts joined again are the text that was split.
-/

namespace RowAccess.Text

/-- The characters before the first dot, and those after it if there is a dot. -/
def splitDot : List Char → List Char × Option (List Char)
  | [] => ([], none)
  | c :: cs =>
    if c = '.' then ([], some cs)
    else (c :: (splitDot cs).1, (splitDot cs).2)

/-- A text up to its first dot, and the text after that dot. -/
def splitAtDot (s : String) : String × Option String :=
  let parts := splitDot s.toList
  (.ofList parts.1, parts.2.map .ofList)

/-- Two texts joined by a dot. -/
def qualify (owner name : String) : String :=
  owner ++ "." ++ name

/-- A dot-free text, a dot and a rest are split at that dot. -/
theorem splitDot_append_dot {xs : List Char} (h : '.' ∉ xs) (ys : List Char) :
    splitDot (xs ++ '.' :: ys) = (xs, some ys) := by
  induction xs with
  | nil => rfl
  | cons x xs ih =>
    obtain ⟨hx, hxs⟩ := not_or.1 (mt List.mem_cons.2 h)
    simp [splitDot, Ne.symm hx, ih hxs]

/-- The part in front of the first dot holds no dot. -/
theorem dot_not_mem_splitDot (cs : List Char) : '.' ∉ (splitDot cs).1 := by
  induction cs with
  | nil => simp [splitDot]
  | cons c cs ih =>
    simp only [splitDot]
    split
    · simp
    next h => simp [ih, Ne.symm h]

/-- The parts joined again are the text that was split. -/
theorem join_splitDot (cs : List Char) :
    (splitDot cs).1 ++ ((splitDot cs).2.map ('.' :: ·)).getD [] = cs := by
  induction cs with
  | nil => rfl
  | cons c cs ih =>
    simp only [splitDot]
    split
    next h => simp [h]
    next => simp [ih]

/-- A dot-free text, a dot and a rest are split at that dot. -/
theorem splitAtDot_qualify {owner : String} (h : '.' ∉ owner.toList) (name : String) :
    splitAtDot (qualify owner name) = (owner, some name) := by
  have parts : splitDot (qualify owner name).toList = (owner.toList, some name.toList) := by
    rw [qualify, String.toList_append, String.toList_append, List.append_assoc]
    exact splitDot_append_dot h name.toList
  simp [splitAtDot, parts]

end RowAccess.Text
