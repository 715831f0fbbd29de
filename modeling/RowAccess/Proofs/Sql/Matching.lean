import Mathlib.Data.List.Forall2
import Mathlib.Data.List.Infix
import RowAccess.Sql.Clause

/-!
# What a pattern matches

A pattern is read from left to right: the escape character and the one behind it are that character
and nothing else, `%` is any text, `_` is any character, and every other character is itself.  A
pattern that ends in its escape character says nothing.  Literal characters are compared as the
database compares characters, which may take different ones for the same.

Where a text is written as a pattern, each of its characters is read as a literal, so the pattern
matches what is the text character by character.

Main results:

- `LikePattern.matchParts_iff`: a pattern is matched by trying every place where `%` may end.
- `LikePattern.parts?_escapeChars`: a text that was escaped is read as its characters.
- `LikePattern.describes_escapeText`: it matches the text, up to what is the same, and no other.
-/

namespace RowAccess.Sql.LikePattern

/-! ## Reading a pattern -/

/-- A part of a pattern. -/
inductive Part where
  | literal (c : Char)
  /-- Any text, the empty one included. -/
  | anyText
  | anyChar
  deriving DecidableEq

namespace Part

/-- What a character is that is not escaped. -/
def ofChar (c : Char) : Part :=
  if c = '%' then anyText else if c = '_' then anyChar else literal c

/-- The character that a part is written with, its escape aside. -/
def char : Part → Char
  | literal c => c
  | anyText => '%'
  | anyChar => '_'

end Part

/-- The parts of a pattern, unless it ends in its escape character. -/
def parts? (escape : Char) : List Char → Option (List Part)
  | [] => some []
  | [c] => if c = escape then none else some [.ofChar c]
  | c :: d :: ds =>
    if c = escape then (parts? escape ds).map (.literal d :: ·)
    else (parts? escape (d :: ds)).map (.ofChar c :: ·)

/-- The characters of a pattern without those that escape another. -/
def unescape? (escape : Char) (pattern : List Char) : Option (List Char) :=
  (parts? escape pattern).map (List.map Part.char)

/-- An escaped character is read as itself. -/
theorem parts?_escape (escape c : Char) (cs : List Char) :
    parts? escape (escape :: c :: cs) = (parts? escape cs).map (.literal c :: ·) := by
  rw [parts?, if_pos rfl]

/-- A character that means nothing else is read as itself. -/
theorem parts?_of_not_isSpecial {escape c : Char} (h : isSpecial escape c = false)
    (cs : List Char) : parts? escape (c :: cs) = (parts? escape cs).map (.literal c :: ·) := by
  simp only [isSpecial, Bool.or_eq_false_iff, decide_eq_false_iff_not] at h
  obtain ⟨⟨percent, underscore⟩, other⟩ := h
  have plain : Part.ofChar c = .literal c := by simp [Part.ofChar, percent, underscore]
  cases cs with
  | nil => simp [parts?, other, plain]
  | cons d ds => rw [parts?, if_neg other, plain]

/-- A text that was escaped is read as its characters, whatever the escape character. -/
theorem parts?_escapeChars (escape : Char) (cs : List Char) :
    parts? escape (escapeChars escape cs) = some (cs.map .literal) := by
  induction cs with
  | nil => rfl
  | cons c cs ih =>
    have first : escapeChars escape (c :: cs) =
        (if isSpecial escape c then [escape, c] else [c]) ++ escapeChars escape cs := rfl
    rw [first]
    by_cases h : isSpecial escape c = true
    · simp [h, parts?_escape, ih]
    · simp [h, parts?_of_not_isSpecial (by simpa using h), ih]

/-- Unescaping gives back what was escaped. -/
theorem unescape?_escapeChars (escape : Char) (cs : List Char) :
    unescape? escape (escapeChars escape cs) = some cs := by
  rw [unescape?, parts?_escapeChars, Option.map_some, List.map_map]
  simp [Function.comp_def, Part.char]

/-! ## Matching -/

section Matching

variable (same : Char → Char → Prop)

/-- Which texts the parts of a pattern match, if `same` says which characters are taken for a
literal one. -/
inductive Matches : List Part → List Char → Prop where
  | nil : Matches [] []
  | literal {c d : Char} {ps : List Part} {ds : List Char} (h : same c d) (rest : Matches ps ds) :
      Matches (.literal c :: ps) (d :: ds)
  | anyChar (d : Char) {ps : List Part} {ds : List Char} (rest : Matches ps ds) :
      Matches (.anyChar :: ps) (d :: ds)
  | anyText (skipped : List Char) {ps : List Part} {ds : List Char} (rest : Matches ps ds) :
      Matches (.anyText :: ps) (skipped ++ ds)

variable {same}

/-- Literal characters match one for one. -/
theorem matches_literal_iff {cs ds : List Char} :
    Matches same (cs.map .literal) ds ↔ List.Forall₂ same cs ds := by
  induction cs generalizing ds with
  | nil =>
    constructor
    · intro h
      cases h
      exact .nil
    · intro h
      cases h
      exact .nil
  | cons c cs ih =>
    constructor
    · intro h
      cases h with
      | literal h rest => exact .cons h (ih.1 rest)
    · intro h
      cases h with
      | cons h rest => exact .literal h (ih.2 rest)

variable [DecidableRel same]

variable (same) in
/-- Whether the parts of a pattern match a text; for any text in front, every place where it may
end is tried. -/
def matchParts : List Part → List Char → Bool
  | [], ds => ds.isEmpty
  | .literal c :: ps, d :: ds => decide (same c d) && matchParts ps ds
  | .anyChar :: ps, _ :: ds => matchParts ps ds
  | .literal _ :: _, [] => false
  | .anyChar :: _, [] => false
  | .anyText :: ps, ds => ds.tails.any fun rest => matchParts ps rest

/-- The search finds a match if there is one. -/
theorem matchParts_iff {ps : List Part} {ds : List Char} :
    matchParts same ps ds = true ↔ Matches same ps ds := by
  induction ps generalizing ds with
  | nil =>
    rw [matchParts, List.isEmpty_iff]
    constructor
    · rintro rfl
      exact .nil
    · intro h
      cases h
      rfl
  | cons p ps ih =>
    cases p with
    | literal c =>
      cases ds with
      | nil => exact iff_of_false (by simp [matchParts]) nofun
      | cons d ds =>
        rw [matchParts, Bool.and_eq_true, decide_eq_true_eq, ih]
        constructor
        · rintro ⟨h, rest⟩
          exact .literal h rest
        · intro h
          cases h with
          | literal h rest => exact ⟨h, rest⟩
    | anyChar =>
      cases ds with
      | nil => exact iff_of_false (by simp [matchParts]) nofun
      | cons d ds =>
        rw [matchParts, ih]
        constructor
        · exact .anyChar d
        · intro h
          cases h with
          | anyChar _ rest => exact rest
    | anyText =>
      simp only [matchParts, List.any_eq_true, List.mem_tails, ih]
      constructor
      · rintro ⟨rest, ⟨skipped, rfl⟩, h⟩
        exact .anyText skipped h
      · intro h
        cases h with
        | anyText skipped rest => exact ⟨_, List.suffix_append _ _, rest⟩

instance (ps : List Part) (ds : List Char) : Decidable (Matches same ps ds) :=
  decidable_of_iff _ matchParts_iff

end Matching

/-! ## Patterns as texts -/

/-- The pattern, with its escape character, says something and matches the subject. -/
def Describes (same : Char → Char → Prop) (pattern : String) (escape : Char) (subject : String) :
    Prop :=
  ∃ ps, parts? escape pattern.toList = some ps ∧ Matches same ps subject.toList

/-- A text that was escaped is read as its characters. -/
theorem parts?_escapeText (text : String) (escape : Char) :
    parts? escape (escapeText text escape).toList = some (text.toList.map .literal) := by
  rw [escapeText, String.toList_ofList, parts?_escapeChars]

/-- A text that was escaped matches itself, up to characters that are the same, and nothing else. -/
theorem describes_escapeText (same : Char → Char → Prop) (text : String) (escape : Char)
    (subject : String) :
    Describes same (escapeText text escape) escape subject ↔
      List.Forall₂ same text.toList subject.toList := by
  constructor
  · rintro ⟨ps, hps, h⟩
    rw [parts?_escapeText, Option.some.injEq] at hps
    rw [← hps] at h
    exact matches_literal_iff.1 h
  · intro h
    exact ⟨_, parts?_escapeText text escape, matches_literal_iff.2 h⟩

/-- Without escaping, a pattern matches more. -/
example : Matches Eq [.literal 'a', .anyText, .literal 'c'] ['a', 'c', 'b', 'c'] := by decide

end RowAccess.Sql.LikePattern
