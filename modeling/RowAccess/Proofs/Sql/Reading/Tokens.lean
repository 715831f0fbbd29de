/-!
# Tokens of a condition

A condition is written as text, and a database reads it as tokens: quoted texts and names,
runs of letters and digits, runs of operator signs, and single marks such as brackets.  A
scan goes through the characters one by one; what was read last decides how the next
character is taken.  Outside quotes a blank ends a token and nothing else, so texts that are
put together with a blank between them are read one after the other.

Main results:

- `scan_append_blank`, `scan_append_mark`: the tokens of a text in front of a blank or a mark.
- `tokens_append_blank`: the tokens of two texts with a blank between them.
- `QuotesClosed.append_blank`: quotes that are closed stay so.
-/

namespace RowAccess.Sql.Reading

/-- What a database reads as one sign. -/
inductive Token where
  /-- A run of letters, digits and the like, or a run of operator signs. -/
  | run (chars : List Char)
  /-- A text between quotes of some kind. -/
  | quoted (quote : Char) (chars : List Char)
  /-- A bracket, a comma or a semicolon. -/
  | mark (c : Char)
  deriving DecidableEq

/-! ## Kinds of characters -/

/-- The characters that quote a text or a name. -/
def isQuote (c : Char) : Bool := c = '\'' || c = '"' || c.toNat = 0x60

/-- The characters that are tokens by themselves. -/
def isMark (c : Char) : Bool := c = '(' || c = ')' || c = ',' || c = ';'

/-- The characters of names and numbers; a qualified name is one word, and so is a
placeholder. -/
def isWordChar (c : Char) : Bool :=
  c.isAlphanum || c = '_' || c = '.' || c = '$' || c = '?' || c = ':' || c = '@' || 0x7F < c.toNat

/-! ## Reading -/

/-- What is being read. -/
inductive Mode where
  /-- Between two tokens. -/
  | between
  /-- A run, of word characters or of others. -/
  | inRun (word : Bool) (chars : List Char)
  | inQuotes (quote : Char) (chars : List Char)
  deriving DecidableEq

namespace Mode

/-- The token that ends where the text does. -/
def rest : Mode → List Token
  | between => []
  | inRun _ chars => [.run chars]
  | inQuotes quote chars => [.quoted quote chars]

/-- Whether a quote was opened and not closed. -/
def isOpen : Mode → Bool
  | inQuotes _ _ => true
  | _ => false

/-- Goes on with a character that is no blank, quote or mark. -/
def extend (m : Mode) (c : Char) : List Token × Mode :=
  match m with
  | inRun word chars =>
    if word = isWordChar c then ([], inRun word (chars ++ [c]))
    else ([.run chars], inRun (isWordChar c) [c])
  | m => (m.rest, inRun (isWordChar c) [c])

/-- Reads one more character: the tokens that it ends, and what is being read then. -/
def step (m : Mode) (c : Char) : List Token × Mode :=
  match m with
  | inQuotes quote chars =>
    if c = quote then ([.quoted quote chars], between)
    else ([], inQuotes quote (chars ++ [c]))
  | m =>
    if c.isWhitespace then (m.rest, between)
    else if isQuote c then (m.rest, inQuotes c [])
    else if isMark c then (m.rest ++ [.mark c], between)
    else m.extend c

/-- Outside quotes a character is taken by its kind. -/
theorem step_of_closed {m : Mode} (h : m.isOpen = false) (c : Char) :
    m.step c =
      if c.isWhitespace then (m.rest, between)
      else if isQuote c then (m.rest, inQuotes c [])
      else if isMark c then (m.rest ++ [.mark c], between)
      else m.extend c := by
  cases m with
  | between => rfl
  | inRun word chars => rfl
  | inQuotes quote chars => cases h

/-- Outside quotes a blank ends what is being read. -/
theorem step_blank {m : Mode} (h : m.isOpen = false) : m.step ' ' = (m.rest, between) := by
  rw [step_of_closed h]
  rfl

/-- Outside quotes a mark ends what is being read and is a token. -/
theorem step_mark {m : Mode} (h : m.isOpen = false) {c : Char} (hc : isMark c = true) :
    m.step c = (m.rest ++ [.mark c], between) := by
  have kinds : c.isWhitespace = false ∧ isQuote c = false := by
    simp only [isMark, Bool.or_eq_true, decide_eq_true_eq] at hc
    rcases hc with ((rfl | rfl) | rfl) | rfl <;> exact ⟨rfl, rfl⟩
  rw [step_of_closed h, kinds.1, kinds.2, hc]
  rfl

end Mode

/-- The tokens of a text whose beginning was read already. -/
def scan (m : Mode) : List Char → List Token
  | [] => m.rest
  | c :: cs => (m.step c).1 ++ scan (m.step c).2 cs

/-- What is being read at the end of a text. -/
def atEnd (m : Mode) : List Char → Mode
  | [] => m
  | c :: cs => atEnd (m.step c).2 cs

/-- The tokens of a text. -/
def tokens (text : String) : List Token := scan .between text.toList

/-- Every quote of a text is closed. -/
def QuotesClosed (text : String) : Prop := (atEnd .between text.toList).isOpen = false

instance (text : String) : Decidable (QuotesClosed text) :=
  inferInstanceAs (Decidable (_ = false))

/-! ## Texts put together -/

/-- A text whose quotes are closed is read to its end at a blank. -/
theorem scan_append_blank {m : Mode} {xs : List Char} (h : (atEnd m xs).isOpen = false)
    (ys : List Char) : scan m (xs ++ ' ' :: ys) = scan m xs ++ scan .between ys := by
  induction xs generalizing m with
  | nil =>
    have ended := Mode.step_blank (m := m) h
    simp only [List.nil_append, scan, ended]
  | cons x xs ih => rw [List.cons_append, scan, ih h, scan, List.append_assoc]

/-- A text whose quotes are closed is read to its end at a mark. -/
theorem scan_append_mark {m : Mode} {xs : List Char} (h : (atEnd m xs).isOpen = false)
    {c : Char} (hc : isMark c = true) (ys : List Char) :
    scan m (xs ++ c :: ys) = scan m xs ++ .mark c :: scan .between ys := by
  induction xs generalizing m with
  | nil =>
    have ended := Mode.step_mark (m := m) h hc
    simp only [List.nil_append, scan, ended, List.append_assoc, List.singleton_append]
  | cons x xs ih => rw [List.cons_append, scan, ih h, scan, List.append_assoc]

/-- After a blank a text starts anew. -/
theorem atEnd_append_blank {m : Mode} {xs : List Char} (h : (atEnd m xs).isOpen = false)
    (ys : List Char) : atEnd m (xs ++ ' ' :: ys) = atEnd .between ys := by
  induction xs generalizing m with
  | nil =>
    have ended := Mode.step_blank (m := m) h
    rw [List.nil_append, atEnd, ended]
  | cons x xs ih => rw [List.cons_append, atEnd, ih h]

/-- After a mark a text starts anew. -/
theorem atEnd_append_mark {m : Mode} {xs : List Char} (h : (atEnd m xs).isOpen = false)
    {c : Char} (hc : isMark c = true) (ys : List Char) :
    atEnd m (xs ++ c :: ys) = atEnd .between ys := by
  induction xs generalizing m with
  | nil =>
    have ended := Mode.step_mark (m := m) h hc
    rw [List.nil_append, atEnd, ended]
  | cons x xs ih => rw [List.cons_append, atEnd, ih h]

/-- The tokens of two texts with a blank between them. -/
theorem tokens_append_blank {x : String} (hx : QuotesClosed x) (y : String) :
    tokens (x ++ " " ++ y) = tokens x ++ tokens y := by
  have chars : (x ++ " " ++ y).toList = x.toList ++ ' ' :: y.toList := by
    simp [String.toList_append]
  rw [tokens, chars, scan_append_blank hx]
  rfl

/-- Quotes that are closed stay so. -/
theorem QuotesClosed.append_blank {x y : String} (hx : QuotesClosed x) (hy : QuotesClosed y) :
    QuotesClosed (x ++ " " ++ y) := by
  have chars : (x ++ " " ++ y).toList = x.toList ++ ' ' :: y.toList := by
    simp [String.toList_append]
  rw [QuotesClosed, chars, atEnd_append_blank hx]
  exact hy

/-- The tokens of a text in brackets. -/
theorem tokens_brackets {x : String} (hx : QuotesClosed x) :
    tokens ("(" ++ x ++ ")") = .mark '(' :: tokens x ++ [.mark ')'] := by
  have chars : ("(" ++ x ++ ")").toList = '(' :: (x.toList ++ ')' :: []) := by
    simp [String.toList_append]
  have inner := scan_append_mark (c := ')') hx rfl []
  rw [tokens, chars, scan, Mode.step_mark (m := .between) rfl rfl, inner]
  rfl

/-- A text in brackets has its quotes closed if the text has. -/
theorem QuotesClosed.brackets {x : String} (hx : QuotesClosed x) :
    QuotesClosed ("(" ++ x ++ ")") := by
  have chars : ("(" ++ x ++ ")").toList = '(' :: (x.toList ++ ')' :: []) := by
    simp [String.toList_append]
  have inner := atEnd_append_mark (c := ')') hx rfl []
  rw [QuotesClosed, chars, atEnd, Mode.step_mark (m := .between) rfl rfl, inner]
  rfl

end RowAccess.Sql.Reading
