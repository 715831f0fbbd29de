import RowAccess.Toml.Error

/-!
# Tokens of a document

A TOML document is read character by character into tokens: brackets, separators, blanks,
line ends, quoted texts with their escapes resolved, and runs of other characters.  Comments
leave no token, and a quote inside a run is part of it.  What is being read at any point is a
`Mode`; reading one more character moves to another mode and may put out tokens.
-/

namespace RowAccess.Toml

/-- The two kinds of brackets. -/
inductive Bracket where
  | square
  | curly
  deriving DecidableEq

/-- A token of a document. -/
inductive Token where
  /-- A space or a tab. -/
  | blank (c : Char)
  | lineEnd
  | dot
  | equals
  | comma
  | opening (b : Bracket)
  | closing (b : Bracket)
  /-- A run of characters that mean nothing by themselves. -/
  | bare (text : String)
  /-- A quoted text; one over several lines cannot be a key. -/
  | quoted (multiline : Bool) (text : String)
  deriving DecidableEq

/-- The kinds of quotes: between double quotes a backslash escapes. -/
inductive Quote where
  | basic
  | literal
  deriving DecidableEq

/-- The character of a kind of quotes. -/
def Quote.char : Quote → Char
  | basic => '"'
  | literal => '\''

/-- A quoted text while it is being read. -/
structure OpenText where
  quote : Quote
  multiline : Bool
  /-- What was read so far, last character first. -/
  read : List Char

namespace OpenText

/-- Adds a character. -/
def push (t : OpenText) (c : Char) : OpenText := { t with read := c :: t.read }

/-- Adds several quotes. -/
def pushQuotes (t : OpenText) (n : Nat) : OpenText :=
  { t with read := List.replicate n t.quote.char ++ t.read }

/-- The token of the text. -/
def close (t : OpenText) : Token := .quoted t.multiline (.ofList t.read.reverse)

end OpenText

/-- What is being read. -/
inductive Mode where
  /-- Between two tokens. -/
  | between
  /-- A run of bare characters, last one first. -/
  | bare (read : List Char)
  | comment
  /-- A line end of two characters outside texts. -/
  | lineEnd
  /-- One or two quotes that may open a text. -/
  | quotes (quote : Quote) (count : Nat)
  /-- The start of a text over several lines, where a line end does not count. -/
  | firstLine (t : OpenText) (returned : Bool)
  | body (t : OpenText)
  /-- Quotes that may close a text over several lines. -/
  | ending (t : OpenText) (count : Nat)
  /-- A line end of two characters in a text. -/
  | bodyLineEnd (t : OpenText)
  | escape (t : OpenText)
  /-- The digits of a code point. -/
  | codePoint (t : OpenText) (left value : Nat)
  /-- After a backslash at the end of a line, where blanks and line ends do not count. -/
  | joining (t : OpenText) (lineSeen returned : Bool)

/-- Reading in progress: the mode and the tokens so far, last one first. -/
structure Scan where
  mode : Mode
  tokens : List Token

namespace Scan

/-- Goes on in another mode. -/
def goto (s : Scan) (mode : Mode) : Except ReadError Scan := .ok { s with mode := mode }

/-- Puts out a token and goes on between tokens. -/
def emit (s : Scan) (t : Token) : Scan := ⟨.between, t :: s.tokens⟩

/-- Whether a character may not stand in a comment or a text. -/
def isControl (c : Char) : Bool := (c.toNat < 0x20 && c ≠ '\t') || c.toNat = 0x7F

/-- The token that a character is by itself. -/
def single? : Char → Option Token
  | ' ' => some (.blank ' ')
  | '\t' => some (.blank '\t')
  | '\n' => some .lineEnd
  | '.' => some .dot
  | '=' => some .equals
  | ',' => some .comma
  | '[' => some (.opening .square)
  | ']' => some (.closing .square)
  | '{' => some (.opening .curly)
  | '}' => some (.closing .curly)
  | _ => none

/-- The mode that a character begins, if it does more than stand for itself. -/
def begins? : Char → Option Mode
  | '#' => some .comment
  | '\r' => some .lineEnd
  | '"' => some (.quotes .basic 1)
  | '\'' => some (.quotes .literal 1)
  | _ => none

/-- Whether a character ends a run of bare characters. -/
def endsBare (c : Char) : Bool := (single? c).isSome || c = '#' || c = '\r'

/-- Reads a character between tokens. -/
def stepBetween (s : Scan) (c : Char) : Except ReadError Scan :=
  match single? c, begins? c with
  | some t, _ => .ok (s.emit t)
  | none, some mode => s.goto mode
  | none, none => s.goto (.bare [c])

/-- Puts out a token and reads a character between tokens. -/
def emitThen (s : Scan) (t : Token) (c : Char) : Except ReadError Scan :=
  (s.emit t).stepBetween c

/-- Reads a character of a text that is neither a quote nor escaped. -/
def stepBody (s : Scan) (t : OpenText) (c : Char) : Except ReadError Scan :=
  if c = t.quote.char then
    if t.multiline then s.goto (.ending t 1) else .ok (s.emit t.close)
  else if c = '\\' ∧ t.quote = .basic then s.goto (.escape t)
  else if c = '\n' ∧ t.multiline then s.goto (.body (t.push c))
  else if c = '\r' ∧ t.multiline then s.goto (.bodyLineEnd t)
  else if isControl c then .error (.controlCharacter c)
  else s.goto (.body (t.push c))

/-- The character that a letter after a backslash stands for. -/
def escaped? : Char → Option Char
  | 'b' => some '\x08'
  | 't' => some '\t'
  | 'n' => some '\n'
  | 'f' => some '\x0c'
  | 'r' => some '\r'
  | 'e' => some '\x1b'
  | '"' => some '"'
  | '\\' => some '\\'
  | _ => none

/-- The number of digits that a letter after a backslash announces. -/
def digitCount? : Char → Option Nat
  | 'x' => some 2
  | 'u' => some 4
  | 'U' => some 8
  | _ => none

/-- Reads the character after a backslash. -/
def stepEscape (s : Scan) (t : OpenText) (c : Char) : Except ReadError Scan :=
  match escaped? c, digitCount? c with
  | some x, _ => s.goto (.body (t.push x))
  | none, some n => s.goto (.codePoint t n 0)
  | none, none =>
    if t.multiline then
      match c with
      | ' ' | '\t' => s.goto (.joining t false false)
      | '\n' => s.goto (.joining t true false)
      | '\r' => s.goto (.joining t false true)
      | _ => .error .badEscape
    else .error .badEscape

/-- The value of a hexadecimal digit. -/
def hexDigit? (c : Char) : Option Nat :=
  if '0' ≤ c ∧ c ≤ '9' then some (c.toNat - '0'.toNat)
  else if 'a' ≤ c ∧ c ≤ 'f' then some (c.toNat - 'a'.toNat + 10)
  else if 'A' ≤ c ∧ c ≤ 'F' then some (c.toNat - 'A'.toNat + 10)
  else none

/-- Reads a digit of a code point, of which `left` are still to come. -/
def stepCodePoint (s : Scan) (t : OpenText) (left value : Nat) (c : Char) :
    Except ReadError Scan :=
  match hexDigit? c with
  | none => .error .badEscape
  | some d =>
    let value := value * 16 + d
    if left ≤ 1 then
      if value.isValidChar then s.goto (.body (t.push (Char.ofNat value)))
      else .error (.badCodePoint value)
    else s.goto (.codePoint t (left - 1) value)

/-- Reads a character where blanks and line ends do not count, up to the next other one.
There has to be a line end among them. -/
def stepJoining (s : Scan) (t : OpenText) (lineSeen : Bool) (c : Char) :
    Except ReadError Scan :=
  match c with
  | ' ' | '\t' => s.goto (.joining t lineSeen false)
  | '\n' => s.goto (.joining t true false)
  | '\r' => s.goto (.joining t lineSeen true)
  | _ => if lineSeen then s.stepBody t c else .error .badEscape

/-- Reads a character after `count` quotes in a text over several lines.  Three of them close
it, and up to two before those belong to it. -/
def stepEnding (s : Scan) (t : OpenText) (count : Nat) (c : Char) : Except ReadError Scan :=
  if c = t.quote.char ∧ count < 5 then s.goto (.ending t (count + 1))
  else if count < 3 then s.stepBody (t.pushQuotes count) c
  else s.emitThen (t.pushQuotes (count - 3)).close c

/-- Reads a character after one or two quotes that may open a text. -/
def stepQuotes (s : Scan) (quote : Quote) (count : Nat) (c : Char) : Except ReadError Scan :=
  if c = quote.char then
    if count = 1 then s.goto (.quotes quote 2) else s.goto (.firstLine ⟨quote, true, []⟩ false)
  else if count = 1 then s.stepBody ⟨quote, false, []⟩ c
  else s.emitThen (.quoted false "") c

/-- Reads one character. -/
def step (s : Scan) (c : Char) : Except ReadError Scan :=
  match s.mode with
  | .between => s.stepBetween c
  | .bare read =>
    if endsBare c then s.emitThen (.bare (.ofList read.reverse)) c
    else s.goto (.bare (c :: read))
  | .comment =>
    match c with
    | '\n' => .ok (s.emit .lineEnd)
    | '\r' => s.goto .lineEnd
    | _ => if isControl c then .error (.controlCharacter c) else s.goto .comment
  | .lineEnd => if c = '\n' then .ok (s.emit .lineEnd) else .error .loneCarriageReturn
  | .quotes quote count => s.stepQuotes quote count c
  | .firstLine t returned =>
    if c = '\n' then s.goto (.body t)
    else if returned then .error .loneCarriageReturn
    else if c = '\r' then s.goto (.firstLine t true)
    else s.stepBody t c
  | .body t => s.stepBody t c
  | .ending t count => s.stepEnding t count c
  | .bodyLineEnd t =>
    if c = '\n' then s.goto (.body ((t.push '\r').push '\n')) else .error .loneCarriageReturn
  | .escape t => s.stepEscape t c
  | .codePoint t left value => s.stepCodePoint t left value c
  | .joining t lineSeen returned =>
    if returned then
      if c = '\n' then s.goto (.joining t true false) else .error .loneCarriageReturn
    else s.stepJoining t lineSeen c

/-- Ends the reading; a text has to be closed by then. -/
def finish (s : Scan) : Except ReadError (List Token) :=
  match s.mode with
  | .between | .comment => .ok s.tokens.reverse
  | .bare read => .ok (s.emit (.bare (.ofList read.reverse))).tokens.reverse
  | .lineEnd => .error .loneCarriageReturn
  | .quotes _ 2 => .ok (s.emit (.quoted false "")).tokens.reverse
  | .ending t count =>
    if count < 3 then .error .unclosedText
    else .ok (s.emit (t.pushQuotes (count - 3)).close).tokens.reverse
  | _ => .error .unclosedText

end Scan

/-- A document without the byte order mark that may stand in front of it. -/
def dropMark : List Char → List Char
  | '\uFEFF' :: cs => cs
  | cs => cs

/-- The tokens of a document. -/
def scan (source : String) : Except ReadError (List Token) := do
  let s ← (dropMark source.toList).foldlM Scan.step ⟨.between, []⟩
  s.finish

end RowAccess.Toml
