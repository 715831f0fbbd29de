/-!
# Unquoted values

Numbers, dates and times of a document are written without quotes.  Their form is checked here
as far as it takes to tell them from unquoted words; what they amount to is not needed, so they
are kept as they are written.
-/

namespace RowAccess.Toml.Literal

/-! ## Numbers -/

/-- A text without its sign. -/
def unsigned : List Char → List Char
  | '+' :: cs | '-' :: cs => cs
  | cs => cs

/-- Whether a character is a digit in base 16. -/
def isHexDigit (c : Char) : Bool :=
  c.isDigit || ('a' ≤ c && c ≤ 'f') || ('A' ≤ c && c ≤ 'F')

/-- Whether a character is a digit in base 8. -/
def isOctalDigit (c : Char) : Bool := '0' ≤ c && c ≤ '7'

/-- Whether a character is a digit in base 2. -/
def isBinaryDigit (c : Char) : Bool := c = '0' || c = '1'

/-- Whether the underscores of a number stand at digits: a text without any will do, and
otherwise every part behind one starts with a digit and every part in front of one ends with
a digit. -/
def groupsFine (isDigit : Char → Bool) (cs : List Char) : Bool :=
  let parts := cs.splitOnP (· = '_')
  parts.tail.all (fun part => part.head?.any isDigit) &&
    parts.dropLast.all fun part => part.getLast?.any isDigit

/-- Whether a text is made of digits in a base and underscores between them; there may be
none. -/
def isInBase (isDigit : Char → Bool) (cs : List Char) : Bool :=
  cs.all (fun c => isDigit c || c = '_') && groupsFine isDigit cs

/-- Whether a character belongs to a number with a point or an exponent only. -/
def isFractionMark (c : Char) : Bool := c = '.' || c = 'e' || c = 'E'

/-- Whether a text is a decimal number.  It has no needless zero in front.  Up to its first
underscore it has digits only; from there on nothing but a space and the marks of fractions
is ruled out, as long as its underscores stand at digits of base 16. -/
def isDecimal (cs : List Char) : Bool :=
  let number := unsigned cs
  match number.dropWhile Char.isDigit with
  | [] => number ≠ [] && (number = ['0'] || number.head? ≠ some '0')
  | '_' :: rest =>
    number.head? ≠ some '0' && !rest.any (fun c => c = ' ' || isFractionMark c) &&
      groupsFine isHexDigit number
  | _ => false

/-- Whether a text is a whole number; one in another base than ten has no sign. -/
def isInteger : List Char → Bool
  | '0' :: 'x' :: cs => isInBase isHexDigit cs
  | '0' :: 'o' :: cs => isInBase isOctalDigit cs
  | '0' :: 'b' :: cs => isInBase isBinaryDigit cs
  | cs => isDecimal cs

/-- Whether a character may stand in a run of digits with underscores. -/
def isRunChar (c : Char) : Bool := c.isDigit || c = '_'

/-- Reads a run of digits with underscores and returns what follows it. -/
def digits? (cs : List Char) : Option (List Char) :=
  if (cs.takeWhile isRunChar).any Char.isDigit then some (cs.dropWhile isRunChar) else none

/-- Reads the digits in front of a point or an exponent, which have no needless zero in front,
and returns what follows them. -/
def whole? (cs : List Char) : Option (List Char) :=
  if cs.head? = some '0' ∧ 1 < (cs.takeWhile isRunChar).countP Char.isDigit then none
  else digits? cs

/-- Reads a point with the digits behind it, if they are there, and returns what follows. -/
def point? : List Char → Option (List Char)
  | '.' :: cs => digits? cs
  | cs => some cs

/-- Reads an exponent, if it is there, and returns what follows it. -/
def exponent? : List Char → Option (List Char)
  | 'e' :: cs | 'E' :: cs => digits? (unsigned cs)
  | cs => some cs

/-- Whether a text without a sign is a number that may have a point or an exponent. -/
def isFraction (number : List Char) : Bool :=
  ((whole? number).bind point?).bind exponent? = some [] && groupsFine Char.isDigit number

/-- Whether a text is a number that may have a point or an exponent, an infinity or no
number. -/
def isFloat (cs : List Char) : Bool :=
  let number := unsigned cs
  number = "inf".toList || number = "nan".toList || isFraction number

/-! ## Dates and times -/

/-- The number that two digits write. -/
def pair (a b : Char) : Nat := 10 * (a.toNat - '0'.toNat) + (b.toNat - '0'.toNat)

/-- The number of days of a month. -/
def daysIn (year month : Nat) : Nat :=
  if month = 2 then
    if year % 4 = 0 ∧ (year % 100 ≠ 0 ∨ year % 400 = 0) then 29 else 28
  else if month = 4 ∨ month = 6 ∨ month = 9 ∨ month = 11 then 30
  else 31

/-- Reads a date and returns what follows it. -/
def date? : List Char → Option (List Char)
  | a :: b :: c :: d :: '-' :: e :: f :: '-' :: g :: h :: rest =>
    let month := pair e f
    let day := pair g h
    if [a, b, c, d, e, f, g, h].all Char.isDigit ∧ 1 ≤ month ∧ month ≤ 12 ∧ 1 ≤ day ∧
        day ≤ daysIn (100 * pair a b + pair c d) month then some rest
    else none
  | _ => none

/-- Reads an hour and a minute and returns what follows them. -/
def hourMinute? : List Char → Option (List Char)
  | a :: b :: ':' :: c :: d :: rest =>
    if [a, b, c, d].all Char.isDigit ∧ pair a b ≤ 23 ∧ pair c d ≤ 59 then some rest else none
  | _ => none

/-- Reads the seconds of a time, if they are there, and returns what follows them. -/
def seconds? : List Char → Option (List Char)
  | ':' :: a :: b :: '.' :: rest =>
    if a.isDigit ∧ b.isDigit ∧ pair a b ≤ 60 ∧ (rest.takeWhile Char.isDigit) ≠ [] then
      some (rest.dropWhile Char.isDigit)
    else none
  | ':' :: a :: b :: rest =>
    if a.isDigit ∧ b.isDigit ∧ pair a b ≤ 60 then some rest else none
  | ':' :: _ => none
  | rest => some rest

/-- Reads a time and returns what follows it. -/
def time? (cs : List Char) : Option (List Char) := (hourMinute? cs).bind seconds?

/-- Whether a text is a distance from universal time, or none. -/
def isOffset : List Char → Bool
  | [] => true
  | ['Z'] | ['z'] => true
  | '+' :: cs | '-' :: cs => hourMinute? cs = some []
  | _ => false

/-- Whether a text is a date, a time, or a date and a time. -/
def isDateTime (cs : List Char) : Bool :=
  match date? cs with
  | some [] => true
  | some (mark :: rest) =>
    (mark = 'T' || mark = 't' || mark = ' ') && (time? rest).any isOffset
  | none => time? cs = some []

/-- Whether a text is a number, a date or a time. -/
def isLiteral (cs : List Char) : Bool := isInteger cs || isFloat cs || isDateTime cs

end RowAccess.Toml.Literal
