/-!
# Unreadable documents

Why a TOML document cannot be read, and the limits on how deep one may be.
-/

namespace RowAccess.Toml

/-- How many brackets may stand inside each other, and how many parts a dotted key may have. -/
def maxDepth : Nat := 80

/-- Why a document cannot be read. -/
inductive ReadError where
  /-- A control character stands where none may. -/
  | controlCharacter (c : Char)
  /-- A carriage return is not followed by a line feed. -/
  | loneCarriageReturn
  /-- A text is not closed. -/
  | unclosedText
  /-- A backslash is followed by what is no escape. -/
  | badEscape
  /-- An escape names no character. -/
  | badCodePoint (value : Nat)
  /-- A bracket is not closed, or closes nothing. -/
  | unbalancedBracket
  /-- There are more brackets inside each other than `maxDepth`. -/
  | tooDeep
  /-- A comma stands outside brackets. -/
  | strayComma
  /-- A line is neither a header nor a key with a value. -/
  | badLine
  /-- A key cannot be read. -/
  | badKey
  /-- A dotted key has more parts than `maxDepth`. -/
  | longKey
  /-- A value cannot be read. -/
  | badValue
  /-- A key or table is defined a second time, or extended where it may not be. -/
  | redefined (key : String)
  deriving DecidableEq

/-- The message about an unreadable document. -/
def ReadError.message : ReadError → String
  | controlCharacter c => "control character " ++ toString c.toNat ++ " is not allowed here"
  | loneCarriageReturn => "carriage return without a line feed"
  | unclosedText => "text is not closed"
  | badEscape => "unknown escape"
  | badCodePoint value => "escape " ++ toString value ++ " is no character"
  | unbalancedBracket => "unbalanced bracket"
  | tooDeep => "brackets are nested too deeply"
  | strayComma => "comma outside brackets"
  | badLine => "expected a header or a key with a value"
  | badKey => "invalid key"
  | longKey => "key has too many parts"
  | badValue => "invalid value"
  | redefined key => "'" ++ key ++ "' is defined more than once"

end RowAccess.Toml
