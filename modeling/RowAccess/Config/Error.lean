import RowAccess.Failure
import RowAccess.Toml.Error

/-!
# Unacceptable configurations

Why a configuration cannot be used, and the messages about it.
-/

namespace RowAccess

/-- Why a document is no configuration. -/
inductive DecodeError where
  | unknownKey (key : String)
  | missingKey (key : String)
  | wrongType (expected : String)
  deriving DecidableEq

/-- The message about a document that is no configuration. -/
def DecodeError.message : DecodeError → String
  | unknownKey key => "unknown key '" ++ key ++ "'"
  | missingKey key => "missing key '" ++ key ++ "'"
  | wrongType expected => "expected " ++ expected

/-- Why a configuration cannot be used. -/
inductive ConfigError where
  | duplicateContentType (id : String)
  | invalidLikeEscape (escape : Char)
  | missingBundleKey (id : String)
  /-- The document cannot be read. -/
  | unreadable (e : Toml.ReadError)
  /-- The document is no configuration. -/
  | undecodable (e : DecodeError)
  deriving DecidableEq

namespace ConfigError

/-- A character between single quotes; the single quote itself follows a backslash. -/
def quotedChar (c : Char) : String :=
  if c = '\'' then "'\\''" else "'" ++ String.singleton c ++ "'"

/-- The message about a configuration that cannot be used. -/
def message : ConfigError → String
  | duplicateContentType id => "content type '" ++ id ++ "' is defined more than once"
  | invalidLikeEscape escape =>
    "like_escape " ++ quotedChar escape ++ " cannot be used as a LIKE escape character"
  | missingBundleKey id => "content type '" ++ id ++ "' declares bundles but has no bundle key"
  | unreadable e => "invalid config: " ++ e.message
  | undecodable e => "invalid config: " ++ e.message

/-- A configuration that cannot be used is a mistake of configuration. -/
def failure (e : ConfigError) : Failure := ⟨.configuration, .config, e.message⟩

end ConfigError

end RowAccess
