import RowAccess.Config.Decode
import RowAccess.Toml.Statement

/-!
# Configurations

A configuration holds the options of lowering and the content types.  It is checked when it
is loaded: the escape character must not be a reserved one, no two types may have the same
name, and a type with bundles needs a field for them.

Main results:

- `CompileOptions.validate_eq_ok_iff`: which escape characters are accepted.
-/

namespace RowAccess

/-- Refuses an escape character that cannot escape. -/
def CompileOptions.validate (o : CompileOptions) : Except ConfigError Unit :=
  if o.likeEscape ∈ reservedEscapes then .error (.invalidLikeEscape o.likeEscape) else .ok ()

/-- An escape character is accepted unless it is reserved. -/
theorem CompileOptions.validate_eq_ok_iff (o : CompileOptions) :
    o.validate = .ok () ↔ o.likeEscape ∉ reservedEscapes := by
  unfold validate
  split <;> simp_all

/-- Whether bundles are written for a content type, but no field that holds them. -/
def ContentType.omitsBundleKey (ty : ContentType) : Bool :=
  (ty.granularity = .bundle || !ty.bundles.isEmpty) && ty.bundleKey.all (· = "")

/-- The options of lowering and the content types. -/
structure Config where
  compile : CompileOptions
  contentTypes : List ContentType
  deriving DecidableEq

namespace Config

/-- Reads a configuration off the table of a document. -/
def ofTable (t : Toml.Table) : Except DecodeError Config := do
  let member ← Decode.members ["compile", "content_type"] (.table t)
  let compile ← Decode.optional CompileOptions.ofDatum {} (member "compile")
  let types ← Decode.optional Decode.elements [] (member "content_type")
  return ⟨compile, ← types.mapM ContentType.ofDatum⟩

/-- Checks content types in order and fills in their defaults.  A name that was seen before
is reported before a missing field. -/
def checkTypes (seen : List String) : List ContentType → Except ConfigError (List ContentType)
  | [] => .ok []
  | ty :: rest =>
    if ty.id ∈ seen then .error (.duplicateContentType ty.id)
    else if ty.omitsBundleKey then .error (.missingBundleKey ty.id)
    else (checkTypes (ty.id :: seen) rest).map (ty.fillDefaults :: ·)

/-- Checks a configuration; the escape character comes first. -/
def check (c : Config) : Except ConfigError Config := do
  c.compile.validate
  return { c with contentTypes := ← checkTypes [] c.contentTypes }

/-- Loads a configuration from a document: what is read off it is checked. -/
def load (read : String → Except ConfigError Config) (source : String) :
    Except ConfigError Config := do
  (← read source).check

/-- Reads a configuration off a TOML document. -/
def readToml (source : String) : Except ConfigError Config := do
  let table ← (Toml.Table.ofSource source).mapError .unreadable
  (ofTable table).mapError .undecodable

/-- Loads a configuration from a TOML document. -/
def ofToml (source : String) : Except ConfigError Config := load readToml source

/-- The content type with a name. -/
def contentType? (c : Config) (id : String) : Option ContentType :=
  c.contentTypes.find? fun ty => ty.id = id

end Config

end RowAccess
