import RowAccess.Config.Error
import RowAccess.Grant.ContentType
import RowAccess.Lowering.Options
import RowAccess.Toml.Document

/-!
# Reading configurations off tables

A configuration is a record of records.  A record may be written as a table, whose keys must
all be known, or as an array with the values of the leading keys in their fixed order.  A
key that is left out has its default value.
-/

namespace RowAccess

open Toml (Datum Table)

namespace Decode

/-! ## Values -/

/-- Reads a text. -/
def text : Datum → Except DecodeError String
  | .text s => .ok s
  | _ => .error (.wrongType "a text")

/-- Reads a truth value. -/
def boolean : Datum → Except DecodeError Bool
  | .boolean b => .ok b
  | _ => .error (.wrongType "a truth value")

/-- Reads a single character. -/
def character : Datum → Except DecodeError Char
  | .text s =>
    match s.toList with
    | [c] => .ok c
    | _ => .error (.wrongType "a single character")
  | _ => .error (.wrongType "a single character")

/-- The elements of an array. -/
def elements : Datum → Except DecodeError (List Datum)
  | .array items => .ok items
  | .tableArray ts => .ok (ts.map .table)
  | _ => .error (.wrongType "an array")

/-- Reads an array of texts. -/
def texts (d : Datum) : Except DecodeError (List String) := do
  (← elements d).mapM text

/-- Whether a value is an empty table or an empty array. -/
def isHollow : Datum → Bool
  | .table t => t.entries.isEmpty
  | .array items => items.isEmpty
  | .tableArray ts => ts.isEmpty
  | _ => false

/-- The granularity with a name. -/
def granularityNamed (name : String) : Except DecodeError Granularity :=
  if name = "entity_type" then .ok .entityType
  else if name = "bundle" then .ok .bundle
  else .error (.wrongType "entity_type or bundle")

/-- Reads a granularity: its name, or a table in which its name has a hollow value. -/
def granularity : Datum → Except DecodeError Granularity
  | .text name => granularityNamed name
  | .table t =>
    match t.entries with
    | [(name, value)] =>
      if isHollow value then granularityNamed name else .error (.wrongType "an empty table")
    | _ => .error (.wrongType "a single key")
  | _ => .error (.wrongType "a granularity")

/-! ## Records -/

/-- The members of a record with the given keys, from a table or from an array. -/
def members (keys : List String) : Datum → Except DecodeError (String → Option Datum)
  | .table t =>
    match t.keys.find? fun key => key ∉ keys with
    | some key => .error (.unknownKey key)
    | none => .ok t.find?
  | .array items => .ok fun key => (keys.zip items).lookup key
  | .tableArray ts => .ok fun key => (keys.zip (ts.map Datum.table)).lookup key
  | _ => .error (.wrongType "a table")

/-- The value of a member, or a default where it is left out. -/
def optional {α : Type} (read : Datum → Except DecodeError α) (default : α) :
    Option Datum → Except DecodeError α
  | some d => read d
  | none => .ok default

/-- The value of a member that must be there. -/
def required {α : Type} (key : String) (read : Datum → Except DecodeError α) :
    Option Datum → Except DecodeError α
  | some d => read d
  | none => .error (.missingKey key)

/-- Reads a text that may be left out elsewhere. -/
def someText (d : Datum) : Except DecodeError (Option String) := (text d).map some

end Decode

/-! ## The records of a configuration -/

/-- Reads the options of lowering. -/
def CompileOptions.ofDatum (d : Datum) : Except DecodeError CompileOptions := do
  let member ← Decode.members ["case_insensitive_like", "like_escape"] d
  let defaults : CompileOptions := {}
  let caseInsensitiveLike ← Decode.optional Decode.boolean defaults.caseInsensitiveLike
    (member "case_insensitive_like")
  let likeEscape ← Decode.optional Decode.character defaults.likeEscape (member "like_escape")
  return ⟨caseInsensitiveLike, likeEscape⟩

/-- The keys of a content type in their fixed order. -/
def ContentType.keys : List String :=
  ["id", "admin_permission", "has_owner", "owner_key", "has_published", "published_key",
    "bundle_key", "bundles", "permission_granularity"]

/-- Reads a content type. -/
def ContentType.ofDatum (d : Datum) : Except DecodeError ContentType := do
  let member ← Decode.members ContentType.keys d
  return {
    id := ← Decode.required "id" Decode.text (member "id")
    adminPermission := ← Decode.optional Decode.someText none (member "admin_permission")
    hasOwner := ← Decode.optional Decode.boolean false (member "has_owner")
    ownerKey := ← Decode.optional Decode.someText none (member "owner_key")
    hasPublished := ← Decode.optional Decode.boolean false (member "has_published")
    publishedKey := ← Decode.optional Decode.someText none (member "published_key")
    bundleKey := ← Decode.optional Decode.someText none (member "bundle_key")
    bundles := ← Decode.optional Decode.texts [] (member "bundles")
    granularity :=
      ← Decode.optional Decode.granularity .entityType (member "permission_granularity") }

end RowAccess
