/-!
# Journal

The library reports what it decided as structured records.  A record names an event and
lists what is known about it; its line is the level followed by `key=value` pairs.
Computations that can keep such records are instances of `Journal`.
-/

namespace RowAccess

/-- How detailed a record is. -/
inductive LogLevel where
  | debug
  | trace
  deriving DecidableEq

/-- The written form of a level. -/
def LogLevel.label : LogLevel → String
  | debug => "DEBUG"
  | trace => "TRACE"

/-- One journal record: an event and what is known about it, in order. -/
structure LogRecord where
  level : LogLevel
  event : String
  details : List (String × String)
  deriving DecidableEq

namespace LogRecord

/-- The line of a record. -/
def line (r : LogRecord) : String :=
  " ".intercalate
    (r.level.label :: (("event", r.event) :: r.details).map fun d => d.1 ++ "=" ++ d.2)

end LogRecord

/-- Computations that can write journal records. -/
class Journal (m : Type → Type) where
  /-- Writes one record. -/
  record : LogRecord → m Unit

namespace Journal

/-- Writes several records in order. -/
def recordAll {m : Type → Type} [Monad m] [Journal m] (records : List LogRecord) : m Unit :=
  records.forM record

end Journal

end RowAccess
