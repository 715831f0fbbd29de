/-!
# Classified failures

Each layer has causes of failure of its own.  At the border of the library a cause becomes
a `Failure`, which says what kind of mistake it is and which layer found it.
-/

namespace RowAccess

/-- What kind of mistake a failure reports. -/
inductive FailureClass where
  /-- A content type or a configuration is broken. -/
  | configuration
  /-- The caller's input is not acceptable. -/
  | invalidInput
  /-- The input names something that does not exist. -/
  | notFound
  deriving DecidableEq

/-- The layer that found a mistake. -/
inductive FailureOrigin where
  | access
  | compile
  | config
  | filter
  deriving DecidableEq

/-- The written form of a class. -/
def FailureClass.label : FailureClass → String
  | configuration => "configuration"
  | invalidInput => "invalid_input"
  | notFound => "not_found"

/-- The written form of an origin. -/
def FailureOrigin.label : FailureOrigin → String
  | access => "access"
  | compile => "compile"
  | config => "config"
  | filter => "filter"

/-- A classified failure with the message of the layer that found it. -/
structure Failure where
  failureClass : FailureClass
  origin : FailureOrigin
  message : String
  deriving DecidableEq

namespace Failure

/-- The message preceded by its origin and class. -/
def classified (f : Failure) : String :=
  f.origin.label ++ ":" ++ f.failureClass.label ++ ": " ++ f.message

/-- Whether definitions, rather than input, are at fault. -/
def isConfiguration (f : Failure) : Bool :=
  f.failureClass = .configuration

end Failure

end RowAccess
