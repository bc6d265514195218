/-!
# Log records

Operations report what they do as log records, in order.  A record names the part of the library it
comes from; where it is printed, and from which level on, is for the application to decide.
-/

namespace ReflectedSchema

/-- The part of the library that a record comes from. -/
inductive Channel where
  /-- Describing classes. -/
  | classes
  /-- Building schemas. -/
  | schemas
  /-- Checking values. -/
  | validation
  /-- The library of schemas. -/
  | library
  /-- Response formats. -/
  | responseFormat
  /-- Registering classes. -/
  | registry
  /-- Talking to a chat provider. -/
  | chat
  deriving DecidableEq, Repr, Inhabited

/-- The levels of records. -/
inductive Severity where
  | debug | info | warning | error
  deriving DecidableEq, Repr, Inhabited

/-- The number of a level. -/
def Severity.toNat : Severity → Nat
  | .debug => 10
  | .info => 20
  | .warning => 30
  | .error => 40

/-- A log record. -/
structure LogRecord where
  severity : Severity
  channel : Channel
  message : String
  deriving DecidableEq, Repr, Inhabited

end ReflectedSchema
