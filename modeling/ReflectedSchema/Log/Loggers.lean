import ReflectedSchema.Log.Format

/-!
# Loggers

Loggers have dotted names, and a logger stands under the one whose name is its own without the last
part; all of them stand under the root.  A logger without a level of its own has that of the nearest
logger above it.  A record that passes the level of its logger goes to the handler of the logger and
from there upwards, until a logger does not propagate.
-/

namespace ReflectedSchema.Logging

/-- A logger. -/
structure Logger where
  /-- Its own level, or zero. -/
  level : Int := 0
  propagate : Bool := true
  /-- Whether it prints what reaches it. -/
  hasHandler : Bool := false
  deriving Inhabited, Repr

/-- The level of the root. -/
def rootLevel : Int := 30

/-- The loggers with names. -/
structure Loggers where
  byName : List (String × Logger) := []
  deriving Inhabited, Repr

namespace Loggers

/-- A name and those of the loggers above it, in as many steps as `bound` has characters. -/
def chainFrom : (bound : List Char) → List Char → List String
  | [], name => [String.ofList name]
  | _ :: bound, name =>
    let above := (name.reverse.dropWhile (· ≠ '.')).drop 1
    if above.isEmpty then [String.ofList name]
    else String.ofList name :: chainFrom bound above.reverse

/-- The name of a logger and those of the loggers above it, nearest first. -/
def chain (name : String) : List String :=
  chainFrom name.toList name.toList

/-- The logger with a name; one that was not set up has no level and no handler. -/
def logger (ls : Loggers) (name : String) : Logger :=
  (Json.lookup name ls.byName).getD {}

/-- The level of a logger: its own, or that of the nearest logger above it. -/
def effectiveLevel (ls : Loggers) (name : String) : Int :=
  match ((chain name).map fun n => (ls.logger n).level).find? (· ≠ 0) with
  | some level => level
  | none => rootLevel

/-- Whether a record of a level passes a logger; none passes that has no positive level. -/
def isEnabled (ls : Loggers) (name : String) (level : Int) : Bool :=
  0 < level && ls.effectiveLevel name ≤ level

/-- The loggers along a chain up to the first that does not propagate. -/
def propagated (ls : Loggers) : List String → List String
  | [] => []
  | name :: above => name :: if (ls.logger name).propagate then propagated ls above else []

/-- Set up a logger that prints: it keeps its handler if it has one.  Without a level it is given that of
the environment. -/
def create (ls : Loggers) (e : Settings.Environment) (name : String) (level : Option Int)
    (propagate : Bool) : Logger × Loggers :=
  let made : Logger :=
    { level := level.getD (environmentLevel e (some name) 20), propagate, hasHandler := true }
  (made, { byName := Json.set name made ls.byName })

/-- The lines that a record is printed as, with the names of the loggers that print them.  A record that
cannot be formatted is not printed. -/
def handle (ls : Loggers) (name : String) (r : Record) : List (String × String) :=
  if ls.isEnabled name r.level then
    (ls.propagated (chain name)).filterMap fun n =>
      if (ls.logger n).hasHandler then (r.format lineTemplate).toOption.map (n, ·) else none
  else []

/-- The messages that an exception is logged as: what happened, and the exception with its kind. -/
def exceptionMessages (message kind text : String) : List String :=
  [message ++ ": " ++ text, (if text.isEmpty then kind else kind ++ ": " ++ text) ++ "\n"]

/-- The messages of an exception that pass a logger. -/
def exception (ls : Loggers) (name message kind text : String) : List String :=
  if ls.isEnabled name 40 then exceptionMessages message kind text else []

end Loggers

end ReflectedSchema.Logging
