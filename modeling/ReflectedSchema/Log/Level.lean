import ReflectedSchema.Settings.Environment
import ReflectedSchema.Text.Case

/-!
# Levels

A level is an integer; six of them have names, two of which have two.  The level of a logger comes from
the variable `LOGGER_LEVEL.<name>`, or else from `LOGGER_LEVEL`; a value that names no level is passed
over.
-/

namespace ReflectedSchema.Logging

/-- The named levels; of several names of a level the first is shown. -/
def levels : List (String × Int) :=
  [("CRITICAL", 50), ("FATAL", 50), ("ERROR", 40), ("WARNING", 30), ("WARN", 30), ("INFO", 20),
   ("DEBUG", 10), ("NOTSET", 0)]

/-- The level with a name, in any letter case. -/
def level? (name : String) : Option Int :=
  Json.lookup (Text.capitals name) levels

/-- The name of a level. -/
def levelName (level : Int) : String :=
  match levels.find? (·.2 = level) with
  | some (name, _) => name
  | none => "Level " ++ toString level

/-- The level that the environment gives a logger, with one to fall back to. -/
def environmentLevel (e : Settings.Environment) (name : Option String) (default : Int) : Int :=
  let common := (level? ((e.get? "LOGGER_LEVEL").getD "INFO")).getD default
  match name with
  | none | some "" => common
  | some name =>
    match e.get? ("LOGGER_LEVEL." ++ name) with
    | none | some "" => common
    | some own => (level? own).getD common

end ReflectedSchema.Logging
