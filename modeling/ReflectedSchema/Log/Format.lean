import ReflectedSchema.Log.Calendar
import ReflectedSchema.Log.Level
import ReflectedSchema.Log.Template

/-!
# Log lines

An application prints log records by a template whose fields are named.  The names of two levels are
shortened, so that the usual levels fit into five columns.
-/

namespace ReflectedSchema.Logging

/-- A record that an application logs. -/
structure Record where
  level : Int
  message : String
  /-- What the message is filled in with; without arguments it is not filled in. -/
  arguments : List Json := []
  name : String := "x"
  path : String := ""
  line : Int := 1
  /-- The second at which it was logged, and the milliseconds of that second. -/
  created : Json := .int 0
  milliseconds : Json := .int 0

/-- Why a record cannot be printed. -/
inductive FormatError where
  /-- A template has no named field. -/
  | invalidTemplate (template : String)
  /-- A template names a field that a record does not have. -/
  | missingField (name : String)
  | filling (e : TemplateError)
  deriving DecidableEq, Repr

/-- The wording of a format error. -/
def FormatError.message : FormatError → String
  | .invalidTemplate template => "Invalid format '" ++ template ++ "' for '%' style"
  | .missingField name => "Formatting field not found in record: " ++ Text.quoted name
  | .filling e => e.message

/-- The template of log lines. -/
def lineTemplate : String :=
  "%(asctime)s - %(levelname)-5s: %(name)s - %(message)s (file: %(filename)s, line: %(lineno)d)"

/-- The template of lines that are the message alone. -/
def messageTemplate : String := "%(message)s"

/-- The name of a level in log lines. -/
def shortName (level : Int) : String :=
  match levelName level with
  | "WARNING" => "WARN"
  | "CRITICAL" => "CRIT"
  | name => name

/-- A template as it is used: an empty one is that of the message alone, and any other must have a named
field. -/
def usable (template : String) : Except FormatError String :=
  if template.isEmpty then .ok messageTemplate
  else if Template.hasNamedField template.toList then .ok template
  else .error (.invalidTemplate template)

namespace Record

/-- The message of a record, filled in.  A single argument with named values names them. -/
def text (r : Record) : Except FormatError String :=
  match r.arguments with
  | [] => .ok r.message
  | [.obj (f :: more)] =>
    (Template.fill r.message ⟨[.obj (f :: more)], some (f :: more)⟩).mapError .filling
  | args => (Template.fill r.message ⟨args, none⟩).mapError .filling

/-- The last part of the path. -/
def fileName (r : Record) : String :=
  String.ofList (r.path.toList.reverse.takeWhile (· ≠ '/')).reverse

/-- The file name without its extension. -/
def moduleName (r : Record) : String :=
  let cs := r.fileName.toList.reverse
  let stem := (cs.dropWhile (· ≠ '.')).drop 1
  -- dots at the front of a name begin no extension
  if stem.all (· = '.') then r.fileName else String.ofList stem.reverse

/-- The second that a number lies in. -/
def secondOf : Json → Int
  | .int n => n
  | .float (.finite s m e) =>
    match (Binary64.finite s m e).toInt? with
    | some n => n
    | none =>
      let whole : Int := (m / Nat.pow 2 (-e).toNat : Nat)
      if s then -whole - 1 else whole
  | _ => 0

/-- When a record was logged. -/
def time (r : Record) : String :=
  clockText (secondOf r.created) ++ "," ++
    String.ofList (Template.writeInteger { zero := true, width := 3 } (secondOf r.milliseconds) 10 [])

/-- The fields of a record, where its message is filled in. -/
def fields (r : Record) (text : String) : List (String × Json) :=
  [("name", .str r.name), ("msg", .str r.message), ("args", .arr r.arguments),
    ("levelname", .str (shortName r.level)), ("levelno", .int r.level), ("pathname", .str r.path),
    ("filename", .str r.fileName), ("module", .str r.moduleName), ("lineno", .int r.line),
    ("funcName", .null), ("exc_info", .null), ("exc_text", .null), ("stack_info", .null),
    ("created", r.created), ("msecs", r.milliseconds), ("threadName", .str "MainThread"),
    ("processName", .str "MainProcess"), ("message", .str text), ("asctime", .str r.time)]

/-- A record as a line. -/
def format (template : String) (r : Record) : Except FormatError String := do
  let fields := r.fields (← r.text)
  match Template.fill template ⟨[.obj fields], some fields⟩ with
  | .ok line => return line
  | .error (.missing name) => throw (.missingField name)
  | .error e => throw (.filling e)

end Record

end ReflectedSchema.Logging
