import ReflectedSchema.Failure
import ReflectedSchema.Json.Printer
import ReflectedSchema.Log

/-!
# Response formats

A chat provider takes a schema in an envelope that also names it.  Providers accept names of 1 to 64
ASCII letters, digits, underscores and hyphens; any other name is sent all the same, with a warning.
-/

namespace ReflectedSchema.ResponseFormat

/-- Whether a character may stand in a format name. -/
def isNameChar (c : Char) : Bool :=
  c.isAlphanum || c = '_' || c = '-'

/-- Whether a name is accepted; one line feed at its end is let through. -/
def isValidName (name : String) : Bool :=
  let cs := name.toList
  let core := if cs.getLast? = some '\n' then cs.dropLast else cs
  1 ≤ core.length && core.length ≤ 64 && core.all isNameChar

/-- A name made of a schema's: every other character is an underscore, and it ends after 64. -/
def derivedName (name : String) : String :=
  String.ofList ((name.toList.map fun c => if isNameChar c then c else '_').take 64)

/-- The envelope of a document under a name; a name that was not given is null. -/
def envelope (document : Json) (name : Option String) : Json :=
  .obj [("type", .str "json_schema"),
    ("json_schema", .obj [("name", (name.map Json.str).getD .null), ("schema", document),
      ("strict", .bool true)])]

/-- What is logged about the name of an envelope. -/
def records (name : Option String) : List LogRecord :=
  if isValidName (name.getD "") then []
  else [⟨.warning, .responseFormat, "Response format name '" ++ name.getD "None" ++
    "' does not match ^[a-zA-Z0-9_-]\x7b1,64\x7d$ and may be rejected by the provider"⟩]

/-- The envelope of a document that was not compiled, which has to be an object. -/
def ofDocument (document : Json) (name : Option String) : Except Fault Json :=
  match document with
  | .obj _ => .ok (envelope document name)
  | other => .error (.notDocument other.typeName)

end ReflectedSchema.ResponseFormat
