import ReflectedSchema.Failure
import ReflectedSchema.Json.Printer
import ReflectedSchema.Schema.Node

/-!
# Compiled schemas

A compiled schema is a JSON Schema document together with what is needed to use it: the kind of its
root, and the descriptors of the classes and enumerations that the kind leads to.  The root of a
document is an object; a kind that is not, is wrapped as the only property `value`.
-/

namespace ReflectedSchema

/-- A schema document with the kinds behind it. -/
structure Schema where
  name : String
  document : Json
  root : Kind
  classes : List ClassDescriptor := []
  enums : List EnumDescriptor := []
  /-- Whether the root kind stands under the property `value`. -/
  wrapped : Bool := false
  deriving Inhabited

/-- Whether a list of names holds a name twice. -/
def hasRepeated : List String → Bool
  | [] => false
  | name :: rest => rest.contains name || hasRepeated rest

/-- Whether an object requires a field twice. -/
def requiresTwice (fields : List (String × Json)) : Bool :=
  match Json.lookup "required" fields with
  | some (.arr names) => hasRepeated (names.filterMap Json.str?)
  | _ => false

mutual

/-- Whether some object inside a document requires a field twice. -/
def Json.hasRepeatedRequired : Json → Bool
  | .arr items => hasRepeatedRequiredItems items
  | .obj fields => requiresTwice fields || hasRepeatedRequiredFields fields
  | _ => false

/-- Whether some object inside the items requires a field twice. -/
def Json.hasRepeatedRequiredItems : List Json → Bool
  | [] => false
  | item :: rest => item.hasRepeatedRequired || hasRepeatedRequiredItems rest

/-- Whether some object inside the fields requires a field twice. -/
def Json.hasRepeatedRequiredFields : List (String × Json) → Bool
  | [] => false
  | (_, value) :: rest => value.hasRepeatedRequired || hasRepeatedRequiredFields rest

end

namespace Schema

/-- Accept a schema unless its document requires a field twice. -/
def checked (schema : Schema) : Except Raised Schema :=
  if schema.document.hasRepeatedRequired then .error (.fault .invalidSchema) else .ok schema

/-- The document as text. -/
def text (schema : Schema) : String :=
  schema.document.text .indented

/-- The descriptor of a class. -/
def class? (schema : Schema) (name : String) : Option ClassDescriptor :=
  schema.classes.find? (·.name = name)

/-- The descriptor of an enumeration. -/
def enum? (schema : Schema) (path : String) : Option EnumDescriptor :=
  schema.enums.find? (·.path = path)

/-- Two schemas are the same when their names and the texts of their documents are. -/
def same (a b : Schema) : Bool :=
  a.name = b.name && a.text = b.text

/-- A schema in words. -/
def describe (schema : Schema) : String :=
  "CompiledSchema(name=" ++ Text.quoted schema.name ++ ", root_kind=" ++ schema.root.describe ++ ")"

end Schema

/-- The dialect that every document declares. -/
def dialect : String := "https://json-schema.org/draft/2020-12/schema"

/-- A document: the dialect, the shared definitions, and the keywords of the root. -/
def assemble (definitions : List (String × Json)) (root : List (String × Json)) : Json :=
  .obj (("$schema", .str dialect) :: ("$defs", .obj definitions) :: root)

end ReflectedSchema
