import ReflectedSchema.Kind.Descriptor
import ReflectedSchema.Json.Basic

/-!
# Schema nodes

A property is described by a `Node`: a scalar, an array, any object, or a reference to a shared
definition.  A definition is an object, all of whose declared properties are required and which has no
others, or the member names of an enumeration.  Objects and enumerations never stand inside a node,
so a node is small whatever the class graph looks like.
-/

namespace ReflectedSchema

/-- The types of scalar nodes. -/
inductive ScalarType where
  | boolean | integer | number | string
  deriving DecidableEq, Repr, Inhabited

/-- The name of a scalar type in a document. -/
def ScalarType.text : ScalarType → String
  | .boolean => "boolean"
  | .integer => "integer"
  | .number => "number"
  | .string => "string"

/-- What stands for a property in a schema. -/
inductive Node where
  /-- A scalar, of integers possibly with a smallest and a largest value. -/
  | scalar (type : ScalarType) (range : Option (Int × Int))
  /-- An object with any fields. -/
  | anyObject
  /-- An array of any items, of the given length if there is one. -/
  | anyArray (length : Option Int)
  | array (items : Node) (length : Option Int)
  /-- A reference to a shared definition. -/
  | ref (name : String)
  deriving DecidableEq, Repr, Inhabited

/-- A property of an object node. -/
structure NodeProperty where
  name : String
  node : Node
  description : Option String := none
  deriving DecidableEq, Repr, Inhabited

/-- A shared definition, or the root of a document. -/
inductive Definition where
  | object (properties : List NodeProperty)
  | enumeration (members : List String)
  deriving DecidableEq, Repr, Inhabited

/-- The reference text of a definition name. -/
def referenceTo (name : String) : String := "#/$defs/" ++ name

namespace Node

/-- The length of an array as two equal bounds. -/
def lengthFields : Option Int → List (String × Json)
  | some n => [("minItems", .int n), ("maxItems", .int n)]
  | none => []

/-- The range of an integer as two bounds. -/
def rangeFields : Option (Int × Int) → List (String × Json)
  | some (least, most) => [("minimum", .int least), ("maximum", .int most)]
  | none => []

/-- The keywords of a node. -/
def fields : Node → List (String × Json)
  | .scalar type range => ("type", .str type.text) :: rangeFields range
  | .anyObject => [("type", .str "object")]
  | .anyArray length => ("type", .str "array") :: lengthFields length
  | .array items length =>
    ("type", .str "array") :: ("items", .obj items.fields) :: lengthFields length
  | .ref name => [("$ref", .str (referenceTo name))]

/-- The document of a node. -/
def toJson (n : Node) : Json := .obj n.fields

/-- The name of the definition that a node references. -/
def target? : Node → Option String
  | .ref name => some name
  | .array items _ => items.target?
  | _ => none

end Node

/-- The document of a property: its node, with the description at the end. -/
def NodeProperty.toJson (p : NodeProperty) : Json :=
  .obj (p.node.fields ++ (p.description.map fun text => ("description", .str text)).toList)

namespace Definition

/-- The keywords of a definition. -/
def fields : Definition → List (String × Json)
  | .object properties =>
    [("type", .str "object"),
     ("properties", .obj (properties.map fun p => (p.name, p.toJson))),
     ("required", .arr (properties.map fun p => .str p.name)),
     ("additionalProperties", .bool false)]
  | .enumeration members =>
    [("type", .str "string"), ("enum", .arr (members.map .str))]

/-- The document of a definition. -/
def toJson (d : Definition) : Json := .obj d.fields

/-- The names of the definitions that a definition references. -/
def targets : Definition → List String
  | .object properties => properties.filterMap (·.node.target?)
  | .enumeration _ => []

end Definition

end ReflectedSchema
