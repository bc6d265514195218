import ReflectedSchema.Kind.Tag

/-!
# Property kinds

A kind says what values a property takes; it is decided once per property, and building a schema and
decoding a value both go by it.  A value struct has a fixed layout of components, whose kinds are
scalars, other structs, and arrays of structs of a fixed length.  A packed array has a fixed kind of
item.
-/

namespace ReflectedSchema

/-- The kind of a property. -/
inductive Kind where
  | boolean
  | integer
  | number
  | string
  | dictionary
  | struct (tag : StructTag)
  /-- An enumeration declared in a class; a set of its members when `flags` is set. -/
  | enum (owner name : String) (flags : Bool)
  | object (className : String)
  /-- An array of any items. -/
  | anyArray (length : Option Int)
  | array (element : Kind) (length : Option Int)
  | packed (tag : PackedTag)
  deriving DecidableEq, Repr, Inhabited

/-- The name of an enumeration together with its owner. -/
def enumPath (owner name : String) : String := owner ++ "." ++ name

namespace StructTag

/-- The components of a value struct, in order. -/
def layout : StructTag → List (String × Kind)
  | .vector2 => [("x", .number), ("y", .number)]
  | .vector2i => [("x", .integer), ("y", .integer)]
  | .vector3 => [("x", .number), ("y", .number), ("z", .number)]
  | .vector3i => [("x", .integer), ("y", .integer), ("z", .integer)]
  | .vector4 => [("x", .number), ("y", .number), ("z", .number), ("w", .number)]
  | .vector4i => [("x", .integer), ("y", .integer), ("z", .integer), ("w", .integer)]
  | .quaternion => [("x", .number), ("y", .number), ("z", .number), ("w", .number)]
  | .color => [("r", .number), ("g", .number), ("b", .number), ("a", .number)]
  | .rect2 => [("position", .struct .vector2), ("size", .struct .vector2)]
  | .rect2i => [("position", .struct .vector2i), ("size", .struct .vector2i)]
  | .aabb => [("position", .struct .vector3), ("size", .struct .vector3)]
  | .plane => [("normal", .struct .vector3), ("d", .number)]
  | .transform2d => [("x", .struct .vector2), ("y", .struct .vector2), ("origin", .struct .vector2)]
  | .basis => [("rows", .array (.struct .vector3) (some 3))]
  | .projection => [("columns", .array (.struct .vector4) (some 4))]
  | .transform3d => [("basis", .struct .basis), ("origin", .struct .vector3)]

/-- The value structs inside a value struct, at any depth. -/
def nested : StructTag → List StructTag
  | .rect2 | .transform2d => [.vector2]
  | .rect2i => [.vector2i]
  | .aabb | .plane | .basis => [.vector3]
  | .projection => [.vector4]
  | .transform3d => [.basis, .vector3]
  | _ => []

end StructTag

namespace PackedTag

/-- The kind of the items of a packed array. -/
def element : PackedTag → Kind
  | .byte | .int32 | .int64 => .integer
  | .float32 | .float64 => .number
  | .string => .string
  | .vector2 => .struct .vector2
  | .vector3 => .struct .vector3
  | .color => .struct .color
  | .vector4 => .struct .vector4

end PackedTag

namespace Kind

/-- The word for the sort of a kind. -/
def tag : Kind → String
  | .boolean => "bool"
  | .integer => "integer"
  | .number => "float"
  | .string => "string"
  | .struct _ => "struct"
  | .enum .. => "enum"
  | .object _ => "object"
  | .dictionary => "dictionary"
  | .anyArray _ | .array .. | .packed _ => "array"

/-- A length behind the name of an array. -/
def lengthSuffix : Option Int → String
  | some n => "[" ++ toString n ++ "]"
  | none => ""

/-- The name of a kind in messages. -/
def describe : Kind → String
  | .object className => "Object<" ++ className ++ ">"
  | .enum owner name flags => (if flags then "Flags<" else "Enum<") ++ enumPath owner name ++ ">"
  | .struct t => t.name
  | .packed t => t.name
  | .anyArray length => "Array" ++ lengthSuffix length
  | .array element length => "Array<" ++ element.describe ++ ">" ++ lengthSuffix length
  | k => k.tag

/-- The kind of the items of an array that has one. -/
def element? : Kind → Option Kind
  | .array element _ => some element
  | .packed t => some t.element
  | _ => none

/-- The fixed length of an array that has one. -/
def length? : Kind → Option Int
  | .anyArray length | .array _ length => length
  | _ => none

/-- The kind of an array with an element kind or without one. -/
def arrayOf (element : Option Kind) (length : Option Int) : Kind :=
  match element with
  | some k => .array k length
  | none => .anyArray length

end Kind

end ReflectedSchema
