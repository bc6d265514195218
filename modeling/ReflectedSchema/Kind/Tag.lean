/-!
# Type tags

Every reflected property carries a type tag.  Sixteen tags name value structs and ten name packed
arrays; the others are scalars, objects, containers, and `nil` for what has no type of its own.  Tags
have numeric codes, which are their positions in `TypeTag.all`.
-/

namespace ReflectedSchema

/-- The value structs. -/
inductive StructTag where
  | vector2 | vector2i | rect2 | rect2i | vector3 | vector3i | vector4 | vector4i | color
  | transform2d | plane | quaternion | aabb | basis | transform3d | projection
  deriving DecidableEq, Repr, Inhabited

/-- The packed arrays. -/
inductive PackedTag where
  | byte | int32 | int64 | float32 | float64 | string | vector2 | vector3 | color | vector4
  deriving DecidableEq, Repr, Inhabited

/-- The type of a reflected property. -/
inductive TypeTag where
  | nil | bool | int | float | string | object | dictionary | array | rid
  | struct (tag : StructTag)
  | packed (tag : PackedTag)
  deriving DecidableEq, Repr, Inhabited

namespace StructTag

/-- All value structs, in the order of their codes. -/
def all : List StructTag :=
  [.vector2, .vector2i, .rect2, .rect2i, .vector3, .vector3i, .vector4, .vector4i, .color,
   .transform2d, .plane, .quaternion, .aabb, .basis, .transform3d, .projection]

/-- The name of a value struct. -/
def name : StructTag → String
  | .vector2 => "Vector2"
  | .vector2i => "Vector2i"
  | .rect2 => "Rect2"
  | .rect2i => "Rect2i"
  | .vector3 => "Vector3"
  | .vector3i => "Vector3i"
  | .vector4 => "Vector4"
  | .vector4i => "Vector4i"
  | .color => "Color"
  | .transform2d => "Transform2D"
  | .plane => "Plane"
  | .quaternion => "Quaternion"
  | .aabb => "AABB"
  | .basis => "Basis"
  | .transform3d => "Transform3D"
  | .projection => "Projection"

/-- The value struct with a name. -/
def ofName? (n : String) : Option StructTag :=
  all.find? (·.name = n)

/-- The names that belong to the value structs. -/
def names : List String := all.map name

/-- The tag's own name. -/
def code : StructTag → String
  | .vector2 => "VECTOR2"
  | .vector2i => "VECTOR2I"
  | .rect2 => "RECT2"
  | .rect2i => "RECT2I"
  | .vector3 => "VECTOR3"
  | .vector3i => "VECTOR3I"
  | .vector4 => "VECTOR4"
  | .vector4i => "VECTOR4I"
  | .color => "COLOR"
  | .transform2d => "TRANSFORM2D"
  | .plane => "PLANE"
  | .quaternion => "QUATERNION"
  | .aabb => "AABB"
  | .basis => "BASIS"
  | .transform3d => "TRANSFORM3D"
  | .projection => "PROJECTION"

/-- There are no other structs. -/
theorem mem_all (t : StructTag) : t ∈ all := by cases t <;> decide

/-- Structs are told by their names. -/
theorem name_injective : ∀ s t : StructTag, s.name = t.name → s = t := by
  intro s t h; cases s <;> cases t <;> first | rfl | exact absurd h (by decide)

end StructTag

namespace PackedTag

/-- All packed arrays, in the order of their codes. -/
def all : List PackedTag :=
  [.byte, .int32, .int64, .float32, .float64, .string, .vector2, .vector3, .color, .vector4]

/-- The name of a packed array. -/
def name : PackedTag → String
  | .byte => "PackedByteArray"
  | .int32 => "PackedInt32Array"
  | .int64 => "PackedInt64Array"
  | .float32 => "PackedFloat32Array"
  | .float64 => "PackedFloat64Array"
  | .string => "PackedStringArray"
  | .vector2 => "PackedVector2Array"
  | .vector3 => "PackedVector3Array"
  | .color => "PackedColorArray"
  | .vector4 => "PackedVector4Array"

/-- The packed array with a name. -/
def ofName? (n : String) : Option PackedTag :=
  all.find? (·.name = n)

/-- The tag's own name. -/
def code : PackedTag → String
  | .byte => "PACKED_BYTE_ARRAY"
  | .int32 => "PACKED_INT32_ARRAY"
  | .int64 => "PACKED_INT64_ARRAY"
  | .float32 => "PACKED_FLOAT32_ARRAY"
  | .float64 => "PACKED_FLOAT64_ARRAY"
  | .string => "PACKED_STRING_ARRAY"
  | .vector2 => "PACKED_VECTOR2_ARRAY"
  | .vector3 => "PACKED_VECTOR3_ARRAY"
  | .color => "PACKED_COLOR_ARRAY"
  | .vector4 => "PACKED_VECTOR4_ARRAY"

/-- The smallest and the largest item of a packed array of integers. -/
def range : PackedTag → Option (Int × Int)
  | .byte => some (0, 255)
  | .int32 => some (-2147483648, 2147483647)
  | .int64 => some (-9223372036854775808, 9223372036854775807)
  | _ => none

/-- There are no other packed arrays. -/
theorem mem_all (t : PackedTag) : t ∈ all := by cases t <;> decide

end PackedTag

namespace TypeTag

/-- All tags, each at the position of its code. -/
def all : List TypeTag :=
  [.nil, .bool, .int, .float, .string, .struct .vector2, .struct .vector2i, .struct .rect2,
   .struct .rect2i, .struct .vector3, .struct .vector3i, .struct .vector4, .struct .vector4i,
   .struct .color, .object, .dictionary, .array, .struct .transform2d, .struct .plane,
   .struct .quaternion, .struct .aabb, .struct .basis, .struct .transform3d, .struct .projection,
   .rid, .packed .byte, .packed .int32, .packed .int64, .packed .float32, .packed .float64,
   .packed .string, .packed .vector2, .packed .vector3, .packed .color, .packed .vector4]

/-- The name of a tag. -/
def name : TypeTag → String
  | .nil => "NIL"
  | .bool => "BOOL"
  | .int => "INT"
  | .float => "FLOAT"
  | .string => "STRING"
  | .object => "OBJECT"
  | .dictionary => "DICTIONARY"
  | .array => "ARRAY"
  | .rid => "RID"
  | .struct tag => tag.code
  | .packed tag => tag.code

/-- The tag with a name. -/
def ofName? (n : String) : Option TypeTag :=
  all.find? (·.name = n)

/-- The code of a tag. -/
def toNat (t : TypeTag) : Nat :=
  all.idxOf t

/-- The tag with a code. -/
def ofInt? (code : Int) : Option TypeTag :=
  if 0 ≤ code then all[code.toNat]? else none

/-- A type tag is known by its number. -/
theorem ofInt?_toNat (t : TypeTag) : ofInt? t.toNat = some t := by
  cases t with
  | struct s => cases s <;> decide
  | packed p => cases p <;> decide
  | _ => decide

end TypeTag

end ReflectedSchema
