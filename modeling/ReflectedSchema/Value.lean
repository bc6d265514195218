import ReflectedSchema.Failure
import ReflectedSchema.Kind.Descriptor

/-!
# Host values

What decoding produces: plain data as it was in JSON, lists, tuples and bytes, values of enumerations,
value structs with all their components, and objects of a host's classes.  An object of an annotated
class is an instance with attributes, whatever other sort of container its class derives from; an
object of a tabulated class is a record of what was set, in order.
-/

namespace ReflectedSchema

/-- What an instance is besides its attributes. -/
inductive Form where
  | plain | dictionary | list
  deriving DecidableEq, Repr, Inhabited

/-- A class of annotated instances: its number among the classes of its host, its name, and its form. -/
structure ClassId where
  number : Nat
  name : String
  form : Form := .plain
  deriving DecidableEq, Repr, Inhabited

/-- A value of a host. -/
inductive HostValue where
  /-- A scalar, or data that is kept as it is. -/
  | data (v : Json)
  | list (items : List HostValue)
  | tuple (items : List HostValue)
  | bytes (content : List UInt8)
  | enum (e : EnumValue)
  | struct (tag : StructTag) (components : List (String × HostValue))
  /-- An instance of an annotated class. -/
  | instance (of : ClassId) (attributes : List (String × HostValue))
  /-- An object of a tabulated class. -/
  | record (className : String) (properties : List (String × HostValue))
  deriving Inhabited, Repr

namespace HostValue

/-- The integer that a value is. -/
def int? : HostValue → Option Int
  | .data (.int n) => some n
  | .data (.bool b) => some (if b then 1 else 0)
  | .enum e => some e.toInt
  | _ => none

/-- The name of a value's type. -/
def typeName : HostValue → String
  | .data v => v.typeName
  | .list _ => "list"
  | .tuple _ => "tuple"
  | .bytes _ => "bytes"
  | .enum (.int _) => "int"
  | .enum (.member className ..) | .enum (.flags className _) => className
  | .struct tag _ => tag.name
  | .instance c _ => c.name
  | .record className _ => className

/-- A list as a tuple; any other value as it is. -/
def frozen : HostValue → HostValue
  | .list items => .tuple items
  | .data (.arr items) => .tuple (items.map .data)
  | v => v

/-- The bytes that a list of integers stands for. -/
def toBytes : List HostValue → Except Raised (List UInt8)
  | [] => .ok []
  | item :: rest =>
    match item.int? with
    | none => .error (.fault (.byteType item.typeName))
    | some n =>
      if 0 ≤ n ∧ n ≤ 255 then
        match toBytes rest with
        | .ok more => .ok (UInt8.ofNat n.toNat :: more)
        | .error e => .error e
      else .error (.fault .byteRange)

/-- A number given as a double. -/
def number (n : Int) : HostValue :=
  .data (.float ((Binary64.ofInt? n).getD .nan))

/-- A value struct of doubles. -/
def numbers (tag : StructTag) (values : List Int) : HostValue :=
  .struct tag ((tag.layout.zip values).map fun ((name, _), n) => (name, number n))

/-- The value of a struct's component that was not given. -/
def default (tag : StructTag) (component : String) : HostValue :=
  match tag, component with
  | .vector2i, _ | .vector3i, _ | .vector4i, _ => .data (.int 0)
  | .color, "a" | .quaternion, "w" => number 1
  | .rect2, _ => numbers .vector2 [0, 0]
  | .rect2i, _ => .struct .vector2i [("x", .data (.int 0)), ("y", .data (.int 0))]
  | .transform2d, "x" => numbers .vector2 [1, 0]
  | .transform2d, "y" => numbers .vector2 [0, 1]
  | .transform2d, _ => numbers .vector2 [0, 0]
  | .plane, "normal" | .aabb, _ | .transform3d, "origin" => numbers .vector3 [0, 0, 0]
  | .basis, _ => identityRows
  | .transform3d, _ => .struct .basis [("rows", identityRows)]
  | .projection, _ =>
    .tuple [numbers .vector4 [1, 0, 0, 0], numbers .vector4 [0, 1, 0, 0],
      numbers .vector4 [0, 0, 1, 0], numbers .vector4 [0, 0, 0, 1]]
  | _, _ => number 0
where
  /-- The rows of the identity. -/
  identityRows : HostValue :=
    .tuple [numbers .vector3 [1, 0, 0], numbers .vector3 [0, 1, 0], numbers .vector3 [0, 0, 1]]

/-- A value struct from some of its components: lists become tuples, a component that is not given has
its default, and there are no others. -/
def ofComponents (type : TypeTag) (components : List (String × HostValue)) : Except Raised HostValue :=
  match type with
  | .struct tag =>
    match components.find? fun (name, _) => (Json.lookup name tag.layout).isNone with
    | some (name, _) => .error (.fault (.unknownComponent tag name))
    | none => .ok <| .struct tag <| tag.layout.map fun (name, _) =>
      (name, match Json.lookup name components with
        | some value => value.frozen
        | none => default tag name)
  | type => .error (.unsupported (.notStruct type))

end HostValue

end ReflectedSchema
