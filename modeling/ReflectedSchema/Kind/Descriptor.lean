import ReflectedSchema.Kind.Basic

/-!
# Descriptors

A class descriptor lists the kinds of the properties of a class, an enumeration descriptor its
members.  The value of a member is an integer, which a host may dress as a named member or as a value
of a flag class.
-/

namespace ReflectedSchema

/-- The value of an enumeration member, or a union of such values. -/
inductive EnumValue where
  | int (n : Int)
  /-- A member that a host shows by the name of its class and its own. -/
  | member (className memberName : String) (n : Int)
  /-- A value of a flag class. -/
  | flags (className : String) (n : Int)
  deriving DecidableEq, Repr, Inhabited

namespace EnumValue

/-- The integer behind a value. -/
def toInt : EnumValue → Int
  | .int n | .member _ _ n | .flags _ n => n

/-- The union of no values, of the same sort as a given value: a flag class has an empty value of its
own, and otherwise it is zero. -/
def empty : EnumValue → EnumValue
  | .flags className _ => .flags className 0
  | _ => .int 0

/-- The bitwise union of two integers in two's complement. -/
def orInt : Int → Int → Int
  | .ofNat m, .ofNat n => .ofNat (m ||| n)
  | .ofNat m, .negSucc n => .negSucc (n - (m &&& n))
  | .negSucc m, .ofNat n => .negSucc (m - (m &&& n))
  | .negSucc m, .negSucc n => .negSucc (m &&& n)

/-- The union of two values, which stays in a flag class if either is of one. -/
def union : EnumValue → EnumValue → EnumValue
  | .flags className m, v => .flags className (orInt m v.toInt)
  | v, .flags className n => .flags className (orInt v.toInt n)
  | v, w => .int (orInt v.toInt w.toInt)

/-- A union stands for the bits of both. -/
@[simp] theorem toInt_union (v w : EnumValue) : (v.union w).toInt = orInt v.toInt w.toInt := by
  cases v <;> cases w <;> rfl

/-- The empty set stands for zero. -/
@[simp] theorem toInt_empty (v : EnumValue) : v.empty.toInt = 0 := by
  cases v <;> rfl

end EnumValue

/-- A property of a class. -/
structure PropertyDescriptor where
  name : String
  kind : Kind
  description : Option String := none
  deriving DecidableEq, Repr, Inhabited

/-- The properties of a class, in order. -/
structure ClassDescriptor where
  name : String
  properties : List PropertyDescriptor := []
  deriving DecidableEq, Repr, Inhabited

namespace ClassDescriptor

/-- The property with a name. -/
def property? (c : ClassDescriptor) (name : String) : Option PropertyDescriptor :=
  c.properties.find? (·.name = name)

/-- The names of the properties, in order. -/
def propertyNames (c : ClassDescriptor) : List String :=
  c.properties.map (·.name)

end ClassDescriptor

/-- The members of an enumeration, in order. -/
structure EnumDescriptor where
  owner : String
  name : String
  members : List (String × EnumValue) := []
  flags : Bool := false
  deriving DecidableEq, Repr, Inhabited

namespace EnumDescriptor

/-- The name of the enumeration together with its owner. -/
def path (e : EnumDescriptor) : String := enumPath e.owner e.name

/-- The names of the members, in order. -/
def memberNames (e : EnumDescriptor) : List String :=
  e.members.map (·.1)

/-- The value of the first member with a name. -/
def lookup (e : EnumDescriptor) (name : String) : Option EnumValue :=
  (e.members.find? (·.1 = name)).map (·.2)

end EnumDescriptor

end ReflectedSchema
