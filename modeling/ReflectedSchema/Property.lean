import ReflectedSchema.Kind.Tag
import ReflectedSchema.Text.Quoted

/-!
# Reflected properties

One entry of a class's property list as a host reports it: a type tag, and hints that refine it.
-/

namespace ReflectedSchema

/-- How the hint text of a property is meant. -/
inductive Hint where
  | none
  /-- The hint text names the element type of an array. -/
  | arrayType
  deriving DecidableEq, Repr, Inhabited

namespace Hint

/-- The name of a hint. -/
def name : Hint → String
  | .none => "NONE"
  | .arrayType => "ARRAY_TYPE"

/-- The hint with a code. -/
def ofInt? : Int → Option Hint
  | 0 => some .none
  | 1 => some .arrayType
  | _ => Option.none

end Hint

/-- The usage bits of a property.  The first says that its class name names an enumeration, the second
that it names a set of flags; further bits have no meaning here. -/
structure Usage where
  bits : Nat
  deriving DecidableEq, Repr, Inhabited

namespace Usage

/-- No bit set. -/
def none : Usage := ⟨0⟩

/-- The class name names an enumeration. -/
def classIsEnum : Usage := ⟨1⟩

/-- The class name names a set of flags. -/
def classIsBitfield : Usage := ⟨2⟩

/-- Whether the enumeration bit is set. -/
def hasEnum (u : Usage) : Bool := u.bits % 2 = 1

/-- Whether the flag bit is set. -/
def hasBitfield (u : Usage) : Bool := u.bits / 2 % 2 = 1

/-- The usage bits in words: the known bits by name, and the others as one number. -/
def describe (u : Usage) : String :=
  let rest := u.bits / 4 * 4
  let names := (if u.hasEnum then ["CLASS_IS_ENUM"] else []) ++
    (if u.hasBitfield then ["CLASS_IS_BITFIELD"] else [])
  let parts := names ++ (if rest = 0 || names.isEmpty then [] else [toString rest])
  if u.bits = 0 then "<PropertyUsage.NONE: 0>"
  else if names.isEmpty then "<PropertyUsage: " ++ toString u.bits ++ ">"
  else "<PropertyUsage." ++ "|".intercalate parts ++ ": " ++ toString u.bits ++ ">"

end Usage

/-- A reflected property. -/
structure PropertyInfo where
  name : String := ""
  type : TypeTag
  className : String := ""
  hint : Hint := .none
  hintText : String := ""
  usage : Usage := .none
  description : Option String := none
  deriving DecidableEq, Repr, Inhabited

/-- A property in words; its description is left out. -/
def PropertyInfo.describe (p : PropertyInfo) : String :=
  "PropertyInfo(name=" ++ Text.quoted p.name ++ ", type=" ++ p.type.name ++
    ", class_name=" ++ Text.quoted p.className ++ ", hint=" ++ p.hint.name ++
    ", hint_string=" ++ Text.quoted p.hintText ++ ", usage=" ++ p.usage.describe ++ ")"

end ReflectedSchema
