import ReflectedSchema.Host
import ReflectedSchema.Json.Basic

/-!
# Tabulated hosts

A tabulated host is given as a table: for every class its properties, its enumerations, and what goes
wrong with its objects.  A ghost is a name that counts as a class without being in the table.  Objects
are records of the properties that were set, in order.
-/

namespace ReflectedSchema

/-- A class of a tabulated host. -/
structure TableClass where
  properties : List PropertyInfo := []
  enums : List (String × List (String × Int)) := []
  /-- Properties that refuse every value. -/
  readOnly : List String := []
  /-- Properties that objects do not know. -/
  forgotten : List String := []
  /-- Why the class cannot be constructed. -/
  constructError : Option String := none
  deriving Inhabited

/-- A tabulated host. -/
structure Table where
  classes : List (String × TableClass)
  ghosts : List String := []
  deriving Inhabited

namespace Table

/-- A class of the table. -/
def class? (t : Table) (name : String) : Except Raised TableClass :=
  match Json.lookup name t.classes with
  | some c => .ok c
  | none => .error (.ofCause (.unknownClass name none))

/-- What the table says of its classes. -/
def source (t : Table) : Source where
  classNames := t.classes.map (·.1) ++ t.ghosts
  properties name := do return (← t.class? name).properties
  members owner name := do
    let c ← t.class? owner
    match Json.lookup name c.enums with
    | some members => return members.map fun (n, v) => (n, .int v)
    | none => throw (.unsupported (.missingEnum (enumPath owner name)))

/-- An empty record of a class. -/
def construct (t : Table) (name : String) : Except Raised HostValue := do
  let c ← t.class? name
  match c.constructError with
  | some problem => throw (.ofCause (.construction name problem))
  | none => return .record name []

/-- A record with one more property. -/
def setProperty (t : Table) (object : HostValue) (property : String) (value : HostValue) :
    Except Raised HostValue := do
  match object with
  | .record name properties =>
    let c ← t.class? name
    if c.readOnly.contains property then throw (.ofCause (.assignment name property "read only"))
    if c.forgotten.contains property then throw (.ofCause (.unknownProperty name property))
    return .record name (properties ++ [(property, value)])
  | other => throw (.ofCause (.unknownClass other.typeName none))

/-- The objects of the table. -/
def host (t : Table) : PureHost where
  construct name := HostM.ofExcept (t.construct name)
  setProperty object property value := HostM.ofExcept (t.setProperty object property value)
  constructStruct type components := HostM.ofExcept (HostValue.ofComponents type components)
  constructPacked _ items := return .list items

end Table

end ReflectedSchema
