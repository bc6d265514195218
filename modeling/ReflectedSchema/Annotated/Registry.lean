import ReflectedSchema.Annotated.Evaluate
import ReflectedSchema.Log
import ReflectedSchema.Source

/-!
# Registries of annotated classes

A registry gives classes of a program the names under which the library knows them.  The annotations of
a registered class are its reflected properties: those of its ancestors come first, an annotation that
is repeated keeps its place and takes its last type, and names that start with an underscore and
annotations of the class itself are left out.

The types are evaluated for all annotations first, those of every ancestor in the module of the ancestor; then
the classes are walked, but for those of the modules that every class builds on.  So the type of a name may
come from a class that is not walked.  The annotations of a class that is marked as having no types are not
evaluated at all.
-/

namespace ReflectedSchema.Annotated

namespace Program

/-- The scope of the annotations of a class. -/
def scope (p : Program) (number : Nat) (body : ClassBody) : Scope where
  program := p
  module := p.moduleOf (.declared number)
  own := body.attributes.map fun (name, a) => (name, a.form number name)

/-- Whether a class, or an ancestor of it, is marked as one whose annotations are no types. -/
def isUntyped (p : Program) (number : Nat) : Bool :=
  (p.attribute? number "__no_type_check__").isSome

/-- The annotated names of a class and of its ancestors with their types, in order. -/
def annotations (p : Program) (number : Nat) : Except Trouble (List (String × Form)) :=
  if p.isUntyped number then .ok []
  else
    (p.bodies number).reverse.foldlM (fun types (owner, body) =>
      body.annotations.foldlM (fun types (name, e) => do
        return Json.set name (← (p.scope owner body).typeOf e) types) types) []

end Program

/-- Whether a type marks an annotation of the class itself. -/
def Form.isClassWide : Form → Bool
  | .atom (.special "ClassVar") | .alias "ClassVar" _ => true
  | _ => false

/-- The modules whose classes have no properties of their own. -/
def skippedModules : List String := ["builtins", "typing", "abc"]

namespace Program

/-- The names that a class or an ancestor annotates itself, in order. -/
def ownNames (p : Program) : Ancestor → List String
  | .declared number => ((p.classBody? number).map (·.annotations.map (·.1))).getD []
  | .dictionary | .list => []

/-- The names that are annotated on the way from the farthest ancestor down to the class. -/
def walk (p : Program) (number : Nat) : List String :=
  ((p.ancestors number).reverse.filter fun a => !skippedModules.contains (p.moduleOf a)).flatMap p.ownNames

end Program

/-- List a name with its type, unless it is private, listed already, or an annotation of the class itself.  A
name whose type was not evaluated is listed as if it had been annotated with the absent value. -/
def reflect (types listed : List (String × Form)) (name : String) : List (String × Form) :=
  let type := (Json.lookup name types).getD (.atom .none)
  if name.toList.head? = some '_' || listed.any (·.1 = name) || type.isClassWide then listed
  else listed ++ [(name, type)]

/-- Annotated classes under the names by which they are known. -/
structure Registry where
  program : Program
  /-- The class of each name. -/
  classes : List (String × Nat) := []
  /-- The name of each class; the last one counts. -/
  names : List (Nat × String) := []
  deriving Inhabited

namespace Registry

/-- Register a class, under its own name if it is given none.  The names of the value structs are not
available. -/
def register (r : Registry) (number : Nat) (name : Option String) :
    Except Fault (Registry × List LogRecord) :=
  let own := ((r.program.type? number).map (·.name)).getD ""
  let name := match name with
    | none | some "" => own
    | some name => name
  if StructTag.names.contains name then .error (.reservedName name)
  else
    let registered : LogRecord := ⟨.debug, .registry, "Registered class '" ++ name ++ "'"⟩
    let (names, records) :=
      match Json.lookup name r.classes with
      | some previous =>
        if previous = number then (r.names, [registered])
        else
          let replaced := ((r.program.type? previous).map (·.qualifiedName)).getD ""
          (Json.erase previous r.names, [
            ⟨.info, .registry, "Re-registering class name '" ++ name ++ "'; replacing " ++ replaced⟩,
            registered])
      | none => (r.names, [registered])
    .ok ({ r with
      classes := Json.set name number r.classes
      names := Json.set number name names }, records)

/-- The name of a class. -/
def name? (r : Registry) (number : Nat) : Option String :=
  Json.lookup number r.names

/-- The class with a name. -/
def class? (r : Registry) (name : String) : Except Raised Nat :=
  match Json.lookup name r.classes with
  | some number => .ok number
  | none => .error (.ofCause (.unknownClass name none))

/-- The annotated properties of a class with their types. -/
def annotatedProperties (r : Registry) (number : Nat) : Except Raised (List (String × Form)) :=
  let name := (r.name? number).getD (((r.program.type? number).map (·.name)).getD "")
  match r.program.annotations number with
  | .ok types => .ok ((r.program.walk number).foldl (reflect types) [])
  | .error (.undefined word) =>
    .error (.unsupported (.annotations name ("name '" ++ word ++ "' is not defined")))
  | .error (.misused misuse) => .error (.unsupported (.annotations name misuse.message))
  | .error (.missingAttribute holder word) => .error (.fault (.missingAttribute holder word))
  | .error (.missingMember shown) => .error (.fault (.raised (.builtIn "KeyError") shown))

/-- The path of an enumeration: its name behind that of the class around it, which is known by its module and
its qualified name and stands under its registered name if it has one.  An enumeration outside of all classes
has no path but its name. -/
def enumPath (r : Registry) (d : Declared) : String :=
  let outer := String.ofList (d.qualifiedName.toList.take (d.qualifiedName.length - d.name.length - 1))
  if outer.isEmpty then d.name
  else
    let owner := r.names.find? fun (number, _) =>
      (r.program.type? number).map (·.place) = some (d.module, outer)
    ReflectedSchema.enumPath ((owner.map (·.2)).getD outer) d.name

/-- The tags of the types without parts. -/
def scalar? : Form → Option TypeTag
  | .atom (.builtin "bool") => some .bool
  | .atom (.builtin "int") => some .int
  | .atom (.builtin "float") => some .float
  | .atom (.builtin "str") => some .string
  | .atom (.builtin "dict") | .generic "dict" _ | .alias "Dict" _ | .atom (.container "Dict") =>
    some .dictionary
  | .atom (.builtin "bytes") => some (.packed .byte)
  | .atom .rid => some .rid
  | .atom (.builtin "list") | .atom (.container "List") | .generic "list" [] | .alias "List" [] => some .array
  | .atom (.struct tag) => some (.struct tag)
  | _ => none

/-- What an enumeration type stands for: whether its values are sets of flags, and its path. -/
def enumType? (r : Registry) : Form → Option (Bool × String)
  | .atom (.enumBase "IntFlag") => some (true, "IntFlag")
  | .atom (.enumBase "IntEnum") => some (false, "IntEnum")
  | .atom (.declared number) =>
    match r.program.type? number with
    | some d =>
      match d.body with
      | .enum .flags _ => some (true, r.enumPath d)
      | .enum .int _ => some (false, r.enumPath d)
      | _ => none
    | none => none
  | _ => none

/-- The registered name of a class type. -/
def className? (r : Registry) : Form → Option String
  | .atom (.declared number) => r.name? number
  | _ => none

/-- The hint text of the items of a list. -/
def elementHint (r : Registry) (element : Form) : String :=
  let element := element.withoutMetadata.1
  match element, scalar? element with
  | _, some .bool => "bool"
  | _, some .int | _, some .rid => "int"
  | _, some .float => "float"
  | _, some .string => "String"
  | _, some .dictionary => "Dictionary"
  | _, some .array | .generic "list" _, _ | .alias "List" _, _ => "Array"
  | _, some (.packed tag) => tag.name
  | _, some (.struct tag) => tag.name
  | form, _ =>
    match r.className? form, r.enumType? form with
    | some name, _ => name
    | none, some (_, path) => path
    | none, none => form.typeName r.program

/-- The reflected property of an annotation; a type that has no tag is reported as `nil`. -/
def propertyInfo (r : Registry) (name : String) (type : Form) : PropertyInfo :=
  let (type, description) := type.withoutMetadata
  match scalar? type, type with
  | some tag, _ => { name, type := tag, description }
  | none, .generic "list" (element :: _) | none, .alias "List" (element :: _) =>
    { name, type := .array, hint := .arrayType, hintText := r.elementHint element, description }
  | none, form =>
    match r.className? form, r.enumType? form with
    | some className, _ => { name, type := .object, className, description }
    | none, some (flags, path) =>
      { name, type := .int, className := path,
        usage := if flags then .classIsBitfield else .classIsEnum, description }
    | none, none => { name, type := .nil, className := form.typeName r.program, description }

/-- The reflected properties of the class with a name. -/
def properties (r : Registry) (name : String) : Except Raised (List PropertyInfo) := do
  let types ← r.annotatedProperties (← r.class? name)
  return types.map fun (property, type) => r.propertyInfo property type

/-- The listed members of an enumeration: of several with one value the first, and of flags those of a
single bit. -/
def listedMembers (base : EnumBase) (members : List (String × Int)) : List (String × Int) :=
  let first := members.foldl (fun kept (name, value) =>
    if kept.any (·.2 = value) then kept else kept ++ [(name, value)]) []
  match base with
  | .flags => first.filter fun (_, value) => 0 < value && Nat.pow 2 value.toNat.log2 = value.toNat
  | _ => first

/-- The members of an enumeration that a class has as an attribute. -/
def members (r : Registry) (owner name : String) : Except Raised (List (String × EnumValue)) := do
  let number ← r.class? owner
  match r.program.attribute? number name with
  | some (.type inner) =>
    match r.program.type? inner with
    | some { name := className, body := .enum base members, .. } =>
      match base with
      | .int => return (listedMembers .int members).map fun (n, v) => (n, .member className n v)
      | .flags => return (listedMembers .flags members).map fun (n, v) => (n, .flags className v)
      | .plain => throw (.unsupported (.notEnum (ReflectedSchema.enumPath owner name)))
    | _ => throw (.unsupported (.notEnum (ReflectedSchema.enumPath owner name)))
  | _ => throw (.unsupported (.notEnum (ReflectedSchema.enumPath owner name)))

/-- What a registry says of its classes. -/
def source (r : Registry) : Source where
  classNames := r.classes.map (·.1)
  properties := r.properties
  members := r.members

end Registry

end ReflectedSchema.Annotated
