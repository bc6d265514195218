import ReflectedSchema.Resolve
import ReflectedSchema.Schema.Compiled
import ReflectedSchema.Schema.Definitions

/-!
# Building schemas

A build walks the class graph from a root.  Every class, enumeration and value struct that it meets
becomes a shared definition and is referenced by name; a name that is already reserved is referenced
without being entered again, so each class is described once and cyclic graphs end.

Entering a class reserves the name of a class that was not reserved before, and the source has
finitely many classes.  So `openClass` counts down the classes that can still be entered, starting
from `Source.depth`, and the count never reaches zero before the classes do.

A build carries its definitions, its log records and the questions it asked the source; all three are
kept when the build fails.
-/

namespace ReflectedSchema

/-- A question to a source. -/
inductive Query where
  | properties (className : String)
  | members (path : String)
  deriving DecidableEq, Repr

/-- The state of a build. -/
structure Building where
  definitions : Definitions Entity Definition := .empty
  records : List LogRecord := []
  queries : List Query := []

/-- A step of a build. -/
abbrev Build (α : Type) := ExceptT Raised (StateM Building) α

namespace Build

/-- Log a record. -/
def log (r : LogRecord) : Build Unit :=
  modify fun b => { b with records := b.records ++ [r] }

/-- Note a question to the source. -/
def ask (q : Query) : Build Unit :=
  modify fun b => { b with queries := b.queries ++ [q] }

/-- The definitions so far. -/
def definitions : Build (Definitions Entity Definition) :=
  return (← get).definitions

/-- Change the definitions. -/
def define (f : Definitions Entity Definition → Definitions Entity Definition) : Build Unit :=
  modify fun b => { b with definitions := f b.definitions }

/-- Reserve a name, which must be free. -/
def reserve (name : String) (owner : Entity) : Build Unit := do
  match (← definitions).reserve? name owner with
  | some d => define fun _ => d
  | none => throw (.fault (.reservedDefinition name))

/-- A reference to a name. -/
def refer (name : String) : Build Node := do
  define (·.refer name)
  return .ref name

/-- Run a step and, if it raises, note the property that was being handled. -/
def within (owner property : String) (step : Build α) : Build α :=
  tryCatch step fun e => throw (e.annotate owner property)

end Build

open Build

/-- The node of a component of a value struct. -/
def componentNode : Kind → Node
  | .integer => .scalar .integer none
  | .struct tag => .ref tag.name
  | .array element length => .array (componentNode element) length
  | _ => .scalar .number none

/-- The definition of a value struct: its components, which refer to the structs inside it. -/
def StructTag.definition (tag : StructTag) : Definition :=
  .object (tag.layout.map fun (name, kind) => ⟨name, componentNode kind, none⟩)

/-- Define a value struct, unless it is present. -/
def defineStruct (tag : StructTag) : Build Unit := do
  if !(← definitions).contains tag.name then
    reserve tag.name (.struct tag)
    define (·.store tag.name (some tag.definition))

/-- The node of a value struct; the struct and those inside it become definitions. -/
def structNode (tag : StructTag) : Build Node := do
  if !(← definitions).contains tag.name then
    tag.nested.forM fun inner => do
      defineStruct inner
      define (·.refer inner.name)
    defineStruct tag
  refer tag.name

/-- The node of the items of a packed array. -/
def packedItems : PackedTag → Build Node
  | .float32 | .float64 => return .scalar .number none
  | .string => return .scalar .string none
  | .vector2 => structNode .vector2
  | .vector3 => structNode .vector3
  | .color => structNode .color
  | .vector4 => structNode .vector4
  | tag => return .scalar .integer tag.range

/-- The definition name of an enumeration: its own name, or its path if the name is that of another
definition, of a class or of a value struct. -/
def enumName (source : Source) (owner name : String) : Build String := do
  let path := enumPath owner name
  let taken := match (← definitions).owner? name with
    | some holder => holder ≠ .enum path
    | none => false
  if taken || source.hasClass name || StructTag.names.contains name then
    log ⟨.debug, .schemas,
      "Enum '" ++ path ++ "' clashes with an existing definition, using its qualified name"⟩
    return path
  else
    return name

/-- The definition name of an enumeration, which is defined unless it is present. -/
def defineEnum (source : Source) (owner name : String) (flags : Bool) : Build String := do
  let path := enumPath owner name
  match (← definitions).enumName? path with
  | some definitionName => return definitionName
  | none =>
    let definitionName ← enumName source owner name
    reserve definitionName (.enum path)
    ask (.members path)
    let members ← liftExcept (source.members owner name)
    if members.isEmpty then
      define (·.discard definitionName)
      throw (.unsupported (.emptyEnum path))
    let descriptor : EnumDescriptor := ⟨owner, name, members, flags⟩
    define fun d => (d.addEnum descriptor definitionName).store definitionName
      (some (.enumeration descriptor.memberNames))
    return definitionName
where
  /-- A result of the source as a step. -/
  liftExcept {α : Type} (e : Except Raised α) : Build α := ExceptT.mk (pure e)

/-- The node of a kind, where `enter` gives the node of a class. -/
def nodeOf (source : Source) (enter : String → Build Node) : Kind → Build Node
  | .boolean => return .scalar .boolean none
  | .integer => return .scalar .integer none
  | .number => return .scalar .number none
  | .string => return .scalar .string none
  | .dictionary => return .anyObject
  | .struct tag => structNode tag
  | .enum owner name flags => do
    let definitionName ← defineEnum source owner name flags
    let node ← refer definitionName
    -- a set of flags is the list of its member names
    return if flags then .array node none else node
  | .object className => enter className
  | .anyArray length => return .anyArray length
  | .array element length => return .array (← nodeOf source enter element) length
  | .packed tag => return .array (← packedItems tag) none

/-- The node of one property of a class. -/
def propertyNode (source : Source) (enter : String → Build Node) (className : String)
    (p : PropertyDescriptor) : Build NodeProperty := do
  let node ← within className p.name (nodeOf source enter p.kind)
  return ⟨p.name, node, p.description⟩

/-- Describe a reserved class and build its object node. -/
def classDefinition (source : Source) (enter : String → Build Node) (className : String) :
    Build Definition := do
  ask (.properties className)
  match describeClass source className with
  | .error e => throw e
  | .ok descriptor =>
    log descriptor.described
    define (·.addClass descriptor)
    return .object (← descriptor.properties.mapM (propertyNode source enter className))

/-- The node of a class, with a number of classes left to enter. -/
def openClass (source : Source) : (left : Nat) → String → Build Node
  | left, className => do
    let d ← definitions
    match d.owner? className with
    | some holder =>
      if holder ≠ .class className then throw (.unsupported (.clash className holder))
    | none => pure ()
    if d.contains className then
      refer className
    else
      match left with
      | 0 => throw (.fault .endlessReference)
      | left + 1 =>
        reserve className (.class className)
        let definition ← classDefinition source (openClass source left) className
        define (·.store className (some definition))
        refer className

/-- How many classes can be entered inside each other: every class once, and a name that is none. -/
def Source.depth (source : Source) : Nat :=
  source.classNames.length + 1

/-- The shared definitions as a part of a document. -/
def Definitions.toJson (d : Definitions Entity Definition) : List (String × Json) :=
  d.finished.map fun (name, definition) => (name, definition.toJson)

/-- Build the schema of a class under a name, which is that of the class when it is empty.  The root is
reserved like any class; it becomes a shared definition only if something refers to it. -/
def buildClass (source : Source) (className : String) (name : String) : Build Schema := do
  reserve className (.class className)
  let root ← classDefinition source (openClass source source.depth) className
  if (← definitions).isReferenced className then
    define (·.store className (some root))
  else
    define (·.discard className)
  let d ← definitions
  let shared := d.toJson
  log ⟨.debug, .schemas, "Built schema for class '" ++ className ++ "' with " ++
    toString shared.length ++ " definitions"⟩
  let schema : Schema :=
    { name := if name.isEmpty then className else name
      document := assemble shared root.fields, root := .object className
      classes := d.classes.map (·.2), enums := d.enums.map (·.2) }
  ExceptT.mk (pure schema.checked)

/-- Build the schema of a bare kind under a name.  A kind whose node is no object stands under the
property `value`. -/
def buildKind (source : Source) (kind : Kind) (name : String) : Build Schema := do
  match kind with
  | .object className => buildClass source className className
  | .dictionary =>
    ExceptT.mk (pure (Schema.checked
      { name, document := assemble [] Node.anyObject.fields, root := .dictionary }))
  | kind =>
    let node ← within name "value" (nodeOf source (openClass source source.depth) kind)
    let d ← definitions
    let root : Definition := .object [⟨"value", node, none⟩]
    ExceptT.mk (pure (Schema.checked
      { name, document := assemble d.toJson root.fields, root := kind
        classes := d.classes.map (·.2), enums := d.enums.map (·.2), wrapped := true }))

/-- Build the schema of a bare type.  It has the name of the property, or else that of its kind. -/
def buildType (source : Source) (info : PropertyInfo) : Build Schema := do
  match resolve source.hasClass info with
  | .error u => throw (.unsupported u)
  | .ok kind => buildKind source kind (if info.name.isEmpty then kind.describe else info.name)

/-- What a schema says of an item when it is wrapped as an array: its document without dialect and
shared definitions or, under a wrapper, that of its property `value`. -/
def itemDocument (item : Schema) : Except Raised (List (String × Json) × Json) := do
  let fields := (item.document.obj?).getD []
  let shared := (Json.lookup "$defs" fields).bind Json.obj? |>.getD []
  let rest := Json.obj (Json.erase "$schema" (Json.erase "$defs" fields))
  if item.wrapped then
    match rest.field? "properties" with
    | none => throw (.fault (.missingField "properties"))
    | some properties =>
      match properties.field? "value" with
      | none => throw (.fault (.missingField "value"))
      | some value => return (shared, value)
  else
    return (shared, rest)

/-- Wrap a schema as that of an array of its values. -/
def arraySchema (item : Schema) (name : String) : Except Raised Schema := do
  let (shared, items) ← itemDocument item
  Schema.checked
    { name, document := assemble shared [("type", .str "array"), ("items", items)]
      root := .array item.root none, classes := item.classes, enums := item.enums }

/-- Run a build from the beginning. -/
def Build.run (build : Build α) : Except Raised α × List LogRecord :=
  let (result, state) := ExceptT.run build |>.run {}
  (result, state.records)

end ReflectedSchema
