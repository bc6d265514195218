import ReflectedSchema.Check
import ReflectedSchema.Host

/-!
# Decoding values

A JSON value is decoded by the kind that its schema gives it.  `Json.decode` goes down the value, so
each value is decoded with the decoders of what lies inside it.  An object is constructed only after
all its properties were decoded, and its properties are set right after that, so no object is ever
left half built.

A failure carries the properties around it, but no frame for an item of an array, a component of a
value struct or the wrapper of a bare kind.
-/

namespace ReflectedSchema

/-- Decodes a value as a kind, at a location. -/
abbrev Decoder (σ : Type) := Kind → Location → HostM σ HostValue

/-- Where decoding goes on: the host that makes objects, and the schema that describes them. -/
structure Decoding (σ : Type) where
  host : Host σ
  schema : Schema

namespace Decoding

variable {σ : Type}

/-- A violation at a location. -/
def violated {α : Type} (location : Location) (v : Violation) : HostM σ α :=
  throw (.violation location v)

/-- Decode the items of an array from an index on. -/
def itemsFrom (kind : Kind) (location : Location) : (index : Nat) → List (Decoder σ) →
    HostM σ (List HostValue)
  | _, [] => return []
  | index, item :: rest => do
    let first ← item kind (location ++ [.index index])
    return first :: (← itemsFrom kind location (index + 1) rest)

/-- Check the items of a packed array against its range, from an index on. -/
def rangeFrom (tag : PackedTag) (least most : Int) (location : Location) : (index : Nat) →
    List HostValue → HostM σ Unit
  | _, [] => return ()
  | index, item :: rest => do
    match item.int? with
    | some n =>
      if n < least ∨ most < n then
        violated (location ++ [.index index]) (.itemRange n tag least most)
    | none => pure ()
    rangeFrom tag least most location (index + 1) rest

/-- The value of a member name. -/
def memberValue (e : EnumDescriptor) (value : Json) (location : Location) : HostM σ EnumValue :=
  match value.str?.bind e.lookup with
  | some v => return v
  | none => violated location (.unknownMember e.name value e.memberNames)

/-- The union of the values of member names, from an index on. -/
def unionFrom (e : EnumDescriptor) (location : Location) : (index : Nat) → EnumValue → List Json →
    HostM σ EnumValue
  | _, union, [] => return union
  | index, union, name :: rest => do
    let value ← memberValue e name (location ++ [.index index])
    unionFrom e location (index + 1) (union.union value) rest

/-- The value that the empty set of flags has, by the first member of the enumeration. -/
def noFlags (e : EnumDescriptor) : HostM σ EnumValue :=
  match e.members with
  | (_, v) :: _ => return v.empty
  | [] => throw (.fault .outOfRange)

/-- Decode a member name, or a list of member names as a set of flags. -/
def enumValue (d : Decoding σ) (owner name : String) (flags : Bool) (value : Json)
    (location : Location) : HostM σ HostValue := do
  match d.schema.enum? (enumPath owner name) with
  | none => throw (.ofCause (.schemaNotFound (enumPath owner name)))
  | some e =>
    if flags then
      match value with
      | .arr names => return .enum (← unionFrom e location 0 (← noFlags e) names)
      | _ => violated location (.expected "array of flag names" value)
    else
      return .enum (← memberValue e value location)

/-- Decode the components of a value struct, in the order of its layout. -/
def components (children : List (String × Decoder σ)) (location : Location) :
    List (String × Kind) → HostM σ (List (String × HostValue))
  | [] => return []
  | (name, kind) :: rest => do
    match Json.lookup name children with
    | none => violated (location ++ [.key name]) (.missing name)
    | some child =>
      let value ← child kind (location ++ [.key name])
      return (name, value) :: (← components children location rest)

/-- Decode the properties of an object, in the order of their declaration. -/
def properties (className : String) (children : List (String × Decoder σ)) (location : Location) :
    List PropertyDescriptor → HostM σ (List (String × HostValue))
  | [] => return []
  | p :: rest => do
    let value ← HostM.within className p.name <|
      match Json.lookup p.name children with
      | none => violated (location ++ [.key p.name]) (.missing p.name)
      | some child => child p.kind (location ++ [.key p.name])
    return (p.name, value) :: (← properties className children location rest)

/-- Set properties of an object, one after the other. -/
def assign (host : Host σ) (className : String) (object : HostValue) :
    List (String × HostValue) → HostM σ HostValue
  | [] => return object
  | (property, value) :: rest => do
    let object ← HostM.within className property (host.setProperty object property value)
    assign host className object rest

/-- Construct an object and set all its properties. -/
def build (host : Host σ) (className : String) (values : List (String × HostValue)) :
    HostM σ HostValue := do
  assign host className (← host.construct className) values

/-- Decode an object of a class. -/
def object (d : Decoding σ) (className : String) (value : Json) (inside : Inside (Decoder σ))
    (location : Location) : HostM σ HostValue := do
  match d.schema.class? className with
  | none => throw (.ofCause (.schemaNotFound className))
  | some c =>
    match inside with
    | .fields children =>
      match children.find? fun (name, _) => (c.property? name).isNone with
      | some (name, _) => throw (.ofCause (.unknownProperty className name))
      | none => build d.host className (← properties className children location c.properties)
    | _ => violated location (.expected ("object '" ++ className ++ "'") value)

/-- Refuse an array that has not the fixed length. -/
def checkLength (length : Option Int) (count : Nat) (location : Location) : HostM σ Unit :=
  match length with
  | some n => if (count : Int) = n then return () else violated location (.itemCount n count)
  | none => return ()

/-- Decode a value, given the decoders of what lies inside it. -/
def visit (d : Decoding σ) (value : Json) (inside : Inside (Decoder σ)) : Decoder σ
  | .boolean, location =>
    match value with
    | .bool b => return .data (.bool b)
    | _ => violated location (.expected "boolean" value)
  | .integer, location =>
    match value with
    | .int n => return .data (.int n)
    | .float x =>
      match x.toInt? with
      | some n => return .data (.int n)
      | none => violated location (.expected "integer" value)
    | _ => violated location (.expected "integer" value)
  | .number, location =>
    match value with
    | .int n =>
      match Binary64.ofInt? n with
      | some x => return .data (.float x)
      | none => throw (.fault .floatOverflow)
    | .float x => return .data (.float x)
    | _ => violated location (.expected "number" value)
  | .string, location =>
    match value with
    | .str s => return .data (.str s)
    | _ => violated location (.expected "string" value)
  | .dictionary, location =>
    match value with
    | .obj fields => return .data (.obj fields)
    | _ => violated location (.expected "object" value)
  | .anyArray length, location =>
    match value with
    | .arr items => do
      checkLength length items.length location
      return .data (.arr items)
    | _ => violated location (.expected "array" value)
  | .array element length, location =>
    match inside with
    | .items children => do
      checkLength length children.length location
      return .list (← itemsFrom element location 0 children)
    | _ => violated location (.expected "array" value)
  | .packed tag, location =>
    match inside with
    | .items children => do
      let items ← itemsFrom tag.element location 0 children
      match tag.range with
      | some (least, most) => rangeFrom tag least most location 0 items
      | none => pure ()
      d.host.constructPacked (.packed tag) items
    | _ => violated location (.expected "array" value)
  | .enum owner name flags, location => d.enumValue owner name flags value location
  | .struct tag, location =>
    match inside with
    | .fields children => do
      d.host.constructStruct (.struct tag) (← components children location tag.layout)
    | _ => violated location (.expected tag.name value)
  | .object className, location => d.object className value inside location

end Decoding

mutual

/-- Decode a value. -/
def Json.decode {σ : Type} (d : Decoding σ) : Json → Decoder σ
  | .arr items => d.visit (.arr items) (.items (decodeItems d items))
  | .obj fields => d.visit (.obj fields) (.fields (decodeFields d fields))
  | value => d.visit value .nothing

/-- The decoders of items. -/
def Json.decodeItems {σ : Type} (d : Decoding σ) : List Json → List (Decoder σ)
  | [] => []
  | item :: rest => item.decode d :: decodeItems d rest

/-- The decoders of fields. -/
def Json.decodeFields {σ : Type} (d : Decoding σ) :
    List (String × Json) → List (String × Decoder σ)
  | [] => []
  | (name, value) :: rest => (name, value.decode d) :: decodeFields d rest

end

namespace Schema

/-- Decode a value by the root kind of a schema, inside the wrapper if there is one. -/
def decode {σ : Type} (schema : Schema) (host : Host σ) (value : Json) : HostM σ HostValue :=
  if schema.wrapped then
    match value.field? "value" with
    | some inner => inner.decode ⟨host, schema⟩ schema.root [.key "value"]
    | none => throw (.violation [.key "value"] (.missing "value"))
  else value.decode ⟨host, schema⟩ schema.root []

end Schema

end ReflectedSchema
