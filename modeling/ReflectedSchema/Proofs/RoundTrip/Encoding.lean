import ReflectedSchema.Proofs.Hosts.Keeping
import ReflectedSchema.Proofs.RoundTrip.Flags

/-!
# Host values and their JSON

`HostView.Encodes` relates the values of a kind, as a view reads them, to the JSON that stands for them,
and `HostView.Same` says that two values of a kind are equal, field by field.  A derivation of either
goes down the value, so the objects are finite trees whatever the classes are.
-/

namespace ReflectedSchema

/-- A kind whose values are kept as they are in JSON. -/
def Kind.isData : Kind → Bool
  | .boolean | .integer | .number | .string | .dictionary | .anyArray _ => true
  | _ => false

/-! ## The JSON of a value -/

namespace HostView

variable (view : HostView) (source : Source)

/-- A host value is of a kind, and a JSON value stands for it: an object has exactly the declared names,
a value of an enumeration is its member name, and a set of flags is the list of the members that it
contains. -/
inductive Encodes : Kind → HostValue → Json → Prop
  | boolean (b : Bool) : Encodes .boolean (.data (.bool b)) (.bool b)
  | integer (n : Int) : Encodes .integer (.data (.int n)) (.int n)
  | number (x : Binary64) : Encodes .number (.data (.float x)) (.float x)
  | string (text : String) : Encodes .string (.data (.str text)) (.str text)
  | dictionary (fields : List (String × Json)) : Encodes .dictionary (.data (.obj fields)) (.obj fields)
  | anyArray {length : Option Int} {items : List Json} (hl : HasLength length items) :
      Encodes (.anyArray length) (.data (.arr items)) (.arr items)
  | array {element : Kind} {length : Option Int} {xs : List HostValue} {items : List Json}
      (hl : HasLength length items) (same : xs.length = items.length)
      (h : ∀ pair ∈ xs.zip items, Encodes element pair.1 pair.2) :
      Encodes (.array element length) (.list xs) (.arr items)
  | packed {tag : PackedTag} {x : HostValue} {xs : List HostValue} {items : List Json}
      (hx : view.items? tag x = some xs) (same : xs.length = items.length)
      (h : ∀ pair ∈ xs.zip items, Encodes tag.element pair.1 pair.2)
      (hr : ∀ item ∈ items, tag.InRange item) : Encodes (.packed tag) x (.arr items)
  | enum {owner name text : String} {v : EnumValue} {members : List (String × EnumValue)}
      (hm : source.members owner name = .ok members) (hv : (text, v) ∈ members) :
      Encodes (.enum owner name false) (.enum v) (.str text)
  | flags {owner name : String} {v : EnumValue} {members : List (String × EnumValue)}
      (hm : source.members owner name = .ok members) (hv : IsUnionOf members v) :
      Encodes (.enum owner name true) (.enum v)
        (.arr ((containedMembers members v).map fun (name, _) => .str name))
  | struct {tag : StructTag} {x : HostValue} {fields : List (String × Json)}
      (component : String → HostValue)
      (hx : ∀ c ∈ tag.layout, view.component? tag x c.1 = some (view.stored (component c.1)))
      (keys : HasKeys (tag.layout.map (·.1)) fields)
      (h : ∀ c ∈ tag.layout, ∀ value, Json.lookup c.1 fields = some value →
        Encodes c.2 (component c.1) value) :
      Encodes (.struct tag) x (.obj fields)
  | object {c : ClassDescriptor} {x : HostValue} {fields : List (String × Json)}
      (property : String → HostValue) (hc : describeClass source c.name = .ok c)
      (hclass : view.class? x = some c.name)
      (hx : ∀ p ∈ c.properties, view.property? x p.name = some (property p.name))
      (keys : HasKeys c.propertyNames fields)
      (h : ∀ p ∈ c.properties, ∀ value, Json.lookup p.name fields = some value →
        Encodes p.kind (property p.name) value) :
      Encodes (.object c.name) x (.obj fields)

/-- A JSON value stands for a host value at the root of a schema, which may be wrapped. -/
def EncodesAtRoot (kind : Kind) (wrapped : Bool) (x : HostValue) (v : Json) : Prop :=
  if wrapped then ∃ inner, v = .obj [("value", inner)] ∧ view.Encodes source kind x inner
  else view.Encodes source kind x v

/-! ## Equal values -/

/-- Two values of a kind are equal, field by field; sets of flags are equal as integers. -/
inductive Same : Kind → HostValue → HostValue → Prop
  | data {kind : Kind} (hk : kind.isData = true) (v : Json) : Same kind (.data v) (.data v)
  | array {element : Kind} {length : Option Int} {xs ys : List HostValue}
      (same : xs.length = ys.length) (h : ∀ pair ∈ xs.zip ys, Same element pair.1 pair.2) :
      Same (.array element length) (.list xs) (.list ys)
  | packed {tag : PackedTag} {x y : HostValue} {xs ys : List HostValue}
      (hx : view.items? tag x = some xs) (hy : view.items? tag y = some ys)
      (same : xs.length = ys.length) (h : ∀ pair ∈ xs.zip ys, Same tag.element pair.1 pair.2) :
      Same (.packed tag) x y
  | enum (owner name : String) (v : EnumValue) : Same (.enum owner name false) (.enum v) (.enum v)
  | flags {owner name : String} {v w : EnumValue} (h : v.toInt = w.toInt) :
      Same (.enum owner name true) (.enum v) (.enum w)
  | struct {tag : StructTag} {x y : HostValue} (componentX componentY : String → HostValue)
      (hx : ∀ c ∈ tag.layout, view.component? tag x c.1 = some (view.stored (componentX c.1)))
      (hy : ∀ c ∈ tag.layout, view.component? tag y c.1 = some (view.stored (componentY c.1)))
      (h : ∀ c ∈ tag.layout, Same c.2 (componentX c.1) (componentY c.1)) : Same (.struct tag) x y
  | object {c : ClassDescriptor} {x y : HostValue} (propertyX propertyY : String → HostValue)
      (hc : describeClass source c.name = .ok c)
      (hclassX : view.class? x = some c.name) (hclassY : view.class? y = some c.name)
      (hx : ∀ p ∈ c.properties, view.property? x p.name = some (propertyX p.name))
      (hy : ∀ p ∈ c.properties, view.property? y p.name = some (propertyY p.name))
      (h : ∀ p ∈ c.properties, Same p.kind (propertyX p.name) (propertyY p.name)) :
      Same (.object c.name) x y

end HostView

end ReflectedSchema
