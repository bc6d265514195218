import ReflectedSchema.Proofs.Decoding.Outcome

/-!
# Hosts that keep what they are given

A host value is known by what can be read of it, through a `HostView`.  A host keeps what it is given
when that can be read back, and none of the calls that decoding makes is refused.
-/

namespace ReflectedSchema

open HostM

/-- What can be read of the values of a host. -/
structure HostView where
  /-- The class of an object. -/
  class? : HostValue → Option String
  /-- What is stored in a property of an object. -/
  property? : (object : HostValue) → (property : String) → Option HostValue
  /-- What is stored in a component of a value struct. -/
  component? : (tag : StructTag) → (struct : HostValue) → (component : String) → Option HostValue
  /-- The items of a packed array. -/
  items? : (tag : PackedTag) → (array : HostValue) → Option (List HostValue)
  /-- A component in the form in which value structs store it. -/
  stored : HostValue → HostValue

/-- No class has two properties with one name, and no enumeration has two members with one name. -/
structure Source.Distinct (source : Source) : Prop where
  properties : ∀ className infos, source.properties className = .ok infos →
    (infos.map (·.name)).Nodup
  members : ∀ owner name members, source.members owner name = .ok members →
    (members.map (·.1)).Nodup

/-- A host keeps what it is given: a new object is of its class, a property that was set can be read
back and leaves the others alone, and so can the components of a value struct and the items of a packed
array.  Nothing that the source declares is refused. -/
structure Host.Keeps {σ : Type} (host : Host σ) (source : Source) (view : HostView) : Prop where
  construct : ∀ c, describeClass source c.name = .ok c →
    Ensures (fun object => view.class? object = some c.name) (fun _ => False) (host.construct c.name)
  setProperty : ∀ c, describeClass source c.name = .ok c → ∀ p ∈ c.properties, ∀ object value,
    view.class? object = some c.name →
      Ensures (fun after => view.class? after = some c.name ∧
          view.property? after p.name = some value ∧
          ∀ other, other ≠ p.name → view.property? after other = view.property? object other)
        (fun _ => False) (host.setProperty object p.name value)
  constructStruct : ∀ (tag : StructTag) (components : List (String × HostValue)),
    components.map (·.1) = tag.layout.map (·.1) →
      Ensures (fun struct => ∀ component ∈ components,
          view.component? tag struct component.1 = some (view.stored component.2))
        (fun _ => False) (host.constructStruct (.struct tag) components)
  constructPacked : ∀ (tag : PackedTag) (items : List HostValue), (∀ item ∈ items, tag.Takes item) →
    Ensures (fun array => view.items? tag array = some items) (fun _ => False)
      (host.constructPacked (.packed tag) items)

/-- A host stores what it is given as a property of an object of a class. -/
structure Host.Stores {σ : Type} (host : Host σ) (view : HostView) (className property : String) :
    Prop where
  construct : Ensures (fun object => view.class? object = some className) (fun _ => False)
    (host.construct className)
  setProperty : ∀ object value, view.class? object = some className →
    Ensures (fun after => view.class? after = some className ∧ view.property? after property = some value)
      (fun _ => False) (host.setProperty object property value)

/-- A host that keeps what it is given stores it as a declared property. -/
theorem Host.Keeps.stores {σ : Type} {host : Host σ} {source : Source} {view : HostView}
    (h : host.Keeps source view) {c : ClassDescriptor} (hc : describeClass source c.name = .ok c)
    {p : PropertyDescriptor} (hp : p ∈ c.properties) : host.Stores view c.name p.name where
  construct := h.construct c hc
  setProperty object value ho :=
    (h.setProperty c hc p hp object value ho).mono (fun _ after => ⟨after.1, after.2.1⟩) fun _ => id

/-- A host, none of whose calls fails. -/
def Host.Succeeds {σ : Type} (host : Host σ) (source : Source) : Prop :=
  ∃ isObject, host.Raises source isObject fun _ => False

/-- A host that keeps what it is given succeeds. -/
theorem Host.Keeps.succeeds {σ : Type} {host : Host σ} {source : Source} {view : HostView}
    (h : host.Keeps source view) : host.Succeeds source := by
  refine ⟨fun className object => view.class? object = some className, h.construct, ?_, ?_, ?_⟩
  · exact fun c hc p hp object value ho =>
      (h.setProperty c hc p hp object value ho).mono (fun _ after => after.1) fun _ => id
  · exact fun tag components names =>
      (h.constructStruct tag components names).mono (fun _ _ => trivial) fun _ => id
  · exact fun tag items takes =>
      (h.constructPacked tag items takes).mono (fun _ _ => trivial) fun _ => id

end ReflectedSchema
