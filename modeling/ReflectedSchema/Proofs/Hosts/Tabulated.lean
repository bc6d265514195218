import ReflectedSchema.Proofs.Hosts.Keeping

/-!
# Tabulated hosts keep what they are given

A record of a tabulated host holds its properties in the order in which they were set, and the last one
of a name counts.  When no class of the table refuses anything, the host keeps what it is given.
-/

namespace ReflectedSchema

open HostM

/-- A result that needs no state is ensured as it is. -/
theorem HostM.Ensures.of_ok {σ α : Type} {P : α → Prop} {Q : Raised → Prop} {e : Except Raised α} {a : α}
    (he : e = .ok a) (h : P a) : Ensures (σ := σ) P Q (HostM.ofExcept e) :=
  he ▸ .of_pure h

namespace Table

/-- What can be read of the values of a tabulated host. -/
def view : HostView where
  class?
    | .record className _ => some className
    | _ => none
  property? object property :=
    match object with
    | .record _ properties => Json.lookup property properties.reverse
    | _ => none
  component? tag struct component :=
    match struct with
    | .struct other components => if other = tag then Json.lookup component components else none
    | _ => none
  items?
    | _, .list items => some items
    | _, _ => none
  stored := HostValue.frozen

/-- A table, none of whose classes refuses to be constructed or to be given a property. -/
def Willing (t : Table) : Prop :=
  ∀ c ∈ t.classes, c.2.constructError = none ∧ c.2.readOnly = [] ∧ c.2.forgotten = []

instance (t : Table) : Decidable t.Willing :=
  inferInstanceAs (Decidable (∀ c ∈ t.classes, _ ∧ _ ∧ _))

variable {t : Table}

/-- A described class is in the table, and it refuses nothing. -/
theorem Willing.class? (willing : t.Willing) {name : String} {c : ClassDescriptor}
    (h : describeClass t.source name = .ok c) :
    ∃ entry, t.class? name = .ok entry ∧
      entry.constructError = none ∧ entry.readOnly = [] ∧ entry.forgotten = [] := by
  obtain ⟨-, -, -, infos, hinfos, -⟩ := describeClass_eq_ok h
  obtain ⟨entry, hentry, -⟩ := bind_eq_ok.mp hinfos
  exact ⟨entry, hentry, willing _ (mem_of_class? hentry)⟩

/-- A willing table makes an empty record of a described class. -/
theorem construct_eq_ok (willing : t.Willing) {c : ClassDescriptor}
    (hc : describeClass t.source c.name = .ok c) : t.construct c.name = .ok (.record c.name []) := by
  obtain ⟨entry, hentry, constructError, -⟩ := willing.class? hc
  refine bind_eq_ok.mpr ⟨entry, hentry, ?_⟩
  rw [constructError]
  rfl

/-- A willing table adds the property to the record. -/
theorem setProperty_eq_ok (willing : t.Willing) {c : ClassDescriptor}
    (hc : describeClass t.source c.name = .ok c) (properties : List (String × HostValue))
    (property : String) (value : HostValue) :
    t.setProperty (.record c.name properties) property value =
      .ok (.record c.name (properties ++ [(property, value)])) := by
  obtain ⟨entry, hentry, -, readOnly, forgotten⟩ := willing.class? hc
  refine bind_eq_ok.mpr ⟨entry, hentry, ?_⟩
  rw [readOnly, forgotten]
  rfl

/-- No component is unknown to the value struct whose components are given. -/
theorem find_unknown_eq_none {tag : StructTag} {components : List (String × HostValue)}
    (names : components.map (·.1) = tag.layout.map (·.1)) :
    components.find? (fun (name, _) => (Json.lookup name tag.layout).isNone) = none := by
  rw [List.find?_eq_none]
  intro component hcomponent hnone
  have declared : component.1 ∈ tag.layout.map (·.1) := names ▸ List.mem_map_of_mem hcomponent
  exact (Json.lookup_eq_none_iff _ _).mp (Option.isNone_iff_eq_none.mp hnone) declared

/-- A value struct that is given all its components has them, frozen. -/
theorem ofComponents_eq_ok {tag : StructTag} {components : List (String × HostValue)}
    (names : components.map (·.1) = tag.layout.map (·.1)) :
    ∃ stored, HostValue.ofComponents (.struct tag) components = .ok (.struct tag stored) ∧
      ∀ component ∈ components, Json.lookup component.1 stored = some component.2.frozen := by
  unfold HostValue.ofComponents
  dsimp only
  split
  · rename_i hfind
    cases hfind.symm.trans (find_unknown_eq_none names)
  · refine ⟨_, rfl, fun component hcomponent => ?_⟩
    have given := (Json.lookup_eq_some_iff (names ▸ StructTag.distinct_layout tag)).mpr hcomponent
    have declared : component.1 ∈ tag.layout.map (·.1) := names ▸ List.mem_map_of_mem hcomponent
    obtain ⟨⟨name, kind⟩, hlayout, hname⟩ := List.mem_map.mp declared
    obtain rfl : name = component.1 := hname
    refine (Json.lookup_eq_some_iff ?_).mpr (List.mem_map.mpr ⟨_, hlayout, ?_⟩)
    · rw [List.map_map]
      exact StructTag.distinct_layout tag
    · simp only [given]

/-- A tabulated host keeps what it is given, if no class refuses anything. -/
theorem keeps (willing : t.Willing) : t.host.Keeps t.source view where
  construct c hc := .of_ok (construct_eq_ok willing hc) rfl
  setProperty c hc p hp object value hclass := by
    cases object with
    | record className properties =>
      obtain rfl := Option.some.inj hclass
      -- A property is appended, and looked up from the back.
      refine .of_ok (setProperty_eq_ok willing hc properties p.name value) ⟨rfl, ?_, fun other ho => ?_⟩
      · simp [view, Json.lookup]
      · simp [view, Json.lookup, Ne.symm ho]
    | _ => cases hclass
  constructStruct tag components names := by
    obtain ⟨stored, made, found⟩ := ofComponents_eq_ok names
    refine .of_ok made fun component hcomponent => ?_
    show (if tag = tag then Json.lookup component.1 stored else none) = _
    rw [if_pos rfl]
    exact found component hcomponent
  constructPacked tag items _ := .of_pure rfl

/-- The names that a source reads from a table are distinct if those in the table are. -/
theorem distinct (properties : ∀ c ∈ t.classes, (c.2.properties.map (·.name)).Nodup)
    (members : ∀ c ∈ t.classes, ∀ e ∈ c.2.enums, (e.2.map (·.1)).Nodup) : t.source.Distinct where
  properties className infos h := by
    obtain ⟨c, hc, hinfos⟩ := bind_eq_ok.mp h
    cases hinfos
    exact properties _ (mem_of_class? hc)
  members owner name found h := by
    obtain ⟨c, declared, hc, he, rfl⟩ := t.members_eq_ok h
    rw [List.map_map]
    exact members _ hc _ he

end Table

/-- No two classes or properties of the example people have the same name. -/
theorem distinct_people : people.source.Distinct :=
  Table.distinct (by decide) (by decide)

/-- The host of the example people keeps what it is given. -/
theorem keeps_people : people.host.Keeps people.source Table.view :=
  Table.keeps (by decide)

end ReflectedSchema
