import ReflectedSchema.Proofs.Hosts.Tabulated
import ReflectedSchema.Proofs.Registries.Names

/-!
# What hosts make

Decoding leaves it to a host how an object holds its properties and how a packed array holds its items.
`HostForms` says what these look like on a host, and `Host.Makes` that its calls give such values,
whenever they give any.  A value struct looks alike on every host: it holds its components, frozen, and
no default is left.
-/

namespace ReflectedSchema

open HostM

/-- What the values of a host look like that it makes itself. -/
structure HostForms where
  /-- An object of a class whose properties were set, each once and in order. -/
  Object : (className : String) → (properties : List (String × HostValue)) → HostValue → Prop
  /-- A packed array of items. -/
  Packed : (tag : PackedTag) → (items : List HostValue) → HostValue → Prop

/-- A value struct whose components were all given. -/
def StructTag.made (tag : StructTag) (component : String → HostValue) : HostValue :=
  .struct tag (tag.layout.map fun c => (c.1, (component c.1).frozen))

/-- What a host makes looks as it should, unless it makes nothing. -/
structure Host.Makes {σ : Type} (host : Host σ) (forms : HostForms) : Prop where
  construct : ∀ className,
    Ensures (forms.Object className []) (fun _ => True) (host.construct className)
  setProperty : ∀ className properties object property value,
    forms.Object className properties object → property ∉ properties.map (·.1) →
      Ensures (forms.Object className (properties ++ [(property, value)])) (fun _ => True)
        (host.setProperty object property value)
  constructStruct : ∀ (tag : StructTag) (component : String → HostValue),
    Ensures (fun x => x = tag.made component) (fun _ => True)
      (host.constructStruct (.struct tag) (tag.layout.map fun c => (c.1, component c.1)))
  constructPacked : ∀ (tag : PackedTag) (items : List HostValue), (∀ item ∈ items, tag.Takes item) →
    Ensures (forms.Packed tag items) (fun _ => True) (host.constructPacked (.packed tag) items)

/-- A value struct of all its components has them, frozen, whatever its defaults are. -/
theorem HostValue.ofComponents_layout (tag : StructTag) (component : String → HostValue) :
    ofComponents (.struct tag) (tag.layout.map fun c => (c.1, component c.1)) =
      .ok (tag.made component) := by
  have names : (tag.layout.map fun c => (c.1, component c.1)).map (·.1) = tag.layout.map (·.1) := by
    rw [List.map_map]
    rfl
  have given : ∀ c ∈ tag.layout,
      Json.lookup c.1 (tag.layout.map fun c => (c.1, component c.1)) = some (component c.1) :=
    fun c hc => (Json.lookup_eq_some_iff (names ▸ StructTag.distinct_layout tag)).mpr
      (List.mem_map.mpr ⟨c, hc, rfl⟩)
  unfold ofComponents
  dsimp only
  rw [Table.find_unknown_eq_none names]
  refine congrArg (fun components => Except.ok (HostValue.struct tag components)) ?_
  refine List.map_congr_left fun c hc => ?_
  rw [given c hc]

/-- A struct is made of components that stand under all the names of its layout. -/
theorem Host.Makes.of_components {σ : Type} (tag : StructTag) (component : String → HostValue) :
    Ensures (σ := σ) (fun x => x = tag.made component) (fun _ => True)
      (HostM.ofExcept (HostValue.ofComponents (.struct tag)
        (tag.layout.map fun c => (c.1, component c.1)))) :=
  .of_ok (HostValue.ofComponents_layout tag component) rfl

/-! ## Records of tabulated hosts -/

namespace Table

/-- An object is a record of what was set, and a packed array a list. -/
def forms : HostForms where
  Object className properties x := x = .record className properties
  Packed _ items x := x = .list items

/-- The host of a table makes values of its forms. -/
theorem makes (t : Table) : t.host.Makes forms where
  construct className := .of_except fun object h => by
    obtain ⟨entry, -, h⟩ := bind_eq_ok.mp h
    split at h
    · cases h
    · exact (Except.ok.inj h).symm
  setProperty className properties object property value ho _ := .of_except fun after h => by
    obtain rfl := ho
    obtain ⟨entry, -, h⟩ := bind_eq_ok.mp h
    dsimp only at h
    split at h
    · cases h
    · split at h
      · cases h
      · exact (Except.ok.inj h).symm
  constructStruct := Host.Makes.of_components
  constructPacked tag items _ := .of_pure rfl

end Table

/-! ## Instances of registered classes -/

namespace Annotated.Registry

/-- An object is an instance of the class with the name, its attributes are what was set, and of the
packed arrays those of bytes are bytes and the others lists. -/
def forms (r : Registry) : HostForms where
  Object className properties x :=
    ∃ c, r.class? className = .ok c.number ∧ x = .instance c properties
  Packed tag items x :=
    match tag with
    | .byte => ∃ content : List UInt8,
      x = .bytes content ∧ items = content.map fun b => .data (.int b.toNat)
    | _ => x = .list items

/-- The bytes that a list of integers stands for are the integers. -/
theorem toBytes_eq_ok {items : List HostValue} {content : List UInt8}
    (integers : ∀ item ∈ items, ∃ n, item = .data (.int n))
    (h : HostValue.toBytes items = .ok content) :
    items = content.map fun b => .data (.int b.toNat) := by
  induction items generalizing content with
  | nil =>
    cases h
    rfl
  | cons item rest ih =>
    obtain ⟨⟨n, rfl⟩, hrest⟩ := List.forall_mem_cons.mp integers
    simp only [HostValue.toBytes, HostValue.int?] at h
    split at h
    · rename_i inside
      split at h
      · rename_i more hm
        obtain rfl := Except.ok.inj h
        have same : ((UInt8.ofNat n.toNat).toNat : Int) = n := by
          rw [UInt8.toNat_ofNat']
          omega
        rw [List.map_cons, ← ih hrest hm, same]
      · cases h
    · cases h

/-- Integers are packed into the bytes that they stand for. -/
theorem constructPacked_byte {items : List HostValue} {x : HostValue}
    (integers : ∀ item ∈ items, ∃ n, item = .data (.int n))
    (h : constructPacked (.packed .byte) items = .ok x) :
    ∃ content : List UInt8, x = .bytes content ∧ items = content.map fun b => .data (.int b.toNat) := by
  cases hb : HostValue.toBytes items with
  | error e =>
    rw [constructPacked, hb] at h
    cases h
  | ok content =>
    rw [constructPacked, hb] at h
    exact ⟨content, (Except.ok.inj h).symm, toBytes_eq_ok integers hb⟩

/-- An attribute that an instance has not is set behind the others. -/
theorem setProperty_eq_ok {r : Registry} {c : ClassId} {attributes : List (String × HostValue)}
    {property : String} {value after : HostValue} (fresh : property ∉ attributes.map (·.1))
    (h : r.setProperty (.instance c attributes) property value = .ok after) :
    after = .instance c (attributes ++ [(property, value)]) := by
  have assigned {changed : HostValue} (h : r.program.assign c attributes property value = .ok changed) :
      changed = .instance c (attributes ++ [(property, value)]) := by
    rw [← Json.set_of_not_mem fresh]
    unfold Program.assign at h
    dsimp only at h
    split at h
    · cases h
    · cases h
    · exact (Except.ok.inj h).symm
    · split at h
      · exact (Except.ok.inj h).symm
      · cases h
    · split at h
      · exact (Except.ok.inj h).symm
      · cases h
  unfold setProperty at h
  dsimp only at h
  split at h
  · cases h
  · obtain ⟨declared, -, h⟩ := bind_eq_ok.mp h
    split at h
    · cases h
    · split at h
      · rename_i changed hchanged
        cases h
        exact assigned hchanged
      · split at h <;> cases h

/-- The host of a registry makes values of its forms. -/
theorem makes (r : Registry) : r.host.Makes r.forms where
  construct className := .of_except fun object h => by
    obtain ⟨c, rfl, known⟩ := construct_new h
    exact ⟨c, known, rfl⟩
  setProperty className properties object property value ho fresh := .of_except fun after h => by
    obtain ⟨c, known, rfl⟩ := ho
    exact ⟨c, known, setProperty_eq_ok fresh h⟩
  constructStruct := Host.Makes.of_components
  constructPacked tag items takes := .of_except fun x h => by
    cases tag with
    | byte =>
      refine constructPacked_byte (fun item hi => ?_) h
      obtain ⟨n, hn, -⟩ := takes item hi 0 255 rfl
      exact ⟨n, hn⟩
    | _ => exact (Except.ok.inj h).symm

end Annotated.Registry

/-! ## Objects that are built -/

/-- Setting properties of distinct names, none of which an object has, adds them in their order. -/
theorem Decoding.assign_makes {σ : Type} {host : Host σ} {forms : HostForms} (hh : host.Makes forms)
    {className : String} {values : List (String × HostValue)} (properties : List (String × HostValue))
    {object : HostValue} (distinct : ((properties ++ values).map (·.1)).Nodup)
    (ho : forms.Object className properties object) :
    Ensures (forms.Object className (properties ++ values)) (fun _ => True)
      (assign host className object values) := by
  induction values generalizing properties object with
  | nil =>
    rw [List.append_nil]
    exact .of_pure ho
  | cons value rest ih =>
    obtain ⟨property, value⟩ := value
    rw [assign]
    have fresh : property ∉ properties.map (·.1) := by
      rw [List.map_append, List.map_cons] at distinct
      exact fun hm => (List.nodup_append.mp distinct).2.2 _ hm _ List.mem_cons_self rfl
    refine ((hh.setProperty _ _ _ _ value ho fresh).within fun _ => id).bind fun after hafter => ?_
    have split : properties ++ (property, value) :: rest =
        (properties ++ [(property, value)]) ++ rest := (List.append_cons ..)
    rw [split] at distinct ⊢
    exact ih _ distinct hafter

/-- An object that is built has the properties that it was given. -/
theorem Decoding.build_makes {σ : Type} {host : Host σ} {forms : HostForms} (hh : host.Makes forms)
    {className : String} {values : List (String × HostValue)} (distinct : (values.map (·.1)).Nodup) :
    Ensures (forms.Object className values) (fun _ => True) (build host className values) :=
  (hh.construct className).bind fun _ ho => assign_makes hh [] distinct ho

end ReflectedSchema
