import ReflectedSchema.Proofs.Kinds.DecisionTable
import ReflectedSchema.Schema.Build

/-!
# The graph of a source

A kind mentions entities: classes, enumerations and value structs, directly or as the items of an
array.  A class mentions what its properties do, and a value struct what its components do;
`Source.Reaches` is what can be reached from a kind by mentions.  A kind stands in a schema as
`Kind.node`, which depends on the build only for the names given to enumerations.
-/

namespace ReflectedSchema

/-! ## Kinds that come out of a property -/

namespace Kind

/-- What a resolved kind promises: its classes are known, and an enumeration has an owner and a name,
neither of which holds a dot. -/
def WellFormed (known : String → Bool) : Kind → Prop
  | .enum owner name _ =>
    known owner = true ∧ owner ≠ "" ∧ name ≠ "" ∧ '.' ∉ owner.toList ∧ '.' ∉ name.toList
  | .object className => known className = true
  | .array element _ => element.WellFormed known
  | _ => True

end Kind

/-- A kind that items may have is well-formed. -/
theorem Kind.OfItem.wellFormed {known : String → Bool} {kind : Kind} (h : kind.OfItem known) :
    kind.WellFormed known := by
  cases h with
  | builtIn h => cases h <;> trivial
  | object h => exact h
  | enum h =>
    exact ⟨h.owner_known, h.owner_undotted.1, h.name_undotted.1, h.owner_undotted.2, h.name_undotted.2⟩

/-- A property resolves to a well-formed kind. -/
theorem resolve_wellFormed {known : String → Bool} {info : PropertyInfo} {kind : Kind}
    (h : resolve known info = .ok kind) : kind.WellFormed known := by
  cases resolve_ofProperty h with
  | single item => exact item.wellFormed
  | array item => exact item.wellFormed

/-- The kinds of the components of a value struct are well-formed. -/
theorem StructTag.wellFormed_layout (known : String → Bool) {tag : StructTag}
    {component : String × Kind} (h : component ∈ tag.layout) : component.2.WellFormed known := by
  have all : ∀ component ∈ tag.layout, component.2.WellFormed known := by
    cases tag <;> simp [layout, Kind.WellFormed]
  exact all component h

/-! ## Descriptions -/

/-- A sequence of two steps succeeds with what its second step gives. -/
theorem bind_eq_ok {α β ε : Type} {x : Except ε α} {f : α → Except ε β} {b : β} :
    (x >>= f) = .ok b ↔ ∃ a, x = .ok a ∧ f a = .ok b := by
  cases x with
  | error e => simp [bind, Except.bind]
  | ok a => simp [bind, Except.bind]

/-- The results of a list of steps that all succeed belong to the items of the list, one by one. -/
theorem forall₂_of_mapM_ok {α β ε : Type} {f : α → Except ε β} :
    ∀ {xs : List α} {ys : List β}, xs.mapM f = .ok ys → List.Forall₂ (fun x y => f x = .ok y) xs ys
  | [], ys, h => by
    rw [List.mapM_nil] at h
    cases h
    exact .nil
  | x :: xs, ys, h => by
    rw [List.mapM_cons] at h
    obtain ⟨y, hy, h⟩ := bind_eq_ok.mp h
    obtain ⟨rest, hrest, h⟩ := bind_eq_ok.mp h
    cases h
    exact .cons hy (forall₂_of_mapM_ok hrest)

/-- What a description says: the class is known and no value struct, and its properties are those that
the source lists, each with the kind it resolves to. -/
theorem describeClass_eq_ok {source : Source} {className : String} {c : ClassDescriptor}
    (h : describeClass source className = .ok c) :
    source.hasClass className = true ∧ className ∉ StructTag.names ∧ c.name = className ∧
      ∃ infos, source.properties className = .ok infos ∧
        List.Forall₂ (fun info p => describeProperty source.hasClass className info = .ok p) infos
          c.properties := by
  unfold describeClass at h
  dsimp only at h
  split at h
  · obtain ⟨_, hthrow, -⟩ := bind_eq_ok.mp h
    cases hthrow
  rename_i hknown
  split at h
  · obtain ⟨_, hthrow, -⟩ := bind_eq_ok.mp h
    cases hthrow
  rename_i hstruct
  obtain ⟨infos, hinfos, h⟩ := bind_eq_ok.mp h
  obtain ⟨properties, hproperties, h⟩ := bind_eq_ok.mp h
  cases h
  exact ⟨by simpa using hknown, by simpa using hstruct, rfl, infos, hinfos,
    forall₂_of_mapM_ok hproperties⟩

/-- Every result of a list belongs to some item. -/
theorem exists_of_mem_right {α β : Type} {R : α → β → Prop} {xs : List α} {ys : List β}
    (h : List.Forall₂ R xs ys) {y : β} (hy : y ∈ ys) : ∃ x ∈ xs, R x y := by
  induction h with
  | nil => cases hy
  | cons hr _ ih =>
    rcases List.mem_cons.mp hy with rfl | hy
    · exact ⟨_, List.mem_cons_self, hr⟩
    · obtain ⟨x, hx, hr⟩ := ih hy
      exact ⟨x, List.mem_cons_of_mem _ hx, hr⟩

/-- A described property has the name that the source lists and the kind that it resolves to. -/
theorem describeProperty_eq_ok {known : String → Bool} {className : String} {info : PropertyInfo}
    {p : PropertyDescriptor} (h : describeProperty known className info = .ok p) :
    p.name = info.name ∧ resolve known info = .ok p.kind := by
  unfold describeProperty at h
  split at h
  · rename_i hk
    cases h
    exact ⟨rfl, hk⟩
  · cases h

/-- The properties of a described class have well-formed kinds. -/
theorem wellFormed_of_describeClass {source : Source} {className : String} {c : ClassDescriptor}
    (h : describeClass source className = .ok c) :
    ∀ p ∈ c.properties, p.kind.WellFormed source.hasClass := by
  obtain ⟨-, -, -, infos, -, hp⟩ := describeClass_eq_ok h
  intro p hm
  obtain ⟨info, -, hd⟩ := exists_of_mem_right hp hm
  exact resolve_wellFormed (describeProperty_eq_ok hd).2

/-- The properties of a described class have the names that the source lists. -/
theorem propertyNames_of_describeClass {source : Source} {className : String} {c : ClassDescriptor}
    (h : describeClass source className = .ok c) :
    ∃ infos, source.properties className = .ok infos ∧ c.propertyNames = infos.map (·.name) := by
  obtain ⟨-, -, -, infos, hinfos, hp⟩ := describeClass_eq_ok h
  refine ⟨infos, hinfos, ?_⟩
  rw [ClassDescriptor.propertyNames]
  -- The induction is on the properties alone, whatever class they are of.
  clear hinfos
  generalize c.properties = properties at hp
  induction hp with
  | nil => rfl
  | cons hd _ ih => rw [List.map_cons, List.map_cons, ih, (describeProperty_eq_ok hd).1]

/-! ## Mentions -/

/-- The value struct that the items of a packed array are of. -/
def PackedTag.itemStruct? : PackedTag → Option StructTag
  | .vector2 => some .vector2
  | .vector3 => some .vector3
  | .color => some .color
  | .vector4 => some .vector4
  | _ => none

namespace Kind

/-- The entities that a kind mentions. -/
def mentions : Kind → List Entity
  | .struct tag => [.struct tag]
  | .enum owner name _ => [.enum (enumPath owner name)]
  | .object className => [.class className]
  | .array element _ => element.mentions
  | .packed tag => tag.itemStruct?.toList.map .struct
  | _ => []

/-- What the items of an array are, down to those that are no arrays; any other kind stands for itself. -/
def item : Kind → Kind
  | .array element _ => element.item
  | kind => kind

/-- A packed array mentions what the kind of its items does. -/
theorem mentions_packed (tag : PackedTag) : (Kind.packed tag).mentions = tag.element.mentions := by
  cases tag <;> rfl

end Kind

/-- One entity mentions another, as the kind of a component or a property. -/
inductive Source.Mentions (source : Source) : Entity → Entity → Prop
  | component {tag : StructTag} {component : String × Kind} {e : Entity}
      (hc : component ∈ tag.layout) (he : e ∈ component.2.mentions) : Mentions source (.struct tag) e
  | property {className : String} {c : ClassDescriptor} {p : PropertyDescriptor} {e : Entity}
      (hd : describeClass source className = .ok c) (hp : p ∈ c.properties)
      (he : e ∈ p.kind.mentions) : Mentions source (.class className) e

/-- A kind leads to an entity by mentions. -/
def Source.Reaches (source : Source) (kind : Kind) (e : Entity) : Prop :=
  ∃ first ∈ kind.mentions, Relation.ReflTransGen source.Mentions first e

namespace StructTag

/-- No struct has two components of a name. -/
theorem distinct_layout (tag : StructTag) : (tag.layout.map (·.1)).Nodup := by
  cases tag <;> decide

/-- A component mentions structs inside the struct. -/
theorem mentions_component {tag : StructTag} {component : String × Kind} (h : component ∈ tag.layout)
    {e : Entity} (he : e ∈ component.2.mentions) : ∃ inner ∈ tag.nested, e = .struct inner := by
  have all : ∀ tag : StructTag, ∀ component ∈ tag.layout, ∀ e ∈ component.2.mentions,
      e ∈ tag.nested.map Entity.struct := by
    intro tag
    cases tag <;> decide
  obtain ⟨inner, hi, rfl⟩ := List.mem_map.mp (all tag component h e he)
  exact ⟨inner, hi, rfl⟩

/-- What is inside a struct inside a struct is inside it. -/
theorem nested_trans {tag inner deeper : StructTag} (h : inner ∈ tag.nested)
    (hd : deeper ∈ inner.nested) : deeper ∈ tag.nested := by
  have all : ∀ tag : StructTag, ∀ inner ∈ tag.nested, ∀ deeper ∈ inner.nested,
      deeper ∈ tag.nested := by
    intro tag
    cases tag <;> decide
  exact all tag inner h deeper hd

/-- A struct leads to the structs inside it. -/
theorem reaches_nested (source : Source) {tag inner : StructTag} (h : inner ∈ tag.nested) :
    Relation.TransGen source.Mentions (.struct tag) (.struct inner) := by
  -- No struct nests deeper than in a component of a component.
  have direct : ∀ tag : StructTag, ∀ inner ∈ tag.nested,
      (∃ component ∈ tag.layout, .struct inner ∈ component.2.mentions) ∨
        ∃ between ∈ tag.nested, (∃ component ∈ tag.layout, .struct between ∈ component.2.mentions) ∧
          ∃ component ∈ between.layout, .struct inner ∈ component.2.mentions := by
    intro tag
    cases tag <;> decide
  rcases direct tag inner h with ⟨component, hc, he⟩ | ⟨between, -, ⟨outer, ho, hb⟩, component, hc, he⟩
  · exact .single (.component hc he)
  · exact .tail (.single (.component ho hb)) (.component hc he)

end StructTag

/-! ## Nodes of kinds -/

/-- The name under which an entity is shared, where `names` gives those of enumerations. -/
def Entity.key? (names : String → Option String) : Entity → Option String
  | .class name => some name
  | .struct tag => some tag.name
  | .enum path => names path

/-- The node of the items of a packed array. -/
def PackedTag.itemNode : PackedTag → Node
  | .float32 | .float64 => .scalar .number none
  | .string => .scalar .string none
  | .vector2 => .ref StructTag.vector2.name
  | .vector3 => .ref StructTag.vector3.name
  | .color => .ref StructTag.color.name
  | .vector4 => .ref StructTag.vector4.name
  | tag => .scalar .integer tag.range

namespace Kind

/-- What stands for a kind in a schema, where `names` gives the definition names of enumerations. -/
def node (names : String → Option String) : Kind → Node
  | .boolean => .scalar .boolean none
  | .integer => .scalar .integer none
  | .number => .scalar .number none
  | .string => .scalar .string none
  | .dictionary => .anyObject
  | .struct tag => .ref tag.name
  | .enum owner name flags =>
    let reference : Node := .ref ((names (enumPath owner name)).getD (enumPath owner name))
    if flags then .array reference none else reference
  | .object className => .ref className
  | .anyArray length => .anyArray length
  | .array element length => .array (element.node names) length
  | .packed tag => .array tag.itemNode none

/-- A node depends only on the names of the enumerations that the kind mentions. -/
theorem node_congr {names other : String → Option String} {kind : Kind}
    (h : ∀ path, .enum path ∈ kind.mentions → names path = other path) :
    kind.node names = kind.node other := by
  induction kind with
  | array element length ih => rw [node, node, ih fun path hp => h path hp]
  | enum owner name flags => rw [node, node, h (enumPath owner name) (List.mem_singleton.mpr rfl)]
  | _ => rfl

end Kind

/-- The object node of a class. -/
def ClassDescriptor.definition (names : String → Option String) (c : ClassDescriptor) : Definition :=
  .object (c.properties.map fun p => ⟨p.name, p.kind.node names, p.description⟩)

/-- The definition of an entity. -/
inductive Source.DefinitionOf (source : Source) (names : String → Option String) :
    Entity → Definition → Prop
  | class {c : ClassDescriptor} (hc : describeClass source c.name = .ok c) :
      DefinitionOf source names (.class c.name) (c.definition names)
  | enum {owner name : String} {members : List (String × EnumValue)}
      (hm : source.members owner name = .ok members) (ho : '.' ∉ owner.toList)
      (hn : '.' ∉ name.toList) :
      DefinitionOf source names (.enum (enumPath owner name)) (.enumeration (members.map (·.1)))
  | struct (tag : StructTag) : DefinitionOf source names (.struct tag) tag.definition

/-- The components of a value struct stand in its definition as their kinds do elsewhere. -/
theorem StructTag.definition_eq (names : String → Option String) (tag : StructTag) :
    tag.definition = .object (tag.layout.map fun (name, kind) => ⟨name, kind.node names, none⟩) := by
  cases tag <;> rfl

end ReflectedSchema
