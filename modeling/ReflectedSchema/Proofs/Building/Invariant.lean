import ReflectedSchema.Proofs.Building.Graph
import ReflectedSchema.Proofs.Building.Steps

/-!
# The invariant of a build

Every name under which something is shared belongs to one entity, and every entity has one key: the
name of a class or a value struct, or the name that was chosen for an enumeration.  `Sound` says what
stands under the names; a finished class is defined by its description, and everything that its
properties mention is held, which means that it stands under its key and is referenced.  `Grows` says
what a step may do: nothing is lost, and what comes in is reached.
-/

namespace ReflectedSchema

namespace Definitions

/-! ## Views -/

/-- What stands under a name: nothing inside while the name is only reserved. -/
def node? (d : Shared) (name : String) : Option (Option Definition) :=
  Json.lookup name d.nodes

/-- The descriptor of a class. -/
def class? (d : Shared) (name : String) : Option ClassDescriptor :=
  Json.lookup name d.classes

/-- The descriptor of an enumeration. -/
def enum? (d : Shared) (path : String) : Option EnumDescriptor :=
  Json.lookup path d.enums

/-- The name under which an entity stands. -/
def key? (d : Shared) (e : Entity) : Option String :=
  e.key? d.enumName?

/-- An entity stands under its key and is referenced. -/
def Holds (d : Shared) (e : Entity) : Prop :=
  ∃ name, d.key? e = some name ∧ d.owner? name = some e ∧ d.isReferenced name = true

/-- The definitions after a free name was reserved. -/
def opened (d : Shared) (name : String) (owner : Entity) : Shared :=
  { d with nodes := Json.set name none d.nodes, owners := Json.set name owner d.owners }

variable {d after : Shared} {name : String}

/-- A name is reserved exactly if there is a definition for it, be it open. -/
theorem contains_eq_isSome (d : Shared) (name : String) : d.contains name = (d.node? name).isSome := by
  rw [Bool.eq_iff_iff, contains, List.any_eq_true, ← Option.not_isNone, Bool.not_eq_true',
    ← Bool.not_eq_true, Option.isNone_iff_eq_none, node?, Json.lookup_eq_none_iff, not_not,
    List.mem_map]
  exact exists_congr fun e => and_congr_right fun _ => decide_eq_true_iff

/-- A name is reserved by opening it, if it was free. -/
theorem reserve?_eq_some {owner : Entity} (h : d.reserve? name owner = some after) :
    d.node? name = none ∧ after = d.opened name owner := by
  rw [reserve?, contains_eq_isSome] at h
  split at h
  · cases h
  · rename_i hn
    cases h
    exact ⟨by simpa using hn, rfl⟩

/-- Opening a name leaves it without a definition, and the others as they are. -/
theorem node?_opened (d : Shared) (name other : String) (owner : Entity) :
    (d.opened name owner).node? other = if other = name then some none else d.node? other :=
  Json.lookup_set name other none d.nodes

/-- The owner of a name that was opened. -/
theorem owner?_opened (d : Shared) (name other : String) (owner : Entity) :
    (d.opened name owner).owner? other = if other = name then some owner else d.owner? other :=
  Json.lookup_set name other owner d.owners

/-- Storing a definition changes it under its own name only. -/
theorem node?_store (d : Shared) (name other : String) (node : Option Definition) :
    (d.store name node).node? other = if other = name then some node else d.node? other :=
  Json.lookup_set name other node d.nodes

/-- A class that was added is found under its name. -/
theorem class?_addClass (d : Shared) (c : ClassDescriptor) (other : String) :
    (d.addClass c).class? other = if other = c.name then some c else d.class? other :=
  Json.lookup_set c.name other c d.classes

/-- An enumeration that was added is found under its path. -/
theorem enum?_addEnum (d : Shared) (e : EnumDescriptor) (name other : String) :
    (d.addEnum e name).enum? other = if other = e.path then some e else d.enum? other :=
  Json.lookup_set e.path other e d.enums

/-- An enumeration that was added has its name under its path. -/
theorem enumName?_addEnum (d : Shared) (e : EnumDescriptor) (name other : String) :
    (d.addEnum e name).enumName? other = if other = e.path then some name else d.enumName? other :=
  Json.lookup_set e.path other name d.enumNames

/-- Referring to a name changes nothing but what is referenced. -/
theorem refer_eq (d : Shared) (name : String) :
    ∃ referenced, d.refer name = { d with referenced } := by
  unfold refer
  split
  · exact ⟨_, rfl⟩
  · exact ⟨_, rfl⟩

/-- A name is referenced if it was before, or if it is the one that is referred to now. -/
theorem isReferenced_refer (d : Shared) (name other : String) :
    (d.refer name).isReferenced other = true ↔ other = name ∨ d.isReferenced other = true := by
  unfold refer
  split
  · rename_i h
    exact ⟨.inr, fun ho => ho.elim (fun he => he ▸ h) id⟩
  · simp [isReferenced]

/-- A reference takes no name. -/
@[simp] theorem owner?_refer (d : Shared) (name other : String) :
    (d.refer name).owner? other = d.owner? other := by
  obtain ⟨_, h⟩ := d.refer_eq name
  rw [h]; rfl

/-- A reference defines nothing. -/
@[simp] theorem node?_refer (d : Shared) (name other : String) :
    (d.refer name).node? other = d.node? other := by
  obtain ⟨_, h⟩ := d.refer_eq name
  rw [h]; rfl

/-- A reference names no enumeration. -/
@[simp] theorem enumName?_refer (d : Shared) (name : String) : (d.refer name).enumName? = d.enumName? := by
  obtain ⟨_, h⟩ := d.refer_eq name
  rw [h]; rfl

/-- A reference changes the key of no entity. -/
@[simp] theorem key?_refer (d : Shared) (name : String) : (d.refer name).key? = d.key? := by
  obtain ⟨_, h⟩ := d.refer_eq name
  rw [h]; rfl

end Definitions

/-! ## Growth -/

/-- What a step may do to the definitions, where `reach` tells the entities that may come in. -/
structure Grows (reach : Entity → Prop) (d after : Shared) : Prop where
  owner : ∀ {name e}, d.owner? name = some e → after.owner? name = some e
  referenced : ∀ {name}, d.isReferenced name = true → after.isReferenced name = true
  classes : ∀ {name c}, d.class? name = some c → after.class? name = some c
  enums : ∀ {path e}, d.enum? path = some e → after.enum? path = some e
  named : ∀ {path name}, d.enumName? path = some name → after.enumName? path = some name
  added : ∀ {name e}, after.owner? name = some e → d.owner? name = some e ∨ reach e
  referred : ∀ {name}, after.isReferenced name = true →
    d.isReferenced name = true ∨ ∃ e, reach e ∧ after.owner? name = some e

namespace Grows

variable {reach wider : Entity → Prop} {d between after : Shared}

/-- Definitions that stay as they are have grown by nothing. -/
theorem refl (reach : Entity → Prop) (d : Shared) : Grows reach d d where
  owner := id
  referenced := id
  classes := id
  enums := id
  named := id
  added := .inl
  referred := .inl

/-- Growth step by step is growth. -/
theorem trans (h : Grows reach d between) (g : Grows reach between after) : Grows reach d after where
  owner := g.owner ∘ h.owner
  referenced := g.referenced ∘ h.referenced
  classes := g.classes ∘ h.classes
  enums := g.enums ∘ h.enums
  named := g.named ∘ h.named
  added ho := (g.added ho).elim h.added .inr
  referred hr := by
    rcases g.referred hr with hr | hr
    · rcases h.referred hr with hr | ⟨e, he, ho⟩
      · exact .inl hr
      · exact .inr ⟨e, he, g.owner ho⟩
    · exact .inr hr

/-- Growth by some entities is growth by more. -/
theorem mono (h : Grows reach d after) (hw : ∀ e, reach e → wider e) : Grows wider d after where
  owner := h.owner
  referenced := h.referenced
  classes := h.classes
  enums := h.enums
  named := h.named
  added ho := (h.added ho).imp_right (hw _)
  referred hr := (h.referred hr).imp_right fun ⟨e, he, ho⟩ => ⟨e, hw e he, ho⟩

/-- An entity keeps its key. -/
theorem key (h : Grows reach d after) {e : Entity} {name : String} (hk : d.key? e = some name) :
    after.key? e = some name := by
  cases e with
  | enum path => exact h.named hk
  | _ => exact hk

/-- What is held stays held. -/
theorem holds (h : Grows reach d after) {e : Entity} (he : d.Holds e) : after.Holds e := by
  obtain ⟨name, hk, ho, hr⟩ := he
  exact ⟨name, h.key hk, h.owner ho, h.referenced hr⟩

/-- The node of a kind stays the same once what the kind mentions is held. -/
theorem node_eq (h : Grows reach d after) {kind : Kind} (held : ∀ e ∈ kind.mentions, d.Holds e) :
    kind.node d.enumName? = kind.node after.enumName? := by
  refine Kind.node_congr fun path hm => ?_
  obtain ⟨name, hk, -, -⟩ := held _ hm
  rw [show d.enumName? path = some name from hk, h.named hk]

/-- Referring to an entity that is reached. -/
theorem refer {name : String} {e : Entity} (ho : d.owner? name = some e) (he : reach e) :
    Grows reach d (d.refer name) := by
  obtain ⟨_, hd⟩ := d.refer_eq name
  -- Every view but the one on references is blind to referring.
  have same : ∀ {α : Type} (view : Shared → α), (∀ r, view { d with referenced := r } = view d) →
      view (d.refer name) = view d := by
    intro α view hv
    rw [hd, hv]
  exact {
    owner := fun h => by rwa [Definitions.owner?_refer]
    referenced := fun h => (d.isReferenced_refer name _).mpr (.inr h)
    classes := fun h => by rwa [same (·.class? _) fun _ => rfl]
    enums := fun h => by rwa [same (·.enum? _) fun _ => rfl]
    named := fun h => by rwa [same (·.enumName? _) fun _ => rfl]
    added := fun h => .inl (by rwa [Definitions.owner?_refer] at h)
    referred := fun h => by
      rcases (d.isReferenced_refer name _).mp h with rfl | h
      · exact .inr ⟨e, he, by rwa [Definitions.owner?_refer]⟩
      · exact .inl h }

end Grows

/-! ## What stands under the names -/

/-- What the source says of an enumeration that has a descriptor. -/
structure EnumDescriptor.Described (source : Source) (e : EnumDescriptor) : Prop where
  members : source.members e.owner e.name = .ok e.members
  nonempty : e.members ≠ []
  known : source.hasClass e.owner = true
  ownerPlain : '.' ∉ e.owner.toList
  namePlain : '.' ∉ e.name.toList

/-- The finished definition of an entity. -/
inductive Source.Defines (source : Source) (d : Shared) : Entity → Definition → Prop
  | class {name : String} {c : ClassDescriptor} (hc : d.class? name = some c)
      (held : ∀ p ∈ c.properties, ∀ e ∈ p.kind.mentions, d.Holds e) :
      Defines source d (.class name) (c.definition d.enumName?)
  | enum {path : String} {e : EnumDescriptor} (he : d.enum? path = some e) :
      Defines source d (.enum path) (.enumeration e.memberNames)
  | struct (tag : StructTag) : Defines source d (.struct tag) tag.definition

/-- The invariant of a build, but for the structs inside structs. -/
structure Sound (source : Source) (d : Shared) : Prop where
  owned : ∀ name, (d.node? name).isSome = (d.owner? name).isSome
  keyed : ∀ {name e}, d.owner? name = some e → d.key? e = some name
  named : ∀ {path name}, d.enumName? path = some name → d.owner? name = some (.enum path)
  described : ∀ {name}, d.owner? name = some (.class name) → ∃ c, d.class? name = some c
  classes : ∀ {name c}, d.class? name = some c →
    describeClass source name = .ok c ∧ d.owner? name = some (.class name)
  listed : ∀ {path name}, d.enumName? path = some name → ∃ e, d.enum? path = some e
  enums : ∀ {path e}, d.enum? path = some e → e.path = path ∧ e.Described source ∧
    ∃ name, d.enumName? path = some name ∧ (name = e.name ∨ name = e.path) ∧ name ∉ StructTag.names
  defined : ∀ {name e definition}, d.owner? name = some e → d.node? name = some (some definition) →
    source.Defines d e definition
  distinct : (d.nodes.map (·.1)).Nodup ∧ (d.classes.map (·.1)).Nodup ∧ (d.enums.map (·.1)).Nodup

/-- Every struct that stands somewhere has the structs inside it held. -/
def StructsHeld (d : Shared) : Prop :=
  ∀ tag inner : StructTag, d.owner? tag.name = some (.struct tag) → inner ∈ tag.nested →
    d.Holds (.struct inner)

/-- A definition stays that of its entity. -/
theorem Source.Defines.mono {source : Source} {reach : Entity → Prop} {d after : Shared}
    (h : Grows reach d after) {e : Entity} {definition : Definition}
    (hd : source.Defines d e definition) : source.Defines after e definition := by
  cases hd with
  | enum he => exact .enum (h.enums he)
  | struct tag => exact .struct tag
  | @«class» name c hc held =>
    have same : c.definition d.enumName? = c.definition after.enumName? := by
      unfold ClassDescriptor.definition
      refine congrArg _ (List.map_congr_left fun p hp => ?_)
      rw [h.node_eq (held p hp)]
    rw [same]
    exact .class (h.classes hc) fun p hp e he => h.holds (held p hp e he)

/-- The invariant holds of a build that begins. -/
theorem Sound.empty (source : Source) : Sound source .empty where
  owned _ := rfl
  keyed h := by cases h
  named h := by cases h
  described h := by cases h
  classes h := by cases h
  listed h := by cases h
  enums h := by cases h
  defined h := by cases h
  distinct := ⟨List.nodup_nil, List.nodup_nil, List.nodup_nil⟩

/-- At the beginning there is no struct that could lack one. -/
theorem StructsHeld.empty : StructsHeld .empty := fun _ _ h => by cases h

namespace Sound

variable {source : Source} {d : Shared}

/-- Nothing stands under a name that no one owns. -/
theorem owner?_eq_none (h : Sound source d) {name : String} (hn : d.node? name = none) :
    d.owner? name = none := by
  have := h.owned name
  rw [hn] at this
  exact Option.isSome_eq_false_iff.mp this.symm |> Option.isNone_iff_eq_none.mp

/-- The name of a struct, when it is taken, is taken by the struct. -/
theorem owner?_struct (h : Sound source d) {tag : StructTag} {e : Entity}
    (ho : d.owner? tag.name = some e) : e = .struct tag := by
  have hmem : tag.name ∈ StructTag.names := List.mem_map_of_mem (StructTag.mem_all tag)
  have hk := h.keyed ho
  cases e with
  | struct other =>
    rw [StructTag.name_injective other tag (Option.some.inj hk)]
  | «class» name =>
    cases hk
    -- A class with the name of a struct is refused.
    obtain ⟨c, hc⟩ := h.described ho
    exact absurd hmem (describeClass_eq_ok (h.classes hc).1).2.1
  | enum path =>
    -- An enumeration gives way to a struct of its name, and takes its path for a name.
    obtain ⟨e, he⟩ := h.listed hk
    obtain ⟨-, -, name, hn, -, hfree⟩ := h.enums he
    rw [show d.enumName? path = some tag.name from hk] at hn
    cases hn
    exact absurd hmem hfree

/-- Referring to something that stands there. -/
theorem refer (h : Sound source d) {name : String} {e : Entity} (ho : d.owner? name = some e) :
    Sound source (d.refer name) := by
  have grows : Grows (fun _ => True) d (d.refer name) := .refer ho trivial
  have defined : ∀ {name' e definition}, d.owner? name' = some e →
      d.node? name' = some (some definition) → source.Defines (d.refer name) e definition :=
    fun ho hn => (h.defined ho hn).mono grows
  obtain ⟨referenced, hd⟩ := d.refer_eq name
  rw [hd] at defined ⊢
  exact ⟨h.owned, h.keyed, h.named, h.described, h.classes, h.listed, h.enums, defined, h.distinct⟩

end Sound

/-! ## What comes in -/

/-- One more entity comes in under a free name.  While the name is only reserved, there is nothing
inside its node. -/
structure Inserts (d : Shared) (name : String) (e : Entity) (node : Option Definition)
    (after : Shared) : Prop where
  free : d.owner? name = none
  owner : ∀ other, after.owner? other = if other = name then some e else d.owner? other
  node : ∀ other, after.node? other = if other = name then some node else d.node? other
  referenced : after.referenced = d.referenced

namespace Inserts

variable {source : Source} {reach : Entity → Prop} {d after : Shared} {name : String} {e : Entity}
  {node : Option Definition}

/-- What comes in takes no name from what is there. -/
theorem grows (h : Inserts d name e node after) (he : reach e)
    (classes : ∀ {name c}, d.class? name = some c → after.class? name = some c)
    (enums : ∀ {path e}, d.enum? path = some e → after.enum? path = some e)
    (named : ∀ {path name}, d.enumName? path = some name → after.enumName? path = some name) :
    Grows reach d after where
  owner {other e'} ho := by
    rw [h.owner, if_neg fun hn => ?_, ho]
    rw [hn, h.free] at ho
    cases ho
  referenced hr := by rwa [Definitions.isReferenced, h.referenced]
  classes := classes
  enums := enums
  named := named
  added {other e'} ho := by
    rw [h.owner] at ho
    split at ho
    · cases ho
      exact .inr he
    · exact .inl ho
  referred hr := .inl (by rwa [Definitions.isReferenced, h.referenced] at hr)

/-- What comes in has an owner along with its definition. -/
theorem owned (h : Inserts d name e node after) (hs : Sound source d) (other : String) :
    (after.node? other).isSome = (after.owner? other).isSome := by
  rw [h.node, h.owner]
  split
  · rfl
  · exact hs.owned other

/-- Keys stay those of the entities if the name is the key of the one that comes in. -/
theorem keyed (h : Inserts d name e node after) (hs : Sound source d) (grows : Grows reach d after)
    (key : after.key? e = some name) {other : String} {e' : Entity}
    (ho : after.owner? other = some e') : after.key? e' = some other := by
  rw [h.owner] at ho
  split at ho
  · rename_i hn
    cases ho
    rw [hn, key]
  · exact grows.key (hs.keyed ho)

/-- Finished definitions stay those of their entities if the one that comes in is. -/
theorem defined (h : Inserts d name e node after) (hs : Sound source d) (grows : Grows reach d after)
    (defines : ∀ definition, node = some definition → source.Defines after e definition)
    {other : String} {e' : Entity} {definition : Definition} (ho : after.owner? other = some e')
    (hn : after.node? other = some (some definition)) : source.Defines after e' definition := by
  rw [h.owner] at ho
  rw [h.node] at hn
  split at ho
  · rename_i hother
    rw [if_pos hother] at hn
    cases ho
    exact defines definition (Option.some.inj hn)
  · rename_i hother
    rw [if_neg hother] at hn
    exact (hs.defined ho hn).mono grows

/-- Classes stay described if what comes in is no class. -/
theorem described (h : Inserts d name e node after) (hs : Sound source d)
    (grows : Grows reach d after) (other : ∀ className, e ≠ .class className) {className : String}
    (ho : after.owner? className = some (.class className)) :
    ∃ c, after.class? className = some c := by
  rw [h.owner] at ho
  split at ho
  · exact absurd (Option.some.inj ho) (other className)
  · obtain ⟨c, hc⟩ := hs.described ho
    exact ⟨c, grows.classes hc⟩

end Inserts

namespace Definitions

/-- The definitions after a value struct was added. -/
def withStruct (d : Shared) (tag : StructTag) : Shared :=
  (d.opened tag.name (.struct tag)).store tag.name (some tag.definition)

/-- The definitions after an enumeration was added under a name. -/
def withEnum (d : Shared) (e : EnumDescriptor) (name : String) : Shared :=
  ((d.opened name (.enum e.path)).addEnum e name).store name (some (.enumeration e.memberNames))

/-- The definitions after a class was entered. -/
def withClass (d : Shared) (c : ClassDescriptor) : Shared :=
  (d.opened c.name (.class c.name)).addClass c

variable (d : Shared)

/-- The owners of names once a struct is in. -/
theorem owner?_withStruct (tag : StructTag) (other : String) :
    (d.withStruct tag).owner? other =
      if other = tag.name then some (.struct tag) else d.owner? other :=
  d.owner?_opened tag.name other _

/-- The owners of names once an enumeration is in. -/
theorem owner?_withEnum (e : EnumDescriptor) (name other : String) :
    (d.withEnum e name).owner? other =
      if other = name then some (.enum e.path) else d.owner? other :=
  d.owner?_opened name other _

/-- The owners of names once a class is in. -/
theorem owner?_withClass (c : ClassDescriptor) (other : String) :
    (d.withClass c).owner? other =
      if other = c.name then some (.class c.name) else d.owner? other :=
  d.owner?_opened c.name other _

/-- A struct comes in with its definition. -/
theorem node?_withStruct (tag : StructTag) (other : String) :
    (d.withStruct tag).node? other =
      if other = tag.name then some (some tag.definition) else d.node? other := by
  rw [withStruct, node?_store, node?_opened]
  split
  · rfl
  · rfl

/-- An enumeration comes in with its members as its definition. -/
theorem node?_withEnum (e : EnumDescriptor) (name other : String) :
    (d.withEnum e name).node? other =
      if other = name then some (some (.enumeration e.memberNames)) else d.node? other := by
  have opened : (d.withEnum e name).node? other =
      if other = name then some (some (.enumeration e.memberNames))
      else (d.opened name (.enum e.path)).node? other :=
    Definitions.node?_store ..
  rw [opened, node?_opened]
  split
  · rfl
  · rfl

/-- A class comes in without a definition: its properties are still to be visited. -/
theorem node?_withClass (c : ClassDescriptor) (other : String) :
    (d.withClass c).node? other = if other = c.name then some none else d.node? other :=
  d.node?_opened c.name other (.class c.name)

/-- The enumerations that are found by path once one more is in. -/
theorem enum?_withEnum (e : EnumDescriptor) (name other : String) :
    (d.withEnum e name).enum? other = if other = e.path then some e else d.enum? other :=
  Definitions.enum?_addEnum (d.opened name (.enum e.path)) e name other

/-- The names of enumerations once one more is in. -/
theorem enumName?_withEnum (e : EnumDescriptor) (name other : String) :
    (d.withEnum e name).enumName? other =
      if other = e.path then some name else d.enumName? other :=
  Definitions.enumName?_addEnum (d.opened name (.enum e.path)) e name other

/-- The classes that are found by name once one more is in. -/
theorem class?_withClass (c : ClassDescriptor) (other : String) :
    (d.withClass c).class? other = if other = c.name then some c else d.class? other :=
  Definitions.class?_addClass (d.opened c.name (.class c.name)) c other

end Definitions

section

variable {source : Source} {reach : Entity → Prop} {d : Shared}

/-- A struct is inserted under a free name. -/
theorem Inserts.withStruct {tag : StructTag} (free : d.owner? tag.name = none) :
    Inserts d tag.name (.struct tag) (some tag.definition) (d.withStruct tag) :=
  ⟨free, d.owner?_withStruct tag, d.node?_withStruct tag, rfl⟩

/-- An enumeration is inserted under a free name. -/
theorem Inserts.withEnum (e : EnumDescriptor) {name : String} (free : d.owner? name = none) :
    Inserts d name (.enum e.path) (some (.enumeration e.memberNames)) (d.withEnum e name) :=
  ⟨free, d.owner?_withEnum e name, d.node?_withEnum e name, rfl⟩

/-- A class is inserted under a free name. -/
theorem Inserts.withClass {c : ClassDescriptor} (free : d.owner? c.name = none) :
    Inserts d c.name (.class c.name) none (d.withClass c) :=
  ⟨free, d.owner?_withClass c, d.node?_withClass c, rfl⟩

/-- The definitions grow by a struct. -/
theorem Grows.withStruct {tag : StructTag} (free : d.owner? tag.name = none)
    (he : reach (.struct tag)) : Grows reach d (d.withStruct tag) :=
  (Inserts.withStruct free).grows he id id id

/-- The definitions grow by an enumeration that has no name yet. -/
theorem Grows.withEnum (h : Sound source d) {e : EnumDescriptor} {name : String}
    (free : d.owner? name = none) (new : d.enumName? e.path = none) (he : reach (.enum e.path)) :
    Grows reach d (d.withEnum e name) := by
  refine (Inserts.withEnum e free).grows he id (fun {path other} hp => ?_) (fun {path other} hp => ?_)
  · rw [d.enum?_withEnum, if_neg fun hpath => ?_, hp]
    obtain ⟨-, -, _, hn, -⟩ := h.enums hp
    rw [hpath, new] at hn
    cases hn
  · rw [d.enumName?_withEnum, if_neg fun hpath => ?_, hp]
    rw [hpath, new] at hp
    cases hp

/-- The definitions grow by a class. -/
theorem Grows.withClass (h : Sound source d) {c : ClassDescriptor} (free : d.owner? c.name = none)
    (he : reach (.class c.name)) : Grows reach d (d.withClass c) := by
  refine (Inserts.withClass free).grows he (fun {name other} hc => ?_) id id
  rw [d.class?_withClass, if_neg fun hn => ?_, hc]
  have := (h.classes hc).2
  rw [hn, free] at this
  cases this

/-- Keys stay distinct when a name is reserved and stored. -/
theorem nodup_stored {α : Type} {nodes : List (String × α)} (h : (nodes.map (·.1)).Nodup)
    (name : String) (first then_ : α) :
    ((Json.set name then_ (Json.set name first nodes)).map (·.1)).Nodup :=
  Json.nodup_keys_set _ _ (Json.nodup_keys_set _ _ h)

namespace Sound

/-- The invariant is kept by a struct under a free name. -/
theorem withStruct (h : Sound source d) {tag : StructTag} (free : d.owner? tag.name = none) :
    Sound source (d.withStruct tag) := by
  have grows : Grows (fun _ => True) d (d.withStruct tag) := .withStruct free trivial
  have inserts := Inserts.withStruct free
  exact {
    owned := inserts.owned h
    keyed := inserts.keyed h grows rfl
    named := fun hn => grows.owner (h.named hn)
    described := inserts.described h grows fun _ h => by cases h
    classes := fun hc => ⟨(h.classes hc).1, grows.owner (h.classes hc).2⟩
    listed := h.listed
    enums := h.enums
    defined := inserts.defined h grows fun _ hn => Option.some.inj hn ▸ .struct tag
    distinct := ⟨nodup_stored h.distinct.1 _ _ _, h.distinct.2⟩ }

/-- The invariant is kept by an enumeration whose name is its own or its path, and that of no struct. -/
theorem withEnum (h : Sound source d) {e : EnumDescriptor} {name : String}
    (free : d.owner? name = none) (new : d.enumName? e.path = none) (he : e.Described source)
    (hname : name = e.name ∨ name = e.path) (hfree : name ∉ StructTag.names) :
    Sound source (d.withEnum e name) := by
  have grows : Grows (fun _ => True) d (d.withEnum e name) := .withEnum h free new trivial
  have inserts := Inserts.withEnum e free
  have listed : (d.withEnum e name).enum? e.path = some e := by
    rw [d.enum?_withEnum, if_pos rfl]
  have chosen : (d.withEnum e name).enumName? e.path = some name := by
    rw [d.enumName?_withEnum, if_pos rfl]
  refine {
    owned := inserts.owned h
    keyed := inserts.keyed h grows chosen
    named := fun {path other} hn => ?named
    described := inserts.described h grows fun _ h => by cases h
    classes := fun hc => ⟨(h.classes hc).1, grows.owner (h.classes hc).2⟩
    listed := fun {path other} hn => ?listed
    enums := fun {path e'} hp => ?enums
    defined := inserts.defined h grows fun _ hn => Option.some.inj hn ▸ .enum listed
    distinct := ⟨nodup_stored h.distinct.1 _ _ _, h.distinct.2.1,
      Json.nodup_keys_set _ _ h.distinct.2.2⟩ }
  case named =>
    rw [d.enumName?_withEnum] at hn
    split at hn
    · rename_i hpath
      cases hn
      rw [d.owner?_withEnum, if_pos rfl, hpath]
    · exact grows.owner (h.named hn)
  case listed =>
    rw [d.enumName?_withEnum] at hn
    split at hn
    · rename_i hpath
      exact ⟨e, hpath ▸ listed⟩
    · obtain ⟨e', he'⟩ := h.listed hn
      exact ⟨e', grows.enums he'⟩
  case enums =>
    rw [d.enum?_withEnum] at hp
    split at hp
    · rename_i hpath
      cases hp
      exact ⟨hpath.symm, he, name, hpath ▸ chosen, hname, hfree⟩
    · obtain ⟨hpath, hd, other, hn, hk⟩ := h.enums hp
      exact ⟨hpath, hd, other, grows.named hn, hk⟩

/-- The invariant is kept by a class that was described. -/
theorem withClass (h : Sound source d) {c : ClassDescriptor} (free : d.owner? c.name = none)
    (hc : describeClass source c.name = .ok c) : Sound source (d.withClass c) := by
  have grows : Grows (fun _ => True) d (d.withClass c) := .withClass h free trivial
  have inserts := Inserts.withClass free
  refine {
    owned := inserts.owned h
    keyed := inserts.keyed h grows rfl
    named := fun hn => grows.owner (h.named hn)
    described := fun {other} ho => ?described
    classes := fun {other c'} hc' => ?classes
    listed := h.listed
    enums := h.enums
    -- The name of the class is only reserved, so it has no definition yet.
    defined := inserts.defined h grows fun _ h => by cases h
    distinct := ⟨Json.nodup_keys_set _ _ h.distinct.1, Json.nodup_keys_set _ _ h.distinct.2.1,
      h.distinct.2.2⟩ }
  case described =>
    rw [d.owner?_withClass] at ho
    split at ho
    · rename_i hother
      exact ⟨c, by rw [d.class?_withClass, if_pos hother]⟩
    · obtain ⟨c', hc'⟩ := h.described ho
      exact ⟨c', grows.classes hc'⟩
  case classes =>
    rw [d.class?_withClass] at hc'
    split at hc'
    · rename_i hn
      cases hc'
      rw [hn, d.owner?_withClass, if_pos rfl]
      exact ⟨hc, rfl⟩
    · exact ⟨(h.classes hc').1, grows.owner (h.classes hc').2⟩

/-- Storing the definition of a class that was entered. -/
theorem store (h : Sound source d) {name : String} {c : ClassDescriptor}
    (hc : d.class? name = some c) (held : ∀ p ∈ c.properties, ∀ e ∈ p.kind.mentions, d.Holds e) :
    Sound source (d.store name (some (c.definition d.enumName?))) := by
  have ho := (h.classes hc).2
  refine {
    owned := fun other => ?_
    keyed := h.keyed
    named := h.named
    described := h.described
    classes := h.classes
    listed := h.listed
    enums := h.enums
    defined := fun {other e definition} ho' hn => ?_
    distinct := ⟨Json.nodup_keys_set _ _ h.distinct.1, h.distinct.2⟩ }
  · rw [d.node?_store]
    split
    · rename_i hother
      show _ = (d.owner? other).isSome
      rw [hother, ho]
      rfl
    · exact h.owned other
  · rw [d.node?_store] at hn
    split at hn
    · rename_i hother
      cases hn
      rw [hother, show (d.store name _).owner? name = d.owner? name from rfl, ho] at ho'
      cases ho'
      exact .class hc held
    · have grows : Grows (fun _ => True) d (d.store name (some (c.definition d.enumName?))) :=
        ⟨id, id, id, id, id, .inl, .inl⟩
      exact (h.defined ho' hn).mono grows

end Sound

end

end ReflectedSchema
