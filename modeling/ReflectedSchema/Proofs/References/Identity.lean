import ReflectedSchema.Proofs.Decoding.Coverage
import ReflectedSchema.Proofs.Meaning.Validity

/-!
# What references stand for

A document refers to its shared definitions by text alone.  `Json.references` collects these texts
wherever they stand, and for a document that renders a shape they are the targets of the shape and of
the shared definitions.  Classes, enumerations and value structs share one table of names, so the main
result says that the table keeps them apart: each entity has a key of its own, and what stands under
the key of an entity that a kind mentions is the definition of that entity.
-/

namespace ReflectedSchema

open Build

/-! ## References inside a document -/

/-- The text of a reference, if a field is one. -/
def Json.reference? (name : String) (value : Json) : Option String :=
  if name = "$ref" then value.str? else none

mutual

/-- The texts of the references inside a value. -/
def Json.references : Json → List String
  | .arr items => referencesOfItems items
  | .obj fields => referencesOfFields fields
  | _ => []

/-- The texts of the references inside the items. -/
def Json.referencesOfItems : List Json → List String
  | [] => []
  | item :: rest => item.references ++ referencesOfItems rest

/-- The texts of the references inside the fields. -/
def Json.referencesOfFields : List (String × Json) → List String
  | [] => []
  | (name, value) :: rest =>
    (Json.reference? name value).toList ++ value.references ++ referencesOfFields rest

end

namespace Json

/-- References in fields one after the other. -/
theorem referencesOfFields_append (front back : List (String × Json)) :
    referencesOfFields (front ++ back) = referencesOfFields front ++ referencesOfFields back := by
  induction front with
  | nil => rfl
  | cons f rest ih =>
    obtain ⟨name, value⟩ := f
    simp only [List.cons_append, referencesOfFields, ih, List.append_assoc]

/-- Texts are no references, wherever they stand in a list. -/
theorem referencesOfItems_texts (texts : List String) :
    referencesOfItems (texts.map .str) = [] := by
  induction texts with
  | nil => rfl
  | cons text rest ih => rw [List.map_cons, referencesOfItems, ih]; rfl

/-- The references inside objects that stand under names of their own. -/
theorem referencesOfFields_objects {α : Type} (xs : List α) (name : α → String)
    (fields : α → List (String × Json)) :
    referencesOfFields (xs.map fun x => (name x, .obj (fields x))) =
      xs.flatMap fun x => referencesOfFields (fields x) := by
  induction xs with
  | nil => rfl
  | cons x rest ih =>
    have plain : reference? (name x) (.obj (fields x)) = none := by
      unfold reference?
      split <;> rfl
    rw [List.map_cons, referencesOfFields, plain, ih, List.flatMap_cons]
    rfl

end Json

/-- A node refers to its target. -/
theorem Node.references_fields (n : Node) :
    Json.referencesOfFields n.fields = n.target?.toList.map referenceTo := by
  have lengths : ∀ length, Json.referencesOfFields (lengthFields length) = [] := by
    intro length
    cases length <;> rfl
  induction n with
  | scalar type range => cases range <;> rfl
  | anyArray length => exact lengths length
  | array items length ih =>
    show Json.referencesOfFields items.fields ++ Json.referencesOfFields (lengthFields length) = _
    rw [lengths, List.append_nil, ih, target?]
  | _ => rfl

/-- The description of a property is no reference. -/
theorem NodeProperty.references_toJson (p : NodeProperty) :
    p.toJson.references = p.node.target?.toList.map referenceTo := by
  rw [toJson, Json.references, Json.referencesOfFields_append, p.node.references_fields]
  cases p.description with
  | none => exact List.append_nil _
  | some text => exact List.append_nil _

/-- A definition refers to its targets. -/
theorem Definition.references_fields (d : Definition) :
    Json.referencesOfFields d.fields = d.targets.map referenceTo := by
  cases d with
  | enumeration members =>
    show Json.referencesOfItems (members.map .str) ++ [] = []
    rw [Json.referencesOfItems_texts, List.append_nil]
  | object properties =>
    have required : Json.referencesOfItems (properties.map fun p => .str p.name) = [] := by
      have := Json.referencesOfItems_texts (properties.map (·.name))
      rwa [List.map_map] at this
    show Json.referencesOfFields (properties.map fun p => (p.name, p.toJson)) ++
      (Json.referencesOfItems (properties.map fun p => .str p.name) ++ []) = _
    rw [required, List.append_nil, List.append_nil]
    refine (Json.referencesOfFields_objects properties (·.name) _).trans ?_
    rw [targets, List.filterMap_eq_flatMap_toList, List.map_flatMap]
    exact List.flatMap_congr fun p _ => p.references_toJson

/-- A shape refers to its targets. -/
theorem Shape.references_fields (s : Shape) :
    Json.referencesOfFields s.fields = s.targets.map referenceTo := by
  induction s with
  | node n => exact n.references_fields
  | definition d => exact d.references_fields
  | items s ih =>
    show Json.referencesOfFields s.fields ++ [] = _
    rw [List.append_nil, ih, targets]

/-- A document refers to the targets of its definitions and of its root. -/
theorem Shape.references_document (s : Shape) (shared : List (String × Definition)) :
    (s.document shared).references =
      (shared.flatMap (·.2.targets) ++ s.targets).map referenceTo := by
  show Json.referencesOfFields (shared.map fun entry => (entry.1, entry.2.toJson)) ++
    Json.referencesOfFields s.fields = _
  rw [s.references_fields, List.map_append, List.map_flatMap]
  refine congrArg (· ++ _) ((Json.referencesOfFields_objects shared (·.1) (·.2.fields)).trans ?_)
  exact List.flatMap_congr fun e _ => e.2.references_fields

/-! ## Entities and their keys -/

/-- An entity has one definition. -/
theorem Source.DefinitionOf.unique {source : Source} {names : String → Option String} {e : Entity}
    {first second : Definition} (h : source.DefinitionOf names e first)
    (g : source.DefinitionOf names e second) : first = second := by
  generalize he : e = other at g
  cases h with
  | struct tag =>
    cases g with
    | struct other => rw [Entity.struct.inj he]
    | _ => cases he
  | enum hm ho hn =>
    cases g with
    | enum hm' ho' hn' =>
      obtain ⟨rfl, rfl⟩ := enumPath_injective ho hn ho' hn' (Entity.enum.inj he)
      rw [Except.ok.inj (hm.symm.trans hm')]
    | _ => cases he
  | «class» hc =>
    cases g with
    | «class» hc' => rw [Except.ok.inj (hc.symm.trans (Entity.class.inj he ▸ hc'))]
    | _ => cases he

/-- What is shared under a name is the definition of the live entity with that key. -/
theorem Source.Shares.mem_iff {source : Source} {described live : Entity → Prop}
    {names : String → Option String} {shared : List (String × Definition)}
    {classes : List ClassDescriptor} {enums : List EnumDescriptor}
    (h : source.Shares described live names shared classes enums) {name : String}
    {definition : Definition} : (name, definition) ∈ shared ↔
      ∃ e, live e ∧ e.key? names = some name ∧ source.DefinitionOf names e definition := by
  refine ⟨h.lives, ?_⟩
  rintro ⟨e, he, hk, hd⟩
  obtain ⟨key, stored, hk', hm, hd'⟩ := h.defined he
  obtain rfl := Option.some.inj (hk.symm.trans hk')
  rwa [hd.unique hd']

/-- Once the entities that a kind mentions have keys, its node refers to exactly these keys. -/
theorem Kind.target?_node {names : String → Option String} {kind : Kind}
    (h : ∀ e ∈ kind.mentions, (e.key? names).isSome) :
    (kind.node names).target?.toList = kind.mentions.filterMap (·.key? names) := by
  induction kind with
  | enum owner name flags =>
    obtain ⟨key, hk⟩ := Option.isSome_iff_exists.mp (h _ (List.mem_singleton.mpr rfl))
    have found : names (enumPath owner name) = some key := hk
    cases flags <;> simp [node, mentions, Node.target?, Entity.key?, found]
  | array element length ih => exact ih h
  | packed tag => cases tag <;> rfl
  | _ => rfl

/-- The finished definitions are sorted by their names. -/
theorem Definitions.sorted_finished (d : Shared) : (d.finished.map (·.1)).Pairwise (· ≤ ·) := by
  rw [List.pairwise_map, finished]
  refine (List.pairwise_mergeSort (fun a b c hab hbc => ?_) (fun a b => ?_) _).imp of_decide_eq_true
  · exact decide_eq_true (String.le_trans (of_decide_eq_true hab) (of_decide_eq_true hbc))
  · rw [Bool.or_eq_true, decide_eq_true_iff, decide_eq_true_iff]
    exact String.le_total a.1 b.1

/-- Shared definitions are listed in the order of their names. -/
theorem Source.Shares.increasing {source : Source} {described live : Entity → Prop}
    {names : String → Option String} {d : Shared} {classes : List ClassDescriptor}
    {enums : List EnumDescriptor} (h : source.Shares described live names d.finished classes enums) :
    (d.finished.map (·.1)).Pairwise (· < ·) :=
  d.sorted_finished.imp₂ (fun _ _ hle hne => lt_of_le_of_ne hle hne) h.distinct

/-- The names of the shared definitions are strictly increasing. -/
theorem Schema.Built.sorted {source : Source} {kind : Kind} {schema : Schema}
    (h : schema.Built source kind) : (schema.definitions.map (·.1)).Pairwise (· < ·) := by
  obtain ⟨names, d, presents⟩ := h.presents_finished
  have same : schema.definitions.map (·.1) = d.finished.map (·.1) := by
    rw [presents.definitions, List.map_map]
    rfl
  rw [same]
  exact presents.shares.increasing

/-! ## The main result -/

/-- What the references of a schema stand for, where `names` gives the definition names of
enumerations. -/
structure Schema.Refers (source : Source) (kind : Kind) (names : String → Option String)
    (schema : Schema) : Prop where
  /-- Entities that have the same key are the same. -/
  injective : ∀ {e other key}, source.Reaches kind e → source.Reaches kind other →
    e.key? names = some key → other.key? names = some key → e = other
  /-- An enumeration has its own name for a key, or its path. -/
  enumKey : ∀ {path}, source.Reaches kind (.enum path) → ∃ e ∈ schema.enums, e.path = path ∧
    (names path = some e.name ∨ names path = some e.path)
  /-- Under the key of a live entity stands its own definition, and nothing else is shared. -/
  definitions : ∀ key document, (key, document) ∈ schema.definitions ↔
    ∃ e definition, source.Live kind e ∧ e.key? names = some key ∧
      source.DefinitionOf names e definition ∧ document = definition.toJson
  /-- The root is made of nodes of kinds, which mention only what is live. -/
  root : ∃ s, schema.HasShape source (source.Live kind) names s ∧
    schema.document = assemble schema.definitions s.fields
  /-- The node of a kind refers to the keys of what the kind mentions. -/
  node : ∀ k : Kind, (∀ e ∈ k.mentions, source.Live kind e) →
    (k.node names).toJson.references = (k.mentions.filterMap (·.key? names)).map referenceTo
  /-- Whatever refers anywhere in the document refers to the key of a live entity. -/
  references : ∀ reference ∈ schema.document.references, ∃ e key, source.Live kind e ∧
    e.key? names = some key ∧ reference = referenceTo key ∧ key ∈ schema.definitions.map (·.1)
  sorted : (schema.definitions.map (·.1)).Pairwise (· < ·)

namespace Schema.Presents

variable {source : Source} {kind : Kind} {names : String → Option String}
  {shared : List (String × Definition)} {schema : Schema}

/-- Every target of the root or of a shared definition is the name of a shared definition. -/
theorem mem_targets (h : schema.Presents source kind names shared) {s : Shape}
    (hs : schema.HasShape source (source.Live kind) names s) {t : String}
    (ht : t ∈ shared.flatMap (·.2.targets) ++ s.targets) : ∃ d, (t, d) ∈ shared := by
  have found : ((Source.Shares.glossary shared schema.checker.enumNameOf).definition? t).isSome := by
    rcases List.mem_append.mp ht with ht | ht
    · obtain ⟨⟨key, definition⟩, hm, ht⟩ := List.mem_flatMap.mp ht
      obtain ⟨e, he, -, hd⟩ := h.shares.lives hm
      exact h.shares.resolves_definition Source.Live.mentions he hd _ t ht
    · exact h.resolves_root hs _ t ht
  obtain ⟨d, hd⟩ := Option.isSome_iff_exists.mp found
  exact ⟨d, Json.mem_of_lookup hd⟩

/-- A schema that presents a kind refers to what the kind leads to. -/
theorem refers (h : schema.Presents source kind names shared)
    (sorted : (schema.definitions.map (·.1)).Pairwise (· < ·)) :
    schema.Refers source kind names where
  injective := h.shares.injective
  enumKey {path} he := by
    obtain ⟨e, hm, hpath⟩ := h.shares.enumPaths.mp (h.shares.described_enum he)
    obtain ⟨-, name, hn, hk⟩ := h.shares.enumDescribed e hm
    refine ⟨e, hm, hpath, ?_⟩
    rw [← hpath, hn]
    exact hk.imp (congrArg some) (congrArg some)
  definitions key document := by
    rw [h.definitions, List.mem_map]
    constructor
    · rintro ⟨⟨name, definition⟩, hm, he⟩
      obtain ⟨rfl, rfl⟩ := Prod.mk.inj he
      obtain ⟨e, he, hk, hd⟩ := h.shares.lives hm
      exact ⟨e, definition, he, hk, hd, rfl⟩
    · rintro ⟨e, definition, he, hk, hd, rfl⟩
      exact ⟨(key, definition), h.shares.mem_iff.mpr ⟨e, he, hk, hd⟩, rfl⟩
  root := by
    obtain ⟨s, hs, hd⟩ := h.shape
    refine ⟨s, hs, ?_⟩
    rw [hd, h.definitions]
    rfl
  node k hk := by
    have keys : ∀ e ∈ k.mentions, (e.key? names).isSome := fun e he => by
      obtain ⟨name, -, hn, -⟩ := h.shares.defined (hk e he)
      rw [hn]
      rfl
    rw [← Kind.target?_node keys]
    exact (k.node names).references_fields
  references reference hr := by
    obtain ⟨s, hs, hd⟩ := h.shape
    rw [hd, s.references_document] at hr
    obtain ⟨t, ht, rfl⟩ := List.mem_map.mp hr
    obtain ⟨d, hm⟩ := h.mem_targets hs ht
    obtain ⟨e, he, hk, -⟩ := h.shares.lives hm
    refine ⟨e, t, he, hk, rfl, ?_⟩
    rw [h.definitions, List.map_map]
    exact List.mem_map.mpr ⟨_, hm, rfl⟩
  sorted := sorted

end Schema.Presents

/-- **References identify entities.**  In a schema that was built, whatever the names of classes and
enumerations are and in whatever order they are met, each entity has a key of its own; every reference
of the document is that to the key of an entity which its kind mentions, and under the key stands the
definition of that entity and of no other. -/
theorem references_identify_entities {source : Source} {kind : Kind} {schema : Schema}
    (h : schema.Built source kind) : ∃ names, schema.Refers source kind names := by
  obtain ⟨names, shared, presents⟩ := h.presents
  exact ⟨names, presents.refers h.sorted⟩

/-- Homes and their rooms, both with an enumeration of moods. -/
def homes : Table where
  classes := [
    ("Home",
      { properties := [
          { name := "mood", type := .int, className := "Home.Mood", usage := .classIsEnum },
          { name := "room", type := .object, className := "Room" }]
        enums := [("Mood", [("Calm", 0)])] }),
    ("Room",
      { properties := [
          { name := "mood", type := .int, className := "Room.Mood", usage := .classIsEnum }]
        enums := [("Mood", [("Dim", 0)])] })]

/-- The example home has a schema with three definitions. -/
theorem exists_schema_home : ∃ schema, (buildClass homes.source "Home" "").run.1 = .ok schema ∧
    schema.definitions.map (·.1) = ["Mood", "Room", "Room.Mood"] := by
  have keys : ((buildClass homes.source "Home" "").run.1.toOption.map fun schema =>
      schema.definitions.map (·.1)) = some ["Mood", "Room", "Room.Mood"] := by cbv
  obtain ⟨schema, hs, hk⟩ := Option.map_eq_some_iff.mp keys
  cases hb : (buildClass homes.source "Home" "").run.1 with
  | ok built =>
    rw [hb] at hs
    exact ⟨built, rfl, Option.some.inj hs ▸ hk⟩
  | error e =>
    rw [hb] at hs
    cases hs

/-- The moods of homes and of rooms stand under keys of their own. -/
theorem references_identify_home : ∃ schema names,
    (buildClass homes.source "Home" "").run.1 = .ok schema ∧
      schema.definitions.map (·.1) = ["Mood", "Room", "Room.Mood"] ∧
      schema.Refers homes.source (.object "Home") names := by
  obtain ⟨schema, h, keys⟩ := exists_schema_home
  obtain ⟨names, refers⟩ := references_identify_entities (.class h)
  exact ⟨schema, names, h, keys, refers⟩

end ReflectedSchema
