import ReflectedSchema.Proofs.Building.Distinct
import ReflectedSchema.Proofs.Json.Order
import ReflectedSchema.Proofs.Json.Written

/-!
# Documents are legible

The keywords of a schema are words, texts, short integers and objects of a few levels, and no object has a key
twice: property names are distinct, as nothing is required twice, and so are the names of shared definitions.
So the document of a class or of a bare type is legible and seven levels deep at most, and each array around it
adds one level.
-/

namespace ReflectedSchema

open Json

/-! ## Legible values of some levels -/

/-- A legible value that nests at most so deep. -/
structure Json.LegibleWithin (levels : Nat) (v : Json) : Prop where
  legible : v.Legible
  shallow : v.depth ≤ levels

namespace Json.LegibleWithin

variable {levels more : Nat} {v : Json} {items : List Json} {fields others : List (String × Json)}

/-- A value may nest less deep than is allowed. -/
theorem mono (h : v.LegibleWithin levels) (hle : levels ≤ more) : v.LegibleWithin more :=
  ⟨h.legible, h.shallow.trans hle⟩

/-- A text nests nothing. -/
theorem str (s : String) : (Json.str s).LegibleWithin levels := ⟨.str s, Nat.zero_le _⟩

/-- A truth value nests nothing. -/
theorem bool (b : Bool) : (Json.bool b).LegibleWithin levels := ⟨.bool b, Nat.zero_le _⟩

/-- A short integer nests nothing. -/
theorem int {n : Int} (short : Short n) : (Json.int n).LegibleWithin levels := ⟨.int short, Nat.zero_le _⟩

/-- An object nests one level more than its fields, and it is legible if its keys are distinct. -/
theorem obj (distinct : (fields.map (·.1)).Nodup) (each : ∀ f ∈ fields, f.2.LegibleWithin levels) :
    (Json.obj fields).LegibleWithin (levels + 1) := by
  refine ⟨.obj distinct fun f hf => (each f hf).legible, ?_⟩
  rw [depth, Nat.add_le_add_iff_right, depthOfFields_le_iff_forall]
  exact fun f hf => (each f hf).shallow

/-- A list of texts is one level. -/
theorem texts (words : List String) : (Json.arr (words.map .str)).LegibleWithin (levels + 1) := by
  refine ⟨.arr fun item h => ?_, ?_⟩
  · obtain ⟨word, -, rfl⟩ := List.mem_map.mp h
    exact .str word
  · rw [depth, Nat.add_le_add_iff_right, depthOfItems_le_iff]
    intro item h
    obtain ⟨word, -, rfl⟩ := List.mem_map.mp h
    exact Nat.zero_le _

/-- A legible object has no key twice. -/
theorem nodup_keys (h : (Json.obj fields).LegibleWithin levels) : (fields.map (·.1)).Nodup := by
  cases h.legible with
  | obj distinct _ => exact distinct

/-- What is inside an object is as legible as the object. -/
theorem of_mem (h : (Json.obj fields).LegibleWithin levels) {f : String × Json} (hf : f ∈ fields) :
    f.2.LegibleWithin levels := by
  have shallow := depthOfFields_le_iff_forall.mp (Nat.le_of_add_right_le h.shallow) f hf
  cases h.legible with
  | obj distinct each => exact ⟨each f hf, shallow⟩

/-- Some of the fields of an object, in their order. -/
theorem sublist (h : (Json.obj fields).LegibleWithin levels) (hs : others.Sublist fields) :
    (Json.obj others).LegibleWithin levels := by
  have shallow := h.shallow
  cases h.legible with
  | obj distinct each =>
    refine ⟨.obj (distinct.sublist (hs.map _)) fun f hf => each f (hs.subset hf), le_trans ?_ shallow⟩
    rw [depth, depth, Nat.add_le_add_iff_right, depthOfFields_le_iff_forall]
    exact fun f hf => depthOfFields_le_iff_forall.mp (Nat.le_refl _) f (hs.subset hf)

end Json.LegibleWithin

/-! ## Nodes -/

/-- A node of short integers whose keywords nest at most so deep. -/
inductive Node.Plain : Nat → Node → Prop
  | scalar {levels : Nat} {type : ScalarType} {range : Option (Int × Int)}
      (short : ∀ r ∈ range, Short r.1 ∧ Short r.2) : Plain levels (.scalar type range)
  | anyObject {levels : Nat} : Plain levels .anyObject
  | ref {levels : Nat} {name : String} : Plain levels (.ref name)
  | anyArray {levels : Nat} {length : Option Int} (short : ∀ n ∈ length, Short n) :
      Plain levels (.anyArray length)
  | array {levels : Nat} {items : Node} {length : Option Int} (h : Plain levels items)
      (short : ∀ n ∈ length, Short n) : Plain (levels + 1) (.array items length)

namespace Node

variable {levels : Nat} {n : Node}

/-- A node has no keyword twice, and it leaves room for a description. -/
theorem nodup_keywords (n : Node) : ((n.fields).map (·.1) ++ ["description"]).Nodup := by
  cases n with
  | scalar type range => cases range <;> simp [fields, rangeFields]
  | anyArray length => cases length <;> simp [fields, lengthFields]
  | array items length => cases length <;> simp [fields, lengthFields]
  | _ => simp [fields]

/-- The keywords of a length are legible if it is short. -/
theorem legible_length {length : Option Int} (short : ∀ n ∈ length, Short n) :
    ∀ f ∈ lengthFields length, f.2.LegibleWithin levels := by
  cases length with
  | none => nofun
  | some n =>
    have same : (Json.int n).LegibleWithin levels := .int (short n rfl)
    exact List.forall_mem_cons.mpr ⟨same, List.forall_mem_singleton.mpr same⟩

/-- The keywords of a range are legible if its bounds are short. -/
theorem legible_range {range : Option (Int × Int)} (short : ∀ r ∈ range, Short r.1 ∧ Short r.2) :
    ∀ f ∈ rangeFields range, f.2.LegibleWithin levels := by
  cases range with
  | none => nofun
  | some r =>
    obtain ⟨least, most⟩ := short r rfl
    exact List.forall_mem_cons.mpr ⟨.int least, List.forall_mem_singleton.mpr (.int most)⟩

/-- **The keywords of a plain node are legible.** -/
theorem Plain.legible (h : n.Plain levels) : ∀ f ∈ n.fields, f.2.LegibleWithin levels := by
  induction h with
  | scalar short => exact List.forall_mem_cons.mpr ⟨.str _, legible_range short⟩
  | anyObject => exact List.forall_mem_singleton.mpr (.str _)
  | ref => exact List.forall_mem_singleton.mpr (.str _)
  | anyArray short => exact List.forall_mem_cons.mpr ⟨.str _, legible_length short⟩
  | @array levels items _ h short ih =>
    have inner : (Json.obj items.fields).LegibleWithin (levels + 1) :=
      .obj (List.nodup_append.mp items.nodup_keywords).1 ih
    exact List.forall_mem_cons.mpr ⟨.str _, List.forall_mem_cons.mpr ⟨inner, legible_length short⟩⟩

end Node

/-- The document of a property whose node is plain is legible. -/
theorem NodeProperty.legible {levels : Nat} {p : NodeProperty} (h : p.node.Plain levels) :
    p.toJson.LegibleWithin (levels + 1) := by
  rw [toJson]
  cases p.description with
  | none =>
    rw [Option.map_none, Option.toList_none, List.append_nil]
    exact .obj (List.nodup_append.mp p.node.nodup_keywords).1 h.legible
  | some text =>
    refine .obj ?_ (List.forall_mem_append.mpr ⟨h.legible, List.forall_mem_singleton.mpr (.str text)⟩)
    rw [List.map_append]
    exact p.node.nodup_keywords

/-! ## Definitions -/

/-- A definition whose properties have plain nodes, of three levels at most. -/
def Definition.Plain : Definition → Prop
  | .object properties => ∀ p ∈ properties, p.node.Plain 2
  | .enumeration _ => True

/-- **A definition of distinct properties is legible** if their nodes are plain. -/
theorem Definition.Plain.legible {d : Definition} (h : d.Plain) (distinct : d.Distinct) :
    (Json.obj d.fields).LegibleWithin 5 := by
  cases d with
  | enumeration members =>
    refine .obj (by simp [fields]) (List.forall_mem_cons.mpr ⟨.str _, ?_⟩)
    exact List.forall_mem_singleton.mpr (.texts members)
  | object properties =>
    have names : (Json.arr (properties.map fun p => .str p.name)).LegibleWithin 4 := by
      have words : (Json.arr ((properties.map (·.name)).map .str)).LegibleWithin 4 := .texts _
      rwa [List.map_map] at words
    have nodes : (Json.obj (properties.map fun p => (p.name, p.toJson))).LegibleWithin 4 := by
      refine .obj ?_ fun f hf => ?_
      · rw [List.map_map]
        exact distinct
      · obtain ⟨p, hp, rfl⟩ := List.mem_map.mp hf
        exact NodeProperty.legible (h p hp)
    refine .obj (by simp [fields]) (List.forall_mem_cons.mpr ⟨.str _, ?_⟩)
    exact List.forall_mem_cons.mpr ⟨nodes, List.forall_mem_cons.mpr ⟨names,
      List.forall_mem_singleton.mpr (.bool false)⟩⟩

/-- The items of packed arrays have plain nodes: their ranges fit into twenty digits. -/
theorem PackedTag.itemNode_plain (tag : PackedTag) {levels : Nat} : tag.itemNode.Plain levels := by
  have whole (range : Option (Int × Int)) (h : ∀ r ∈ range, r.1.natAbs < 10 ^ 20 ∧ r.2.natAbs < 10 ^ 20) :
      (Node.scalar .integer range).Plain levels :=
    .scalar fun r hr => ⟨short_of_lt (h r hr).1, short_of_lt (h r hr).2⟩
  cases tag with
  | byte => exact whole (range .byte) (by simp [range])
  | int32 => exact whole (range .int32) (by simp [range])
  | int64 => exact whole (range .int64) (by simp [range])
  | float32 | float64 | string => exact .scalar (by simp)
  | vector2 | vector3 | color | vector4 => exact .ref

/-! ## Kinds -/

section

variable {known : String → Bool} {kind : Kind} {names : String → Option String}

/-- A kind that items may have has a plain node. -/
theorem Kind.OfItem.plain (h : kind.OfItem known) {levels : Nat} :
    (kind.node names).Plain (levels + 1) := by
  cases h with
  | builtIn h =>
    cases h with
    | boolean | integer | number | string => exact .scalar (by simp)
    | dictionary => exact .anyObject
    | anyArray => exact .anyArray (by simp)
    | struct => exact .ref
    | packed tag => exact .array tag.itemNode_plain (by simp)
  | object => exact .ref
  | enum _ flags =>
    cases flags with
    | false => exact .ref
    | true => exact .array .ref (by simp)

/-- **What a property resolves to has a plain node.** -/
theorem resolve_plain {info : PropertyInfo} (h : resolve known info = .ok kind)
    (names : String → Option String) : (kind.node names).Plain 2 := by
  cases resolve_ofProperty h with
  | single item => exact item.plain
  | array item => exact .array item.plain (by simp)

/-- A described class has a plain definition. -/
theorem ClassDescriptor.plain {source : Source} {c : ClassDescriptor}
    (h : describeClass source c.name = .ok c) (names : String → Option String) :
    (c.definition names).Plain := by
  obtain ⟨-, -, -, infos, -, described⟩ := describeClass_eq_ok h
  intro p hp
  obtain ⟨q, hq, rfl⟩ := List.mem_map.mp hp
  obtain ⟨info, -, hd⟩ := exists_of_mem_right described hq
  exact resolve_plain (describeProperty_eq_ok hd).2 names

/-- A struct has a plain definition. -/
theorem StructTag.plain (tag : StructTag) : tag.definition.Plain := by
  have scalar {type : ScalarType} : (Node.scalar type none).Plain 2 := .scalar (by simp)
  have fixed {items : Node} {n : Int} (hi : items.Plain 1) (hn : n.natAbs < 10 ^ 20) :
      (Node.array items (some n)).Plain 2 :=
    .array hi fun k hk => by cases hk; exact short_of_lt hn
  have parts : ∀ component ∈ tag.layout, (component.2.node fun _ => none).Plain 2 := by
    intro component hc
    cases tag <;> simp only [layout, List.mem_cons, List.not_mem_nil, or_false] at hc <;>
      rcases hc with rfl | rfl | rfl | rfl <;>
        first | exact scalar | exact .ref | exact fixed .ref (by decide)
  rw [tag.definition_eq fun _ => none]
  intro p hp
  obtain ⟨component, hc, rfl⟩ := List.mem_map.mp hp
  exact parts component hc

/-- Every definition of a source is plain. -/
theorem Source.DefinitionOf.plain {source : Source} {names : String → Option String} {e : Entity}
    {definition : Definition} (h : source.DefinitionOf names e definition) : definition.Plain := by
  cases h with
  | «class» hc => exact ClassDescriptor.plain hc names
  | enum => trivial
  | struct tag => exact tag.plain

end

/-! ## Documents -/

section

variable {source : Source} {names : String → Option String} {shared : List (String × Definition)}
  {levels : Nat}

/-- The definitions that a schema shares are legible, if nothing is required twice in them. -/
theorem Source.Shares.legible {described live : Entity → Prop} {classes : List ClassDescriptor}
    {enums : List EnumDescriptor} (h : source.Shares described live names shared classes enums)
    (clean : (Json.obj (shared.map fun (name, d) => (name, d.toJson))).hasRepeatedRequired = false) :
    (Json.obj (shared.map fun (name, d) => (name, d.toJson))).LegibleWithin 6 := by
  refine .obj ?_ fun f hf => ?_
  · rw [List.map_map]
    exact h.distinct
  · obtain ⟨⟨name, definition⟩, hm, rfl⟩ := List.mem_map.mp hf
    obtain ⟨e, -, -, hd⟩ := h.lives hm
    exact hd.plain.legible (Definition.distinct_of_clean (Json.clean_of_mem clean hf))

/-- No key of a shape stands in front of it in a document. -/
theorem Shape.nodup_document (s : Shape) (h : (s.fields.map (·.1)).Nodup) :
    ("$schema" :: "$defs" :: s.fields.map (·.1)).Nodup := by
  have absent {key : String} (hk : key ∈ annotations) : key ∉ s.fields.map (·.1) :=
    (lookup_eq_none_iff _ _).mp (s.lookup_annotation hk)
  refine List.nodup_cons.mpr ⟨?_, List.nodup_cons.mpr ⟨absent (by decide), h⟩⟩
  rw [List.mem_cons, not_or]
  exact ⟨by decide, absent (by decide)⟩

/-- A document is legible if its definitions and the keywords of its root are. -/
theorem Shape.document_legible {s : Shape}
    (definitions : (Json.obj (shared.map fun (name, d) => (name, d.toJson))).LegibleWithin levels)
    (distinct : (s.fields.map (·.1)).Nodup) (root : ∀ f ∈ s.fields, f.2.LegibleWithin levels) :
    (s.document shared).LegibleWithin (levels + 1) :=
  .obj (s.nodup_document distinct)
    (List.forall_mem_cons.mpr ⟨.str _, List.forall_mem_cons.mpr ⟨definitions, root⟩⟩)

/-- The definitions and the root of a legible document are legible. -/
theorem Shape.legible_of_document {s : Shape} (h : (s.document shared).LegibleWithin levels) :
    (Json.obj (shared.map fun (name, d) => (name, d.toJson))).LegibleWithin levels ∧
      (Json.obj s.fields).LegibleWithin levels :=
  ⟨h.of_mem (f := ("$defs", _)) (by simp),
    h.sublist ((List.sublist_cons_self ..).trans (List.sublist_cons_self ..))⟩

/-- The shape under a wrapper is legible if the root is. -/
theorem Schema.Unwraps.legible {schema : Schema} {s inner : Shape} (h : schema.Unwraps names s inner)
    (root : (Json.obj s.fields).LegibleWithin levels) : (Json.obj inner.fields).LegibleWithin levels := by
  cases h with
  | plain => exact root
  | wrapped =>
    have properties := root.of_mem (f := ("properties", _)) (List.mem_cons_of_mem _ List.mem_cons_self)
    have value := properties.of_mem List.mem_cons_self
    exact NodeProperty.toJson_of_none "value" _ ▸ value

/-- The document of a class or of a bare type is legible and seven levels deep at most. -/
theorem Schema.OfKind.legible {kind : Kind} {schema : Schema} (h : schema.OfKind source kind)
    (plain : ∀ names, (kind.node names).Plain 2) (clean : schema.document.hasRepeatedRequired = false) :
    schema.document.LegibleWithin 7 := by
  -- The root is the definition of a class or of a wrapper; any object has no definitions at all.
  have laidOut {root : Definition} (hp : root.Plain)
      (clean : (Json.obj root.fields).hasRepeatedRequired = false) {shared : List (String × Definition)}
      (definitions : (Json.obj (shared.map fun (name, d) => (name, d.toJson))).LegibleWithin 6) :
      ((Shape.definition root).document shared).LegibleWithin 7 := by
    have legible := (hp.legible (Definition.distinct_of_clean clean)).mono (by decide : 5 ≤ 6)
    exact Shape.document_legible definitions legible.nodup_keys fun f hf => legible.of_mem hf
  cases h with
  | @«class» c title d opens =>
    rw [Schema.ofClass, Schema.laidOut, hasRepeatedRequired_assemble, Bool.or_eq_false_iff] at clean
    exact laidOut (ClassDescriptor.plain opens.describes _) clean.2
      ((opens.presents title).shares.legible clean.1)
  | dictionary title =>
    let shared : List (String × Definition) := []
    have none : (Json.obj (shared.map fun (name, d) => (name, d.toJson))).LegibleWithin 6 :=
      .obj .nil (List.forall_mem_nil _)
    have root : ((Shape.node .anyObject).fields.map (·.1)).Nodup := by simp [Shape.fields, Node.fields]
    exact Shape.document_legible none root (List.forall_mem_singleton.mpr (.str _))
  | wrapped hwrapped hw stands =>
    rw [Schema.ofKind, hasRepeatedRequired_assemble, Bool.or_eq_false_iff] at clean
    have wrapper : ∀ names, (kind.wrapper names).Plain := fun names =>
      List.forall_mem_singleton.mpr (plain names)
    exact laidOut (wrapper _) clean.2
      ((stands.presents hw hwrapped "").shares.legible clean.1)

/-- How many arrays a kind puts around what is inside them. -/
def Kind.arrays : Kind → Nat
  | .array element _ => element.arrays + 1
  | _ => 0

/-- **The document of a schema that was built is legible**: seven levels deep at most for a class or a bare
type, and one level deeper for each array around it. -/
theorem Schema.Built.legible {kind : Kind} {schema : Schema} (h : schema.Built source kind) :
    schema.document.LegibleWithin (7 + schema.root.arrays) := by
  induction h with
  | @«class» className title schema hb =>
    have clean := (Schema.Built.class hb).clean
    obtain ⟨after, yields⟩ := Build.yields_of_run hb
    obtain ⟨c, d, rfl, opens, rfl⟩ := buildClass_eq_ok yields
    exact (Schema.OfKind.class opens).legible (fun _ => .ref) clean
  | @type info kind schema hk hb =>
    have clean := (Schema.Built.type hk hb).clean
    obtain ⟨other, hk', ofKind⟩ := buildType_eq_ok hb
    obtain rfl := Except.ok.inj (hk.symm.trans hk')
    exact (ofKind.legible (resolve_plain hk) clean).mono (Nat.le_add_right ..)
  | @array kind item schema title hi hb ih =>
    obtain ⟨names, d, presents⟩ := hi.presents_finished
    obtain ⟨s, inner, hd, unwraps, -, rfl⟩ := arraySchema_eq_ok presents hb
    obtain ⟨definitions, root⟩ := Shape.legible_of_document (hd ▸ ih)
    exact Shape.document_legible definitions (by simp [Shape.fields])
      (List.forall_mem_cons.mpr ⟨.str _, List.forall_mem_singleton.mpr (unwraps.legible root)⟩)

end

end ReflectedSchema
