import ReflectedSchema.Proofs.Building.Built
import ReflectedSchema.Proofs.Decoding.Ensures
import ReflectedSchema.Proofs.Meaning.Conformance

/-!
# How decoding ends

Decoding is followed kind by kind.  A failure means that the value does not conform, and a result that
it does, unless it has a surplus; only an overflow and what the host raises say nothing about the value.
This needs no document: it is enough that the descriptors of a schema are `Complete`.
-/

namespace ReflectedSchema

open HostM

/-! ## Schemas that can be decoded by -/

/-- A schema that describes everything that is described entities lead to. -/
structure Schema.Complete (source : Source) (described : Entity → Prop) (schema : Schema) : Prop where
  classes : ∀ {name}, described (.class name) →
    ∃ c, schema.class? name = some c ∧ describeClass source name = .ok c
  enums : ∀ {owner name flags}, (Kind.enum owner name flags).WellFormed source.hasClass →
    described (.enum (enumPath owner name)) →
      ∃ e, schema.enum? (enumPath owner name) = some e ∧ source.members owner name = .ok e.members ∧
        e.members ≠ []
  closed : ∀ {e other}, described e → source.Mentions e other → described other

/-- What is found by a key that some item carries. -/
theorem exists_find? {α : Type} {keyOf : α → String} {items : List α} {key : String}
    (h : ∃ item ∈ items, keyOf item = key) :
    ∃ item ∈ items, keyOf item = key ∧ items.find? (keyOf · = key) = some item := by
  obtain ⟨item, hi, hk⟩ := h
  have some : (items.find? (keyOf · = key)).isSome :=
    List.find?_isSome.mpr ⟨item, hi, decide_eq_true hk⟩
  obtain ⟨found, hf⟩ := Option.isSome_iff_exists.mp some
  have carries : decide (keyOf found = key) = true := List.find?_some (p := (keyOf · = key)) hf
  exact ⟨found, List.mem_of_find?_eq_some hf, of_decide_eq_true carries, hf⟩

/-- A schema that presents a kind describes everything that the kind reaches. -/
theorem Schema.Presents.complete {source : Source} {kind : Kind} {names : String → Option String}
    {shared : List (String × Definition)} {schema : Schema}
    (h : schema.Presents source kind names shared) :
    schema.Complete source (source.Reaches kind) where
  classes {name} he := by
    obtain ⟨c, hc, rfl, hf⟩ := exists_find? (h.shares.classNames.mp he)
    exact ⟨c, hf, h.shares.classDescribed c hc⟩
  enums {owner name flags} hw he := by
    obtain ⟨e, hm, hpath, hf⟩ := exists_find? (h.shares.enumPaths.mp (h.shares.described_enum he))
    obtain ⟨described, -⟩ := h.shares.enumDescribed e hm
    obtain ⟨rfl, rfl⟩ := enumPath_injective described.ownerPlain described.namePlain hw.2.2.2.1
      hw.2.2.2.2 hpath
    exact ⟨e, hf, described.members, described.nonempty⟩
  closed := fun ⟨first, hf, hr⟩ hm => ⟨first, hf, hr.tail hm⟩

/-! ## Places inside a value -/

/-- A value directly inside another, each with the kind that it stands for. -/
inductive Source.Part (source : Source) : Kind × Json → Kind × Json → Prop
  | item {element : Kind} {length : Option Int} {items : List Json} {item : Json} (h : item ∈ items) :
      Part source (.array element length, .arr items) (element, item)
  | packed {tag : PackedTag} {items : List Json} {item : Json} (h : item ∈ items) :
      Part source (.packed tag, .arr items) (tag.element, item)
  | component {tag : StructTag} {fields : List (String × Json)} {component : String × Kind}
      {value : Json} (hc : component ∈ tag.layout)
      (hv : Json.lookup component.1 fields = some value) :
      Part source (.struct tag, .obj fields) (component.2, value)
  | property {c : ClassDescriptor} {fields : List (String × Json)} {p : PropertyDescriptor}
      {value : Json} (hc : describeClass source c.name = .ok c) (hp : p ∈ c.properties)
      (hv : Json.lookup p.name fields = some value) :
      Part source (.object c.name, .obj fields) (p.kind, value)

/-- No value struct inside a value has a component that its layout does not declare. -/
def Source.NoSurplus (source : Source) (kind : Kind) (v : Json) : Prop :=
  ∀ tag fields, Relation.ReflTransGen source.Part (kind, v) (.struct tag, .obj fields) →
    ∀ name, (Json.lookup name fields).isSome → name ∈ tag.layout.map (·.1)

/-- No part of a value has surplus components if the value has none inside. -/
theorem Source.NoSurplus.part {source : Source} {kind inner : Kind} {v w : Json}
    (h : source.NoSurplus kind v) (hp : source.Part (kind, v) (inner, w)) : source.NoSurplus inner w :=
  fun tag fields hr => h tag fields (.head hp hr)

/-! ## Refusals -/

/-- What is raised keeps a property when the properties around it are noted. -/
def Raised.Stays (fromHost : Raised → Prop) : Prop :=
  ∀ owner property e, fromHost e → fromHost (e.annotate owner property)

/-- What decoding may raise: that an integer is too large for a double, whatever a call to the host
raises, or a failure that the value does not fit, which is not that something has no schema. -/
inductive Refusal (fromHost : Raised → Prop) (fits : Prop) : Raised → Prop
  | overflow : Refusal fromHost fits (.fault .floatOverflow)
  | host {e : Raised} (h : fromHost e) : Refusal fromHost fits e
  | misfit {f : Failure} (hf : ¬ fits) (hc : ∀ name, f.cause ≠ .schemaNotFound name) :
      Refusal fromHost fits (.failure f)

namespace Refusal

variable {fromHost : Raised → Prop} {fits wider : Prop} {e : Raised}

/-- What does not fit one thing does not fit what implies it. -/
theorem mono (h : Refusal fromHost fits e) (hw : wider → fits) : Refusal fromHost wider e := by
  cases h with
  | overflow => exact .overflow
  | host h => exact .host h
  | misfit hf hc => exact .misfit (hf ∘ hw) hc

/-- A violation is a refusal of a value that does not fit. -/
theorem violation (hf : ¬ fits) (location : Location) (v : Violation) :
    Refusal fromHost fits (.violation location v) :=
  .misfit hf fun _ h => nomatch h

/-- A refusal stays one with a property noted. -/
theorem annotate (noted : Raised.Stays fromHost) (owner property : String)
    (h : Refusal fromHost fits e) : Refusal fromHost fits (e.annotate owner property) := by
  cases h with
  | overflow => exact .overflow
  | host h => exact .host (noted owner property e h)
  | misfit hf hc => exact .misfit hf hc

end Refusal

/-- A packed array takes any item, but an array of integers takes those inside its range only. -/
def PackedTag.Takes (tag : PackedTag) (item : HostValue) : Prop :=
  ∀ least most, tag.range = some (least, most) → ∃ n, item = .data (.int n) ∧ least ≤ n ∧ n ≤ most

/-- What the calls to a host may raise: objects of the classes that the source describes, with the
properties that it declares, value structs of all their components, and packed arrays of items that they
take. -/
structure Host.Raises {σ : Type} (host : Host σ) (source : Source)
    (isObject : String → HostValue → Prop) (fromHost : Raised → Prop) : Prop where
  construct : ∀ c, describeClass source c.name = .ok c →
    Ensures (isObject c.name) fromHost (host.construct c.name)
  setProperty : ∀ c, describeClass source c.name = .ok c → ∀ p ∈ c.properties, ∀ object value,
    isObject c.name object →
      Ensures (isObject c.name) fromHost (host.setProperty object p.name value)
  constructStruct : ∀ (tag : StructTag) (components : List (String × HostValue)),
    components.map (·.1) = tag.layout.map (·.1) →
      Ensures (fun _ => True) fromHost (host.constructStruct (.struct tag) components)
  constructPacked : ∀ (tag : PackedTag) (items : List HostValue), (∀ item ∈ items, tag.Takes item) →
    Ensures (fun _ => True) fromHost (host.constructPacked (.packed tag) items)

/-- What decoding as a kind says of the value that it ends in: it conforms to the kind unless some
value struct has a surplus component, and an integer is decoded as itself. -/
structure Decoded (source : Source) (kind : Kind) (v : Json) (result : HostValue) : Prop where
  conforms : source.NoSurplus kind v → source.Conforms kind v
  integer : kind = .integer → ∃ n, v.integer? = some n ∧ result = .data (.int n)

/-- A result that conforms, of a kind that is not that of integers. -/
theorem Decoded.of_conforms {source : Source} {kind : Kind} {v : Json} {result : HostValue}
    (h : source.NoSurplus kind v → source.Conforms kind v) (hk : kind ≠ .integer) :
    Decoded source kind v result :=
  ⟨h, fun hi => absurd hi hk⟩

/-! ## Decoding by kind -/

namespace Decoding

variable {σ : Type} {source : Source} {described : Entity → Prop}
  {isObject : String → HostValue → Prop} {fromHost : Raised → Prop} {d : Decoding σ}
  {location : Location}

/-- A place where decoding gives up, because the value does not fit. -/
theorem violated_ensures {α : Type} {P : α → Prop} {fits : Prop} (hf : ¬ fits) (v : Violation) :
    Ensures (σ := σ) P (Refusal fromHost fits) (violated location v) :=
  .of_throw (Refusal.violation hf location v)

/-- Decoding by any described kind ends as it should. -/
def Ends (source : Source) (described : Entity → Prop) (fromHost : Raised → Prop) (d : Decoding σ)
    (v : Json) : Prop :=
  ∀ kind : Kind, kind.WellFormed source.hasClass → (∀ e ∈ kind.mentions, described e) →
    ∀ location, Ensures (Decoded source kind v) (Refusal fromHost (source.Conforms kind v))
      (v.decode d kind location)

/-- Scalars are decoded without regard to what is described. -/
theorem scalar_ends {v : Json} {inside : Inside (Decoder σ)} :
    (Ensures (Decoded source .boolean v) (Refusal fromHost (source.Conforms .boolean v))
      (d.visit v inside .boolean location)) ∧
    (Ensures (Decoded source .integer v) (Refusal fromHost (source.Conforms .integer v))
      (d.visit v inside .integer location)) ∧
    (Ensures (Decoded source .number v) (Refusal fromHost (source.Conforms .number v))
      (d.visit v inside .number location)) ∧
    (Ensures (Decoded source .string v) (Refusal fromHost (source.Conforms .string v))
      (d.visit v inside .string location)) ∧
    (Ensures (Decoded source .dictionary v) (Refusal fromHost (source.Conforms .dictionary v))
      (d.visit v inside .dictionary location)) := by
  refine ⟨?_, ?_, ?_, ?_, ?_⟩
  · cases v with
    | bool b => exact .of_pure (.of_conforms (fun _ => .boolean b) (by decide))
    | _ => exact violated_ensures (fun h => by cases h) _
  · cases v with
    | int n => exact .of_pure ⟨fun _ => .integer (v := .int n) rfl, fun _ => ⟨n, rfl, rfl⟩⟩
    | float x =>
      simp only [visit]
      cases hx : x.toInt? with
      | some n => exact .of_pure ⟨fun _ => .integer (v := .float x) hx, fun _ => ⟨n, hx, rfl⟩⟩
      | none => exact violated_ensures (fun h => by cases h with | integer h => cases hx.symm.trans h) _
    | _ => exact violated_ensures (fun h => by cases h with | integer h => cases h) _
  · cases v with
    | int n =>
      simp only [visit]
      cases Binary64.ofInt? n with
      | some x => exact .of_pure (.of_conforms (fun _ => .numberInt n) (by decide))
      | none => exact .of_throw .overflow
    | float x => exact .of_pure (.of_conforms (fun _ => .numberFloat x) (by decide))
    | _ => exact violated_ensures (fun h => by cases h) _
  · cases v with
    | str text => exact .of_pure (.of_conforms (fun _ => .string text) (by decide))
    | _ => exact violated_ensures (fun h => by cases h) _
  · cases v with
    | obj fields => exact .of_pure (.of_conforms (fun _ => .dictionary fields) (by decide))
    | _ => exact violated_ensures (fun h => by cases h) _

/-- An array of anything is decoded, or it does not conform. -/
theorem anyArray_ends {v : Json} {inside : Inside (Decoder σ)} {length : Option Int} :
    Ensures (Decoded source (.anyArray length) v)
      (Refusal fromHost (source.Conforms (.anyArray length) v))
      (d.visit v inside (.anyArray length) location) := by
  cases v with
  | arr items =>
    refine (checkLength_ensures fun n hn hc => ?_).bind fun _ hl =>
      .of_pure (.of_conforms (fun _ => .anyArray hl) (by simp))
    exact .violation (fun h => by cases h with | anyArray hl => exact hc (hl n hn)) location _
  | _ => exact violated_ensures (fun h => by cases h) _

/-- The items of an array are decoded as what they are, if each is. -/
theorem items_ensure {items : List Json} {element : Kind} {fits : Prop}
    (parts : ∀ w ∈ (Json.arr items).parts, d.Ends source described fromHost w)
    (hw : element.WellFormed source.hasClass) (hd : ∀ e ∈ element.mentions, described e)
    (hf : fits → ∀ item ∈ items, source.Conforms element item) :
    Ensures (List.Forall₂ (Decoded source element) items) (Refusal fromHost fits)
      (itemsFrom element location 0 (items.map (·.decode d))) := by
  refine itemsFrom_ensures (fun item hi location => ?_) 0
  exact (parts item hi element hw hd location).mono (fun _ => id) fun e he =>
    he.mono fun h => hf h item hi

/-- What every item of a list says of the result that belongs to it. -/
theorem of_forall₂ {α β : Type} {R : α → β → Prop} {xs : List α} {ys : List β}
    (h : List.Forall₂ R xs ys) {x : α} (hx : x ∈ xs) : ∃ y ∈ ys, R x y :=
  let ⟨y, hy, hr⟩ := exists_of_mem_right h.flip hx
  ⟨y, hy, hr⟩

/-- An array is decoded item by item, or it does not conform. -/
theorem array_ends {v : Json} {element : Kind} {length : Option Int}
    (parts : ∀ w ∈ v.parts, d.Ends source described fromHost w)
    (hw : element.WellFormed source.hasClass) (hd : ∀ e ∈ element.mentions, described e) :
    Ensures (Decoded source (.array element length) v)
      (Refusal fromHost (source.Conforms (.array element length) v))
      (d.visit v (v.inside (·.decode d)) (.array element length) location) := by
  cases v with
  | arr items =>
    have fits : source.Conforms (.array element length) (.arr items) →
        HasLength length items ∧ ∀ item ∈ items, source.Conforms element item :=
      fun h => by cases h with | array hl h => exact ⟨hl, h⟩
    simp only [Json.inside, visit, List.length_map]
    refine (checkLength_ensures fun n hn hc =>
      .violation (fun h => hc ((fits h).1 n hn)) location _).bind fun _ hl => ?_
    refine (items_ensure parts hw hd fun h => (fits h).2).bind fun results hr => .of_pure ?_
    refine .of_conforms (fun surplus => .array hl fun item hi => ?_) (by simp)
    obtain ⟨result, -, decoded⟩ := of_forall₂ hr hi
    exact decoded.conforms (surplus.part (.item hi))
  | _ => exact violated_ensures (fun h => by cases h) _

/-- A packed array is decoded and packed, or it does not conform. -/
theorem packed_ends {v : Json} {tag : PackedTag} (hh : d.host.Raises source isObject fromHost)
    (parts : ∀ w ∈ v.parts, d.Ends source described fromHost w)
    (hd : ∀ e ∈ tag.element.mentions, described e) :
    Ensures (Decoded source (.packed tag) v) (Refusal fromHost (source.Conforms (.packed tag) v))
      (d.visit v (v.inside (·.decode d)) (.packed tag) location) := by
  have hw : tag.element.WellFormed source.hasClass := by cases tag <;> trivial
  cases v with
  | arr items =>
    have fits : source.Conforms (.packed tag) (.arr items) →
        (∀ item ∈ items, source.Conforms tag.element item) ∧ ∀ item ∈ items, tag.InRange item :=
      fun h => by cases h with | packed h hr => exact ⟨h, hr⟩
    simp only [Json.inside, visit]
    refine (items_ensure parts hw hd fun h => (fits h).1).bind fun results hr => ?_
    have make : (∀ item ∈ items, tag.InRange item) → (∀ result ∈ results, tag.Takes result) →
        Ensures (Decoded source (.packed tag) (.arr items))
          (Refusal fromHost (source.Conforms (.packed tag) (.arr items)))
          (d.host.constructPacked (.packed tag) results) := by
      intro hrange takes
      refine (hh.constructPacked _ _ takes).mono (fun _ _ => ?_) fun e he => .host he
      refine .of_conforms (fun surplus => .packed (fun item hi => ?_) hrange) (by simp)
      obtain ⟨result, -, decoded⟩ := of_forall₂ hr hi
      exact decoded.conforms (surplus.part (.packed hi))
    cases hrange : tag.range with
    | none =>
      exact make (fun item _ least most h => nomatch hrange.symm.trans h)
        fun result _ least most h => nomatch hrange.symm.trans h
    | some range =>
      obtain ⟨least, most⟩ := range
      -- A check compares the items, decoding their results, which are integers and the same.
      have integer : tag.element = .integer := by cases tag <;> first | rfl | cases hrange
      refine .bind (rangeFrom_ensures (fun result hresult n hn outside _ => ?_) 0)
        fun _ inside => make (fun item hi least' most' hrange' n hn => ?_)
          fun result hresult least' most' hrange' => ?_
      · obtain ⟨item, hi, decoded⟩ := exists_of_mem_right hr hresult
        obtain ⟨m, hm, rfl⟩ := decoded.integer integer
        cases hn
        refine .violation (fun h => ?_) _ _
        have := (fits h).2 item hi least most hrange n hm
        omega
      · cases hrange.symm.trans hrange'
        obtain ⟨result, hresult, decoded⟩ := of_forall₂ hr hi
        obtain ⟨m, hm, rfl⟩ := decoded.integer integer
        obtain rfl := Option.some.inj (hn.symm.trans hm)
        exact inside _ hresult n rfl
      · cases hrange.symm.trans hrange'
        obtain ⟨item, hi, decoded⟩ := exists_of_mem_right hr hresult
        obtain ⟨m, hm, rfl⟩ := decoded.integer integer
        exact ⟨m, rfl, inside _ hresult m rfl⟩
  | _ => exact violated_ensures (fun h => by cases h) _

/-- A member name is one exactly if it is looked up. -/
theorem lookup_eq_none_iff {e : EnumDescriptor} {value : Json} :
    value.str?.bind e.lookup = none ↔ ¬ ∃ text ∈ e.members.map (·.1), value = .str text := by
  cases value with
  | str text =>
    simp only [Json.str?, Option.bind_some, EnumDescriptor.lookup, Option.map_eq_none_iff,
      List.find?_eq_none, decide_eq_true_eq, List.mem_map, Json.str.injEq]
    constructor
    · rintro h ⟨_, ⟨m, hm, ht⟩, he⟩
      exact h m hm (ht.trans he.symm)
    · exact fun h m hm ht => h ⟨_, ⟨m, hm, ht⟩, rfl⟩
  | _ => simp [Json.str?]

/-- A member or a set of members is decoded, or the value does not conform. -/
theorem enum_ends {v : Json} {inside : Inside (Decoder σ)} {owner name : String} {flags : Bool}
    (hs : d.schema.Complete source described)
    (hw : (Kind.enum owner name flags).WellFormed source.hasClass)
    (hd : described (.enum (enumPath owner name))) :
    Ensures (Decoded source (.enum owner name flags) v)
      (Refusal fromHost (source.Conforms (.enum owner name flags) v))
      (d.visit v inside (.enum owner name flags) location) := by
  obtain ⟨e, he, hm, nonempty⟩ := hs.enums hw hd
  simp only [visit, enumValue, he]
  cases flags with
  | false =>
    rw [if_neg (by decide)]
    have fits : source.Conforms (.enum owner name false) v ↔ _ := Source.conforms_enum_iff hm
    rw [if_neg (by decide)] at fits
    refine (memberValue_ensures fun hn => ?_).bind fun value hv => .of_pure ?_
    · exact .violation (fun h => lookup_eq_none_iff.mp hn (fits.mp h)) location _
    · refine .of_conforms (fun _ => fits.mpr ?_) (by simp)
      exact not_not.mp fun h => nomatch hv.symm.trans (lookup_eq_none_iff.mpr h)
  | true =>
    rw [if_pos rfl]
    have fits : source.Conforms (.enum owner name true) v ↔ _ := Source.conforms_enum_iff hm
    rw [if_pos rfl] at fits
    cases v with
    | arr names =>
      refine (noFlags_ensures nonempty).bind fun empty _ => ?_
      refine (unionFrom_ensures (fun n hn hnone _ => ?_) 0 _).bind fun value hv => .of_pure ?_
      · refine .violation (fun h => lookup_eq_none_iff.mp hnone ?_) _ _
        obtain ⟨items, hitems, h⟩ := fits.mp h
        cases hitems
        exact h n hn
      · refine .of_conforms (fun _ => fits.mpr ⟨names, rfl, fun n hn => ?_⟩) (by simp)
        obtain ⟨values, hvalues, -⟩ := hv
        obtain ⟨value, -, hvalue⟩ := of_forall₂ hvalues hn
        exact not_not.mp fun h => nomatch hvalue.symm.trans (lookup_eq_none_iff.mpr h)
    | _ => exact violated_ensures (fun h => by cases h) _

/-- A declared field is decoded as what it is, if it is there. -/
theorem field_ends {fields : List (String × Json)} {name : String} {kind : Kind} {fits : Prop}
    (parts : ∀ w ∈ (Json.obj fields).parts, d.Ends source described fromHost w)
    (hw : kind.WellFormed source.hasClass) (hd : ∀ e ∈ kind.mentions, described e)
    (present : fits → (Json.lookup name fields).isSome)
    (hf : fits → ∀ value, Json.lookup name fields = some value → source.Conforms kind value) :
    Ensures (fun result => ∃ value, Json.lookup name fields = some value ∧
        Decoded source kind value result) (Refusal fromHost fits)
      (field (fields.map fun (name, value) => (name, value.decode d)) name kind location) := by
  rw [field, Json.lookup_map]
  cases hlookup : Json.lookup name fields with
  | none =>
    refine violated_ensures (fun h => ?_) _
    have := present h
    rw [hlookup] at this
    cases this
  | some value =>
    refine (parts value (Json.mem_parts_of_lookup hlookup) kind hw hd _).mono
      (fun _ decoded => ⟨value, rfl, decoded⟩) fun e he => he.mono fun h => hf h value hlookup

/-- Fields that were decoded are there, and they conform unless some value struct inside them has a
surplus component. -/
theorem fields_conform {α : Type} {key : α → String} {kindOf : α → Kind} {declared : List α}
    {fields : List (String × Json)} {results : List (String × HostValue)}
    (hr : List.Forall₂ (fun x out => out.1 = key x ∧ ∃ value, Json.lookup (key x) fields = some value ∧
      Decoded source (kindOf x) value out.2) declared results) :
    (∀ name ∈ declared.map key, (Json.lookup name fields).isSome) ∧
      ∀ x ∈ declared, ∀ value, Json.lookup (key x) fields = some value →
        source.NoSurplus (kindOf x) value → source.Conforms (kindOf x) value := by
  constructor
  · intro name hn
    obtain ⟨x, hx, rfl⟩ := List.mem_map.mp hn
    obtain ⟨_, -, -, value, hv, -⟩ := of_forall₂ hr hx
    exact Option.isSome_iff_exists.mpr ⟨value, hv⟩
  · intro x hx value hv
    obtain ⟨_, -, -, other, ho, decoded⟩ := of_forall₂ hr hx
    obtain rfl := Option.some.inj (hv.symm.trans ho)
    exact decoded.conforms

/-- A struct is made of its components, or the value does not conform. -/
theorem struct_ends {v : Json} {tag : StructTag} (hh : d.host.Raises source isObject fromHost)
    (parts : ∀ w ∈ v.parts, d.Ends source described fromHost w)
    (hd : ∀ component ∈ tag.layout, ∀ e ∈ component.2.mentions, described e) :
    Ensures (Decoded source (.struct tag) v) (Refusal fromHost (source.Conforms (.struct tag) v))
      (d.visit v (v.inside (·.decode d)) (.struct tag) location) := by
  cases v with
  | obj fields =>
    have fits : source.Conforms (.struct tag) (.obj fields) ↔ _ := Source.conforms_struct_iff
    simp only [Json.obj.injEq, exists_eq_left'] at fits
    simp only [Json.inside, visit]
    refine (components_ensures fun component hc => field_ends parts
      (StructTag.wellFormed_layout _ hc) (hd component hc)
      (fun h => ((fits.mp h).1 _).mpr (List.mem_map_of_mem hc))
      fun h => (fits.mp h).2 component hc).bind fun results hr => ?_
    have names : results.map (·.1) = tag.layout.map (·.1) := names_of_forall₂ hr fun _ _ h => h.1
    refine (hh.constructStruct _ _ names).mono (fun _ _ => ?_) fun e he => .host he
    obtain ⟨present, conform⟩ := fields_conform hr
    refine .of_conforms (fun surplus => fits.mpr ⟨fun name => ?_, fun component hc value hv => ?_⟩)
      (by simp)
    · exact ⟨surplus tag fields .refl name, present name⟩
    · exact conform component hc value hv (surplus.part (.component hc hv))
  | _ => exact violated_ensures (fun h => by cases h) _

/-- Setting properties one after the other. -/
theorem assign_ends {host : Host σ} (hh : host.Raises source isObject fromHost)
    (noted : Raised.Stays fromHost) {c : ClassDescriptor} (hc : describeClass source c.name = .ok c)
    {values : List (String × HostValue)} (declared : ∀ value ∈ values, value.1 ∈ c.propertyNames)
    {object : HostValue} (ho : isObject c.name object) :
    Ensures (fun _ => True) fromHost (assign host c.name object values) := by
  induction values generalizing object with
  | nil => exact .of_pure trivial
  | cons value rest ih =>
    obtain ⟨hv, hrest⟩ := List.forall_mem_cons.mp declared
    obtain ⟨p, hp, hname⟩ := List.mem_map.mp hv
    rw [assign, ← hname]
    exact ((hh.setProperty c hc p hp object value.2 ho).within (noted _ _)).bind fun _ => ih hrest

/-- An object that is given values for all its properties, in their order. -/
theorem build_ends {host : Host σ} (hh : host.Raises source isObject fromHost)
    (noted : Raised.Stays fromHost) {c : ClassDescriptor} (hc : describeClass source c.name = .ok c)
    {values : List (String × HostValue)} (names : values.map (·.1) = c.propertyNames) :
    Ensures (fun _ => True) fromHost (build host c.name values) :=
  (hh.construct c hc).bind fun _ ho =>
    assign_ends hh noted hc (fun _ hv => names ▸ List.mem_map_of_mem hv) ho

/-- A property is looked up exactly if its name is declared. -/
theorem isNone_property? (c : ClassDescriptor) (name : String) :
    (c.property? name).isNone = true ↔ name ∉ c.propertyNames := by
  simp only [ClassDescriptor.property?, ClassDescriptor.propertyNames, Option.isNone_iff_eq_none,
    List.find?_eq_none, decide_eq_true_eq, List.mem_map, not_exists, not_and]

/-- No decoder of a field is undeclared exactly if every name of the object is declared. -/
theorem find_undeclared_eq_none {c : ClassDescriptor} {fields : List (String × Json)} :
    (fields.map fun (name, value) => (name, value.decode d)).find?
        (fun (name, _) => (c.property? name).isNone) = none ↔
      ∀ name, (Json.lookup name fields).isSome → name ∈ c.propertyNames := by
  rw [List.find?_eq_none, List.forall_mem_map]
  constructor
  · intro h name hs
    obtain ⟨value, hv⟩ := Option.isSome_iff_exists.mp hs
    exact not_not.mp fun hn => h _ (Json.mem_of_lookup hv) ((isNone_property? c name).mpr hn)
  · intro h f hf hnone
    refine (isNone_property? c f.1).mp hnone (h f.1 ?_)
    exact Json.isSome_lookup_iff.mpr (List.mem_map_of_mem hf)

/-- An object is made and filled, or the value does not conform. -/
theorem object_ends {v : Json} {className : String} (hs : d.schema.Complete source described)
    (hh : d.host.Raises source isObject fromHost) (noted : Raised.Stays fromHost)
    (parts : ∀ w ∈ v.parts, d.Ends source described fromHost w)
    (hd : described (.class className)) :
    Ensures (Decoded source (.object className) v)
      (Refusal fromHost (source.Conforms (.object className) v))
      (d.visit v (v.inside (·.decode d)) (.object className) location) := by
  obtain ⟨c, hclass, hc⟩ := hs.classes hd
  obtain rfl := (describeClass_eq_ok hc).2.2.1
  simp only [visit, object, hclass]
  cases v with
  | obj fields =>
    have fits := Source.conforms_object_iff (v := .obj fields) hc
    simp only [Json.obj.injEq, exists_eq_left'] at fits
    simp only [Json.inside]
    split
    · rename_i name decoder hfind
      refine .of_throw (.misfit (fun h => ?_) fun _ h => by cases h)
      cases hfind.symm.trans (find_undeclared_eq_none.mpr fun name => ((fits.mp h).1 name).mp)
    · rename_i hfind
      have declared := find_undeclared_eq_none.mp hfind
      refine (properties_ensures (fun o p _ => Refusal.annotate noted o p) fun p hp =>
        field_ends parts (wellFormed_of_describeClass hc p hp)
          (fun e he => hs.closed hd (.property hc hp he))
          (fun h => ((fits.mp h).1 _).mpr (List.mem_map_of_mem hp))
          fun h => (fits.mp h).2 p hp).bind fun results hr => ?_
      obtain ⟨present, conform⟩ := fields_conform hr
      have conforms : source.NoSurplus (.object c.name) (.obj fields) →
          source.Conforms (.object c.name) (.obj fields) := by
        refine fun surplus => fits.mpr ⟨fun name => ?_, fun p hp value hv => ?_⟩
        · exact ⟨declared name, present name⟩
        · exact conform p hp value hv (surplus.part (.property hc hp hv))
      -- All properties are decoded by now, so only the host can fail.
      have names : results.map (·.1) = c.propertyNames := names_of_forall₂ hr fun _ _ h => h.1
      exact (build_ends hh noted hc names).mono (fun _ _ => .of_conforms conforms (by simp))
        fun e he => .host he
  | _ =>
    refine violated_ensures (fun h => ?_) _
    obtain ⟨_, h, -⟩ := (Source.conforms_object_iff hc).mp h
    cases h

end Decoding

/-- **How decoding ends.**  When a schema describes what a kind mentions, decoding a value as the kind
either gives a result, and then the value conforms to the kind unless some value struct has a surplus
component, or raises an overflow, something that the host raised, or a failure about a value that does
not conform. -/
theorem Json.decode_ends {σ : Type} {source : Source} {described : Entity → Prop}
    {isObject : String → HostValue → Prop} {fromHost : Raised → Prop} {d : Decoding σ}
    (hs : d.schema.Complete source described) (hh : d.host.Raises source isObject fromHost)
    (noted : Raised.Stays fromHost) (v : Json) : d.Ends source described fromHost v := by
  refine Json.inductionOnParts (P := d.Ends source described fromHost) v ?_
  intro v parts kind hw hd location
  rw [Json.decode_eq_visit]
  cases kind with
  | boolean => exact Decoding.scalar_ends.1
  | integer => exact Decoding.scalar_ends.2.1
  | number => exact Decoding.scalar_ends.2.2.1
  | string => exact Decoding.scalar_ends.2.2.2.1
  | dictionary => exact Decoding.scalar_ends.2.2.2.2
  | anyArray length => exact Decoding.anyArray_ends
  | array element length => exact Decoding.array_ends parts hw hd
  | packed tag => exact Decoding.packed_ends hh parts (Kind.mentions_packed tag ▸ hd)
  | enum owner name flags =>
    exact Decoding.enum_ends hs hw (hd _ (List.mem_singleton.mpr rfl))
  | struct tag =>
    exact Decoding.struct_ends hh parts fun component hc e he =>
      hs.closed (hd _ (List.mem_singleton.mpr rfl)) (.component hc he)
  | object className => exact Decoding.object_ends hs hh noted parts (hd _ (List.mem_singleton.mpr rfl))

/-! ## Decoding by a schema -/

/-- No value struct inside a value has a component that is not declared, and a wrapper has no property
but `value`. -/
def Schema.NoSurplus (source : Source) (schema : Schema) (v : Json) : Prop :=
  if schema.wrapped then
    ∀ fields, v = .obj fields → (∀ name, (Json.lookup name fields).isSome → name = "value") ∧
      ∀ inner, Json.lookup "value" fields = some inner → source.NoSurplus schema.root inner
  else source.NoSurplus schema.root v

/-- The kind of a shape is well-formed. -/
theorem Kind.HasShape.wellFormed {source : Source} {live : Entity → Prop}
    {names : String → Option String} {kind : Kind} {s : Shape}
    (h : kind.HasShape source live names s) : kind.WellFormed source.hasClass := by
  induction h with
  | node hw _ => exact hw
  | inline hc _ => exact (describeClass_eq_ok hc).1
  | items _ ih => exact ih

/-- The root kind of a schema that was built is well-formed. -/
theorem Schema.Presents.wellFormed {source : Source} {kind : Kind} {names : String → Option String}
    {shared : List (String × Definition)} {schema : Schema}
    (h : schema.Presents source kind names shared) : schema.root.WellFormed source.hasClass := by
  obtain ⟨s, hs, -⟩ := h.shape
  cases hs with
  | plain _ hs => exact hs.wellFormed
  | wrapped _ hk _ => exact hk

/-- **How decoding by a schema ends**, for a schema that presents a kind. -/
theorem Schema.Presents.decode_ends {σ : Type} {source : Source} {kind : Kind}
    {names : String → Option String} {shared : List (String × Definition)} {schema : Schema}
    (h : schema.Presents source kind names shared) {isObject : String → HostValue → Prop}
    {fromHost : Raised → Prop} {host : Host σ} (hh : host.Raises source isObject fromHost)
    (noted : Raised.Stays fromHost) (v : Json) :
    Ensures (fun _ => schema.NoSurplus source v → source.ConformsAtRoot schema.root schema.wrapped v)
      (Refusal fromHost (source.ConformsAtRoot schema.root schema.wrapped v))
      (schema.decode host v) := by
  have ends : ∀ w location, Ensures (Decoded source schema.root w)
      (Refusal fromHost (source.Conforms schema.root w)) (w.decode ⟨host, schema⟩ schema.root location) :=
    fun w => Json.decode_ends (d := ⟨host, schema⟩) h.complete hh noted w schema.root
      h.wellFormed
      fun e he => source.reaches_self (h.mentions ▸ he)
  unfold Schema.decode Schema.NoSurplus Source.ConformsAtRoot
  cases schema.wrapped with
  | false => exact (ends v []).mono (fun _ decoded => decoded.conforms) fun _ => id
  | true =>
    simp only [if_true]
    have missing : v.field? "value" = none → ¬ source.ConformsWrapped schema.root v := by
      rintro hv ⟨fields, rfl, keys, -⟩
      have := (keys "value").mpr (List.mem_singleton.mpr rfl)
      rw [show Json.lookup "value" fields = none from hv] at this
      cases this
    cases hv : v.field? "value" with
    | none => exact .of_throw (.violation (missing hv) _ _)
    | some inner =>
      obtain ⟨fields, rfl⟩ : ∃ fields, v = .obj fields := by
        cases v with
        | obj fields => exact ⟨fields, rfl⟩
        | _ => cases hv
      refine (ends inner _).mono (fun _ decoded surplus => ?_) fun e he => he.mono ?_
      · obtain ⟨only, hinner⟩ := surplus fields rfl
        refine ⟨fields, rfl, fun name => ⟨fun hn => List.mem_singleton.mpr (only name hn), fun hn => ?_⟩,
          fun value hvalue => ?_⟩
        · rw [List.mem_singleton.mp hn, show Json.lookup "value" fields = some inner from hv]
          rfl
        · obtain rfl := Option.some.inj (hv.symm.trans hvalue)
          exact decoded.conforms (hinner _ hvalue)
      · rintro ⟨fields', hfields, -, conforms⟩
        cases hfields
        exact conforms inner hv

end ReflectedSchema
