import ReflectedSchema.Proofs.Decoding.Outcome

/-!
# What decoding goes by

Decoding goes by the host and by the descriptors of the classes and enumerations that its kind leads to.
Schemas that describe these alike decode alike, whatever else is described in one of them.
-/

namespace ReflectedSchema

/-- Schemas agree on certain entities: they describe them alike, and these lead to no other ones. -/
structure Schema.AgreesOn (described : Entity → Prop) (schema other : Schema) : Prop where
  classes : ∀ {name}, described (.class name) → schema.class? name = other.class? name
  enums : ∀ {path}, described (.enum path) → schema.enum? path = other.enum? path
  properties : ∀ {name c}, described (.class name) → schema.class? name = some c →
    ∀ p ∈ c.properties, ∀ e ∈ p.kind.mentions, described e
  components : ∀ {tag}, described (.struct tag) →
    ∀ component ∈ tag.layout, ∀ e ∈ component.2.mentions, described e

/-- Schemas that describe everything that is described agree on it, if their enumerations are the same. -/
theorem Schema.Complete.agreesOn {source : Source} {described : Entity → Prop} {schema other : Schema}
    (h : schema.Complete source described) (enums : schema.enums = other.enums)
    (classes : ∀ {name}, described (.class name) →
      ∃ c, other.class? name = some c ∧ describeClass source name = .ok c) :
    schema.AgreesOn described other where
  classes hn := by
    obtain ⟨c, found, hc⟩ := h.classes hn
    obtain ⟨c', found', hc'⟩ := classes hn
    rw [found, found', Except.ok.inj (hc.symm.trans hc')]
  enums _ := by rw [Schema.enum?, enums, Schema.enum?]
  properties hn found p hp e he := by
    obtain ⟨c, found', hc⟩ := h.classes hn
    obtain rfl := Option.some.inj (found'.symm.trans found)
    exact h.closed hn (.property hc hp he)
  components ht component hc e he := h.closed ht (.component hc he)

namespace Decoding

variable {σ : Type}

/-! ## Loops -/

/-- Items are decoded by the decoders of the items. -/
theorem itemsFrom_congr {α : Type} {decoder other : α → Decoder σ} {kind : Kind} {xs : List α}
    (h : ∀ x ∈ xs, decoder x kind = other x kind) (location : Location) (index : Nat) :
    itemsFrom kind location index (xs.map decoder) = itemsFrom kind location index (xs.map other) := by
  induction xs generalizing index with
  | nil => rfl
  | cons x rest ih =>
    obtain ⟨hx, hrest⟩ := List.forall_mem_cons.mp h
    rw [List.map_cons, List.map_cons, itemsFrom, itemsFrom, hx, ih hrest]

/-- Components are decoded alike if their fields are. -/
theorem components_congr {children children' : List (String × Decoder σ)} {layout : List (String × Kind)}
    {location other : Location} (h : ∀ component ∈ layout,
      field children component.1 component.2 location = field children' component.1 component.2 other) :
    components children location layout = components children' other layout := by
  induction layout with
  | nil => rfl
  | cons component rest ih =>
    obtain ⟨hc, hrest⟩ := List.forall_mem_cons.mp h
    rw [components_cons, components_cons, hc, ih hrest]

/-- Properties are decoded alike if their fields are. -/
theorem properties_congr (className : String) {children children' : List (String × Decoder σ)}
    {ps : List PropertyDescriptor} {location other : Location} (h : ∀ p ∈ ps,
      field children p.name p.kind location = field children' p.name p.kind other) :
    properties className children location ps = properties className children' other ps := by
  induction ps with
  | nil => rfl
  | cons p rest ih =>
    obtain ⟨hp, hrest⟩ := List.forall_mem_cons.mp h
    rw [properties, properties, ih hrest]
    exact congrArg (fun call => HostM.within className p.name call >>= _) hp

/-! ## Schemas that agree -/

section

variable {described : Entity → Prop} {schema other : Schema} {host : Host σ}

/-- A value is decoded alike by the kinds that are described. -/
def Coincide (described : Entity → Prop) (host : Host σ) (schema other : Schema) (v : Json) : Prop :=
  ∀ kind : Kind, (∀ e ∈ kind.mentions, described e) →
    v.decode ⟨host, schema⟩ kind = v.decode ⟨host, other⟩ kind

/-- A field is decoded by both schemas alike, if its parts are. -/
theorem field_coincide {fields : List (String × Json)} {name : String} {kind : Kind}
    (parts : ∀ w ∈ (Json.obj fields).parts, Coincide described host schema other w)
    (hk : ∀ e ∈ kind.mentions, described e) (location : Location) :
    field (fields.map fun (name, value) => (name, value.decode ⟨host, schema⟩)) name kind location =
      field (fields.map fun (name, value) => (name, value.decode ⟨host, other⟩)) name kind location := by
  simp only [field, Json.lookup_map]
  cases hv : Json.lookup name fields with
  | none => rfl
  | some value => exact congrFun (parts value (Json.mem_parts_of_lookup hv) kind hk) _

/-- An object is decoded by both schemas alike, if they describe its class alike and its parts are. -/
theorem object_coincide (h : schema.AgreesOn described other) {v : Json} {className : String}
    (parts : ∀ w ∈ v.parts, Coincide described host schema other w)
    (hc : described (.class className)) (location : Location) :
    object ⟨host, schema⟩ className v (v.inside (·.decode ⟨host, schema⟩)) location =
      object ⟨host, other⟩ className v (v.inside (·.decode ⟨host, other⟩)) location := by
  simp only [object, ← h.classes hc]
  cases found : schema.class? className with
  | none => rfl
  | some c =>
    cases v with
    | obj fields =>
      have same := properties_congr className fun p hp =>
        field_coincide parts (h.properties hc found p hp) location
      simp only [Json.inside, List.find?_map, Function.comp_def, same]
      cases fields.find? fun x => (c.property? x.1).isNone <;> rfl
    | _ => rfl

end

end Decoding

/-- **Schemas that agree on what a kind leads to decode alike by it.** -/
theorem Schema.AgreesOn.decode_eq {σ : Type} {described : Entity → Prop} {schema other : Schema}
    (h : schema.AgreesOn described other) (host : Host σ) (v : Json) :
    Decoding.Coincide described host schema other v := by
  refine Json.inductionOnParts (P := Decoding.Coincide described host schema other) v ?_
  intro v parts kind hk
  rw [Json.decode_eq_visit, Json.decode_eq_visit]
  funext location
  cases kind with
  | array element length =>
    cases v with
    | arr items =>
      have same : Decoding.itemsFrom element location 0 (items.map (·.decode ⟨host, schema⟩)) =
          Decoding.itemsFrom element location 0 (items.map (·.decode ⟨host, other⟩)) :=
        Decoding.itemsFrom_congr (fun item hi => parts item hi element hk) location 0
      simp only [Json.inside, Decoding.visit, List.length_map, same]
    | _ => rfl
  | packed tag =>
    cases v with
    | arr items =>
      have known : ∀ e ∈ tag.element.mentions, described e := Kind.mentions_packed tag ▸ hk
      have same : Decoding.itemsFrom tag.element location 0 (items.map (·.decode ⟨host, schema⟩)) =
          Decoding.itemsFrom tag.element location 0 (items.map (·.decode ⟨host, other⟩)) :=
        Decoding.itemsFrom_congr (fun item hi => parts item hi tag.element known) location 0
      simp only [Json.inside, Decoding.visit, same]
    | _ => rfl
  | enum owner name flags =>
    simp only [Decoding.visit, Decoding.enumValue, h.enums (hk _ (List.mem_singleton.mpr rfl))]
  | struct tag =>
    cases v with
    | obj fields =>
      have same := Decoding.components_congr fun component hc => Decoding.field_coincide parts
        (h.components (hk _ (List.mem_singleton.mpr rfl)) component hc) location
      simp only [Json.inside, Decoding.visit, same]
    | _ => rfl
  | object className =>
    exact Decoding.object_coincide h parts (hk _ (List.mem_singleton.mpr rfl)) location
  | _ => cases v <;> rfl

/-- Schemas with the same descriptors decode alike. -/
theorem Decoding.decode_congr {σ : Type} (host : Host σ) (schema other : Schema)
    (hc : schema.classes = other.classes) (he : schema.enums = other.enums) (v : Json) :
    v.decode ⟨host, schema⟩ = v.decode ⟨host, other⟩ := by
  have agrees : schema.AgreesOn (fun _ => True) other :=
    ⟨fun _ => by rw [Schema.class?, hc, Schema.class?], fun _ => by rw [Schema.enum?, he, Schema.enum?],
      fun _ _ _ _ _ _ => True.intro, fun _ _ _ _ _ => True.intro⟩
  exact funext fun kind => agrees.decode_eq host v kind fun _ _ => True.intro

end ReflectedSchema
