import ReflectedSchema.Proofs.Checking.Keys
import ReflectedSchema.Proofs.Decoding.Outcome
import ReflectedSchema.Proofs.Hosts.Raising

/-!
# The properties around a failure

A failure that decoding ends in carries the properties that were being handled when it arose, innermost
first.  `Schema.walk` reads the same properties off a location: it goes down the kinds of a schema, where
a step from an object to one of its properties goes through that property and any other step through
none.  `Schema.ArisesAt` lists where failures arise, each as it is there.  What is raised below a location
is `Traced`: it arose at a location that is walked to, and every property on the way was noted once.
-/

namespace ReflectedSchema

open HostM

/-! ## Ways down a schema -/

namespace Schema

/-- One step down from a kind: the property that it goes through, if any, and the kind behind it. -/
def follow (schema : Schema) : Kind → Step → Option (Option Frame × Kind)
  | .object className, .key name =>
    (schema.class? className).bind fun c =>
      (c.property? name).map fun p => (some ⟨className, name⟩, p.kind)
  | .array element _, .index _ => some (none, element)
  | .packed tag, .index _ => some (none, tag.element)
  | .enum owner name true, .index _ => some (none, .enum owner name false)
  | .struct tag, .key name => (Json.lookup name tag.layout).map (none, ·)
  | _, _ => none

/-- A way down from a kind: the properties that it goes through, outermost first, and the kind at its
end. -/
def walkFrom (schema : Schema) : Kind → Location → Option (List Frame × Kind)
  | kind, [] => some ([], kind)
  | kind, step :: rest =>
    (schema.follow kind step).bind fun target =>
      (schema.walkFrom target.2 rest).map fun way => (target.1.toList ++ way.1, way.2)

/-- A way down from the root of a schema, through the wrapper if there is one. -/
def walk (schema : Schema) (location : Location) : Option (List Frame × Kind) :=
  if schema.wrapped then
    match location with
    | .key "value" :: rest => schema.walkFrom schema.root rest
    | _ => none
  else schema.walkFrom schema.root location

variable {schema : Schema} {kind last next : Kind} {frames : List Frame} {frame : Option Frame}
  {location other : Location} {step : Step}

/-- A way down begins with its first step. -/
theorem walkFrom_cons (hf : schema.follow kind step = some (frame, next)) :
    schema.walkFrom kind (step :: location) =
      (schema.walkFrom next location).map fun way => (frame.toList ++ way.1, way.2) := by
  rw [walkFrom, hf, Option.bind_some]

/-- A way down goes one step further. -/
theorem walkFrom_concat (h : schema.walkFrom kind location = some (frames, last))
    (hf : schema.follow last step = some (frame, next)) :
    schema.walkFrom kind (location ++ [step]) = some (frames ++ frame.toList, next) := by
  induction location generalizing kind frames with
  | nil =>
    cases h
    rw [List.nil_append, walkFrom_cons hf, walkFrom, Option.map_some, List.append_nil, List.nil_append]
  | cons first rest ih =>
    cases hfirst : schema.follow kind first with
    | none =>
      rw [walkFrom, hfirst] at h
      cases h
    | some target =>
      obtain ⟨through, between⟩ := target
      rw [walkFrom_cons hfirst] at h
      obtain ⟨⟨later, end_⟩, hrest, same⟩ := Option.map_eq_some_iff.mp h
      cases same
      rw [List.cons_append, walkFrom_cons hfirst, ih hrest, Option.map_some, List.append_assoc]

/-- A way goes on with a step down from the kind at its end. -/
theorem walk_concat (h : schema.walk location = some (frames, last))
    (hf : schema.follow last step = some (frame, next)) :
    schema.walk (location ++ [step]) = some (frames ++ frame.toList, next) := by
  unfold walk at h ⊢
  split at h
  · rename_i wrapped
    rw [if_pos wrapped]
    split at h
    · exact walkFrom_concat h hf
    · cases h
  · rename_i wrapped
    rw [if_neg wrapped]
    exact walkFrom_concat h hf

/-- What a step leads to depends on the text of the step only. -/
theorem follow_text {other : Step} (h : (schema.follow kind step).isSome)
    (ho : (schema.follow kind other).isSome) (same : step.text = other.text) :
    schema.follow kind step = schema.follow kind other := by
  unfold follow at h ho ⊢
  split at h <;> split at ho <;> simp_all [Step.text]

/-- A way is known by the pointer of its location. -/
theorem walkFrom_names {way way' : List Frame × Kind} (h : schema.walkFrom kind location = some way)
    (ho : schema.walkFrom kind other = some way')
    (same : location.map Step.text = other.map Step.text) : way = way' := by
  induction location generalizing kind other way way' with
  | nil =>
    obtain rfl := List.map_eq_nil_iff.mp same.symm
    exact Option.some.inj (h.symm.trans ho)
  | cons step rest ih =>
    cases other with
    | nil => cases same
    | cons step' rest' =>
      obtain ⟨text, later⟩ := List.cons.inj same
      obtain ⟨⟨frame, next⟩, hf, h⟩ := Option.bind_eq_some_iff.mp h
      obtain ⟨⟨frame', next'⟩, hf', ho⟩ := Option.bind_eq_some_iff.mp ho
      have both := follow_text (Option.isSome_of_mem hf) (Option.isSome_of_mem hf') text
      cases hf.symm.trans (both.trans hf')
      obtain ⟨way, hway, rfl⟩ := Option.map_eq_some_iff.mp h
      obtain ⟨way', hway', rfl⟩ := Option.map_eq_some_iff.mp ho
      rw [ih hway hway' later]

/-- Two places whose steps read the same lie behind the same properties. -/
theorem walk_names {way way' : List Frame × Kind} (h : schema.walk location = some way)
    (ho : schema.walk other = some way') (same : location.map Step.text = other.map Step.text) :
    way = way' := by
  unfold walk at h ho
  split at h
  · rename_i wrapped
    rw [if_pos wrapped] at ho
    split at h
    · split at ho
      · exact walkFrom_names h ho (List.cons.inj same).2
      · cases ho
    · cases h
  · rename_i plain
    rw [if_neg plain] at ho
    exact walkFrom_names h ho same

end Schema

/-! ## Where failures arise -/

namespace Schema

variable {σ : Type}

/-- Where a failure arises when a value is decoded, and what it is there: a violation at the location that
it points to, an undeclared key at the object that has it, what a host refuses to make at the object, the
value struct or the packed array that it was to make, and what it refuses to set at the property. -/
inductive ArisesAt (schema : Schema) (host : Host σ) (v : Json) : Location → Failure → Prop
  | violation (location : Location) (x : Violation) :
      ArisesAt schema host v location { cause := .violation location.pointer x }
  | undeclared {location : Location} {frames : List Frame} {c : ClassDescriptor}
      {fields : List (String × Json)} {name : String}
      (hw : schema.walk location = some (frames, .object c.name))
      (hc : schema.class? c.name = some c) (hv : v.at? location = some (.obj fields))
      (present : (Json.lookup name fields).isSome) (undeclared : name ∉ c.propertyNames) :
      ArisesAt schema host v location { cause := .unknownProperty c.name name }
  | construct {location : Location} {frames : List Frame} {className : String}
      {fields : List (String × Json)} {f : Failure}
      (hw : schema.walk location = some (frames, .object className))
      (hv : v.at? location = some (.obj fields))
      (refused : (host.construct className).MayRaise (.failure f)) : ArisesAt schema host v location f
  | setProperty {location : Location} {frames : List Frame} {c : ClassDescriptor}
      {fields : List (String × Json)} {object value : HostValue} {property : String} {f : Failure}
      (hw : schema.walk location = some (frames, .object c.name))
      (hc : schema.class? c.name = some c) (hv : v.at? location = some (.obj fields))
      (declared : property ∈ c.propertyNames)
      (refused : (host.setProperty object property value).MayRaise (.failure f)) :
      ArisesAt schema host v (location ++ [.key property]) f
  | constructStruct {location : Location} {frames : List Frame} {tag : StructTag}
      {fields : List (String × Json)} {components : List (String × HostValue)} {f : Failure}
      (hw : schema.walk location = some (frames, .struct tag))
      (hv : v.at? location = some (.obj fields))
      (refused : (host.constructStruct (.struct tag) components).MayRaise (.failure f)) :
      ArisesAt schema host v location f
  | constructPacked {location : Location} {frames : List Frame} {tag : PackedTag} {items : List Json}
      {xs : List HostValue} {f : Failure} (hw : schema.walk location = some (frames, .packed tag))
      (hv : v.at? location = some (.arr items))
      (refused : (host.constructPacked (.packed tag) xs).MayRaise (.failure f)) :
      ArisesAt schema host v location f

/-- A failure that is raised behind the properties `outer` arose behind these and some more, and the
latter were noted. -/
def Traced (schema : Schema) (host : Host σ) (v : Json) (outer : List Frame) (e : Raised) : Prop :=
  ∀ f, e = .failure f → ∃ location inner last raised,
    schema.walk location = some (outer ++ inner, last) ∧ schema.ArisesAt host v location raised ∧
      f = { cause := raised.cause, context := raised.context ++ inner.reverse }

namespace Traced

variable {schema : Schema} {host : Host σ} {v : Json} {outer : List Frame} {kind : Kind}
  {location : Location}

/-- A fault is no failure that could be traced. -/
theorem fault (x : Fault) : schema.Traced host v outer (.fault x) :=
  fun _ h => nomatch h

/-- A failure that arises behind properties is raised behind them, with no property noted yet. -/
theorem of_arises {f : Failure} (hw : schema.walk location = some (outer, kind))
    (h : schema.ArisesAt host v location f) : schema.Traced host v outer (.failure f) := by
  rintro _ ⟨⟩
  exact ⟨location, [], kind, f, (List.append_nil outer).symm ▸ hw, h, by simp⟩

/-- **The innermost property of those behind which a failure is raised is noted next.** -/
theorem annotate {e : Raised} {owner property : String}
    (h : schema.Traced host v (outer ++ [⟨owner, property⟩]) e) :
    schema.Traced host v outer (e.annotate owner property) := by
  cases e with
  | fault x => exact fault x
  | failure f =>
    rintro _ ⟨⟩
    obtain ⟨location, inner, last, raised, hw, arises, rfl⟩ := h f rfl
    refine ⟨location, ⟨owner, property⟩ :: inner, last, raised, ?_, arises, ?_⟩
    · rwa [List.append_assoc] at hw
    · simp [Failure.annotate]

end Traced

end Schema

/-! ## Decoding by kind -/

/-- An item stands at its index. -/
theorem Json.at?_index {root item : Json} {location : Location} {items : List Json} {i : Nat}
    (h : root.at? location = some (.arr items)) (hi : items[i]? = some item) :
    root.at? (location ++ [.index i]) = some item := by
  rw [Json.at?_append, h, Option.bind_some, at?, hi]
  rfl

/-- A field stands at its name. -/
theorem Json.at?_key {root value : Json} {location : Location} {fields : List (String × Json)}
    {name : String} (h : root.at? location = some (.obj fields))
    (hv : lookup name fields = some value) : root.at? (location ++ [.key name]) = some value := by
  rw [Json.at?_append, h, Option.bind_some, at?, hv]
  rfl

namespace Decoding

variable {σ : Type} {source : Source} {described : Entity → Prop} {d : Decoding σ} {root : Json}
  {location : Location} {outer : List Frame}

/-- Decoding a value inside another by any described kind raises what is traced. -/
def Traces (source : Source) (described : Entity → Prop) (d : Decoding σ) (root v : Json) : Prop :=
  ∀ kind : Kind, kind.WellFormed source.hasClass → (∀ e ∈ kind.mentions, described e) →
    ∀ location outer, d.schema.walk location = some (outer, kind) → root.at? location = some v →
      Ensures (fun _ => True) (d.schema.Traced d.host root outer) (v.decode d kind location)

/-- A violation arises where decoding is. -/
theorem traced_violation {kind : Kind} (hw : d.schema.walk location = some (outer, kind))
    (x : Violation) : d.schema.Traced d.host root outer (.violation location x) :=
  .of_arises hw (.violation location x)

/-- A violation arises where it is raised. -/
theorem violated_traces {α : Type} {P : α → Prop} {kind : Kind}
    (hw : d.schema.walk location = some (outer, kind)) (x : Violation) :
    Ensures (σ := σ) P (d.schema.Traced d.host root outer) (violated location x) :=
  .of_throw (traced_violation hw x)

/-- A violation one step further down, through no property. -/
theorem traced_violation_below {kind next : Kind} {step : Step}
    (hw : d.schema.walk location = some (outer, kind))
    (hf : d.schema.follow kind step = some (none, next)) (x : Violation) :
    d.schema.Traced d.host root outer (.violation (location ++ [step]) x) := by
  have below := Schema.walk_concat hw hf
  rw [Option.toList_none, List.append_nil] at below
  exact traced_violation below x

/-- Scalars are decoded, are violations, or are too large. -/
theorem visit_scalar (d : Decoding σ) (v : Json) (inside : Inside (Decoder σ)) (location : Location)
    {kind : Kind} (scalar : kind ∈ [.boolean, .integer, .number, .string, .dictionary]) :
    (∃ x, d.visit v inside kind location = pure x) ∨
      (∃ x, d.visit v inside kind location = violated location x) ∨
        ∃ x, d.visit v inside kind location = throw (.fault x) := by
  simp only [List.mem_cons, List.not_mem_nil, or_false] at scalar
  rcases scalar with rfl | rfl | rfl | rfl | rfl
  · cases v with
    | bool b => exact .inl ⟨_, rfl⟩
    | _ => exact .inr (.inl ⟨_, rfl⟩)
  · cases v with
    | int n => exact .inl ⟨_, rfl⟩
    | float x =>
      simp only [visit]
      cases x.toInt? with
      | some n => exact .inl ⟨_, rfl⟩
      | none => exact .inr (.inl ⟨_, rfl⟩)
    | _ => exact .inr (.inl ⟨_, rfl⟩)
  · cases v with
    | int n =>
      simp only [visit]
      cases Binary64.ofInt? n with
      | some x => exact .inl ⟨_, rfl⟩
      | none => exact .inr (.inr ⟨_, rfl⟩)
    | float x => exact .inl ⟨_, rfl⟩
    | _ => exact .inr (.inl ⟨_, rfl⟩)
  · cases v with
    | str text => exact .inl ⟨_, rfl⟩
    | _ => exact .inr (.inl ⟨_, rfl⟩)
  · cases v with
    | obj fields => exact .inl ⟨_, rfl⟩
    | _ => exact .inr (.inl ⟨_, rfl⟩)

/-- A scalar or a dictionary fails where it stands. -/
theorem scalar_traces {v : Json} {inside : Inside (Decoder σ)} {kind : Kind}
    (scalar : kind ∈ [.boolean, .integer, .number, .string, .dictionary])
    (hw : d.schema.walk location = some (outer, kind)) :
    Ensures (fun _ => True) (d.schema.Traced d.host root outer) (d.visit v inside kind location) := by
  rcases visit_scalar d v inside location scalar with ⟨x, h⟩ | ⟨x, h⟩ | ⟨x, h⟩ <;> rw [h]
  · exact .of_pure trivial
  · exact violated_traces hw x
  · exact .of_throw (.fault x)

/-- An array of anything fails where it stands. -/
theorem anyArray_traces {v : Json} {inside : Inside (Decoder σ)} {length : Option Int}
    (hw : d.schema.walk location = some (outer, .anyArray length)) :
    Ensures (fun _ => True) (d.schema.Traced d.host root outer)
      (d.visit v inside (.anyArray length) location) := by
  cases v with
  | arr items =>
    exact (checkLength_ensures fun _ _ _ => traced_violation hw _).bind fun _ _ => .of_pure trivial
  | _ => exact violated_traces hw _

/-- The items of an array are traced behind the same properties as the array. -/
theorem items_trace {kind element : Kind} {items : List Json}
    (parts : ∀ w ∈ (Json.arr items).parts, d.Traces source described root w)
    (hw : d.schema.walk location = some (outer, kind))
    (hf : ∀ i, d.schema.follow kind (.index i) = some (none, element))
    (hk : element.WellFormed source.hasClass) (hd : ∀ e ∈ element.mentions, described e)
    (hv : root.at? location = some (.arr items)) :
    Ensures (fun _ => True) (d.schema.Traced d.host root outer)
      (itemsFrom element location 0 (items.map (·.decode d))) := by
  refine (itemsFrom_ensures_at (R := fun _ _ => True) fun i item hi => ?_).mono (fun _ _ => trivial)
    fun _ => id
  have below := Schema.walk_concat hw (hf (0 + i))
  rw [Option.toList_none, List.append_nil] at below
  refine parts item (List.mem_of_getElem? hi) element hk hd _ outer below ?_
  rw [Nat.zero_add]
  exact Json.at?_index hv hi

/-- An array fails where it stands, or in one of its items. -/
theorem array_traces {v : Json} {element : Kind} {length : Option Int}
    (parts : ∀ w ∈ v.parts, d.Traces source described root w)
    (hk : element.WellFormed source.hasClass) (hd : ∀ e ∈ element.mentions, described e)
    (hw : d.schema.walk location = some (outer, .array element length))
    (hv : root.at? location = some v) :
    Ensures (fun _ => True) (d.schema.Traced d.host root outer)
      (d.visit v (v.inside (·.decode d)) (.array element length) location) := by
  cases v with
  | arr items =>
    simp only [Json.inside, visit, List.length_map]
    refine (checkLength_ensures fun _ _ _ => traced_violation hw _).bind fun _ _ => ?_
    exact (items_trace parts hw (fun _ => rfl) hk hd hv).bind fun _ _ => .of_pure trivial
  | _ => exact violated_traces hw _

/-- A packed array fails where it stands or in one of its items, or when it is packed. -/
theorem packed_traces {v : Json} {tag : PackedTag}
    (parts : ∀ w ∈ v.parts, d.Traces source described root w)
    (hd : ∀ e ∈ tag.element.mentions, described e)
    (hw : d.schema.walk location = some (outer, .packed tag)) (hv : root.at? location = some v) :
    Ensures (fun _ => True) (d.schema.Traced d.host root outer)
      (d.visit v (v.inside (·.decode d)) (.packed tag) location) := by
  have hk : tag.element.WellFormed source.hasClass := by cases tag <;> trivial
  cases v with
  | arr items =>
    simp only [Json.inside, visit]
    refine (items_trace parts hw (fun _ => rfl) hk hd hv).bind fun xs _ => ?_
    have make : Ensures (fun _ => True) (d.schema.Traced d.host root outer)
        (d.host.constructPacked (.packed tag) xs) := .of_call fun e refused f he =>
      Schema.Traced.of_arises hw (.constructPacked hw hv (he ▸ refused)) f rfl
    cases tag.range with
    | none => exact make
    | some bounds =>
      exact (rangeFrom_ensures (fun _ _ _ _ _ _ => traced_violation_below hw rfl _) 0).bind
        fun _ _ => make
  | _ => exact violated_traces hw _

/-- The value of an enumeration fails where it stands, or at a name inside it. -/
theorem enum_traces {v : Json} {inside : Inside (Decoder σ)} {owner name : String} {flags : Bool}
    (hs : d.schema.Complete source described)
    (hk : (Kind.enum owner name flags).WellFormed source.hasClass)
    (hd : described (.enum (enumPath owner name)))
    (hw : d.schema.walk location = some (outer, .enum owner name flags)) :
    Ensures (fun _ => True) (d.schema.Traced d.host root outer)
      (d.visit v inside (.enum owner name flags) location) := by
  obtain ⟨e, he, hm, nonempty⟩ := hs.enums hk hd
  simp only [visit, enumValue, he]
  cases flags with
  | false =>
    rw [if_neg (by decide)]
    exact (memberValue_ensures fun _ => traced_violation hw _).bind fun _ _ => .of_pure trivial
  | true =>
    rw [if_pos rfl]
    cases v with
    | arr names =>
      refine (noFlags_ensures nonempty).bind fun _ _ => ?_
      exact (unionFrom_ensures (fun _ _ _ _ => traced_violation_below hw rfl _) 0 _).bind
        fun _ _ => .of_pure trivial
    | _ => exact violated_traces hw _

/-- A field that a step leads to is traced behind the properties of the step. -/
theorem field_traces {fields : List (String × Json)} {name : String} {kind : Kind} {inner : List Frame}
    (parts : ∀ w ∈ (Json.obj fields).parts, d.Traces source described root w)
    (hk : kind.WellFormed source.hasClass) (hd : ∀ e ∈ kind.mentions, described e)
    (below : d.schema.walk (location ++ [.key name]) = some (inner, kind))
    (hv : root.at? location = some (.obj fields)) :
    Ensures (fun _ => True) (d.schema.Traced d.host root inner)
      (field (fields.map fun (name, value) => (name, value.decode d)) name kind location) := by
  rw [field, Json.lookup_map]
  cases hlookup : Json.lookup name fields with
  | none => exact violated_traces below _
  | some value =>
    exact parts value (Json.mem_parts_of_lookup hlookup) kind hk hd _ inner below
      (Json.at?_key hv hlookup)

/-- A struct fails where it stands or in one of its components, or when it is made. -/
theorem struct_traces {v : Json} {tag : StructTag}
    (parts : ∀ w ∈ v.parts, d.Traces source described root w)
    (hd : ∀ component ∈ tag.layout, ∀ e ∈ component.2.mentions, described e)
    (hw : d.schema.walk location = some (outer, .struct tag)) (hv : root.at? location = some v) :
    Ensures (fun _ => True) (d.schema.Traced d.host root outer)
      (d.visit v (v.inside (·.decode d)) (.struct tag) location) := by
  cases v with
  | obj fields =>
    simp only [Json.inside, visit]
    refine (components_ensures (R := fun _ _ => True) fun component hc => ?_).bind fun _ _ =>
      .of_call fun e refused f he =>
        Schema.Traced.of_arises hw (.constructStruct hw hv (he ▸ refused)) f rfl
    have found : Json.lookup component.1 tag.layout = some component.2 :=
      (Json.lookup_eq_some_iff (StructTag.distinct_layout tag)).mpr hc
    have hf : d.schema.follow (.struct tag) (.key component.1) = some (none, component.2) := by
      rw [Schema.follow, found]
      rfl
    have below := Schema.walk_concat hw hf
    rw [Option.toList_none, List.append_nil] at below
    exact field_traces parts (StructTag.wellFormed_layout _ hc) (hd component hc) below hv
  | _ => exact violated_traces hw _

/-- A property of an object is traced behind itself. -/
theorem walk_property {c : ClassDescriptor} (hc : d.schema.class? c.name = some c)
    (distinct : c.propertyNames.Nodup) {p : PropertyDescriptor} (hp : p ∈ c.properties)
    (hw : d.schema.walk location = some (outer, .object c.name)) :
    d.schema.walk (location ++ [.key p.name]) = some (outer ++ [⟨c.name, p.name⟩], p.kind) := by
  have carried : ∃ q ∈ c.properties, q.name = p.name := ⟨p, hp, rfl⟩
  obtain ⟨q, hq, hname, found⟩ := exists_find? carried
  obtain rfl := List.inj_on_of_nodup_map distinct hq hp hname
  have hf : d.schema.follow (.object c.name) (.key q.name) = some (some ⟨c.name, q.name⟩, q.kind) := by
    rw [Schema.follow, hc, Option.bind_some, ClassDescriptor.property?, found]
    rfl
  exact Schema.walk_concat hw hf

/-- What a host refuses to set is traced to the property. -/
theorem assign_traces {c : ClassDescriptor} (hc : d.schema.class? c.name = some c)
    (distinct : c.propertyNames.Nodup) (hw : d.schema.walk location = some (outer, .object c.name))
    {fields : List (String × Json)} (hv : root.at? location = some (.obj fields))
    {values : List (String × HostValue)} (declared : ∀ value ∈ values, value.1 ∈ c.propertyNames)
    (object : HostValue) :
    Ensures (fun _ => True) (d.schema.Traced d.host root outer)
      (assign d.host c.name object values) := by
  induction values generalizing object with
  | nil => exact .of_pure trivial
  | cons value rest ih =>
    obtain ⟨hvalue, hrest⟩ := List.forall_mem_cons.mp declared
    obtain ⟨p, hp, hname⟩ := List.mem_map.mp hvalue
    rw [assign, ← hname]
    have set : Ensures (fun _ => True) (d.schema.Traced d.host root (outer ++ [⟨c.name, p.name⟩]))
        (d.host.setProperty object p.name value.2) := .of_call fun e refused f he =>
      Schema.Traced.of_arises (walk_property hc distinct hp hw)
        (.setProperty hw hc hv (List.mem_map_of_mem hp) (he ▸ refused)) f rfl
    exact (set.within fun _ => .annotate).bind fun _ _ => ih hrest _

/-- An object fails where it stands, in one of its properties, which is noted then, or when it is made and
filled. -/
theorem object_traces {v : Json} {className : String} (hs : d.schema.Complete source described)
    (distinct : d.schema.Distinct) (parts : ∀ w ∈ v.parts, d.Traces source described root w)
    (hd : described (.class className))
    (hw : d.schema.walk location = some (outer, .object className))
    (hv : root.at? location = some v) :
    Ensures (fun _ => True) (d.schema.Traced d.host root outer)
      (d.visit v (v.inside (·.decode d)) (.object className) location) := by
  obtain ⟨c, hclass, hc⟩ := hs.classes hd
  obtain rfl := (describeClass_eq_ok hc).2.2.1
  have once : c.propertyNames.Nodup := distinct c (List.mem_of_find?_eq_some hclass)
  simp only [visit, object, hclass]
  cases v with
  | obj fields =>
    simp only [Json.inside]
    split
    · rename_i name decoder hfind
      refine .of_throw (.of_arises hw (.undeclared hw hclass hv ?_ ?_))
      · obtain ⟨f, hf, same⟩ := List.mem_map.mp (List.mem_of_find?_eq_some hfind)
        cases same
        exact Json.isSome_lookup_iff.mpr (List.mem_map_of_mem hf)
      · exact (isNone_property? c name).mp (by simpa using List.find?_some hfind)
    · refine (properties_ensures_within (R := fun _ _ => True) fun p hp =>
        (field_traces parts (wellFormed_of_describeClass hc p hp)
          (fun e he => hs.closed hd (.property hc hp he)) (walk_property hclass once hp hw)
          hv).within fun _ => .annotate).bind fun results hr => ?_
      have names : results.map (·.1) = c.propertyNames := names_of_forall₂ hr fun _ _ h => h.1
      have constructed : Ensures (fun _ => True) (d.schema.Traced d.host root outer)
          (d.host.construct c.name) := .of_call fun e refused f he =>
        Schema.Traced.of_arises hw (.construct hw hv (he ▸ refused)) f rfl
      exact constructed.bind fun object _ =>
        assign_traces hclass once hw hv (fun _ h => names ▸ List.mem_map_of_mem h) object
  | _ => exact violated_traces hw _

end Decoding

/-- **What decoding raises is traced**, when a schema describes what the kind mentions. -/
theorem Json.decode_traces {σ : Type} {source : Source} {described : Entity → Prop} {d : Decoding σ}
    (hs : d.schema.Complete source described) (distinct : d.schema.Distinct) (root v : Json) :
    d.Traces source described root v := by
  refine Json.inductionOnParts (P := d.Traces source described root) v ?_
  intro v parts kind hk hd location outer hw hv
  rw [Json.decode_eq_visit]
  cases kind with
  | anyArray length => exact Decoding.anyArray_traces hw
  | array element length => exact Decoding.array_traces parts hk hd hw hv
  | packed tag => exact Decoding.packed_traces parts (Kind.mentions_packed tag ▸ hd) hw hv
  | enum owner name flags =>
    exact Decoding.enum_traces hs hk (hd _ (List.mem_singleton.mpr rfl)) hw
  | struct tag =>
    exact Decoding.struct_traces parts (fun component hc e he =>
      hs.closed (hd _ (List.mem_singleton.mpr rfl)) (.component hc he)) hw hv
  | object className =>
    exact Decoding.object_traces hs distinct parts (hd _ (List.mem_singleton.mpr rfl)) hw hv
  | _ => exact Decoding.scalar_traces (by simp) hw

/-! ## The main result -/

/-- A failure arises without properties noted on it, if the host raises none with some. -/
theorem Schema.ArisesAt.bare {σ : Type} {schema : Schema} {host : Host σ} {v : Json}
    {location : Location} {f : Failure} (h : schema.ArisesAt host v location f)
    (bare : host.RaisesBare) : f.context = [] := by
  cases h with
  | violation => rfl
  | undeclared => rfl
  | construct _ _ refused => exact bare.construct _ _ refused f rfl
  | setProperty _ _ _ _ refused => exact bare.setProperty _ _ _ _ refused f rfl
  | constructStruct _ _ refused => exact bare.constructStruct _ _ _ refused f rfl
  | constructPacked _ _ refused => exact bare.constructPacked _ _ _ refused f rfl

/-- What a schema that was built raises arises at a location that is walked to. -/
theorem Schema.Built.decode_traced {source : Source} {kind : Kind} {schema : Schema}
    (built : schema.Built source kind) {σ : Type} (host : Host σ) (v : Json) :
    Ensures (fun _ => True) (schema.Traced host v []) (schema.decode host v) := by
  obtain ⟨names, shared, presents⟩ := built.presents
  have traces := fun w => Json.decode_traces (d := ⟨host, schema⟩) presents.complete built.distinct v w
    schema.root presents.wellFormed fun e he => source.reaches_self (presents.mentions ▸ he)
  unfold Schema.decode
  split
  · rename_i wrapped
    have root : schema.walk [.key "value"] = some ([], schema.root) := if_pos wrapped
    cases hv : v.field? "value" with
    | none => exact .of_throw (.of_arises root (.violation _ _))
    | some inner =>
      obtain ⟨fields, rfl⟩ : ∃ fields, v = .obj fields := by
        cases v with
        | obj fields => exact ⟨fields, rfl⟩
        | _ => cases hv
      have there : (Json.obj fields).at? ([] ++ [.key "value"]) = some inner := Json.at?_key rfl hv
      exact traces inner [.key "value"] [] root there
  · rename_i plain
    exact traces v [] [] (if_neg plain) rfl

/-- **A failure carries the properties on the way to where it arose.**  Whatever the host and the value,
when decoding by a schema that was built ends in a failure, this arose at a location that the kinds of the
schema lead to: a violation where its pointer points to, an undeclared key at its object, a refusal of the
host at what was to be made or at the property that was to be set.  The properties that were noted are those
on the way to this location, innermost first and each once, behind those that a host had given it, and they
are told by the pointer of the location alone. -/
theorem Schema.failures_carry_properties {source : Source} {kind : Kind} {schema : Schema}
    (built : schema.Built source kind) {σ : Type} (host : Host σ) (v : Json) {s after : σ} {f : Failure}
    (h : (ExceptT.run (schema.decode host v)).run s = (.error (.failure f), after)) :
    ∃ location frames last raised, schema.walk location = some (frames, last) ∧
      schema.ArisesAt host v location raised ∧
      f = { cause := raised.cause, context := raised.context ++ frames.reverse } ∧
      (host.RaisesBare → f.context = frames.reverse) ∧
      ∀ other way, schema.walk other = some way → other.pointer = location.pointer →
        way = (frames, last) := by
  obtain ⟨location, frames, last, raised, hw, arises, rfl⟩ :=
    (built.decode_traced host v).raised h f rfl
  refine ⟨location, frames, last, raised, hw, arises, rfl, fun bare => ?_, fun other way ho same => ?_⟩
  · rw [arises.bare bare, List.nil_append]
  · exact Schema.walk_names ho hw (Pointer.ofNames_injective same)

/-- People whose names cannot be set. -/
def nameless : Table where
  classes := [("Person",
    { properties := [
        { name := "name", type := .string },
        { name := "friends", type := .array, hint := .arrayType, hintText := "Person" }]
      readOnly := ["name"] })]

/-- A person with friends. -/
def personJson (friends : List Json) : Json :=
  .obj [("friends", .arr friends), ("name", .str "")]

/-- The name of a friend of a friend is refused: it is the innermost property, and the friends stand
behind it twice. -/
theorem failures_carry_properties_friend :
    ∃ schema, (buildClass nameless.source "Person" "").run.1 = .ok schema ∧
      (ExceptT.run (schema.decode nameless.host (personJson [personJson [personJson []]]))).run () =
        (.error (.failure {
          cause := .assignment "Person" "name" "read only"
          context := [⟨"Person", "name"⟩, ⟨"Person", "friends"⟩, ⟨"Person", "friends"⟩] }), ()) ∧
      ∃ location last, schema.walk location =
        some ([⟨"Person", "friends"⟩, ⟨"Person", "friends"⟩, ⟨"Person", "name"⟩], last) := by
  have decoded : (buildClass nameless.source "Person" "").run.1.toOption.map (fun schema =>
      (ExceptT.run (schema.decode nameless.host (personJson [personJson [personJson []]]))).run ()) =
      some (.error (.failure {
        cause := .assignment "Person" "name" "read only"
        context := [⟨"Person", "name"⟩, ⟨"Person", "friends"⟩, ⟨"Person", "friends"⟩] }), ()) := by
    cbv
  cases hb : (buildClass nameless.source "Person" "").run.1 with
  | error e =>
    rw [hb] at decoded
    cases decoded
  | ok schema =>
    rw [hb] at decoded
    have run := Option.some.inj decoded
    obtain ⟨location, frames, last, -, hw, -, -, noted, -⟩ :=
      Schema.failures_carry_properties (.class hb) nameless.host _ run
    refine ⟨schema, rfl, run, location, last, ?_⟩
    rw [hw, ← List.reverse_reverse frames, ← noted nameless.raisesBare]
    rfl

end ReflectedSchema
