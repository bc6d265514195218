import ReflectedSchema.Proofs.Decoding.Attempt
import ReflectedSchema.Proofs.Decoding.Traversal

/-!
# What instantiating does to a host

Decoding makes the calls of a traversal, whatever the host answers.  This is shown kind by kind for a
host and its recording: the loops of decoding traverse the places inside a value, and what follows makes
the value.  Reading and checking come before and call nothing.
-/

namespace ReflectedSchema

open HostM

/-! ## Steps that call nothing -/

namespace HostM

variable {α β : Type}

/-- Something that every host does alike, without being called. -/
def Hostless (run : (σ : Type) → Host σ → HostM σ α) : Prop :=
  ∃ result : Except Raised α, ∀ σ host, run σ host = HostM.ofExcept result

namespace Hostless

variable {run : (σ : Type) → Host σ → HostM σ α}

/-- A result calls nothing. -/
theorem of_pure (a : α) : Hostless fun _ _ => pure a := ⟨.ok a, fun _ _ => rfl⟩

/-- Raising something calls nothing. -/
theorem of_throw (e : Raised) : Hostless (α := α) fun _ _ => throw e := ⟨.error e, fun _ _ => rfl⟩

/-- A sequence calls nothing if none of its steps does. -/
theorem bind {next : α → (σ : Type) → Host σ → HostM σ β} (h : Hostless run)
    (hn : ∀ a, Hostless (next a)) : Hostless fun σ host => run σ host >>= fun a => next a σ host := by
  obtain ⟨e | a, same⟩ := h
  · exact ⟨.error e, fun σ host => congrArg (· >>= fun a => next a σ host) (same σ host)⟩
  · obtain ⟨result, later⟩ := hn a
    refine ⟨result, fun σ host => ?_⟩
    rw [← later σ host]
    exact congrArg (· >>= fun a => next a σ host) (same σ host)

/-- What is done without calls is recorded so. -/
theorem records {T : Trace → Option α → Prop} {σ : Type} {host : Host σ} (h : Hostless run)
    (stop : T [] none) (done : ∀ a, (∀ σ host, run σ host = pure a) → T [] (some a)) :
    Records T (run σ host) (run (σ × List Event) host.recorded) := by
  obtain ⟨e | a, same⟩ := h
  · rw [same, same]
    exact .of_throw stop
  · rw [same, same]
    exact .of_pure (done a same)

/-- What is done without calls leaves what is recorded to what is done next. -/
theorem andThen {U : Trace → Option β → Prop} {σ : Type} (host : Host σ) {next : α → HostM σ β}
    {next' : α → HostM (σ × List Event) β} (h : Hostless run) (stop : U [] none)
    (hn : ∀ a, Records U (next a) (next' a)) :
    Records U (run σ host >>= next) (run (σ × List Event) host.recorded >>= next') := by
  have nothing : Records (fun trace _ => trace = []) (run σ host) (run (σ × List Event) host.recorded) :=
    h.records rfl fun _ _ => rfl
  refine nothing.bind (fun first none => none ▸ stop) fun first a none => ?_
  rw [none]
  exact hn a

end Hostless

end HostM

namespace Decoding

/-- Lengths are checked without calls. -/
theorem checkLength_hostless (length : Option Int) (count : Nat) (location : Location) :
    Hostless fun _ _ => checkLength length count location := by
  cases length with
  | none => exact .of_pure ()
  | some n =>
    by_cases h : (count : Int) = n
    · simp only [checkLength, if_pos h]
      exact .of_pure ()
    · simp only [checkLength, if_neg h]
      exact .of_throw _

/-- Ranges are checked without calls. -/
theorem rangeFrom_hostless (tag : PackedTag) (least most : Int) (location : Location) (index : Nat)
    (items : List HostValue) :
    Hostless fun _ _ => rangeFrom tag least most location index items := by
  induction items generalizing index with
  | nil => exact .of_pure ()
  | cons item rest ih =>
    cases hn : item.int? with
    | none =>
      simp only [rangeFrom, hn]
      exact ih (index + 1)
    | some n =>
      by_cases h : n < least ∨ most < n
      · simp only [rangeFrom, hn, if_pos h]
        exact .bind (.of_throw _) fun _ => ih (index + 1)
      · simp only [rangeFrom, hn, if_neg h]
        exact ih (index + 1)

/-- A member is looked up without calls. -/
theorem memberValue_hostless (e : EnumDescriptor) (value : Json) (location : Location) :
    Hostless fun _ _ => memberValue e value location := by
  unfold memberValue
  cases value.str?.bind e.lookup with
  | none => exact .of_throw _
  | some v => exact .of_pure v

/-- Members are united without calls. -/
theorem unionFrom_hostless (e : EnumDescriptor) (location : Location) (index : Nat) (start : EnumValue)
    (names : List Json) : Hostless fun _ _ => unionFrom e location index start names := by
  induction names generalizing index start with
  | nil => exact .of_pure start
  | cons name rest ih =>
    exact .bind (memberValue_hostless e name _) fun value => ih (index + 1) (start.union value)

/-- The empty set of flags is made without calls. -/
theorem noFlags_hostless (e : EnumDescriptor) : Hostless fun _ _ => noFlags e := by
  unfold noFlags
  cases e.members with
  | nil => exact .of_throw _
  | cons member rest => exact .of_pure _

/-- The value of an enumeration is made without calls. -/
theorem enumValue_hostless (schema : Schema) (owner name : String) (flags : Bool) (value : Json)
    (location : Location) :
    Hostless fun _ host => enumValue ⟨host, schema⟩ owner name flags value location := by
  unfold enumValue
  dsimp only
  cases schema.enum? (enumPath owner name) with
  | none => exact .of_throw _
  | some e =>
    cases flags with
    | false => exact .bind (memberValue_hostless e value location) fun v => .of_pure _
    | true =>
      cases value with
      | arr names =>
        exact .bind (noFlags_hostless e) fun empty =>
          .bind (unionFrom_hostless e location 0 empty names) fun v => .of_pure _
      | _ => exact .of_throw _

/-! ## Loops -/

variable {σ : Type} {schema : Schema} {host : Host σ} {location : Location}

/-- A call traverses places, and from its result the values that were made can be read. -/
def Traversing {α : Type} (schema : Schema) (places : List Place) (read : α → List HostValue)
    (plain : HostM σ α) (recorded : HostM (σ × List Event) α) : Prop :=
  Records (fun trace out => schema.Traverses places trace (out.map read)) plain recorded

/-- Traversing places and then more places. -/
theorem Traversing.append {α β γ : Type} {places more : List Place} {f : α → List HostValue}
    {g : β → List HostValue} {k : γ → List HostValue} {combine : α → β → γ} {call : HostM σ α}
    {call' : HostM (σ × List Event) α} {later : HostM σ β} {later' : HostM (σ × List Event) β}
    (h : Traversing schema places f call call') (hl : Traversing schema more g later later')
    (hk : ∀ a b, k (combine a b) = f a ++ g b) :
    Traversing schema (places ++ more) k (do let a ← call; let b ← later; return combine a b)
      (do let a ← call'; let b ← later'; return combine a b) := by
  refine h.bind (fun first hs => hs.stopped more) fun first a hf => ?_
  refine hl.bind (fun second hs => hf.append hs) fun second b hs => .of_pure ?_
  have all := hf.append hs
  rw [Option.map_some, Option.map_some, ← hk] at all
  rwa [List.append_nil]

/-- Decoding a value traverses the place where it stands. -/
def Visiting (schema : Schema) (host : Host σ) (v : Json) : Prop :=
  ∀ kind location, Traversing schema [⟨kind, v, location⟩] ([·]) (v.decode ⟨host, schema⟩ kind location)
    (v.decode ⟨host.recorded, schema⟩ kind location)

/-- Decoding items traverses their places one after the other. -/
theorem itemsFrom_traversing {element : Kind} {items : List Json}
    (h : ∀ item ∈ items, Visiting schema host item) (index : Nat) :
    Traversing schema (Place.items element location index items) id
      (itemsFrom element location index (items.map (·.decode ⟨host, schema⟩)))
      (itemsFrom element location index (items.map (·.decode ⟨host.recorded, schema⟩))) := by
  induction items generalizing index with
  | nil => exact .of_pure .done
  | cons item rest ih =>
    obtain ⟨hitem, hrest⟩ := List.forall_mem_cons.mp h
    exact (hitem element _).append (ih hrest (index + 1)) fun _ _ => rfl

/-- Decoding a field traverses its place, if there is one. -/
theorem field_traversing {entries : List (String × Json)}
    (h : ∀ w ∈ (Json.obj entries).parts, Visiting schema host w) (declared : String × Kind) :
    Traversing schema (Place.fields location entries [declared]) ([·])
      (field (entries.map fun (name, value) => (name, value.decode ⟨host, schema⟩)) declared.1 declared.2
        location)
      (field (entries.map fun (name, value) => (name, value.decode ⟨host.recorded, schema⟩)) declared.1
        declared.2 location) := by
  rw [field, field, Json.lookup_map, Json.lookup_map, Place.fields_cons]
  cases hv : Json.lookup declared.1 entries with
  | none => exact .of_throw (.stop _)
  | some value => exact h value (Json.mem_parts_of_lookup hv) declared.2 _

/-- Decoding components traverses their places in the order of the layout. -/
theorem components_traversing (location : Location) {entries : List (String × Json)}
    (h : ∀ w ∈ (Json.obj entries).parts, Visiting schema host w) (layout : List (String × Kind)) :
    Traversing schema (Place.fields location entries layout) (·.map (·.2))
      (components (entries.map fun (name, value) => (name, value.decode ⟨host, schema⟩)) location layout)
      (components (entries.map fun (name, value) => (name, value.decode ⟨host.recorded, schema⟩)) location
        layout) := by
  induction layout with
  | nil => exact .of_pure .done
  | cons component rest ih =>
    rw [components_cons, components_cons, ← List.singleton_append, Place.fields_append]
    exact (field_traversing h component).append ih fun _ _ => rfl

/-- Decoding properties traverses their places in the order of the class. -/
theorem properties_traversing (location : Location) {entries : List (String × Json)} (className : String)
    (h : ∀ w ∈ (Json.obj entries).parts, Visiting schema host w) (ps : List PropertyDescriptor) :
    Traversing schema (Place.fields location entries (ps.map fun p => (p.name, p.kind))) (·.map (·.2))
      (properties className (entries.map fun (name, value) => (name, value.decode ⟨host, schema⟩)) location
        ps)
      (properties className (entries.map fun (name, value) =>
        (name, value.decode ⟨host.recorded, schema⟩)) location ps) := by
  induction ps with
  | nil => exact .of_pure .done
  | cons p rest ih =>
    rw [properties, properties, List.map_cons, ← List.singleton_append, Place.fields_append]
    exact Traversing.append (.within (field_traversing h (p.name, p.kind))) ih fun _ _ => rfl

/-- Assigning properties sets one after the other, until one is refused. -/
theorem assign_records {object : HostValue} (className : String) (values : List (String × HostValue)) :
    Records (Sets location object values) (assign host className object values)
      (assign host.recorded className object values) := by
  induction values generalizing object with
  | nil => exact .of_pure (.done object)
  | cons value rest ih =>
    obtain ⟨property, value⟩ := value
    have set : Records (fun trace out =>
        ∃ answer, trace = [(location, ⟨.setProperty object property value, answer⟩)] ∧
          answer.toOption = out) (host.setProperty object property value)
        (host.recorded.setProperty object property value) :=
      .of_recording location fun answer => ⟨answer, rfl, rfl⟩
    refine set.within.bind ?_ ?_
    · rintro _ ⟨e | after, rfl, ha⟩
      · exact .refused
      · cases ha
    · rintro _ after ⟨e | after, rfl, ha⟩
      · cases ha
      · cases ha
        exact ih.mono fun trace out h => .set h

/-! ## Kinds -/

/-- A value that is decoded without calls, by a kind that asks for nothing. -/
theorem leaf_traversing {v : Json} {kind : Kind} (none : schema.demands kind = [])
    (leaf : schema.inner ⟨kind, v, location⟩ = [])
    (h : Hostless fun _ host => v.decode ⟨host, schema⟩ kind location) :
    Traversing schema [⟨kind, v, location⟩] ([·]) (v.decode ⟨host, schema⟩ kind location)
      (v.decode ⟨host.recorded, schema⟩ kind location) := by
  refine h.records (.stop _) fun value same => ?_
  have inner : schema.Traverses (schema.inner ⟨kind, v, location⟩) [] (some []) := leaf ▸ .done
  exact inner.of_makes (.plain none fun host => same _ host)

/-- Decoding calls nothing if going by the kind does not. -/
theorem decode_hostless {v : Json} {kind : Kind} (h : Hostless fun _ host =>
    visit ⟨host, schema⟩ v (v.inside (·.decode ⟨host, schema⟩)) kind location) :
    Hostless fun _ host => v.decode ⟨host, schema⟩ kind location := by
  obtain ⟨result, same⟩ := h
  refine ⟨result, fun σ host => ?_⟩
  have visits := Json.decode_eq_visit ⟨host, schema⟩ v
  exact (congrFun (congrFun visits kind) location).trans (same σ host)

/-- A scalar or a dictionary is decoded without calls. -/
theorem scalar_hostless (schema : Schema) (v : Json) (location : Location) {kind : Kind}
    (h : kind ∈ [Kind.boolean, .integer, .number, .string, .dictionary]) :
    Hostless fun _ host => v.decode ⟨host, schema⟩ kind location := by
  refine decode_hostless ?_
  simp only [List.mem_cons, List.not_mem_nil, or_false] at h
  rcases h with rfl | rfl | rfl | rfl | rfl
  · cases v with
    | bool b => exact .of_pure _
    | _ => exact .of_throw _
  · cases v with
    | int n => exact .of_pure _
    | float x =>
      simp only [visit]
      cases x.toInt? with
      | some n => exact .of_pure _
      | none => exact .of_throw _
    | _ => exact .of_throw _
  · cases v with
    | int n =>
      simp only [visit]
      cases Binary64.ofInt? n with
      | some x => exact .of_pure _
      | none => exact .of_throw _
    | float x => exact .of_pure _
    | _ => exact .of_throw _
  · cases v with
    | str text => exact .of_pure _
    | _ => exact .of_throw _
  · cases v with
    | obj fields => exact .of_pure _
    | _ => exact .of_throw _

/-- An array of anything is decoded without calls. -/
theorem anyArray_hostless (schema : Schema) (v : Json) (location : Location) (length : Option Int) :
    Hostless fun _ host => v.decode ⟨host, schema⟩ (.anyArray length) location := by
  refine decode_hostless ?_
  cases v with
  | arr items => exact .bind (checkLength_hostless length _ location) fun _ => .of_pure _
  | _ => exact .of_throw _

/-- What does not fit its kind is not decoded, and nothing is called. -/
theorem violated_traversing {α : Type} {places : List Place} {read : α → List HostValue}
    (location : Location) (v : Violation) :
    Traversing schema places read (violated (σ := σ) location v) (violated location v) :=
  .of_throw (.stop _)

/-- An array traverses its place, if its items traverse theirs. -/
theorem array_traversing {v : Json} {element : Kind} {length : Option Int}
    (parts : ∀ w ∈ v.parts, Visiting schema host w) :
    Traversing schema [⟨.array element length, v, location⟩] ([·])
      (v.decode ⟨host, schema⟩ (.array element length) location)
      (v.decode ⟨host.recorded, schema⟩ (.array element length) location) := by
  rw [Json.decode_eq_visit, Json.decode_eq_visit]
  cases v with
  | arr items =>
    simp only [Json.inside, visit, List.length_map]
    refine (checkLength_hostless length items.length location).andThen host (.stop _) fun _ => ?_
    refine (itemsFrom_traversing parts 0).bind (fun first h => .inside h) fun first values h => .of_pure ?_
    rw [Option.map_some, id] at h
    exact h.of_makes .list
  | _ => exact violated_traversing _ _

/-- A packed array traverses its place: first the items, then the call that packs them. -/
theorem packed_traversing {v : Json} {tag : PackedTag}
    (parts : ∀ w ∈ v.parts, Visiting schema host w) :
    Traversing schema [⟨.packed tag, v, location⟩] ([·])
      (v.decode ⟨host, schema⟩ (.packed tag) location)
      (v.decode ⟨host.recorded, schema⟩ (.packed tag) location) := by
  rw [Json.decode_eq_visit, Json.decode_eq_visit]
  cases v with
  | arr items =>
    simp only [Json.inside, visit]
    refine (itemsFrom_traversing parts 0).bind (fun first h => .inside h) fun first values h => ?_
    rw [Option.map_some, id] at h
    have make : Records (fun second out => schema.Traverses [⟨.packed tag, .arr items, location⟩]
        (first ++ second) (out.map ([·]))) (host.constructPacked (.packed tag) values)
        (host.recorded.constructPacked (.packed tag) values) :=
      .of_recording location fun answer => h.of_makes .packed
    cases tag.range with
    | none => exact make
    | some range =>
      refine (rangeFrom_hostless tag range.1 range.2 location 0 values).andThen host ?_ fun _ => make
      rw [List.append_nil]
      exact .inside h.halted
  | _ => exact violated_traversing _ _

/-- A struct traverses its place: first the components, then the call that makes it. -/
theorem struct_traversing {v : Json} {tag : StructTag}
    (parts : ∀ w ∈ v.parts, Visiting schema host w) :
    Traversing schema [⟨.struct tag, v, location⟩] ([·])
      (v.decode ⟨host, schema⟩ (.struct tag) location)
      (v.decode ⟨host.recorded, schema⟩ (.struct tag) location) := by
  rw [Json.decode_eq_visit, Json.decode_eq_visit]
  cases v with
  | obj entries =>
    simp only [Json.inside, visit]
    have named := (components_traversing location parts tag.layout).ensuring
      (components_ensures fun _ _ => .trivial _)
    refine named.bind (fun first h => .inside h.1) fun first results both => ?_
    obtain ⟨h, hr⟩ := both
    have names : results.map (·.1) = tag.layout.map (·.1) :=
      names_of_forall₂ (hr results rfl) fun _ _ h => h.1
    exact .of_recording location fun answer => h.of_makes (.struct names)
  | _ => exact violated_traversing _ _

/-- The first field that is not declared. -/
theorem find_undeclared_map {τ : Type} (d : Decoding τ) (c : ClassDescriptor)
    (entries : List (String × Json)) :
    (entries.map fun (name, value) => (name, value.decode d)).find?
        (fun (name, _) => (c.property? name).isNone) =
      (entries.find? fun (name, _) => (c.property? name).isNone).map
        fun (name, value) => (name, value.decode d) := by
  rw [List.find?_map]
  rfl

/-- Constructing an object of all its properties makes it. -/
theorem build_records {className : String} {c : ClassDescriptor} (hc : schema.class? className = some c)
    {v : Json} {values : List (String × HostValue)} (names : values.map (·.1) = c.propertyNames) :
    Records (schema.Makes ⟨.object className, v, location⟩ (values.map (·.2)))
      (build host className values) (build host.recorded className values) := by
  have construct : Records (fun trace out =>
      ∃ answer, trace = [(location, ⟨.construct className, answer⟩)] ∧ answer.toOption = out)
      (host.construct className) (host.recorded.construct className) :=
    .of_recording location fun answer => ⟨answer, rfl, rfl⟩
  refine construct.bind ?_ ?_
  · rintro _ ⟨e | object, rfl, ha⟩
    · exact .refused hc names
    · cases ha
  · rintro _ object ⟨e | object, rfl, ha⟩
    · cases ha
    · cases ha
      exact (assign_records className values).mono fun trace out h => .object hc names h

/-- An object traverses its place: it is made after its properties were decoded, and then they are set. -/
theorem object_traversing {v : Json} {className : String}
    (parts : ∀ w ∈ v.parts, Visiting schema host w) :
    Traversing schema [⟨.object className, v, location⟩] ([·])
      (v.decode ⟨host, schema⟩ (.object className) location)
      (v.decode ⟨host.recorded, schema⟩ (.object className) location) := by
  rw [Json.decode_eq_visit, Json.decode_eq_visit]
  simp only [visit, object]
  cases hc : schema.class? className with
  | none => exact .of_throw (.stop _)
  | some c =>
    cases v with
    | obj entries =>
      simp only [Json.inside, find_undeclared_map]
      cases entries.find? fun (name, _) => (c.property? name).isNone with
      | some field => exact .of_throw (.stop _)
      | none =>
        have inner : schema.inner ⟨.object className, .obj entries, location⟩ =
            Place.fields location entries c.declared := by
          simp only [Schema.inner, hc]
        have named := (properties_traversing location className parts c.properties).ensuring
          (properties_ensures (fun _ _ _ => id) fun _ _ => .trivial _)
        refine named.bind (fun first h => .inside (inner ▸ h.1)) fun first results both => ?_
        obtain ⟨h, hr⟩ := both
        have names : results.map (·.1) = c.propertyNames :=
          names_of_forall₂ (hr results rfl) fun _ _ h => h.1
        have below : schema.Traverses (schema.inner ⟨.object className, .obj entries, location⟩) first
            (some (results.map (·.2))) := inner ▸ h
        exact (build_records hc names).mono fun trace out made => below.of_makes made
    | _ => exact violated_traversing _ _

end Decoding

/-- **Decoding makes the calls of a traversal**, by any kind and at any location, whatever the host. -/
theorem Json.decode_traverses {σ : Type} (schema : Schema) (host : Host σ) (v : Json) :
    Decoding.Visiting schema host v := by
  refine Json.inductionOnParts (P := Decoding.Visiting schema host) v ?_
  intro v parts kind location
  cases kind with
  | boolean | integer | number | string | dictionary =>
    exact Decoding.leaf_traversing rfl rfl (Decoding.scalar_hostless schema v location (by simp))
  | anyArray length =>
    exact Decoding.leaf_traversing rfl rfl (Decoding.anyArray_hostless schema v location length)
  | array element length => exact Decoding.array_traversing parts
  | packed tag => exact Decoding.packed_traversing parts
  | enum owner name flags =>
    refine Decoding.leaf_traversing rfl rfl (Decoding.decode_hostless ?_)
    exact Decoding.enumValue_hostless schema owner name flags v location
  | struct tag => exact Decoding.struct_traversing parts
  | object className => exact Decoding.object_traversing parts

/-! ## Decoding by a schema -/

namespace Schema

variable {σ : Type} {schema : Schema} {payload : Payload} {v : Json}

/-- The place at the root of a schema, inside the wrapper if there is one. -/
def roots (schema : Schema) (v : Json) : List Place :=
  if schema.wrapped then
    (v.field? "value").toList.map fun inner => ⟨schema.root, inner, [.key "value"]⟩
  else [⟨schema.root, v, []⟩]

/-- Decoding a value by a schema traverses the places at the root. -/
theorem decode_traverses (schema : Schema) (host : Host σ) (v : Json) :
    Decoding.Traversing schema (schema.roots v) ([·]) (schema.decode host v)
      (schema.decode host.recorded v) := by
  unfold Schema.decode Schema.roots
  cases schema.wrapped with
  | false => exact v.decode_traverses schema host schema.root []
  | true =>
    cases v.field? "value" with
    | none => exact .of_throw (.stop _)
    | some inner => exact inner.decode_traverses schema host schema.root [.key "value"]

/-! ## The main result -/

/-- How a trace of calls belongs to a value: it is a traversal of the value, and so it follows the
post-order.  There, an object is constructed after all that is asked for below its location, and its
properties are set right after that, in the order of their declaration. -/
structure InPostOrder (schema : Schema) (v : Json) (trace : Trace) (result : Option HostValue) : Prop where
  traverses : schema.Traverses (schema.roots v) trace (result.map ([·]))
  follows : trace.Follows ((schema.roots v).flatMap schema.postOrder) result.isSome
  objects : ∀ root ∈ schema.roots v, ∀ place className c, schema.Holds root place →
    place.kind = .object className → schema.class? className = some c →
      ∃ before below after, schema.postOrder root = before ++ below ++
          ((place.location, .construct className) ::
            c.properties.map fun p => (place.location, .setProperty p.name)) ++ after ∧
        (∀ x ∈ below, place.location <+: x.1 ∧ place.location ≠ x.1) ∧
        (schema.Distinct → ∀ x ∈ after, ¬ place.location <+: x.1)

/-- The trace of a decoding that ended belongs to the value. -/
theorem Traverses.inPostOrder {schema : Schema} {v : Json} {trace : Trace} {result : Option HostValue}
    (traverses : schema.Traverses (schema.roots v) trace (result.map ([·]))) :
    schema.InPostOrder v trace result where
  traverses := traverses
  follows := by simpa only [Option.isSome_map] using traverses.follows
  objects _ _ _ _ _ holds := holds.object_in_postOrder

/-- **The calls of a decoding** are a trace that belongs to the value, whatever the value is. -/
theorem decode_inPostOrder (schema : Schema) (host : Host σ) (v : Json) (s : σ) : ∃ trace : Trace,
    (ExceptT.run (schema.decode host.recorded v)).run (s, []) =
      (((ExceptT.run (schema.decode host v)).run s).1,
        (((ExceptT.run (schema.decode host v)).run s).2, trace.map (·.2))) ∧
    schema.InPostOrder v trace ((ExceptT.run (schema.decode host v)).run s).1.toOption := by
  obtain ⟨trace, run, traverses⟩ := schema.decode_traverses host v s []
  exact ⟨trace, run, traverses.inPostOrder⟩

/-- **No object is of use before it is built.**  Whatever the schema and the host, any of whose calls may
fail, the calls of a decoding are a front of the post-order of the value, and all of it if there is a result;
none follows one that failed, and the value of an object is used only when its properties were set.  So it is
when a payload is instantiated, whatever the limits are; and if the payload is not read, or its value does not
pass the checks, the host is not called.  In a schema that was built, the names of properties are distinct, so
nothing below an object is asked for after it. -/
theorem instantiates_in_post_order (schema : Schema) (host : Host σ) (s : σ) :
    (∀ v, ∃ trace : Trace,
      (ExceptT.run (schema.decode host.recorded v)).run (s, []) =
        (((ExceptT.run (schema.decode host v)).run s).1,
          (((ExceptT.run (schema.decode host v)).run s).2, trace.map (·.2))) ∧
      schema.InPostOrder v trace ((ExceptT.run (schema.decode host v)).run s).1.toOption) ∧
    (∀ limits payload, ∃ trace : Trace,
      (schema.instantiate limits host.recorded payload).run (s, []) =
        (((schema.instantiate limits host payload).run s).1,
          (((schema.instantiate limits host payload).run s).2, trace.map (·.2))) ∧
      ((∀ v, ¬ schema.Admits limits payload v) → trace = []) ∧
      ∀ v, schema.Admits limits payload v →
        schema.InPostOrder v trace ((schema.instantiate limits host payload).run s).1.result.toOption) ∧
    ∀ source kind, schema.Built source kind → schema.Distinct := by
  refine ⟨fun v => schema.decode_inPostOrder host v s, fun limits payload => ?_,
    fun source kind built => built.distinct⟩
  rw [run_instantiate, run_instantiate]
  simp only [result_report]
  by_cases h : ∃ v, schema.Admits limits payload v
  · obtain ⟨v, admits⟩ := h
    rw [attempt_of_admits admits, attempt_of_admits admits]
    obtain ⟨trace, run, ordered⟩ := schema.decode_inPostOrder host v s
    refine ⟨trace, by rw [run], fun refused => absurd admits (refused v), fun w admits' => ?_⟩
    obtain rfl := Except.ok.inj (admits.1.symm.trans admits'.1)
    -- What is reported of a failure does not make a result of it.
    rwa [toOption_mapError]
  · have refused : ∀ v, ¬ schema.Admits limits payload v := fun v admits => h ⟨v, admits⟩
    obtain ⟨e, records, throws⟩ := attempt_of_refused refused
    rw [throws, throws]
    exact ⟨[], rfl, fun _ => rfl, fun v admits => absurd admits (refused v)⟩

end Schema

end ReflectedSchema
