import ReflectedSchema.Proofs.Decoding.PostOrder
import ReflectedSchema.Proofs.Hosts.Recording

/-!
# Traversals

`Schema.Traverses` describes how a host is called to make the values of places: the values inside a place
are made first, then its value is made of them, and the value of an object is what the object is when all
its properties were set.  A traversal may stop anywhere, and it stops at the first call that fails.  So
its calls are a front of what `Schema.postOrder` lists, and all of it if there is a result.
-/

namespace ReflectedSchema

/-! ## How values are made -/

/-- The properties of an object are set one after the other, each on what the object was after the one
before. -/
inductive Sets (location : Location) : HostValue → List (String × HostValue) → Trace →
    Option HostValue → Prop
  | done (object : HostValue) : Sets location object [] [] (some object)
  | refused {object value : HostValue} {property : String} {rest : List (String × HostValue)}
      {e : Raised} : Sets location object ((property, value) :: rest)
        [(location, ⟨.setProperty object property value, .error e⟩)] none
  | set {object value after : HostValue} {property : String} {rest : List (String × HostValue)}
      {trace : Trace} {out : Option HostValue} (h : Sets location after rest trace out) :
      Sets location object ((property, value) :: rest)
        ((location, ⟨.setProperty object property value, .ok after⟩) :: trace) out

/-- The value of a place is made of the values that were made inside. -/
inductive Schema.Makes (schema : Schema) : Place → List HostValue → Trace → Option HostValue → Prop
  /-- What asks nothing of a host is decoded alike by every host. -/
  | plain {place : Place} {value : HostValue} (none : schema.demands place.kind = [])
      (h : ∀ {σ : Type} (host : Host σ),
        place.value.decode ⟨host, schema⟩ place.kind place.location = pure value) :
      Makes schema place [] [] (some value)
  | list {element : Kind} {length : Option Int} {v : Json} {location : Location}
      {values : List HostValue} :
      Makes schema ⟨.array element length, v, location⟩ values [] (some (.list values))
  | packed {tag : PackedTag} {v : Json} {location : Location} {values : List HostValue}
      {answer : Except Raised HostValue} : Makes schema ⟨.packed tag, v, location⟩ values
        [(location, ⟨.constructPacked (.packed tag) values, answer⟩)] answer.toOption
  | struct {tag : StructTag} {v : Json} {location : Location}
      {components : List (String × HostValue)} {answer : Except Raised HostValue}
      (names : components.map (·.1) = tag.layout.map (·.1)) :
      Makes schema ⟨.struct tag, v, location⟩ (components.map (·.2))
        [(location, ⟨.constructStruct (.struct tag) components, answer⟩)] answer.toOption
  | refused {className : String} {c : ClassDescriptor} {v : Json} {location : Location}
      {properties : List (String × HostValue)} {e : Raised} (hc : schema.class? className = some c)
      (names : properties.map (·.1) = c.propertyNames) :
      Makes schema ⟨.object className, v, location⟩ (properties.map (·.2))
        [(location, ⟨.construct className, .error e⟩)] none
  | object {className : String} {c : ClassDescriptor} {v : Json} {location : Location}
      {properties : List (String × HostValue)} {object : HostValue} {trace : Trace}
      {out : Option HostValue} (hc : schema.class? className = some c)
      (names : properties.map (·.1) = c.propertyNames)
      (h : Sets location object properties trace out) :
      Makes schema ⟨.object className, v, location⟩ (properties.map (·.2))
        ((location, ⟨.construct className, .ok object⟩) :: trace) out

/-- Places are traversed one after the other, each by what is inside it and what is made of that.  A
traversal that stops has no result. -/
inductive Schema.Traverses (schema : Schema) : List Place → Trace → Option (List HostValue) → Prop
  | done : Traverses schema [] [] (some [])
  | stop (places : List Place) : Traverses schema places [] none
  | inside {place : Place} {rest : List Place} {trace : Trace}
      (h : Traverses schema (schema.inner place) trace none) : Traverses schema (place :: rest) trace none
  | unmade {place : Place} {rest : List Place} {below own : Trace} {values : List HostValue}
      (h : Traverses schema (schema.inner place) below (some values))
      (hm : schema.Makes place values own none) : Traverses schema (place :: rest) (below ++ own) none
  | made {place : Place} {rest : List Place} {below own after : Trace} {values : List HostValue}
      {value : HostValue} {out : Option (List HostValue)}
      (h : Traverses schema (schema.inner place) below (some values))
      (hm : schema.Makes place values own (some value)) (hr : Traverses schema rest after out) :
      Traverses schema (place :: rest) (below ++ own ++ after) (out.map (value :: ·))

namespace Schema.Traverses

variable {schema : Schema} {place : Place} {places more : List Place} {trace first second own : Trace}
  {values : List HostValue} {out : Option (List HostValue)}

/-- Traversing more places after those that were traversed. -/
theorem append (h : schema.Traverses places first (some values))
    (hm : schema.Traverses more second out) :
    schema.Traverses (places ++ more) (first ++ second) (out.map (values ++ ·)) := by
  generalize hv : some values = result at h
  induction h generalizing values with
  | done =>
    cases hv
    cases out with
    | none => exact hm
    | some rest => exact hm
  | stop | inside | unmade => cases hv
  | @made place rest below own after inner value found h hmade hr _ ih =>
    obtain ⟨later, rfl, rfl⟩ := Option.map_eq_some_iff.mp hv.symm
    have all := made h hmade (ih rfl)
    rw [Option.map_map, ← List.append_assoc] at all
    exact all

/-- A traversal that stopped goes no further. -/
theorem stopped (h : schema.Traverses places trace none) (more : List Place) :
    schema.Traverses (places ++ more) trace none := by
  generalize hn : (none : Option (List HostValue)) = result at h
  induction h with
  | done => cases hn
  | stop => exact .stop _
  | inside h => exact .inside h
  | unmade h hm => exact .unmade h hm
  | made h hm _ _ ih =>
    obtain rfl := Option.map_eq_none_iff.mp hn.symm
    have all := Traverses.made h hm (ih rfl)
    rwa [Option.map_none] at all

/-- A traversal may stop where it is. -/
theorem halted (h : schema.Traverses places trace out) : schema.Traverses places trace none := by
  induction h with
  | done | stop => exact .stop _
  | inside h => exact .inside h
  | unmade h hm => exact .unmade h hm
  | made h hm _ _ ih =>
    have all := Traverses.made h hm ih
    rwa [Option.map_none] at all

/-- A place is traversed by what is inside it and what is made of that. -/
theorem of_makes {made : Option HostValue} (h : schema.Traverses (schema.inner place) first (some values))
    (hm : schema.Makes place values own made) :
    schema.Traverses [place] (first ++ own) (made.map ([·])) := by
  cases made with
  | none => exact .unmade h hm
  | some value =>
    have all := Traverses.made h hm .done
    rwa [List.append_nil] at all

end Schema.Traverses

/-! ## Traversals follow the post-order -/

/-- What a call asks for. -/
def Call.demand : Call → Demand
  | .construct className => .construct className
  | .setProperty _ property _ => .setProperty property
  | .constructStruct type _ => .constructStruct type
  | .constructPacked type _ => .constructPacked type

/-- What is asked for in a trace. -/
def Trace.demands (trace : Trace) : List (Location × Demand) :=
  trace.map fun (location, event) => (location, event.call.demand)

/-- A call that did not fail. -/
def Event.Succeeds (event : Event) : Prop :=
  event.answer.toOption.isSome = true

/-- The calls of a trace are a front of what is listed, and all of it if the trace is finished.  No call
follows one that failed. -/
structure Trace.Follows (trace : Trace) (order : List (Location × Demand)) (finished : Bool) : Prop where
  front : trace.demands <+: order
  whole : finished = true → trace.demands = order
  succeeds : finished = true → ∀ x ∈ trace, x.2.Succeeds
  failsLast : trace.Pairwise fun x _ => x.2.Succeeds

namespace Trace.Follows

variable {trace first second : Trace} {order more : List (Location × Demand)} {finished : Bool}

/-- Before anything was called, any order is followed. -/
theorem nil (order : List (Location × Demand)) : Follows [] order false :=
  ⟨List.nil_prefix, nofun, nofun, .nil⟩

/-- Where nothing is to be called, it is done at once. -/
theorem done : Follows [] [] finished :=
  ⟨List.nil_prefix, fun _ => rfl, fun _ => List.forall_mem_nil _, .nil⟩

/-- A single call follows the order of itself. -/
theorem single (location : Location) (event : Event) :
    Follows [(location, event)] [(location, event.call.demand)] event.answer.toOption.isSome :=
  ⟨List.prefix_refl _, fun _ => rfl, fun h _ hx => List.mem_singleton.mp hx ▸ h,
    List.pairwise_singleton ..⟩

/-- One order after the other is followed by one trace after the other. -/
theorem append (h : Follows first order true) (hm : Follows second more finished) :
    Follows (first ++ second) (order ++ more) finished where
  front := by
    rw [demands, List.map_append, ← demands, ← demands, h.whole rfl]
    exact (List.prefix_append_right_inj order).mpr hm.front
  whole hf := by rw [demands, List.map_append, ← demands, ← demands, h.whole rfl, hm.whole hf]
  succeeds hf x hx := by
    rcases List.mem_append.mp hx with hx | hx
    · exact h.succeeds rfl x hx
    · exact hm.succeeds hf x hx
  failsLast := List.pairwise_append.mpr ⟨h.failsLast, hm.failsLast, fun _ hx _ _ => h.succeeds rfl _ hx⟩

/-- A trace that stopped follows what might have come later. -/
theorem stopped (h : Follows trace order false) (more : List (Location × Demand)) :
    Follows trace (order ++ more) false :=
  ⟨h.front.trans (List.prefix_append _ _), nofun, nofun, h.failsLast⟩

end Trace.Follows

/-- Setting properties follows their order. -/
theorem Sets.follows {location : Location} {object : HostValue} {values : List (String × HostValue)}
    {trace : Trace} {out : Option HostValue} (h : Sets location object values trace out) :
    trace.Follows (values.map fun value => (location, .setProperty value.1)) out.isSome := by
  induction h with
  | done => exact .done
  | @refused object value property rest e =>
    exact (Trace.Follows.single location ⟨.setProperty object property value, .error e⟩).stopped _
  | @set object value after property rest trace out h ih =>
    exact (Trace.Follows.single location ⟨.setProperty object property value, .ok after⟩).append ih

/-- Setting all properties asks for each of them, in the order of their declaration. -/
theorem ClassDescriptor.demands_of_names (c : ClassDescriptor) {properties : List (String × HostValue)}
    (names : properties.map (·.1) = c.propertyNames) (location : Location) :
    (properties.map fun property => (location, Demand.setProperty property.1)) =
      (c.properties.map (Demand.setProperty ·.name)).map (location, ·) := by
  calc (properties.map fun property => (location, Demand.setProperty property.1))
      = (properties.map (·.1)).map fun name => (location, .setProperty name) := by
        rw [List.map_map]
        rfl
    _ = (c.properties.map (Demand.setProperty ·.name)).map (location, ·) := by
        rw [names, ClassDescriptor.propertyNames, List.map_map, List.map_map]
        rfl

/-- Making a value of decoded parts follows what its place demands. -/
theorem Schema.Makes.follows {schema : Schema} {place : Place} {values : List HostValue}
    {trace : Trace} {out : Option HostValue} (h : schema.Makes place values trace out) :
    trace.Follows ((schema.demands place.kind).map (place.location, ·)) out.isSome := by
  cases h with
  | plain none =>
    rw [none]
    exact .done
  | list => exact .done
  | packed => exact .single _ _
  | struct => exact .single _ _
  | @refused className c v location _ e hc =>
    rw [demands, hc]
    exact (Trace.Follows.single location ⟨.construct className, .error e⟩).stopped _
  | @object className c v location _ object _ _ hc names h =>
    have sets := h.follows
    rw [c.demands_of_names names] at sets
    rw [demands, hc]
    exact (Trace.Follows.single location ⟨.construct className, .ok object⟩).append sets

/-- Traversing places follows their post-order. -/
theorem Schema.Traverses.follows {schema : Schema} {places : List Place} {trace : Trace}
    {out : Option (List HostValue)} (h : schema.Traverses places trace out) :
    trace.Follows (places.flatMap schema.postOrder) out.isSome := by
  induction h with
  | done => exact .done
  | stop => exact .nil _
  | inside _ ih =>
    rw [List.flatMap_cons, postOrder_eq]
    exact (ih.stopped _).stopped _
  | unmade _ hm ih =>
    rw [List.flatMap_cons, postOrder_eq]
    exact (ih.append hm.follows).stopped _
  | made _ hm _ ih ihr =>
    rw [List.flatMap_cons, postOrder_eq, Option.isSome_map]
    exact (ih.append hm.follows).append ihr

end ReflectedSchema
