import ReflectedSchema.Proofs.Building.Distinct
import ReflectedSchema.Proofs.Json.Parts

/-!
# The post-order of a value

A schema says of a value which of the values inside it are decoded first, and what its kind asks of a
host after that.  Going down a value in this way gives all that a host is asked for, in post-order.
This needs no host: `Schema.postOrder` says what is asked for which location, but not with what.

An object is asked for after all that lies below its location, and its properties are set right after
that.
-/

namespace ReflectedSchema

/-! ## Places inside a value -/

/-- A value with the kind that it stands for, at a location. -/
structure Place where
  kind : Kind
  value : Json
  location : Location

namespace Place

/-- The items of an array, from an index on. -/
def items (element : Kind) (location : Location) : (index : Nat) → List Json → List Place
  | _, [] => []
  | index, item :: rest =>
    ⟨element, item, location ++ [.index index]⟩ :: items element location (index + 1) rest

/-- The fields that are declared and there, in the order of their declaration. -/
def fields (location : Location) (entries : List (String × Json)) (declared : List (String × Kind)) :
    List Place :=
  declared.filterMap fun (name, kind) =>
    (Json.lookup name entries).map fun value => ⟨kind, value, location ++ [.key name]⟩

end Place

/-- The names of the properties of a class, with their kinds. -/
def ClassDescriptor.declared (c : ClassDescriptor) : List (String × Kind) :=
  c.properties.map fun p => (p.name, p.kind)

/-- What is asked of a host, apart from the values that it is given. -/
inductive Demand where
  | construct (className : String)
  | setProperty (property : String)
  | constructStruct (type : TypeTag)
  | constructPacked (type : TypeTag)
  deriving DecidableEq

namespace Schema

/-- The places directly inside a place, in the order in which they are decoded. -/
def inner (schema : Schema) : Place → List Place
  | ⟨.array element _, .arr items, location⟩ => Place.items element location 0 items
  | ⟨.packed tag, .arr items, location⟩ => Place.items tag.element location 0 items
  | ⟨.struct tag, .obj entries, location⟩ => Place.fields location entries tag.layout
  | ⟨.object className, .obj entries, location⟩ =>
    match schema.class? className with
    | some c => Place.fields location entries c.declared
    | none => []
  | _ => []

/-- What a kind asks of a host, after all that is inside was decoded. -/
def demands (schema : Schema) : Kind → List Demand
  | .packed tag => [.constructPacked (.packed tag)]
  | .struct tag => [.constructStruct (.struct tag)]
  | .object className =>
    match schema.class? className with
    | some c => .construct className :: c.properties.map (.setProperty ·.name)
    | none => []
  | _ => []

end Schema

/-! ## Going down -/

/-- A part is smaller than the value. -/
theorem Json.sizeOf_lt_of_mem_parts {v w : Json} (h : w ∈ v.parts) : sizeOf w < sizeOf v := by
  cases v with
  | arr items =>
    have below : sizeOf w < sizeOf items := List.sizeOf_lt_of_mem h
    rw [Json.arr.sizeOf_spec]
    omega
  | obj fields =>
    obtain ⟨f, hf, rfl⟩ := List.mem_map.mp h
    have below := List.sizeOf_lt_of_mem hf
    have second : sizeOf f.2 < sizeOf f := by cases f; simp +arith
    rw [Json.obj.sizeOf_spec]
    omega
  | _ => cases h

/-- Places of fields are found one by one, where the field is there. -/
theorem Place.fields_cons (location : Location) (entries : List (String × Json))
    (field : String × Kind) (rest : List (String × Kind)) :
    Place.fields location entries (field :: rest) =
      match Json.lookup field.1 entries with
      | some value =>
        ⟨field.2, value, location ++ [.key field.1]⟩ :: Place.fields location entries rest
      | none => Place.fields location entries rest := by
  rw [Place.fields, List.filterMap_cons]
  cases h : Json.lookup field.1 entries <;> simp only [h, Option.map_none, Option.map_some] <;> rfl

/-- Places of fields that are declared one list after the other. -/
theorem Place.fields_append (location : Location) (entries : List (String × Json))
    (front back : List (String × Kind)) : Place.fields location entries (front ++ back) =
      Place.fields location entries front ++ Place.fields location entries back :=
  List.filterMap_append

/-- The place of an item is that of an item, under an index from the start on. -/
theorem Place.mem_items {element : Kind} {location : Location} {items : List Json} {index : Nat}
    {place : Place} (h : place ∈ Place.items element location index items) :
    place.value ∈ items ∧ ∃ i, index ≤ i ∧ place.location = location ++ [.index i] := by
  induction items generalizing index with
  | nil => cases h
  | cons item rest ih =>
    rcases List.mem_cons.mp h with rfl | h
    · exact ⟨List.mem_cons_self, index, le_rfl, rfl⟩
    · obtain ⟨hv, i, hi, hl⟩ := ih h
      exact ⟨List.mem_cons_of_mem _ hv, i, by omega, hl⟩

/-- The place of a field is that of a part, under a declared name. -/
theorem Place.mem_fields {location : Location} {entries : List (String × Json)}
    {declared : List (String × Kind)} {place : Place}
    (h : place ∈ Place.fields location entries declared) :
    place.value ∈ (Json.obj entries).parts ∧
      ∃ name ∈ declared.map (·.1), place.location = location ++ [.key name] := by
  obtain ⟨⟨name, kind⟩, hd, hplace⟩ := List.mem_filterMap.mp h
  obtain ⟨value, hv, rfl⟩ := Option.map_eq_some_iff.mp hplace
  exact ⟨Json.mem_parts_of_lookup hv, name, List.mem_map_of_mem hd, rfl⟩

namespace Schema

variable {schema : Schema} {place inner : Place}

/-- A place inside another is one step further down, with a part of the value. -/
theorem mem_inner (h : inner ∈ schema.inner place) :
    inner.value ∈ place.value.parts ∧ ∃ step, inner.location = place.location ++ [step] := by
  unfold Schema.inner at h
  split at h
  · obtain ⟨hv, i, -, hl⟩ := Place.mem_items h
    exact ⟨hv, _, hl⟩
  · obtain ⟨hv, i, -, hl⟩ := Place.mem_items h
    exact ⟨hv, _, hl⟩
  · obtain ⟨hv, name, -, hl⟩ := Place.mem_fields h
    exact ⟨hv, _, hl⟩
  · split at h
    · obtain ⟨hv, name, -, hl⟩ := Place.mem_fields h
      exact ⟨hv, _, hl⟩
    · cases h
  · cases h

/-- All that is asked for a place and what is inside it, each with the location that it is asked for. -/
def postOrder (schema : Schema) (place : Place) : List (Location × Demand) :=
  (schema.inner place).attach.flatMap (fun inner => schema.postOrder inner.1) ++
    (schema.demands place.kind).map (place.location, ·)
termination_by sizeOf place.value
decreasing_by exact Json.sizeOf_lt_of_mem_parts (mem_inner inner.2).1

/-- What stands inside a place comes before what the place itself demands. -/
theorem postOrder_eq (schema : Schema) (place : Place) :
    schema.postOrder place = (schema.inner place).flatMap schema.postOrder ++
      (schema.demands place.kind).map (place.location, ·) := by
  rw [postOrder, List.flatMap_subtype (g := schema.postOrder) fun _ _ => rfl, List.unattach_attach]

/-- A place that another leads down to. -/
def Holds (schema : Schema) : Place → Place → Prop :=
  Relation.ReflTransGen fun place inner => inner ∈ schema.inner place

/-- Going down a place by way of the places directly inside. -/
theorem inductionOnPlaces {P : Place → Prop} (schema : Schema) (place : Place)
    (step : ∀ place, (∀ inner ∈ schema.inner place, P inner) → P place) : P place :=
  step place fun inner _ => inductionOnPlaces schema inner step
termination_by sizeOf place.value
decreasing_by exact Json.sizeOf_lt_of_mem_parts (mem_inner ‹_›).1

/-! ## Locations -/

/-- All that is asked for a place is asked for locations at the place or below. -/
theorem isPrefix_of_mem_postOrder {x : Location × Demand} (h : x ∈ schema.postOrder place) :
    place.location <+: x.1 := by
  revert h
  refine inductionOnPlaces (P := fun place => x ∈ schema.postOrder place → place.location <+: x.1)
    schema place fun place ih h => ?_
  rw [postOrder_eq, List.mem_append] at h
  rcases h with h | h
  · obtain ⟨inner, hi, hx⟩ := List.mem_flatMap.mp h
    obtain ⟨-, step, hl⟩ := mem_inner hi
    exact (List.prefix_append _ _).trans (hl ▸ ih inner hi hx)
  · obtain ⟨demand, -, rfl⟩ := List.mem_map.mp h
    exact List.prefix_refl _

/-- What is asked for the places inside is asked for locations below. -/
theorem isBelow_of_mem_inner {x : Location × Demand}
    (h : x ∈ (schema.inner place).flatMap schema.postOrder) :
    place.location <+: x.1 ∧ place.location ≠ x.1 := by
  obtain ⟨inner, hi, hx⟩ := List.mem_flatMap.mp h
  obtain ⟨-, step, hl⟩ := mem_inner hi
  have below := isPrefix_of_mem_postOrder hx
  rw [hl] at below
  refine ⟨(List.prefix_append _ _).trans below, fun same => ?_⟩
  have longer := below.length_le
  rw [← same, List.length_append, List.length_singleton] at longer
  omega

/-- A place leads down to places at its location or below. -/
theorem Holds.isPrefix (h : schema.Holds place inner) : place.location <+: inner.location := by
  induction h with
  | refl => exact List.prefix_refl _
  | tail _ hi ih =>
    obtain ⟨-, step, hl⟩ := mem_inner hi
    exact ih.trans (hl ▸ List.prefix_append _ _)

end Schema

/-- Items stand at different places. -/
theorem Place.pairwise_items (element : Kind) (location : Location) (index : Nat) (items : List Json) :
    (Place.items element location index items).Pairwise (·.location ≠ ·.location) := by
  induction items generalizing index with
  | nil => exact .nil
  | cons item rest ih =>
    refine .cons (fun place h same => ?_) (ih (index + 1))
    obtain ⟨-, i, hi, hl⟩ := Place.mem_items h
    simp only [hl, List.append_cancel_left_eq, List.cons.injEq, Step.index.injEq, and_true] at same
    omega

/-- Fields of different names stand at different places. -/
theorem Place.pairwise_fields (location : Location) (entries : List (String × Json))
    {declared : List (String × Kind)} (distinct : (declared.map (·.1)).Nodup) :
    (Place.fields location entries declared).Pairwise (·.location ≠ ·.location) := by
  induction declared with
  | nil => exact .nil
  | cons field rest ih =>
    obtain ⟨new, distinct⟩ := List.nodup_cons.mp distinct
    have later := ih distinct
    rw [Place.fields_cons]
    cases Json.lookup field.1 entries with
    | none => exact later
    | some value =>
      refine .cons (fun place h same => ?_) later
      obtain ⟨-, name, hn, hl⟩ := Place.mem_fields h
      simp only [hl, List.append_cancel_left_eq, List.cons.injEq, Step.key.injEq, and_true] at same
      exact new (show field.1 ∈ rest.map (·.1) from same ▸ hn)

namespace Schema

variable {schema : Schema} {root place : Place}

/-- The places directly inside a place have locations of their own. -/
theorem pairwise_inner (distinct : schema.Distinct) (place : Place) :
    (schema.inner place).Pairwise (·.location ≠ ·.location) := by
  unfold Schema.inner
  split
  · exact Place.pairwise_items ..
  · exact Place.pairwise_items ..
  · exact Place.pairwise_fields _ _ (StructTag.distinct_layout _)
  · split
    · rename_i c hc
      refine Place.pairwise_fields _ _ ?_
      rw [ClassDescriptor.declared, List.map_map]
      exact distinct c (List.mem_of_find?_eq_some hc)
    · exact .nil
  · exact .nil

/-- **What is asked for a place stands together** in the order of any place that leads down to it, and if
the names of properties are distinct, nothing is asked for its location or below after that. -/
theorem Holds.postOrder_eq (h : schema.Holds root place) :
    ∃ before after, schema.postOrder root = before ++ schema.postOrder place ++ after ∧
      (schema.Distinct → ∀ x ∈ after, ¬ place.location <+: x.1) := by
  induction h using Relation.ReflTransGen.head_induction_on with
  | refl => exact ⟨[], [], (List.append_nil _).symm, fun _ _ h => nomatch h⟩
  | @head outer inner hi hr ih =>
    obtain ⟨before, after, order, apart⟩ := ih
    obtain ⟨front, back, split⟩ := List.append_of_mem hi
    obtain ⟨-, step, hl⟩ := mem_inner hi
    refine ⟨front.flatMap schema.postOrder ++ before, after ++ (back.flatMap schema.postOrder ++
      (schema.demands outer.kind).map (outer.location, ·)), ?_, fun distinct x hx within => ?_⟩
    · rw [Schema.postOrder_eq, split, List.flatMap_append, List.flatMap_cons, order]
      simp only [List.append_assoc]
    · have down : inner.location <+: x.1 := (Holds.isPrefix hr).trans within
      rcases List.mem_append.mp hx with hx | hx
      · exact apart distinct x hx within
      rcases List.mem_append.mp hx with hx | hx
      -- Two places inside one place are at different locations, of which at most one is above.
      · obtain ⟨other, ho, hx⟩ := List.mem_flatMap.mp hx
        obtain ⟨-, step', hl'⟩ := mem_inner (split ▸ List.mem_append_right _ (List.mem_cons_of_mem _ ho))
        have pairwise := pairwise_inner distinct outer
        rw [split] at pairwise
        have other_ne := List.rel_of_pairwise_cons (List.pairwise_append.mp pairwise).2.1 ho
        have same_length : inner.location.length = other.location.length := by
          rw [hl, hl', List.length_append, List.length_append, List.length_singleton,
            List.length_singleton]
        exact other_ne ((List.prefix_of_prefix_length_le down (isPrefix_of_mem_postOrder hx)
          same_length.le).eq_of_length same_length)
      · obtain ⟨demand, -, rfl⟩ := List.mem_map.mp hx
        have longer : inner.location.length ≤ outer.location.length := down.length_le
        rw [hl, List.length_append, List.length_singleton] at longer
        omega

/-- **An object in the order**: it is constructed after all that lies below, its properties are set right
after that, in the order of their declaration, and nothing below is asked for later. -/
theorem Holds.object_in_postOrder (h : schema.Holds root place) {className : String}
    {c : ClassDescriptor} (hk : place.kind = .object className)
    (hc : schema.class? className = some c) :
    ∃ before below after, schema.postOrder root = before ++ below ++
        ((place.location, .construct className) ::
          c.properties.map fun p => (place.location, .setProperty p.name)) ++ after ∧
      (∀ x ∈ below, place.location <+: x.1 ∧ place.location ≠ x.1) ∧
      (schema.Distinct → ∀ x ∈ after, ¬ place.location <+: x.1) := by
  obtain ⟨before, after, order, apart⟩ := h.postOrder_eq
  refine ⟨before, (schema.inner place).flatMap schema.postOrder, after, ?_,
    fun x hx => isBelow_of_mem_inner hx, apart⟩
  rw [order, Schema.postOrder_eq schema place, hk, demands, hc, List.map_cons, List.map_map]
  simp only [List.append_assoc]
  rfl

/-- A friend is asked for before the person whose friend it is. -/
example : Schema.postOrder { name := "", document := .null, root := .object "Person", classes := [person] }
    ⟨.object "Person", .obj [("friends", .arr [.obj []])], []⟩ =
      [([.key "friends", .index 0], .construct "Person"),
        ([.key "friends", .index 0], .setProperty "name"),
        ([.key "friends", .index 0], .setProperty "mood"),
        ([.key "friends", .index 0], .setProperty "friends"),
        ([], .construct "Person"), ([], .setProperty "name"), ([], .setProperty "mood"),
        ([], .setProperty "friends")] := by cbv

end Schema

end ReflectedSchema
