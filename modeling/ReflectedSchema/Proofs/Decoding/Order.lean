import ReflectedSchema.Proofs.Checking.Keys
import ReflectedSchema.Proofs.Checking.Order
import ReflectedSchema.Proofs.Hosts.Order
import ReflectedSchema.Proofs.Json.Reading

/-!
# Decoding does not see the order of keys

Decoding goes down a kind and looks fields up by their names, so it makes the same calls for two values
that differ only in the order of keys, as long as the host answers alike.  Plain data is handed over as it
is, and there the order of keys is kept.  `Schema.key_order_is_irrelevant` puts checking and decoding
together.
-/

namespace ReflectedSchema

open HostM

namespace HostM.Alike

variable {σ α : Type} {R : σ → σ → Prop}

/-- What is done without calls is done alike. -/
theorem of_hostless {run : (σ : Type) → Host σ → HostM σ α} (h : Hostless run) (host : Host σ) :
    Alike R (· = ·) (run σ host) (run σ host) := by
  obtain ⟨result, same⟩ := h
  rw [same]
  exact .of_ends (.refl (fun _ => rfl) result)

end HostM.Alike

namespace Decoding

variable {σ : Type} {R : σ → σ → Prop} {schema : Schema} {host : Host σ} {v w : Json}
  {location : Location} {inside inside' : Inside (Decoder σ)}

/-- Two decoders decode alike, by any kind and at any location. -/
def DecodesAlike (R : σ → σ → Prop) (decoder other : Decoder σ) : Prop :=
  ∀ kind location, Alike R HostValue.Reordered (decoder kind location) (other kind location)

/-- What is inside two values is decoded alike. -/
abbrev Inner (R : σ → σ → Prop) (inside inside' : Inside (Decoder σ)) : Prop :=
  inside.Related (fun _ => DecodesAlike R) inside'

/-- Values that do not fit at the same place are refused alike. -/
theorem violated_alike {α β : Type} {P : α → β → Prop} {violation other : Violation}
    (h : violation.isUnknownMember = other.isUnknownMember) :
    Alike R P (violated location violation) (violated location other) :=
  .of_throw (.violation location h)

/-! ## Loops -/

/-- Items are decoded alike one by one, since an array keeps their order. -/
theorem itemsFrom_alike {kind : Kind} {xs ys : List (Decoder σ)}
    (h : List.Forall₂ (DecodesAlike R) xs ys) (index : Nat) :
    Alike R (List.Forall₂ HostValue.Reordered) (itemsFrom kind location index xs)
      (itemsFrom kind location index ys) := by
  induction h generalizing index with
  | nil => exact .of_pure .nil
  | cons first _ ih =>
    exact (first kind _).bind fun _ _ item => (ih (index + 1)).bind fun _ _ more => .of_pure (.cons item more)

/-- The range of items does not depend on what is not an integer. -/
theorem rangeFrom_congr (tag : PackedTag) (least most : Int) {xs ys : List HostValue}
    (h : List.Forall₂ HostValue.Reordered xs ys) (index : Nat) :
    rangeFrom (σ := σ) tag least most location index xs = rangeFrom tag least most location index ys := by
  induction h generalizing index with
  | nil => rfl
  | cons first _ ih => rw [rangeFrom, rangeFrom, first.int?_eq, ih]

/-- A member is looked up by a text, which has no keys. -/
theorem memberValue_alike (e : EnumDescriptor) (h : v.Reordered w) :
    Alike R (· = ·) (memberValue e v location) (memberValue e w location) := by
  rw [memberValue, memberValue, h.str?_eq]
  split
  · exact .of_pure rfl
  · exact violated_alike rfl

/-- Members are united alike, name by name. -/
theorem unionFrom_alike (e : EnumDescriptor) {names others : List Json}
    (h : List.Forall₂ Json.Reordered names others) (index : Nat) (start : EnumValue) :
    Alike R (· = ·) (unionFrom e location index start names) (unionFrom e location index start others) := by
  induction h generalizing index start with
  | nil => exact .of_pure rfl
  | cons first _ ih =>
    refine (memberValue_alike e first).bind ?_
    rintro value _ rfl
    exact ih (index + 1) (start.union value)

/-- A field is decoded alike if the same name leads to values that are. -/
theorem field_alike {xs ys : List (String × Decoder σ)} {name : String} {kind : Kind}
    (h : Option.Rel (DecodesAlike R) (Json.lookup name xs) (Json.lookup name ys)) :
    Alike R HostValue.Reordered (field xs name kind location) (field ys name kind location) := by
  rw [field, field]
  generalize Json.lookup name xs = x, Json.lookup name ys = y at h
  cases h with
  | some h => exact h kind _
  | none => exact violated_alike rfl

/-- Components are decoded in the order of the layout, whatever the order of the fields. -/
theorem components_alike {xs ys : List (String × Decoder σ)}
    (h : ∀ name, Option.Rel (DecodesAlike R) (Json.lookup name xs) (Json.lookup name ys))
    (layout : List (String × Kind)) :
    Alike R HostValue.SameFields (components xs location layout) (components ys location layout) := by
  induction layout with
  | nil => exact .of_pure .nil
  | cons component rest ih =>
    rw [components_cons, components_cons]
    exact (field_alike (h _)).bind fun _ _ value => ih.bind fun _ _ more =>
      .of_pure (.cons ⟨rfl, value⟩ more)

/-- Properties are decoded in the order of the class, whatever the order of the fields. -/
theorem properties_alike {xs ys : List (String × Decoder σ)} (className : String)
    (h : ∀ name, Option.Rel (DecodesAlike R) (Json.lookup name xs) (Json.lookup name ys))
    (ps : List PropertyDescriptor) :
    Alike R HostValue.SameFields (properties className xs location ps)
      (properties className ys location ps) := by
  induction ps with
  | nil => exact .of_pure .nil
  | cons p rest ih =>
    rw [properties, properties]
    exact (Alike.within (field_alike (h p.name))).bind fun _ _ value => ih.bind fun _ _ more =>
      .of_pure (.cons ⟨rfl, value⟩ more)

/-- Values are assigned alike, since a host that is blind to the order takes them one by one. -/
theorem assign_alike (blind : host.OrderBlind R) (className : String) {object object' : HostValue}
    (ho : object.Reordered object') {xs ys : List (String × HostValue)} (h : HostValue.SameFields xs ys) :
    Alike R HostValue.Reordered (assign host className object xs) (assign host className object' ys) := by
  induction h generalizing object object' with
  | nil => exact .of_pure ho
  | @cons x y _ _ first _ ih =>
    obtain ⟨property, value⟩ := x
    obtain ⟨other, value'⟩ := y
    obtain ⟨rfl, hv⟩ : property = other ∧ value.Reordered value' := first
    have set := blind _ _ (.setProperty property ho hv)
    exact set.within.bind fun _ _ after => ih after

/-- An object is made and filled alike. -/
theorem build_alike (blind : host.OrderBlind R) (className : String) {xs ys : List (String × HostValue)}
    (h : HostValue.SameFields xs ys) :
    Alike R HostValue.Reordered (build host className xs) (build host className ys) :=
  (blind _ _ (.construct className)).bind fun _ _ object => assign_alike blind className object h

/-! ## Kinds -/

/-- Scalars and dictionaries are decoded to what differs in the order of keys only. -/
theorem scalar_alike (h : v.Reordered w) {kind : Kind}
    (hk : kind ∈ [Kind.boolean, .integer, .number, .string, .dictionary]) :
    Alike R HostValue.Reordered (visit ⟨host, schema⟩ v inside kind location)
      (visit ⟨host, schema⟩ w inside' kind location) := by
  simp only [List.mem_cons, List.not_mem_nil, or_false] at hk
  rcases hk with rfl | rfl | rfl | rfl | rfl
  · cases h with
    | bool b => exact .of_pure (.refl _)
    | _ => exact violated_alike rfl
  · cases h with
    | int n => exact .of_pure (.refl _)
    | float x =>
      simp only [visit]
      cases x.toInt? with
      | some n => exact .of_pure (.refl _)
      | none => exact violated_alike rfl
    | _ => exact violated_alike rfl
  · cases h with
    | int n =>
      simp only [visit]
      cases Binary64.ofInt? n with
      | some x => exact .of_pure (.refl _)
      | none => exact .of_throw (.refl _)
    | float x => exact .of_pure (.refl _)
    | _ => exact violated_alike rfl
  · cases h with
    | str s => exact .of_pure (.refl _)
    | _ => exact violated_alike rfl
  · cases h with
    | obj distinct keys each => exact .of_pure (.data (.obj distinct keys each))
    | _ => exact violated_alike rfl

/-- An array of anything is decoded to what differs in the order of keys only. -/
theorem anyArray_alike (h : v.Reordered w) (length : Option Int) :
    Alike R HostValue.Reordered (visit ⟨host, schema⟩ v inside (.anyArray length) location)
      (visit ⟨host, schema⟩ w inside' (.anyArray length) location) := by
  cases h with
  | @arr items others count each =>
    simp only [visit, count]
    exact (Alike.of_hostless (checkLength_hostless length _ location) host).bind fun _ _ _ =>
      .of_pure (.data (.arr count each))
  | _ => exact violated_alike rfl

/-- An array is decoded alike if its items are. -/
theorem array_alike (inner : Inner R inside inside') (element : Kind) (length : Option Int) :
    Alike R HostValue.Reordered (visit ⟨host, schema⟩ v inside (.array element length) location)
      (visit ⟨host, schema⟩ w inside' (.array element length) location) := by
  cases inner with
  | items count each =>
    simp only [visit, count]
    refine (Alike.of_hostless (checkLength_hostless length _ location) host).bind fun _ _ _ => ?_
    refine (itemsFrom_alike (Json.forall₂_of_getElem? count each) 0).bind fun _ _ items => ?_
    exact .of_pure (.list items)
  | _ => exact violated_alike rfl

/-- A packed array is decoded alike if its items are. -/
theorem packed_alike (blind : host.OrderBlind R) (inner : Inner R inside inside') (tag : PackedTag) :
    Alike R HostValue.Reordered (visit ⟨host, schema⟩ v inside (.packed tag) location)
      (visit ⟨host, schema⟩ w inside' (.packed tag) location) := by
  cases inner with
  | items count each =>
    simp only [visit]
    refine (itemsFrom_alike (Json.forall₂_of_getElem? count each) 0).bind fun xs ys items => ?_
    have make := blind _ _ (.constructPacked (.packed tag) items)
    cases tag.range with
    | none => exact make
    | some range =>
      dsimp only
      rw [rangeFrom_congr tag range.1 range.2 items]
      exact (Alike.of_hostless (rangeFrom_hostless tag range.1 range.2 location 0 ys) host).bind
        fun _ _ _ => make
  | _ => exact violated_alike rfl

/-- The value of an enumeration does not depend on the order of keys. -/
theorem enum_alike (h : v.Reordered w) (owner name : String) (flags : Bool) :
    Alike R HostValue.Reordered (enumValue ⟨host, schema⟩ owner name flags v location)
      (enumValue ⟨host, schema⟩ owner name flags w location) := by
  unfold enumValue
  dsimp only
  cases schema.enum? (enumPath owner name) with
  | none => exact .of_throw (.refl _)
  | some e =>
    cases flags with
    | false =>
      refine (memberValue_alike e h).bind ?_
      rintro value _ rfl
      exact .of_pure (.refl _)
    | true =>
      cases h with
      | arr count each =>
        refine (Alike.of_hostless (noFlags_hostless e) host).bind ?_
        rintro empty _ rfl
        refine (unionFrom_alike e (Json.Reordered.arr count each).items 0 empty).bind ?_
        rintro value _ rfl
        exact .of_pure (.refl _)
      | _ => exact violated_alike rfl

/-- A struct is decoded alike, since its components are asked for by the layout. -/
theorem struct_alike (blind : host.OrderBlind R) (inner : Inner R inside inside') (tag : StructTag) :
    Alike R HostValue.Reordered (visit ⟨host, schema⟩ v inside (.struct tag) location)
      (visit ⟨host, schema⟩ w inside' (.struct tag) location) := by
  cases inner with
  | fields keys each =>
    simp only [visit]
    refine (components_alike (fun name => Json.rel_lookup keys (each name)) tag.layout).bind ?_
    exact fun _ _ components => blind _ _ (.constructStruct (.struct tag) components)
  | _ => exact violated_alike rfl

/-- An object is decoded alike: an undeclared name is found in both or in none. -/
theorem object_alike (blind : host.OrderBlind R) (inner : Inner R inside inside') (className : String) :
    Alike R HostValue.Reordered (visit ⟨host, schema⟩ v inside (.object className) location)
      (visit ⟨host, schema⟩ w inside' (.object className) location) := by
  simp only [visit, object]
  cases schema.class? className with
  | none => exact .of_throw (.refl _)
  | some c =>
    cases inner with
    | @fields xs ys keys each =>
      have undeclared : (xs.find? fun e => (c.property? e.1).isNone).isSome =
          (ys.find? fun e => (c.property? e.1).isNone).isSome :=
        Json.isSome_find?_congr keys fun name => (c.property? name).isNone
      dsimp only
      generalize xs.find? (fun e => (c.property? e.1).isNone) = x,
        ys.find? (fun e => (c.property? e.1).isNone) = y at undeclared ⊢
      cases x with
      | some x =>
        cases y with
        | some y => exact .of_throw (.failure rfl rfl rfl)
        | none => cases undeclared
      | none =>
        cases y with
        | some y => cases undeclared
        | none =>
          have found := fun name => Json.rel_lookup keys (each name)
          exact (properties_alike className found c.properties).bind fun _ _ values =>
            build_alike blind className values
    | _ => exact violated_alike rfl

end Decoding

/-- **Decoding does not see the order of keys**, if the host does not. -/
theorem Json.Reordered.decode_alike {σ : Type} {R : σ → σ → Prop} {host : Host σ}
    (blind : host.OrderBlind R) (schema : Schema) {v w : Json} (h : v.Reordered w) :
    Decoding.DecodesAlike R (v.decode ⟨host, schema⟩) (w.decode ⟨host, schema⟩) := by
  refine h.inductionOnParts
    (P := fun v w => Decoding.DecodesAlike R (v.decode ⟨host, schema⟩) (w.decode ⟨host, schema⟩)) ?_
  intro v w h parts kind location
  have inner : Decoding.Inner R (v.inside (·.decode ⟨host, schema⟩)) (w.inside (·.decode ⟨host, schema⟩)) :=
    h.inside parts
  rw [Json.decode_eq_visit, Json.decode_eq_visit]
  cases kind with
  | boolean | integer | number | string | dictionary => exact Decoding.scalar_alike h (by simp)
  | anyArray length => exact Decoding.anyArray_alike h length
  | array element length => exact Decoding.array_alike inner element length
  | packed tag => exact Decoding.packed_alike blind inner tag
  | enum owner name flags => exact Decoding.enum_alike h owner name flags
  | struct tag => exact Decoding.struct_alike blind inner tag
  | object className => exact Decoding.object_alike blind inner className

/-! ## Checking and decoding -/

/-- What a check raises does not depend on the order of keys. -/
theorem Checker.check_alike (c : Checker) {v w : Json} (h : v.Reordered w) :
    EndAlike (· = ·) (c.check v) (c.check w) := by
  have told := h.told_findings c
  rw [check, check]
  generalize c.findings v = found, c.findings w = other at told ⊢
  cases found with
  | error fault =>
    cases other with
    | error fault' =>
      rw [Except.error.inj told]
      exact .error (.fault fault')
    | ok other => cases told
  | ok found =>
    cases other with
    | error fault => cases told
    | ok other =>
      have told : found.map Finding.told = other.map Finding.told := Except.ok.inj told
      cases found with
      | nil =>
        rw [List.map_eq_nil_iff.mp told.symm]
        exact .ok rfl
      | cons first rest =>
        cases other with
        | nil => cases told
        | cons first' rest' =>
          obtain ⟨code, place⟩ := Prod.mk.inj (List.cons.inj told).1
          exact .error (.failure code rfl (congrArg some (Prod.mk.inj place).1))

namespace Schema

variable {σ : Type} {R : σ → σ → Prop} {host : Host σ} {v w : Json}

/-- A schema decodes alike, also below the wrapper of a bare kind. -/
theorem decode_alike (blind : host.OrderBlind R) (schema : Schema) (h : v.Reordered w) :
    Alike R HostValue.Reordered (schema.decode host v) (schema.decode host w) := by
  unfold Schema.decode
  cases schema.wrapped with
  | false => exact h.decode_alike blind schema _ _
  | true =>
    have inner := h.field? "value"
    generalize v.field? "value" = x, w.field? "value" = y at inner
    cases inner with
    | some inner => exact inner.decode_alike blind schema _ _
    | none => exact .of_throw (.refl _)

/-- So it does with a check in front, since both values are equally deep. -/
theorem decodeChecked_alike (blind : host.OrderBlind R) (schema : Schema) (depth : Nat) (h : v.Reordered w) :
    Alike R HostValue.Reordered (schema.decodeChecked depth host v).1
      (schema.decodeChecked depth host w).1 := by
  by_cases shallow : v.depth ≤ depth
  · have checked := schema.checker.check_alike h
    rw [decodeChecked_eq_check schema host shallow,
      decodeChecked_eq_check schema host (h.depth_eq ▸ shallow)]
    generalize schema.checker.check v = a, schema.checker.check w = b at checked
    cases checked with
    | ok _ => exact decode_alike blind schema h
    | error same => exact .of_throw same
  · rw [decodeChecked, decodeChecked, if_pos (not_le.mp shallow),
      if_pos (h.depth_eq ▸ not_le.mp shallow)]
    exact .of_throw (.refl _)

/-- Two runs went alike: they have alike results, the host was called alike, and its states are related. -/
structure RanAlike (R : σ → σ → Prop) (ran other : Outcome HostValue × σ × List Event) : Prop where
  result : EndAlike HostValue.Reordered ran.1.result other.1.result
  calls : List.Forall₂ Event.Alike ran.2.2 other.2.2
  state : R ran.2.1 other.2.1

/-- **The order of keys is irrelevant.**  Callers are told the same of two values that differ only in the
order of keys: the same faults, or the same codes, pointers and sorts in the same order.  Instantiating
them, whatever the limits are, asks a host that is blind to that order for the same, in the same order, and ends
alike: in results that are the same but for the order of keys inside plain data, or in errors of the same class,
context and path. -/
theorem key_order_is_irrelevant (schema : Schema) {v w : Json} (h : v.Reordered w) :
    (schema.checker.findings v).map (·.map Finding.told) =
        (schema.checker.findings w).map (·.map Finding.told) ∧
      ∀ {σ : Type} (host : Host σ) (R : σ → σ → Prop), host.OrderBlind R →
        ∀ (limits : Limits) (p q : Payload), p.read limits.nesting = .ok v → q.read limits.nesting = .ok w →
          ∀ s t, R s t → RanAlike R ((schema.instantiate limits host.recorded p).run (s, []))
            ((schema.instantiate limits host.recorded q).run (t, [])) := by
  refine ⟨h.told_findings schema.checker, fun host R blind limits p q hp hq s t hr => ?_⟩
  have alike := decodeChecked_alike blind.recorded schema limits.depth h
  obtain ⟨ends, after, calls⟩ := alike (s, []) (t, []) ⟨hr, .nil⟩
  have attempted {payload : Payload} {value : Json} (read : payload.read limits.nesting = .ok value) :
      schema.attempt limits host.recorded payload =
        schema.decodeChecked limits.depth host.recorded value := by
    rw [attempt, read]
  rw [run_instantiate, run_instantiate, attempted hp, attempted hq]
  refine ⟨?_, calls, after⟩
  rw [result_report, result_report]
  exact ends.settled

/-- A text about a person, and one in which the friends come first. -/
def adaText : String := "\x7b\"name\": \"Ada\", \"mood\": \"Glad\", \"friends\": []\x7d"

def adaFriendsFirst : String := "\x7b\"friends\": [], \"name\": \"Ada\", \"mood\": \"Glad\"\x7d"

/-- A table of people makes the same person of both. -/
theorem key_order_is_irrelevant_ada :
    ∃ schema v w, (buildClass people.source "Person" "").run.1 = .ok schema ∧
      (Payload.text adaText).read 2 = .ok v ∧ (Payload.text adaFriendsFirst).read 2 = .ok w ∧ v ≠ w ∧
      (schema.checker.findings v).map (·.map Finding.told) =
        (schema.checker.findings w).map (·.map Finding.told) ∧
      RanAlike (· = ·) ((schema.instantiate ⟨2, 2⟩ people.host.recorded (.text adaText)).run ((), []))
        ((schema.instantiate ⟨2, 2⟩ people.host.recorded (.text adaFriendsFirst)).run ((), [])) := by
  obtain ⟨schema, h⟩ := exists_schema_person
  have read : (Payload.text adaText).read 2 =
    .ok (.obj ([("name", .str "Ada"), ("mood", .str "Glad")] ++ [("friends", .arr [])])) := by rfl
  have readOther : (Payload.text adaFriendsFirst).read 2 =
    .ok (.obj ([("friends", .arr [])] ++ [("name", .str "Ada"), ("mood", .str "Glad")])) := by rfl
  have same := (Payload.reordered_of_read read).perm List.perm_append_comm
  obtain ⟨told, ran⟩ := key_order_is_irrelevant schema same
  exact ⟨schema, _, _, h, read, readOther, by simp, told,
    ran people.host (· = ·) people.orderBlind ⟨2, 2⟩ _ _ read readOther () () rfl⟩

end Schema

end ReflectedSchema
