import ReflectedSchema.Proofs.Building.Boxes
import ReflectedSchema.Proofs.Decoding.Congruence
import ReflectedSchema.Proofs.Decoding.Totality
import ReflectedSchema.Proofs.Hosts.Tabulated

/-!
# Values in boxes

The schemas of a bare type and of its box accept the same values.  An accepted value is an object with
`value` as its only name; by the first schema it is decoded as what stands there, by the second one as
an object of the box, which a host makes by storing the same.
-/

namespace ReflectedSchema

open Build HostM

/-! ## Objects that are accepted -/

/-- Checks that find nothing together find nothing each. -/
theorem Checked.eq_nil_of_all {checks : List Checked} (h : Checked.all checks = .ok []) :
    ∀ check ∈ checks, check = .ok [] := by
  induction checks with
  | nil => exact fun _ hc => absurd hc List.not_mem_nil
  | cons first rest ih =>
    cases first with
    | error e => cases h
    | ok found =>
      cases hr : Checked.all rest with
      | error e => simp only [Checked.all, hr, reduceCtorEq] at h
      | ok more =>
        simp only [Checked.all, hr, Except.ok.injEq, List.append_eq_nil_iff] at h
        obtain ⟨rfl, rfl⟩ := h
        exact List.forall_mem_cons.mpr ⟨rfl, ih hr⟩

/-- Nothing is found in a value that is accepted. -/
theorem Schema.raw_of_accepts {schema : Schema} {v : Json} (h : schema.accepts v) :
    schema.checker.raw v = .ok [] := by
  cases hr : schema.checker.raw v with
  | error e =>
    rw [Schema.accepts, Checker.findings, hr] at h
    cases h
  | ok found => rw [(Checker.findings_eq_nil_iff hr).mp h]

section

variable {check : Json → Json → Checked} {fields : List (String × Json)}

/-- Nothing required is found absent exactly if it is there. -/
theorem Checker.required_eq_nil {names : List String} :
    Checker.required ((Json.obj fields).inside check) names = .ok [] ↔
      ∀ name ∈ names, (Json.lookup name fields).isSome := by
  rw [Json.inside, Checker.required, Except.ok.injEq, Finding.absent_map, Finding.absent_eq_nil_iff]

/-- Nothing undeclared is found exactly if all names are declared. -/
theorem Checker.undeclared_eq_nil {properties : List (String × Json)} :
    Checker.undeclared ((Json.obj fields).inside check) properties = .ok [] ↔
      ∀ f ∈ fields, (Json.lookup f.1 properties).isSome := by
  simp only [Json.inside, Checker.undeclared, Except.ok.injEq, List.map_eq_nil_iff,
    List.filter_eq_nil_iff, List.forall_mem_map, Bool.not_eq_true, Option.isNone_eq_false_iff]

end

/-- An object at the root takes values that are objects with the same names. -/
theorem Schema.accepts_object {schema : Schema} {shared : List (String × Json)}
    {properties : List NodeProperty}
    (hd : schema.document = assemble shared (Definition.object properties).fields) {v : Json}
    (h : schema.accepts v) : ∃ fields, v = .obj fields ∧ HasKeys (properties.map (·.name)) fields := by
  have raw := Schema.raw_of_accepts h
  rw [Checker.raw, Schema.checker, hd, Json.check_eq_visit, assemble, Checker.visit_obj] at raw
  have each := fun k hk => Checked.eq_nil_of_all raw _ (List.mem_map_of_mem (a := k) hk)
  have type := each ("type", .str "object") (by simp [Definition.fields])
  rw [Checker.keyword_type, Except.ok.injEq, Glossary.typed_eq_nil] at type
  cases v with
  | obj fields =>
    have names := each ("required", .arr (properties.map fun p => .str p.name))
      (by simp [Definition.fields])
    have extra := each ("additionalProperties", .bool false) (by simp [Definition.fields])
    rw [Checker.keyword_required, Checker.required_eq_nil] at names
    rw [Checker.keyword_additionalProperties, Checker.undeclared_eq_nil] at extra
    refine ⟨fields, rfl, fun name => ⟨fun hs => ?_, fun hn => ?_⟩⟩
    · obtain ⟨value, hv⟩ := Option.isSome_iff_exists.mp hs
      have declared : (Json.lookup name (properties.map fun p => (p.name, p.toJson))).isSome :=
        extra _ (Json.mem_of_lookup hv)
      simpa [Json.isSome_lookup_iff] using declared
    · exact names name (by simpa [Json.str?] using hn)
  | _ => cases type

/-! ## Decoding into a box -/

section

variable {σ : Type} {source : Source} {className : String} {kind : Kind} {host : Host σ}
  {view : HostView}

/-- A result is boxed by another: where the one is a value, the other is an object of a class that has
the value stored under `value`, and there is none where the other is none. -/
def HostView.Boxes (view : HostView) (className : String) (bare boxed : Except Raised HostValue) : Prop :=
  ∀ x, bare = .ok x ↔ ∃ object, boxed = .ok object ∧ view.class? object = some className ∧
    view.property? object "value" = some x

/-- Where neither is a value, the one is boxed by the other. -/
theorem HostView.Boxes.of_error (e f : Raised) : view.Boxes className (.error e) (.error f) := by
  intro x
  constructor
  · intro h
    cases h
  · rintro ⟨object, h, -⟩
    cases h

/-- Errors may be told in another way. -/
theorem HostView.Boxes.settled {bare boxed : Except Raised HostValue} (h : view.Boxes className bare boxed) :
    view.Boxes className (bare.mapError Raised.settled) (boxed.mapError Raised.settled) := by
  simpa only [Boxes, mapError_eq_ok] using h

/-- An object of a box is made of the value that its only property has. -/
theorem decode_box {schema : Schema} (hclass : schema.class? className = some (box className kind))
    {fields : List (String × Json)} (keys : HasKeys ["value"] fields) {inner : Json}
    (hv : Json.lookup "value" fields = some inner) :
    (Json.obj fields).decode ⟨host, schema⟩ (.object className) [] = (do
      let x ← HostM.within className "value" (inner.decode ⟨host, schema⟩ kind [.key "value"])
      let object ← host.construct className
      HostM.within className "value" (host.setProperty object "value" x)) := by
  have declared := (Decoding.find_undeclared_eq_none (d := (⟨host, schema⟩ : Decoding σ))
    (c := box className kind)).mpr fun name hs => (keys name).mp hs
  rw [Json.decode_eq_visit]
  simp only [Decoding.visit, Decoding.object, hclass, Json.inside, declared]
  simp only [box, Decoding.properties, Json.lookup_map, hv, Decoding.build, Option.map_some, List.nil_append,
    bind_assoc, pure_bind, Decoding.assign, bind_pure]

/-- A host that stores what it is given makes a box of any value. -/
theorem Host.Stores.exists_object (h : host.Stores view className "value") (x : HostValue) (s : σ) :
    ∃ object after, (ExceptT.run (do
        let object ← host.construct className
        HostM.within className "value" (host.setProperty object "value" x))).run s = (.ok object, after) ∧
      view.class? object = some className ∧ view.property? object "value" = some x := by
  have stored : Ensures (fun object => view.class? object = some className ∧
      view.property? object "value" = some x) (fun _ => False) (host.construct className >>= fun object =>
        HostM.within className "value" (host.setProperty object "value" x)) :=
    h.construct.bind fun object ho => (h.setProperty object x ho).within fun _ => False.elim
  rcases hr : (ExceptT.run (host.construct className >>= fun object =>
    HostM.within className "value" (host.setProperty object "value" x))).run s with ⟨e | object, after⟩
  · exact (stored.raised hr).elim
  · exact ⟨object, after, rfl, stored.result hr⟩

/-- The value under `value` is boxed by the object. -/
theorem Host.Stores.boxes {schema : Schema} (h : host.Stores view className "value")
    (hclass : schema.class? className = some (box className kind)) {fields : List (String × Json)}
    (keys : HasKeys ["value"] fields) {inner : Json} (hv : Json.lookup "value" fields = some inner) (s : σ) :
    view.Boxes className ((ExceptT.run (inner.decode ⟨host, schema⟩ kind [.key "value"])).run s).1
      ((ExceptT.run ((Json.obj fields).decode ⟨host, schema⟩ (.object className) [])).run s).1 := by
  rw [decode_box hclass keys hv, ExceptT.run_bind, StateT.run_bind, HostM.run_within]
  rcases (ExceptT.run (inner.decode ⟨host, schema⟩ kind [.key "value"])).run s with ⟨e | x, after⟩
  · exact .of_error _ _
  obtain ⟨object, last, made, isBox, stored⟩ := h.exists_object x after
  intro y
  constructor
  · rintro ⟨⟩
    exact ⟨object, congrArg Prod.fst made, isBox, stored⟩
  · rintro ⟨other, ho, -, hy⟩
    obtain rfl := Except.ok.inj ((congrArg Prod.fst made).symm.trans ho)
    rw [Option.some.inj (stored.symm.trans hy)]

end

/-! ## The schemas of a bare kind and of its box -/

namespace Source.Boxes.Leaves

variable {source : Source} {className : String} {kind : Kind} {d e : Shared}

/-- The bare schema and that of the box check with the same document. -/
theorem checker_eq (h : Leaves source className kind d e) (title other : String) :
    (Schema.ofKind kind title d).checker =
      (Schema.ofClass (box className kind) other e).checker := by
  rw [Schema.checker, h.document_eq title other, h.enums_eq title other, Schema.checker]

/-- The schema of the box knows the box. -/
theorem class?_box (h : Leaves source className kind d e) (other : String) :
    (Schema.ofClass (box className kind) other e).class? className =
      some (box className kind) := by
  have root : source.Reaches (.object className) (.class className) :=
    source.reaches_self (List.mem_singleton.mpr rfl)
  obtain ⟨c, found, hc⟩ := (h.boxed.presents other).complete.classes root
  rw [found, Except.ok.inj (hc.symm.trans h.boxes.described)]

/-- The schemas agree on what the kind reaches. -/
theorem agreesOn (h : Leaves source className kind d e) (title other : String) :
    (Schema.ofKind kind title d).AgreesOn (source.Reaches kind)
      (Schema.ofClass (box className kind) other e) := by
  obtain ⟨node, stands⟩ := h.bare
  refine (stands.presents h.boxes.wellFormed h.boxes.wrapped title).complete.agreesOn
    (h.enums_eq title other) fun hn => (h.boxed.presents other).complete.classes ?_
  exact source.reaches_object.mpr (.inr (h.boxes.live_iff.mpr hn))

variable {σ : Type} {host : Host σ} {view : HostView}

/-- An accepted value is decoded by the bare kind into what the box holds. -/
theorem boxes_decode (h : Leaves source className kind d e) (title other : String)
    (stores : host.Stores view className "value") {v : Json}
    (accepted : (Schema.ofKind kind title d).accepts v) (s : σ) :
    view.Boxes className ((ExceptT.run ((Schema.ofKind kind title d).decode host v)).run s).1
      ((ExceptT.run ((Schema.ofClass (box className kind) other e).decode host v)).run s).1 := by
  have root : (Schema.ofKind kind title d).document = assemble d.toJson
    (Definition.object [⟨"value", kind.node d.enumName?, none⟩]).fields := rfl
  obtain ⟨fields, rfl, keys⟩ := Schema.accepts_object root accepted
  obtain ⟨inner, hv⟩ := Option.isSome_iff_exists.mp ((keys "value").mpr (List.mem_singleton.mpr rfl))
  have same := (h.agreesOn title other).decode_eq host inner kind fun _ => source.reaches_self
  have bare : (Schema.ofKind kind title d).decode host (.obj fields) =
      inner.decode ⟨host, .ofKind kind title d⟩ kind [.key "value"] := by
    have field : (Json.obj fields).field? "value" = some inner := hv
    rw [Schema.decode, field]
    rfl
  rw [bare, same]
  exact stores.boxes (h.class?_box other) keys hv s

/-- Whatever is instantiated comes out bare by the one schema and boxed by the other. -/
theorem boxes_instantiate (h : Leaves source className kind d e) (title other : String)
    (stores : host.Stores view className "value") (limits : Limits) (payload : Payload) (s : σ) :
    view.Boxes className (((Schema.ofKind kind title d).instantiate limits host payload).run s).1.result
      (((Schema.ofClass (box className kind) other e).instantiate limits host payload).run s).1.result := by
  have admits : ∀ v, (Schema.ofKind kind title d).Admits limits payload v ↔
      (Schema.ofClass (box className kind) other e).Admits limits payload v := by
    intro v
    rw [Schema.Admits, Schema.Admits, Schema.accepts, Schema.accepts, h.checker_eq title other]
  rw [Schema.run_instantiate, Schema.run_instantiate, Schema.result_report, Schema.result_report]
  refine HostView.Boxes.settled ?_
  by_cases admitted : ∃ v, (Schema.ofKind kind title d).Admits limits payload v
  · obtain ⟨v, hv⟩ := admitted
    rw [Schema.attempt_of_admits hv, Schema.attempt_of_admits ((admits v).mp hv)]
    exact h.boxes_decode title other stores hv.2.2 s
  · have refused : ∀ v, ¬ (Schema.ofKind kind title d).Admits limits payload v := not_exists.mp admitted
    obtain ⟨e, _, bare⟩ := Schema.attempt_of_refused refused
    obtain ⟨f, _, boxed⟩ := Schema.attempt_of_refused fun v => mt (admits v).mpr (refused v)
    rw [bare, boxed]
    exact .of_error e f

end Source.Boxes.Leaves

/-! ## The main result -/

/-- Only the document decides whether a schema passes the last check. -/
theorem Schema.exists_checked {schema other : Schema} (same : schema.document = other.document)
    (h : ∃ result, schema.checked = .ok result) : ∃ result, other.checked = .ok result := by
  obtain ⟨result, h⟩ := h
  obtain rfl := Schema.eq_of_checked h
  exact ⟨other, Schema.checked_eq_ok (same ▸ Schema.clean_of_checked h)⟩

/-- **The schema of a bare type is that of a class with one property.**  When the only property of a class
is the type, under the name `value` and without description, both schemas are built or none, also if the
type leads back to the class.  The documents are the same, and so is what is found in any value.  An
accepted value, and any payload whatever the limits are, comes out by the first schema as what an object of the
class holds by the second, for every host that stores what it is given. -/
theorem bare_type_is_boxed {source : Source} {className : String} {info : PropertyInfo}
    (own : source.OwnsName className)
    (only : source.properties className = .ok [{ info with name := "value", description := none }])
    (wrapped : ∀ kind, resolve source.hasClass info = .ok kind → kind.isWrapped = true) (title : String) :
    ((∃ bare, (buildType source info).run.1 = .ok bare) ↔
      ∃ boxed, (buildClass source className title).run.1 = .ok boxed) ∧
    ∀ {bare boxed : Schema}, (buildType source info).run.1 = .ok bare →
      (buildClass source className title).run.1 = .ok boxed →
        bare.document = boxed.document ∧
        (∀ v, bare.checker.findings v = boxed.checker.findings v) ∧
        ∀ {σ : Type} {host : Host σ} {view : HostView}, host.Stores view className "value" → ∀ s,
          (∀ v, bare.accepts v → view.Boxes className ((ExceptT.run (bare.decode host v)).run s).1
            ((ExceptT.run (boxed.decode host v)).run s).1) ∧
          ∀ limits payload, view.Boxes className ((bare.instantiate limits host payload).run s).1.result
            ((boxed.instantiate limits host payload).run s).1.result := by
  obtain ⟨⟨e, bare⟩, f, boxed⟩ | ⟨kind, name, d, e, bare, boxed, leaves⟩ :=
    buildType_together own only wrapped title
  · rw [bare, boxed]
    refine ⟨⟨fun ⟨_, h⟩ => ?_, fun ⟨_, h⟩ => ?_⟩, fun h => ?_⟩ <;> cases h
  · have document := leaves.document_eq name title
    rw [bare, boxed]
    refine ⟨⟨Schema.exists_checked document, Schema.exists_checked document.symm⟩, fun h g => ?_⟩
    obtain rfl := Schema.eq_of_checked h
    obtain rfl := Schema.eq_of_checked g
    refine ⟨document, fun v => ?_, fun stores s => ⟨fun v accepted => ?_, fun limits payload => ?_⟩⟩
    · rw [leaves.checker_eq name title]
    · exact leaves.boxes_decode name title stores accepted s
    · exact leaves.boxes_instantiate name title stores limits payload s

/-- Crates hold parcels, and there are crates inside a parcel. -/
def crates : Table where
  classes := [
    ("Crate",
      { properties := [{ name := "value", type := .array, hint := .arrayType, hintText := "Parcel" }] }),
    ("Parcel",
      { properties := [
          { name := "label", type := .string },
          { name := "crates", type := .array, hint := .arrayType, hintText := "Crate" }] })]

/-- A list of parcels. -/
def parcels : PropertyInfo where
  name := "parcels"
  type := .array
  hint := .arrayType
  hintText := "Parcel"

/-- The class of parcels. -/
def parcel : ClassDescriptor where
  name := "Parcel"
  properties := [
    { name := "label", kind := .string },
    { name := "crates", kind := .array (.object "Crate") none }]

/-- A list of one parcel, without crates inside. -/
def shipment : Json :=
  .obj [("value", .arr [.obj [("label", .str "tea"), ("crates", .arr [])]])]

/-- The parcels of the list. -/
def shipped : HostValue :=
  .list [.record "Parcel" [("label", .data (.str "tea")), ("crates", .list [])]]

/-- The example parcels have a schema, by which their shipment is decoded. -/
theorem exists_schema_parcels : ∃ schema, (buildType crates.source parcels).run.1 = .ok schema ∧
    ((ExceptT.run (schema.decode crates.host shipment)).run ()).1 = .ok shipped := by
  have built : ((buildType crates.source parcels).run.1.toOption.map fun schema =>
      ((ExceptT.run (schema.decode crates.host shipment)).run ()).1) = some (.ok shipped) := by cbv
  cases hb : (buildType crates.source parcels).run.1 with
  | error e =>
    rw [hb] at built
    cases built
  | ok schema =>
    rw [hb] at built
    exact ⟨schema, rfl, Option.some.inj built⟩

/-- The example shipment conforms below a wrapper. -/
theorem conforms_shipment :
    crates.source.ConformsWrapped (.array (.object "Parcel") none) shipment := by
  refine ⟨_, rfl, .self _, fun value hv => ?_⟩
  cases hv
  refine .array (.none _) (List.forall_mem_singleton.mpr ?_)
  refine .object (c := parcel) rfl (.self _) fun p hp value hv => ?_
  simp only [parcel, List.mem_cons, List.not_mem_nil, or_false] at hp
  rcases hp with rfl | rfl
  · cases hv
    exact .string "tea"
  · cases hv
    exact .array (.none _) fun item hi => absurd hi List.not_mem_nil

/-- A list of parcels is what a crate holds. -/
theorem bare_type_is_boxed_parcels : ∃ bare boxed : Schema,
    (buildType crates.source parcels).run.1 = .ok bare ∧
      (buildClass crates.source "Crate" "").run.1 = .ok boxed ∧ bare.document = boxed.document ∧
        bare.accepts shipment ∧
          ((ExceptT.run (bare.decode crates.host shipment)).run ()).1 = .ok shipped ∧
            ∃ object, ((ExceptT.run (boxed.decode crates.host shipment)).run ()).1 = .ok object ∧
              Table.view.class? object = some "Crate" ∧
                Table.view.property? object "value" = some shipped := by
  obtain ⟨bare, h, decoded⟩ := exists_schema_parcels
  have own : crates.source.OwnsName "Crate" := ⟨by decide, by decide, by decide⟩
  have only : crates.source.properties "Crate" =
      .ok [{ parcels with name := "value", description := none }] := rfl
  have wrapped : ∀ kind, resolve crates.source.hasClass parcels = .ok kind → kind.isWrapped = true := by
    rintro kind ⟨⟩
    rfl
  obtain ⟨both, same⟩ := bare_type_is_boxed own only wrapped ""
  obtain ⟨boxed, g⟩ := both.mp ⟨bare, h⟩
  obtain ⟨document, -, decodes⟩ := same h g
  have plain : crates.source.PlainNames := Table.plainNames (by decide) (by decide)
  obtain ⟨kind, hk, root, isWrapped⟩ := buildType_root h
  obtain ⟨names, shared, presents⟩ := (Schema.Built.type hk h).presents
  have accepted : bare.accepts shipment := by
    cases hk
    rw [presents.accepts_iff plain, root, isWrapped]
    exact conforms_shipment
  have stores : crates.host.Stores Table.view "Crate" "value" :=
    (Table.keeps (t := crates) (by decide)).stores (c := box "Crate" (.array (.object "Parcel") none)) rfl
      List.mem_cons_self
  exact ⟨bare, boxed, h, g, document, accepted, decoded,
    ((decodes stores ()).1 shipment accepted shipped).mp decoded⟩

end ReflectedSchema
