import ReflectedSchema.Proofs.Decoding.Agreement
import ReflectedSchema.Proofs.Decoding.Attempt
import ReflectedSchema.Proofs.Number.Rounding

/-!
# Which accepted values are decoded

A value that conforms has everything that decoding asks for, and its results are in the domain of every
conversion but one.  A schema asks of a number only that it is one, while decoding makes it a double, so
an integer that stands for a number has to be in reach of one.  `Source.Representable` says so of all
such integers inside a value.  Decoding a value that conforms ends in a result exactly if the value is
representable, and otherwise in an overflow.
-/

namespace ReflectedSchema

open HostM

/-! ## Representable values -/

/-- Every integer inside a value that stands for a number is in reach of a double. -/
def Source.Representable (source : Source) (kind : Kind) (v : Json) : Prop :=
  ∀ n, Relation.ReflTransGen source.Part (kind, v) (.number, .int n) → Binary64.InReach n

/-- Every integer that stands for a number is in reach of a double, inside the wrapper if there is
one. -/
def Schema.Representable (source : Source) (schema : Schema) (v : Json) : Prop :=
  if schema.wrapped then
    ∀ inner, v.field? "value" = some inner → source.Representable schema.root inner
  else source.Representable schema.root v

namespace Source.Representable

variable {source : Source} {kind inner : Kind} {v w : Json}

/-- What is representable has representable parts. -/
theorem part (h : source.Representable kind v) (hp : source.Part (kind, v) (inner, w)) :
    source.Representable inner w :=
  fun n hr => h n (.head hp hr)

/-- A value of another kind is representable if its parts are. -/
theorem of_parts (hk : kind ≠ .number)
    (h : ∀ inner w, source.Part (kind, v) (inner, w) → source.Representable inner w) :
    source.Representable kind v := by
  intro n hr
  rcases hr.cases_head with same | ⟨⟨inner, w⟩, hp, hr⟩
  · exact absurd (congrArg Prod.fst same) hk
  · exact h inner w hp n hr

/-- An integer that stands for a number is representable exactly if it is in reach of a double. -/
theorem int_iff {n : Int} : source.Representable .number (.int n) ↔ Binary64.InReach n := by
  constructor
  · exact fun h => h n .refl
  · intro reach m hr
    rcases hr.cases_head with same | ⟨_, hp, -⟩
    · cases same
      exact reach
    · cases hp

/-- A double is representable. -/
theorem float (x : Binary64) : source.Representable .number (.float x) := by
  intro n hr
  rcases hr.cases_head with same | ⟨_, hp, -⟩
  · cases same
  · cases hp

/-- An array is representable if its items are. -/
theorem array {element : Kind} {length : Option Int} {items : List Json}
    (h : ∀ item ∈ items, source.Representable element item) :
    source.Representable (.array element length) (.arr items) := by
  refine of_parts (by simp) fun inner w hp => ?_
  cases hp with
  | item hi => exact h _ hi

/-- A packed array is representable if its items are. -/
theorem packed {tag : PackedTag} {items : List Json}
    (h : ∀ item ∈ items, source.Representable tag.element item) :
    source.Representable (.packed tag) (.arr items) := by
  refine of_parts (by simp) fun inner w hp => ?_
  cases hp with
  | packed hi => exact h _ hi

/-- A struct is representable if its components are. -/
theorem struct {tag : StructTag} {fields : List (String × Json)}
    (h : ∀ component ∈ tag.layout, ∀ value, Json.lookup component.1 fields = some value →
      source.Representable component.2 value) : source.Representable (.struct tag) (.obj fields) := by
  refine of_parts (by simp) fun inner w hp => ?_
  cases hp with
  | component hc hv => exact h _ hc _ hv

/-- An object is representable if the values of its properties are. -/
theorem object {c : ClassDescriptor} {fields : List (String × Json)}
    (hc : describeClass source c.name = .ok c)
    (h : ∀ p ∈ c.properties, ∀ value, Json.lookup p.name fields = some value →
      source.Representable p.kind value) : source.Representable (.object c.name) (.obj fields) := by
  refine of_parts (by simp) fun inner w hp => ?_
  generalize hk : Kind.object c.name = kind at hp
  cases hp with
  | property hc' hp hv =>
    obtain rfl := Except.ok.inj (hc.symm.trans (Kind.object.inj hk ▸ hc'))
    exact h _ hp _ hv
  | _ => cases hk

end Source.Representable

/-! ## Decoding by kind -/

/-- What is raised is an overflow, because something does not hold. -/
def Raised.Overflow (fits : Prop) (e : Raised) : Prop :=
  e = .fault .floatOverflow ∧ ¬ fits

namespace Raised.Overflow

variable {fits wider : Prop} {e : Raised}

/-- An overflow of a part is one of the whole. -/
theorem mono (h : Overflow fits e) (hw : wider → fits) : Overflow wider e :=
  ⟨h.1, h.2 ∘ hw⟩

/-- A fault is not annotated. -/
theorem annotate (owner property : String) (h : Overflow fits e) :
    Overflow fits (e.annotate owner property) := by
  obtain ⟨rfl, hf⟩ := h
  exact ⟨rfl, hf⟩

end Raised.Overflow

namespace Decoding

variable {σ : Type} {source : Source} {described : Entity → Prop}
  {isObject : String → HostValue → Prop} {d : Decoding σ} {location : Location}

/-- Decoding by any described kind that a value conforms to ends in a result exactly if the value is
representable, and otherwise in an overflow. -/
def Total (source : Source) (described : Entity → Prop) (d : Decoding σ) (v : Json) : Prop :=
  ∀ kind : Kind, kind.WellFormed source.hasClass → (∀ e ∈ kind.mentions, described e) →
    source.Conforms kind v → ∀ location, Ensures (fun _ => source.Representable kind v)
      (Raised.Overflow (source.Representable kind v)) (v.decode d kind location)

/-- A call that nothing is raised by ends in a result. -/
theorem ensures_of_succeeds {α : Type} {fits : Prop} {call : HostM σ α}
    (h : Ensures (fun _ => True) (fun _ => False) call) (hf : fits) :
    Ensures (fun _ => fits) (Raised.Overflow fits) call :=
  h.mono (fun _ _ => hf) fun _ => False.elim

/-- A number is made a double exactly if it is representable. -/
theorem number_total {n : Int} {inside : Inside (Decoder σ)} :
    Ensures (fun _ => source.Representable .number (.int n))
      (Raised.Overflow (source.Representable .number (.int n)))
      (d.visit (.int n) inside .number location) := by
  have rounds := Binary64.ofInt?_isSome_iff n
  rw [Source.Representable.int_iff, ← rounds]
  simp only [visit]
  cases Binary64.ofInt? n with
  | some x => exact .of_pure rfl
  | none => exact .of_throw ⟨rfl, Bool.false_ne_true⟩

/-- Items that conform are decoded, or one of them overflows. -/
theorem items_total {items : List Json} {element : Kind} {fits : Prop}
    (parts : ∀ w ∈ (Json.arr items).parts, d.Total source described w)
    (hw : element.WellFormed source.hasClass) (hd : ∀ e ∈ element.mentions, described e)
    (conforms : ∀ item ∈ items, source.Conforms element item)
    (hf : fits → ∀ item ∈ items, source.Representable element item) :
    Ensures (fun _ => ∀ item ∈ items, source.Representable element item) (Raised.Overflow fits)
      (itemsFrom element location 0 (items.map (·.decode d))) := by
  have each : Ensures (List.Forall₂ (fun item _ => source.Representable element item) items)
      (Raised.Overflow fits) (itemsFrom element location 0 (items.map (·.decode d))) :=
    itemsFrom_ensures (fun item hi location =>
      (parts item hi element hw hd (conforms item hi) location).mono (fun _ => id)
        fun e he => he.mono fun h => hf h item hi) 0
  refine each.mono (fun results hr item hi => ?_) fun _ => id
  obtain ⟨_, -, h⟩ := of_forall₂ hr hi
  exact h

/-- A packed array is decoded if its items are: the host packs what is in range. -/
theorem packed_total {tag : PackedTag} {items : List Json}
    (hh : d.host.Raises source isObject fun _ => False)
    (parts : ∀ w ∈ (Json.arr items).parts, d.Total source described w)
    (hd : ∀ e ∈ tag.element.mentions, described e)
    (conforms : ∀ item ∈ items, source.Conforms tag.element item)
    (inRange : ∀ item ∈ items, tag.InRange item) :
    Ensures (fun _ => source.Representable (.packed tag) (.arr items))
      (Raised.Overflow (source.Representable (.packed tag) (.arr items)))
      (d.visit (.arr items) (.items (items.map (·.decode d))) (.packed tag) location) := by
  have hw : tag.element.WellFormed source.hasClass := by cases tag <;> trivial
  cases hrange : tag.range with
  | none =>
    simp only [visit, hrange]
    refine (items_total parts hw hd conforms fun h item hi => h.part (.packed hi)).bind
      fun results hr => ensures_of_succeeds (hh.constructPacked tag results ?_) (.packed hr)
    intro result _ least most h
    cases hrange.symm.trans h
  | some range =>
    have integer : tag.element = .integer := by cases tag <;> first | rfl | cases hrange
    have representable : source.Representable (.packed tag) (.arr items) := by
      refine .packed fun item _ => .of_parts (by simp [integer]) fun inner w hp => ?_
      rw [integer] at hp
      cases hp
    obtain ⟨results, takes, made⟩ := visit_packed_of_range (d := d) hrange conforms inRange
    rw [made]
    exact ensures_of_succeeds (hh.constructPacked tag results takes) representable

/-- A field that is present and conforms is decoded, or it overflows. -/
theorem field_total {fields : List (String × Json)} {name : String} {kind : Kind} {fits : Prop}
    (parts : ∀ w ∈ (Json.obj fields).parts, d.Total source described w)
    (hw : kind.WellFormed source.hasClass) (hd : ∀ e ∈ kind.mentions, described e)
    (present : (Json.lookup name fields).isSome)
    (conforms : ∀ value, Json.lookup name fields = some value → source.Conforms kind value)
    (hf : fits → ∀ value, Json.lookup name fields = some value → source.Representable kind value) :
    Ensures (fun _ => ∀ value, Json.lookup name fields = some value → source.Representable kind value)
      (Raised.Overflow fits)
      (field (fields.map fun (name, value) => (name, value.decode d)) name kind location) := by
  obtain ⟨value, hv⟩ := Option.isSome_iff_exists.mp present
  rw [field, Json.lookup_map, hv]
  have total := parts value (Json.mem_parts_of_lookup hv) kind hw hd (conforms value hv)
  refine (total _).mono (fun _ h other ho => ?_) fun e he => he.mono fun h => hf h value hv
  obtain rfl := Option.some.inj ho
  exact h

/-- A member or a set of members is decoded without fail. -/
theorem enum_total {v : Json} {owner name : String} {flags : Bool}
    (hs : d.schema.Complete source described)
    (hw : (Kind.enum owner name flags).WellFormed source.hasClass)
    (hd : described (.enum (enumPath owner name)))
    (conforms : source.Conforms (.enum owner name flags) v) :
    Ensures (fun _ => True) (fun _ => False) (d.enumValue owner name flags v location) := by
  obtain ⟨e, he, hm, nonempty⟩ := hs.enums hw hd
  have fits := (Source.conforms_enum_iff hm).mp conforms
  simp only [enumValue, he]
  cases flags with
  | false =>
    rw [if_neg (by decide)] at fits ⊢
    exact (memberValue_ensures fun hn => lookup_eq_none_iff.mp hn fits).bind fun _ _ =>
      .of_pure trivial
  | true =>
    obtain ⟨names, rfl, hnames⟩ := fits
    rw [if_pos rfl]
    refine (noFlags_ensures nonempty).bind fun empty _ => ?_
    refine (unionFrom_ensures (fun n hn hnone _ => ?_) 0 empty).bind fun _ _ => .of_pure trivial
    exact lookup_eq_none_iff.mp hnone (hnames n hn)

/-- A struct is decoded if its components are: the host makes it of all of them. -/
theorem struct_total {tag : StructTag} {fields : List (String × Json)}
    (hh : d.host.Raises source isObject fun _ => False)
    (parts : ∀ w ∈ (Json.obj fields).parts, d.Total source described w)
    (hd : ∀ component ∈ tag.layout, ∀ e ∈ component.2.mentions, described e)
    (keys : HasKeys (tag.layout.map (·.1)) fields)
    (conforms : ∀ component ∈ tag.layout, ∀ value, Json.lookup component.1 fields = some value →
      source.Conforms component.2 value) :
    Ensures (fun _ => source.Representable (.struct tag) (.obj fields))
      (Raised.Overflow (source.Representable (.struct tag) (.obj fields)))
      (d.visit (.obj fields) (.fields (fields.map fun (name, value) => (name, value.decode d)))
        (.struct tag) location) := by
  simp only [visit]
  refine (components_ensures fun component hc => field_total parts
    (StructTag.wellFormed_layout _ hc) (hd component hc) ((keys _).mpr (List.mem_map_of_mem hc))
    (conforms component hc) fun h value hv => h.part (.component hc hv)).bind fun results hr => ?_
  have names : results.map (·.1) = tag.layout.map (·.1) := names_of_forall₂ hr fun _ _ h => h.1
  refine ensures_of_succeeds (hh.constructStruct tag results names) (.struct fun component hc => ?_)
  obtain ⟨_, -, -, h⟩ := of_forall₂ hr hc
  exact h

/-- An object is decoded if its properties are: no name is undeclared, and the host takes each value. -/
theorem object_total {c : ClassDescriptor} {fields : List (String × Json)}
    (hs : d.schema.Complete source described) (hh : d.host.Raises source isObject fun _ => False)
    (parts : ∀ w ∈ (Json.obj fields).parts, d.Total source described w)
    (hd : described (.class c.name)) (hc : describeClass source c.name = .ok c)
    (keys : HasKeys c.propertyNames fields)
    (conforms : ∀ p ∈ c.properties, ∀ value, Json.lookup p.name fields = some value →
      source.Conforms p.kind value) :
    Ensures (fun _ => source.Representable (.object c.name) (.obj fields))
      (Raised.Overflow (source.Representable (.object c.name) (.obj fields)))
      (d.object c.name (.obj fields) (.fields (fields.map fun (name, value) => (name, value.decode d)))
        location) := by
  obtain ⟨found, hclass, hfound⟩ := hs.classes hd
  obtain rfl := Except.ok.inj (hc.symm.trans hfound)
  simp only [object, hclass, find_undeclared_eq_none.mpr fun name => (keys name).mp]
  refine (properties_ensures (fun owner property _ => Raised.Overflow.annotate owner property)
    fun p hp => field_total parts (wellFormed_of_describeClass hc p hp)
      (fun e he => hs.closed hd (.property hc hp he)) ((keys _).mpr (List.mem_map_of_mem hp))
      (conforms p hp) fun h value hv => h.part (.property hc hp hv)).bind fun results hr => ?_
  have names : results.map (·.1) = c.propertyNames := names_of_forall₂ hr fun _ _ h => h.1
  refine ensures_of_succeeds (build_ends hh (fun _ _ _ => id) hc names) (.object hc fun p hp => ?_)
  obtain ⟨_, -, -, h⟩ := of_forall₂ hr hp
  exact h

end Decoding

/-- **Which values are decoded.**  When a schema describes what a kind mentions and no call to the host
fails, decoding a value that conforms to the kind ends in a result exactly if the value is
representable, and otherwise in an overflow. -/
theorem Json.decode_total {σ : Type} {source : Source} {described : Entity → Prop}
    {isObject : String → HostValue → Prop} {d : Decoding σ}
    (hs : d.schema.Complete source described) (hh : d.host.Raises source isObject fun _ => False)
    (v : Json) : d.Total source described v := by
  refine Json.inductionOnParts (P := d.Total source described) v ?_
  intro v parts kind hw hd conforms location
  rw [Json.decode_eq_visit]
  have leaf (hk : kind ≠ .number) (none : ∀ inner w, ¬ source.Part (kind, v) (inner, w)) :
      source.Representable kind v := .of_parts hk fun inner w hp => absurd hp (none inner w)
  cases conforms with
  | boolean | string | dictionary => exact .of_pure (leaf (by simp) fun _ _ h => by cases h)
  | integer h =>
    rw [← Json.decode_eq_visit, Decoding.decode_integer h]
    exact .of_pure (leaf (by simp) fun _ _ h => by cases h)
  | numberInt n => exact Decoding.number_total
  | numberFloat x => exact .of_pure (.float x)
  | anyArray hl =>
    simp only [Decoding.visit, Decoding.checkLength_eq_pure hl]
    exact .of_pure (leaf (by simp) fun _ _ h => by cases h)
  | @array element length items hl h =>
    have known : element.WellFormed source.hasClass := hw
    simp only [Json.inside, Decoding.visit, List.length_map, Decoding.checkLength_eq_pure hl]
    exact (Decoding.items_total parts known hd h fun fits item hi => fits.part (.item hi)).bind
      fun _ each => .of_pure (.array each)
  | packed h hr => exact Decoding.packed_total hh parts (Kind.mentions_packed _ ▸ hd) h hr
  | enum hm ht =>
    exact Decoding.ensures_of_succeeds (Decoding.enum_total hs hw (hd _ (List.mem_singleton.mpr rfl))
      (.enum hm ht)) (leaf (by simp) fun _ _ h => by cases h)
  | flags hm hn =>
    exact Decoding.ensures_of_succeeds (Decoding.enum_total hs hw (hd _ (List.mem_singleton.mpr rfl))
      (.flags hm hn)) (leaf (by simp) fun _ _ h => by cases h)
  | @struct tag fields keys h =>
    have inner : ∀ component ∈ tag.layout, ∀ e ∈ component.2.mentions, described e :=
      fun component hc e he => hs.closed (hd _ (List.mem_singleton.mpr rfl)) (.component hc he)
    exact Decoding.struct_total hh parts inner keys h
  | object hc keys h =>
    exact Decoding.object_total hs hh parts (hd _ (List.mem_singleton.mpr rfl)) hc keys h

/-! ## Decoding by a schema -/

namespace Schema

/-- **Which values a schema decodes**, among those that conform at its root. -/
theorem Presents.decode_total {σ : Type} {source : Source} {kind : Kind}
    {names : String → Option String} {shared : List (String × Definition)} {schema : Schema}
    (h : schema.Presents source kind names shared) {isObject : String → HostValue → Prop}
    {host : Host σ} (hh : host.Raises source isObject fun _ => False) {v : Json}
    (conforms : source.ConformsAtRoot schema.root schema.wrapped v) :
    Ensures (fun _ => schema.Representable source v)
      (Raised.Overflow (schema.Representable source v)) (schema.decode host v) := by
  have total (w : Json) := Json.decode_total (d := ⟨host, schema⟩) h.complete hh w schema.root
    h.wellFormed fun e he => source.reaches_self (h.mentions ▸ he)
  unfold Source.ConformsAtRoot at conforms
  unfold Schema.decode Schema.Representable
  cases hwrap : schema.wrapped with
  | false =>
    rw [hwrap] at conforms
    exact total v conforms []
  | true =>
    rw [hwrap] at conforms
    obtain ⟨fields, rfl, keys, conforms⟩ := conforms
    obtain ⟨inner, hv⟩ := Option.isSome_iff_exists.mp ((keys "value").mpr (List.mem_singleton.mpr rfl))
    have field : (Json.obj fields).field? "value" = some inner := hv
    simp only [if_true, field, Option.some.injEq, forall_eq']
    exact total inner (conforms inner hv) _

end Schema

/-! ## The main result -/

/-- **An accepted value is decoded exactly if it is representable**, by any schema that was built over a
source with plain names and for a host whose calls succeed.  Otherwise an overflow is raised and nothing
else is.  So it is for any text of the value that is handed to the library, whatever its limits are, if the
value does not nest deeper than these allow. -/
theorem accepted_decodes_iff_representable {σ : Type} {source : Source} (plain : source.PlainNames)
    {kind : Kind} {schema : Schema} (h : schema.Built source kind) {host : Host σ}
    (hh : host.Succeeds source) {v : Json} (accepted : schema.accepts v) (s : σ) :
    ((∃ result after, (ExceptT.run (schema.decode host v)).run s = (.ok result, after)) ↔
      schema.Representable source v) ∧
    ((∃ after, (ExceptT.run (schema.decode host v)).run s = (.error (.fault .floatOverflow), after)) ↔
      ¬ schema.Representable source v) ∧
    ∀ (limits : Limits) (payload : Payload), payload.read limits.nesting = .ok v → v.depth ≤ limits.depth →
      ((schema.instantiate limits host payload).run s).1.result =
        ((ExceptT.run (schema.decode host v)).run s).1 := by
  obtain ⟨names, shared, presents⟩ := h.presents
  obtain ⟨isObject, raises⟩ := hh
  have total := presents.decode_total raises ((presents.accepts_iff plain v).mp accepted)
  refine ⟨?_, ?_, fun limits payload read depth => ?_⟩
  · constructor
    · rintro ⟨result, after, hr⟩
      exact total.result hr
    · intro representable
      rcases hr : (ExceptT.run (schema.decode host v)).run s with ⟨e | result, after⟩
      · exact absurd representable (total.raised hr).2
      · exact ⟨result, after, rfl⟩
  · constructor
    · rintro ⟨after, hr⟩
      exact (total.raised hr).2
    · intro overflows
      rcases hr : (ExceptT.run (schema.decode host v)).run s with ⟨e | result, after⟩
      · exact ⟨after, by rw [(total.raised hr).1]⟩
      · exact absurd (total.result hr) overflows
  · -- An overflow is no call that nests too deep.
    rw [Schema.instantiate_of_admits ⟨read, depth, accepted⟩]
    rcases hr : (ExceptT.run (schema.decode host v)).run s with ⟨e | result, after⟩
    · rw [(total.raised hr).1]
      rfl
    · rfl

/-! ## Numbers at the root -/

/-- A bare number. -/
def bareNumber : PropertyInfo where
  name := ""
  type := .float

/-- An integer as the schema of a bare number takes it. -/
def boxed (n : Int) : Json := .obj [("value", .int n)]

/-- The bare number has a schema. -/
theorem exists_schema_number : ∃ schema, (buildType people.source bareNumber).run.1 = .ok schema := by
  have ok : (buildType people.source bareNumber).run.1.isOk = true := by cbv
  cases hb : (buildType people.source bareNumber).run.1 with
  | ok schema => exact ⟨schema, rfl⟩
  | error e =>
    rw [hb] at ok
    cases ok

/-- The schema of a bare number takes any integer, and its decoding takes those in reach of a double. -/
theorem boxed_number {schema : Schema} (h : (buildType people.source bareNumber).run.1 = .ok schema)
    (n : Int) : people.source.ConformsAtRoot schema.root schema.wrapped (boxed n) ∧
      (schema.Representable people.source (boxed n) ↔ Binary64.InReach n) := by
  obtain ⟨kind, hk, root, wrapped⟩ := buildType_root h
  obtain rfl : Kind.number = kind := Except.ok.inj hk
  rw [Schema.Representable, root, wrapped]
  constructor
  · refine ⟨_, rfl, .self _, fun value hv => ?_⟩
    cases hv
    exact .numberInt n
  · have number : people.source.Representable .number (.int n) ↔ Binary64.InReach n :=
      Source.Representable.int_iff
    rw [← number]
    exact ⟨fun h => h _ rfl, fun h inner hv => Option.some.inj hv ▸ h⟩

/-- One is accepted as a number and decoded, also from its text. -/
theorem accepted_decodes_one : ∃ schema, (buildType people.source bareNumber).run.1 = .ok schema ∧
    schema.accepts (boxed 1) ∧ ∃ result,
      ((schema.instantiate ⟨1, 1⟩ people.host (.text "\x7b\"value\": 1\x7d")).run ()).1.result = .ok result := by
  obtain ⟨schema, h⟩ := exists_schema_number
  have built : schema.Built people.source .number := .type rfl h
  obtain ⟨names, shared, presents⟩ := built.presents
  obtain ⟨conforms, representable⟩ := boxed_number h 1
  have accepted := (presents.accepts_iff plainNames_people _).mpr conforms
  have read : (Payload.text "\x7b\"value\": 1\x7d").read 1 = .ok (boxed 1) := by rfl
  obtain ⟨decodes, -, same⟩ := accepted_decodes_iff_representable plainNames_people built
    keeps_people.succeeds accepted ()
  obtain ⟨result, after, hr⟩ := decodes.mpr (representable.mpr (by decide +kernel))
  exact ⟨schema, h, accepted, result, by rw [same ⟨1, 1⟩ _ read (by decide), hr]⟩

/-- A number of 310 digits is accepted and overflows, and so does every text of it that is handed to the
library. -/
theorem accepted_overflows : ∃ schema, (Library.generateType people.source .float).result = .ok schema ∧
    schema.accepts (boxed (10 ^ 309)) ∧
      (ExceptT.run (schema.decode people.host (boxed (10 ^ 309)))).run () =
        (.error (.fault .floatOverflow), ()) ∧
      ∀ (limits : Limits) (payload : Payload), payload.read limits.nesting = .ok (boxed (10 ^ 309)) →
        1 ≤ limits.depth → ((schema.instantiate limits people.host payload).run ()).1.result =
          .error (.fault .floatOverflow) := by
  obtain ⟨schema, h⟩ := exists_schema_number
  have generated : (Library.generateType people.source .float).result = .ok schema :=
    (Outcome.ofBuild_result ..).trans h
  obtain ⟨names, shared, presents⟩ := (Schema.Built.type rfl h).presents
  obtain ⟨conforms, representable⟩ := boxed_number h (10 ^ 309)
  have beyond : ¬ Binary64.InReach (10 ^ 309) := by decide +kernel
  obtain ⟨isObject, raises⟩ := keeps_people.succeeds
  have total := presents.decode_total raises conforms
  have accepted := (presents.accepts_iff plainNames_people _).mpr conforms
  have overflows : (ExceptT.run (schema.decode people.host (boxed (10 ^ 309)))).run () =
      (.error (.fault .floatOverflow), ()) := by
    rcases hr : (ExceptT.run (schema.decode people.host (boxed (10 ^ 309)))).run () with ⟨e | result, ⟨⟩⟩
    · rw [(total.raised hr).1]
    · exact absurd (total.result hr) (mt representable.mp beyond)
  refine ⟨schema, generated, accepted, overflows, fun limits payload read depth => ?_⟩
  rw [Schema.instantiate_of_admits ⟨read, depth, accepted⟩, overflows]
  rfl

end ReflectedSchema
