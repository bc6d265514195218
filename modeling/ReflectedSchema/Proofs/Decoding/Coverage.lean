import ReflectedSchema.Proofs.Decoding.Outcome

/-!
# What a schema covers

A schema that was built describes the classes and the enumerations that its kind reaches, and shares
the definitions of exactly the live entities; wrapping it as an array changes neither.  So decoding by
it finds everything that it looks up.
-/

namespace ReflectedSchema

open Build HostM

/-! ## Definitions of a document -/

namespace Schema

/-- The shared definitions in the document of a schema. -/
def definitions (schema : Schema) : List (String × Json) :=
  ((schema.document.field? "$defs").bind Json.obj?).getD []

/-- A schema describes and shares exactly what a kind calls for. -/
structure Covers (source : Source) (kind : Kind) (schema : Schema) : Prop where
  classes : ∀ name, (∃ c ∈ schema.classes, c.name = name) ↔ source.Reaches kind (.class name)
  described : ∀ c ∈ schema.classes, describeClass source c.name = .ok c
  classesDistinct : (schema.classes.map (·.name)).Nodup
  enums : ∀ path, (∃ e ∈ schema.enums, e.path = path) ↔ source.Reaches kind (.enum path)
  members : ∀ e ∈ schema.enums, source.members e.owner e.name = .ok e.members ∧ e.members ≠ []
  enumsDistinct : (schema.enums.map (·.path)).Nodup
  /-- The definition names are the keys of the live entities, one key for each. -/
  keys : ∃ names : String → Option String,
    (∀ e, source.Live kind e → ∃ name ∈ schema.definitions.map (·.1), e.key? names = some name) ∧
    (∀ name ∈ schema.definitions.map (·.1), ∃ e, source.Live kind e ∧ e.key? names = some name) ∧
    (∀ e other name, source.Reaches kind e → source.Reaches kind other → e.key? names = some name →
      other.key? names = some name → e = other) ∧
    (schema.definitions.map (·.1)).Nodup

/-- The definitions of a schema are the documents of what it shares. -/
theorem Presents.definitions {source : Source} {kind : Kind} {names : String → Option String}
    {shared : List (String × Definition)} {schema : Schema}
    (h : schema.Presents source kind names shared) :
    schema.definitions = shared.map fun (name, d) => (name, d.toJson) := by
  obtain ⟨s, -, hd⟩ := h.shape
  rw [Schema.definitions, hd]
  rfl

/-- A schema that presents a kind covers it. -/
theorem Presents.covers {source : Source} {kind : Kind} {names : String → Option String}
    {shared : List (String × Definition)} {schema : Schema}
    (h : schema.Presents source kind names shared) : schema.Covers source kind where
  classes _ := h.shares.classNames.symm
  described := h.shares.classDescribed
  classesDistinct := h.shares.classesDistinct
  enums path := by
    rw [← h.shares.enumPaths]
    exact ⟨Source.Live.reaches, h.shares.described_enum⟩
  members e he :=
    have described := (h.shares.enumDescribed e he).1
    ⟨described.members, described.nonempty⟩
  enumsDistinct := h.shares.enumsDistinct
  keys := by
    have same : schema.definitions.map (·.1) = shared.map (·.1) := by
      rw [h.definitions, List.map_map]
      rfl
    rw [same]
    refine ⟨names, fun e he => ?_, fun name hn => ?_, fun e other name he ho => ?_, h.shares.distinct⟩
    · obtain ⟨name, definition, hk, hm, -⟩ := h.shares.defined he
      exact ⟨name, List.mem_map.mpr ⟨_, hm, rfl⟩, hk⟩
    · obtain ⟨⟨name, definition⟩, hm, rfl⟩ := List.mem_map.mp hn
      obtain ⟨e, he, hk, -⟩ := h.shares.lives hm
      exact ⟨e, he, hk⟩
    · exact h.shares.injective he ho

end Schema

/-! ## Classes at the root -/

/-- The keywords of an object node. -/
def objectKeywords : List String := ["type", "properties", "required", "additionalProperties"]

/-- A class that leads back to itself shares the object that its schema has at the root. -/
theorem Opens.shares_root {source : Source} {c : ClassDescriptor} {d : Shared}
    (h : Opens source c .empty (c.definition d.enumName?) d) (title : String)
    (live : source.Live (.object c.name) (.class c.name)) :
    ∃ shared, Json.lookup c.name (Schema.ofClass c title d).definitions = some shared ∧
      ∀ keyword ∈ objectKeywords, (shared.field? keyword).isSome ∧
        shared.field? keyword = (Schema.ofClass c title d).document.field? keyword := by
  have presents := h.presents title
  obtain ⟨name, definition, hk, hm, hd⟩ := presents.shares.defined live
  cases hk
  refine ⟨(c.definition d.enumName?).toJson, ?_, fun keyword hkeyword => ?_⟩
  · rw [presents.definitions, Json.lookup_map,
      (Json.lookup_eq_some_iff presents.shares.distinct).mpr hm]
    generalize hclass : Entity.class c.name = e at hd
    cases hd with
    | «class» hc =>
      obtain rfl := Except.ok.inj (h.describes.symm.trans (Entity.class.inj hclass ▸ hc))
      rfl
    | _ => cases hclass
  · simp only [objectKeywords, List.mem_cons, List.not_mem_nil, or_false] at hkeyword
    rcases hkeyword with rfl | rfl | rfl | rfl <;> exact ⟨rfl, rfl⟩

/-- A schema with a class at its root is the schema of the class. -/
theorem Schema.Built.eq_ofClass {source : Source} {kind : Kind} {schema : Schema} {className : String}
    (h : schema.Built source kind) (hr : schema.root = .object className) :
    kind = .object className ∧ ∃ (c : ClassDescriptor) (d : Shared) (title : String),
      c.name = className ∧ Opens source c .empty (c.definition d.enumName?) d ∧
      schema = .ofClass c title d := by
  cases h with
  | «class» h =>
    obtain ⟨after, h⟩ := yields_of_run h
    obtain ⟨c, d, rfl, opens, rfl⟩ := buildClass_eq_ok h
    cases hr
    exact ⟨rfl, c, d, _, rfl, opens, rfl⟩
  | type hk h =>
    obtain ⟨_, hk', ofKind⟩ := buildType_eq_ok h
    obtain rfl := Except.ok.inj (hk.symm.trans hk')
    cases ofKind with
    | «class» opens =>
      cases hr
      exact ⟨rfl, _, _, _, rfl, opens, rfl⟩
    -- A bare kind that is wrapped is no class.
    | dictionary title => cases hr
    | wrapped hwrap _ _ =>
      rw [show kind = .object className from hr] at hwrap
      cases hwrap
  | array hi h =>
    obtain ⟨names, shared, presents⟩ := hi.presents
    obtain ⟨_, _, -, -, -, rfl⟩ := arraySchema_eq_ok presents h
    cases hr

/-- An array keeps what its items share and describe. -/
theorem Schema.Built.array_keeps {source : Source} {kind : Kind} {item schema : Schema} {title : String}
    (hi : item.Built source kind) (h : arraySchema item title = .ok schema) :
    schema.definitions = item.definitions ∧ schema.classes = item.classes ∧
      schema.enums = item.enums := by
  obtain ⟨names, shared, presents⟩ := hi.presents
  have definitions := presents.definitions
  obtain ⟨_, _, -, -, -, rfl⟩ := arraySchema_eq_ok presents h
  exact ⟨definitions.symm, rfl, rfl⟩

/-! ## The main result -/

/-- That something was looked for in vain: the schema of a class or an enumeration, or the first member
of an enumeration that has none. -/
def Raised.IsMiss (e : Raised) : Prop :=
  e = .fault .outOfRange ∨ ∃ f name, e = .failure f ∧ f.cause = .schemaNotFound name

/-- Noting a property does not change what was not found. -/
theorem Raised.isMiss_stays : Raised.Stays fun e => ¬ e.IsMiss := by
  intro owner property e he
  cases e with
  | fault fault => exact he
  | failure g =>
    rintro (hf | ⟨f, name, hf, hn⟩)
    · cases hf
    · cases hf
      exact he (.inr ⟨g, name, rfl, hn⟩)

/-- **A schema covers exactly what its kind reaches.**  Whether it was built for a class or a bare type
or wraps such a schema as an array, it describes the classes and the enumerations that are reached from
its kind and shares the definitions of the live entities.  A class at the root is shared if it leads
back to itself, and then as it stands at the root.  An array keeps what its items share.  So decoding
by the schema never looks for a schema or for the members of an enumeration in vain, unless a call to
the host does. -/
theorem built_covers_exactly_reachable {source : Source} {kind : Kind} {schema : Schema}
    (h : schema.Built source kind) :
    schema.Covers source kind ∧
    (∀ className, schema.root = .object className →
      source.Live (.object className) (.class className) →
        ∃ shared, Json.lookup className schema.definitions = some shared ∧
          ∀ keyword ∈ objectKeywords, (shared.field? keyword).isSome ∧
            shared.field? keyword = schema.document.field? keyword) ∧
    (∀ title array, arraySchema schema title = .ok array →
      array.definitions = schema.definitions ∧ array.classes = schema.classes ∧
        array.enums = schema.enums) ∧
    ∀ {σ : Type} (host : Host σ) (isObject : String → HostValue → Prop),
      host.Raises source isObject (fun e => ¬ e.IsMiss) →
        ∀ v s s' e, (ExceptT.run (schema.decode host v)).run s = (.error e, s') → ¬ e.IsMiss := by
  obtain ⟨names, shared, presents⟩ := h.presents
  refine ⟨presents.covers, fun className hr live => ?_, fun title array ha => h.array_keeps ha, ?_⟩
  · obtain ⟨rfl, c, d, title, rfl, opens, rfl⟩ := h.eq_ofClass hr
    exact opens.shares_root title live
  · intro σ host isObject hh v s s' e hr
    cases (presents.decode_ends hh Raised.isMiss_stays v).raised hr with
    | overflow => rintro (hf | ⟨f, name, hf, -⟩) <;> cases hf
    | host h => exact h
    | misfit _ hc =>
      rintro (hf | ⟨f, name, hf, hn⟩)
      · cases hf
      · cases hf
        exact hc name hn

/-- The schema of people covers what a person reaches, and shares the class, which leads back to
itself. -/
theorem built_covers_person :
    ∃ schema, (buildClass people.source "Person" "").run.1 = .ok schema ∧
      schema.Covers people.source (.object "Person") ∧
      ∃ shared, Json.lookup "Person" schema.definitions = some shared ∧
        ∀ keyword ∈ objectKeywords, shared.field? keyword = schema.document.field? keyword := by
  obtain ⟨schema, h⟩ := exists_schema_person
  obtain ⟨covers, shares, -⟩ := built_covers_exactly_reachable (.class h)
  have live : people.source.Live (.object "Person") (.class "Person") :=
    .single (.property (p := ⟨"friends", .array (.object "Person") none, none⟩) describeClass_person
      (by decide) (List.mem_singleton.mpr rfl))
  obtain ⟨shared, found, same⟩ := shares "Person" (buildClass_root h).1 live
  exact ⟨schema, h, covers, shared, found, fun keyword hk => (same keyword hk).2⟩

end ReflectedSchema
