import ReflectedSchema.Proofs.Building.Result
import ReflectedSchema.Proofs.Checking.Shape
import ReflectedSchema.Table

/-!
# Schemas that are built

`Schema.Built` lists the ways to build a schema: of a class, of a bare type, and as an array of the
values of a schema that was built.  However that was, the schema presents the kind at its bottom: it
shares the definitions that the kind needs, and its document renders the shape of its root.
-/

namespace ReflectedSchema

open Build

/-- A schema that was built, with the kind of the class or the bare type at its bottom. -/
inductive Schema.Built (source : Source) : Kind → Schema → Prop
  | class {className title : String} {schema : Schema}
      (h : (buildClass source className title).run.1 = .ok schema) :
      Built source (.object className) schema
  | type {info : PropertyInfo} {kind : Kind} {schema : Schema}
      (hk : resolve source.hasClass info = .ok kind)
      (h : (buildType source info).run.1 = .ok schema) : Built source kind schema
  | array {kind : Kind} {item schema : Schema} {title : String} (hi : Built source kind item)
      (h : arraySchema item title = .ok schema) : Built source kind schema

/-! ## Shapes of kinds -/

/-- The shapes that stand for a kind: its node, an inlined definition, and an array around either. -/
inductive Kind.HasShape (source : Source) (live : Entity → Prop) (names : String → Option String) :
    Kind → Shape → Prop
  | node {kind : Kind} (hw : kind.WellFormed source.hasClass) (hl : ∀ e ∈ kind.mentions, live e) :
      HasShape source live names kind (.node (kind.node names))
  | inline {c : ClassDescriptor} (hc : describeClass source c.name = .ok c)
      (hl : ∀ p ∈ c.properties, ∀ e ∈ p.kind.mentions, live e) :
      HasShape source live names (.object c.name) (.definition (c.definition names))
  | items {kind : Kind} {s : Shape} (h : HasShape source live names kind s) :
      HasShape source live names (.array kind none) (.items s)

/-- The wrapper of a bare kind. -/
def Kind.wrapper (names : String → Option String) (kind : Kind) : Definition :=
  .object [⟨"value", kind.node names, none⟩]

/-- The shape at the root of a document. -/
inductive Schema.HasShape (source : Source) (live : Entity → Prop) (names : String → Option String)
    (schema : Schema) : Shape → Prop
  | plain {s : Shape} (hw : schema.wrapped = false)
      (h : schema.root.HasShape source live names s) : HasShape source live names schema s
  | wrapped (hw : schema.wrapped = true) (hk : schema.root.WellFormed source.hasClass)
      (hl : ∀ e ∈ schema.root.mentions, live e) :
      HasShape source live names schema (.definition (schema.root.wrapper names))

/-- The document of a shape with shared definitions. -/
def Shape.document (s : Shape) (shared : List (String × Definition)) : Json :=
  assemble (shared.map fun (name, d) => (name, d.toJson)) s.fields

/-- A schema presents a kind. -/
structure Schema.Presents (source : Source) (kind : Kind) (names : String → Option String)
    (shared : List (String × Definition)) (schema : Schema) : Prop where
  shares : source.Shares (source.Reaches kind) (source.Live kind) names shared schema.classes
    schema.enums
  mentions : schema.root.mentions = kind.mentions
  shape : ∃ s, schema.HasShape source (source.Live kind) names s ∧ schema.document = s.document shared

/-- A schema that passes the last check is as it was. -/
theorem Schema.eq_of_checked {schema result : Schema} (h : schema.checked = .ok result) :
    result = schema := by
  unfold Schema.checked at h
  split at h
  · cases h
  · cases h
    rfl

/-- A build ends by laying out a schema from its definitions. -/
theorem eq_of_layOut {record : Shared → LogRecord} (schemaOf : Shared → Schema) {d after : Shared}
    {schema : Schema} (h : Yields (do
      let d ← definitions
      log (record d)
      ExceptT.mk (pure (schemaOf d).checked)) d schema after) : schema = schemaOf d := by
  replace h := Yields.after_definitions h
  obtain ⟨_, _, hlog, hchecked⟩ := Yields.of_bind h
  obtain rfl := Yields.of_log hlog
  exact Schema.eq_of_checked (Yields.of_mk hchecked).1

/-! ## Classes -/

/-- The schema of a class, laid out from what remains of the definitions of its build. -/
def Schema.laidOut (className title : String) (root : Definition) (final : Shared) : Schema :=
  { name := if title.isEmpty then className else title
    document := assemble final.toJson root.fields, root := .object className
    classes := final.classes.map (·.2), enums := final.enums.map (·.2) }

/-- The schema of a class whose build is over. -/
def Schema.ofClass (c : ClassDescriptor) (title : String) (d : Shared) : Schema :=
  .laidOut c.name title (c.definition d.enumName?) (Opens.finish c (c.definition d.enumName?) d)

/-- A class that is built. -/
theorem buildClass_eq_ok {source : Source} {className title : String} {schema : Schema}
    {after : Shared} (h : Yields (buildClass source className title) .empty schema after) :
    ∃ (c : ClassDescriptor) (d : Shared), c.name = className ∧
      Opens source c .empty (c.definition d.enumName?) d ∧ schema = .ofClass c title d := by
  unfold buildClass at h
  obtain ⟨_, opened, hopen, hclass⟩ := Yields.of_bind h
  obtain ⟨root, d, hroot, hfinish⟩ := Yields.of_bind hclass
  obtain ⟨c, rfl, opens⟩ :=
    classDefinition_opens openClass_stands hopen hroot (.empty source) .empty
  obtain rfl := opens.definition
  refine ⟨c, d, rfl, opens, ?_⟩
  replace hfinish := Yields.after_definitions hfinish
  dsimp only at hfinish
  split at hfinish
  · rename_i referenced
    obtain ⟨_, _, hstore, hrest⟩ := Yields.of_bind hfinish
    obtain rfl := Yields.of_define hstore
    rw [Schema.ofClass, Opens.finish, if_pos referenced]
    exact eq_of_layOut (.laidOut c.name title _) hrest
  · rename_i unreferenced
    obtain ⟨_, _, hdiscard, hrest⟩ := Yields.of_bind hfinish
    obtain rfl := Yields.of_define hdiscard
    rw [Schema.ofClass, Opens.finish, if_neg unreferenced]
    exact eq_of_layOut (.laidOut c.name title _) hrest

/-- The schema of a class presents it, once its definition is opened. -/
theorem Opens.presents {source : Source} {c : ClassDescriptor} {d : Shared}
    (h : Opens source c .empty (c.definition d.enumName?) d) (title : String) :
    (Schema.ofClass c title d).Presents source (.object c.name) d.enumName?
      (finish c (c.definition d.enumName?) d).finished where
  shares := by
    rw [Schema.ofClass, Schema.laidOut, classes_finish, enums_finish]
    exact h.settled.shares
  mentions := rfl
  shape := ⟨_, .plain rfl (.inline h.describes fun p hp e he =>
    .head' (.property h.describes hp he) .refl), rfl⟩

/-! ## Bare types -/

/-- The schema of a wrapped kind, laid out from definitions. -/
def Schema.ofKind (kind : Kind) (title : String) (d : Shared) : Schema :=
  { name := title, document := assemble d.toJson (kind.wrapper d.enumName?).fields, root := kind
    classes := d.classes.map (·.2), enums := d.enums.map (·.2), wrapped := true }

/-- The schema of any object. -/
def Schema.ofDictionary (title : String) : Schema :=
  { name := title, document := assemble [] Node.anyObject.fields, root := .dictionary }

/-- Whether a bare kind stands under the property `value`. -/
def Kind.isWrapped : Kind → Bool
  | .object _ | .dictionary => false
  | _ => true

/-- The schemas of a bare kind: that of a class, that of any object, or that of a wrapped kind. -/
inductive Schema.OfKind (source : Source) : Kind → Schema → Prop
  | class {c : ClassDescriptor} {title : String} {d : Shared}
      (h : Opens source c .empty (c.definition d.enumName?) d) :
      OfKind source (.object c.name) (.ofClass c title d)
  | dictionary (title : String) : OfKind source .dictionary (.ofDictionary title)
  | wrapped {kind : Kind} {node : Node} {title : String} {d : Shared} (hk : kind.isWrapped = true)
      (hw : kind.WellFormed source.hasClass) (h : Stands source kind .empty node d) :
      OfKind source kind (.ofKind kind title d)

/-- The build of a kind yields a schema of the kind. -/
theorem buildKind_eq_ok {source : Source} {kind : Kind} {title : String} {schema : Schema}
    {after : Shared} (hw : kind.WellFormed source.hasClass)
    (h : Yields (buildKind source kind title) .empty schema after) : schema.OfKind source kind := by
  unfold buildKind at h
  split at h
  · obtain ⟨c, d, rfl, opens, rfl⟩ := buildClass_eq_ok h
    exact .class opens
  · obtain rfl := Schema.eq_of_checked (Yields.of_mk h).1
    exact .dictionary title
  · rename_i other dictionary
    obtain ⟨node, d, hnode, hrest⟩ := Yields.of_bind h
    have stands := nodeOf_stands openClass_stands hw (Yields.of_within hnode) (.empty source) .empty
    replace hrest := Yields.after_definitions hrest
    have laid := Schema.eq_of_checked (Yields.of_mk hrest).1
    obtain rfl : schema = .ofKind kind title d := by
      rw [laid, stands.node]
      rfl
    refine .wrapped ?_ hw stands
    cases kind with
    | object className => exact absurd rfl (other className)
    | dictionary => exact absurd rfl dictionary
    | _ => rfl

/-- The schema of a bare type is one of the kind that the type resolves to. -/
theorem buildType_eq_ok {source : Source} {info : PropertyInfo} {schema : Schema}
    (h : (buildType source info).run.1 = .ok schema) :
    ∃ kind, resolve source.hasClass info = .ok kind ∧ schema.OfKind source kind := by
  obtain ⟨after, h⟩ := yields_of_run h
  unfold buildType at h
  split at h
  · exact absurd h Yields.not_throw
  · rename_i kind hk
    exact ⟨kind, hk, buildKind_eq_ok (resolve_wellFormed hk) h⟩

/-- The schema of a bare kind presents it below a wrapper, once its node stands. -/
theorem Stands.presents {source : Source} {kind : Kind} {node : Node} {d : Shared}
    (h : Stands source kind .empty node d) (hw : kind.WellFormed source.hasClass)
    (hk : kind.isWrapped = true) (title : String) :
    (Schema.ofKind kind title d).Presents source kind d.enumName? d.finished := by
  -- A kind that is wrapped is no class, so all that it reaches is shared.
  have live : source.Live kind = source.Reaches kind := by
    cases kind with
    | object className => cases hk
    | _ => rfl
  refine ⟨?_, rfl, _, .wrapped rfl hw fun e he => ?_, rfl⟩
  · rw [live]
    exact h.settled.shares
  · rw [live]
    exact source.reaches_self he

/-- The schema of a dictionary presents it without definitions. -/
theorem Schema.ofDictionary_presents (source : Source) (title : String) :
    (Schema.ofDictionary title).Presents source .dictionary (fun _ => none) [] := by
  have stands : Stands source .dictionary .empty .anyObject .empty :=
    ⟨.refl _ (.empty source), .empty, rfl, fun e he => absurd he List.not_mem_nil⟩
  have none : Definitions.finished (.empty : Shared) = [] := by
    simp [Definitions.finished, Definitions.empty]
  have shares := stands.settled.shares
  rw [none] at shares
  exact ⟨shares, rfl, _, .plain rfl (.node trivial fun e he => absurd he List.not_mem_nil), rfl⟩

/-- A schema of a bare kind presents it with the finished definitions of a build. -/
theorem Schema.OfKind.presents {source : Source} {kind : Kind} {schema : Schema}
    (h : schema.OfKind source kind) :
    ∃ names, ∃ d : Shared, schema.Presents source kind names d.finished := by
  cases h with
  | «class» h => exact ⟨_, _, h.presents _⟩
  | dictionary title =>
    have none : Definitions.finished (.empty : Shared) = [] := by
      simp [Definitions.finished, Definitions.empty]
    exact ⟨_, .empty, none ▸ Schema.ofDictionary_presents source title⟩
  | wrapped hk hw h => exact ⟨_, _, h.presents hw hk _⟩

/-! ## Arrays -/

/-- A shape has no annotations of its own. -/
theorem Shape.lookup_annotation (s : Shape) {key : String} (h : key ∈ annotations) :
    Json.lookup key s.fields = none := by
  simp only [annotations, List.mem_cons, List.not_mem_nil, or_false] at h
  cases s with
  | node n =>
    cases n with
    | scalar type range => rcases h with rfl | rfl | rfl <;> cases range <;> rfl
    | anyArray length => rcases h with rfl | rfl | rfl <;> cases length <;> rfl
    | array items length => rcases h with rfl | rfl | rfl <;> cases length <;> rfl
    | _ => rcases h with rfl | rfl | rfl <;> rfl
  | definition d => cases d <;> rcases h with rfl | rfl | rfl <;> rfl
  | items s => rcases h with rfl | rfl | rfl <;> rfl

/-- Erasing a key that is not there. -/
theorem Json.erase_of_lookup {α : Type} {key : String} {entries : List (String × α)}
    (h : lookup key entries = none) : erase key entries = entries := by
  rw [lookup_eq_none_iff] at h
  refine List.filter_eq_self.mpr fun e he => decide_eq_true fun hk => h ?_
  exact hk ▸ List.mem_map_of_mem he

/-- The shape of a value of the root kind: the shape at the root, or what stands under the wrapper. -/
inductive Schema.Unwraps (names : String → Option String) (schema : Schema) : Shape → Shape → Prop
  | plain {s : Shape} (hw : schema.wrapped = false) : Unwraps names schema s s
  | wrapped (hw : schema.wrapped = true) : Unwraps names schema
      (.definition (schema.root.wrapper names)) (.node (schema.root.node names))

/-- The document of a property without a description is that of its node. -/
theorem NodeProperty.toJson_of_none (name : String) (node : Node) :
    NodeProperty.toJson ⟨name, node, none⟩ = .obj node.fields := by
  rw [toJson, Option.map_none, Option.toList_none, List.append_nil]

/-- What a document says of an item: its root, or what stands under the wrapper. -/
theorem itemDocument_eq {source : Source} {live : Entity → Prop} {names : String → Option String}
    {item : Schema} {s : Shape} {shared : List (String × Definition)}
    (hs : item.HasShape source live names s) (hd : item.document = s.document shared) :
    ∃ inner : Shape, item.Unwraps names s inner ∧ item.root.HasShape source live names inner ∧
      itemDocument item = .ok (shared.map fun (name, d) => (name, d.toJson), .obj inner.fields) := by
  -- The annotations stand in front of the fields of the shape, which has none of its own.
  have rest : Json.erase "$schema" (Json.erase "$defs" ((s.document shared).obj?.getD [])) =
      s.fields := by
    have absent : ∀ key ∈ Shape.annotations, Json.erase key s.fields = s.fields :=
      fun key hk => Json.erase_of_lookup (s.lookup_annotation hk)
    show Json.erase "$schema" (("$schema", Json.str dialect) :: Json.erase "$defs" s.fields) = s.fields
    rw [absent "$defs" (by decide)]
    exact absent "$schema" (by decide)
  unfold itemDocument
  dsimp only
  rw [hd, rest]
  cases hs with
  | plain hw h =>
    rw [if_neg (by simp [hw])]
    exact ⟨_, .plain hw, h, rfl⟩
  | wrapped hw hk hl =>
    rw [if_pos hw]
    refine ⟨_, .wrapped hw, .node hk hl, ?_⟩
    rw [Shape.fields, ← NodeProperty.toJson_of_none "value"]
    rfl

/-- The schema of an array, laid out around the shape of its items. -/
def Schema.ofArray (item : Schema) (inner : Shape) (shared : List (String × Definition))
    (title : String) : Schema :=
  { name := title, document := (Shape.items inner).document shared, root := .array item.root none
    classes := item.classes, enums := item.enums }

/-- The schema of an array presents the kind that the schema of its items does. -/
theorem Schema.Presents.ofArray {source : Source} {kind : Kind} {names : String → Option String}
    {shared : List (String × Definition)} {item : Schema} {inner : Shape}
    (h : item.Presents source kind names shared)
    (hi : item.root.HasShape source (source.Live kind) names inner) (title : String) :
    (Schema.ofArray item inner shared title).Presents source kind names shared :=
  ⟨h.shares, h.mentions, .items inner, .plain rfl (.items hi), rfl⟩

/-- An array of the values of a schema. -/
theorem arraySchema_eq_ok {source : Source} {kind : Kind} {names : String → Option String}
    {shared : List (String × Definition)} {item schema : Schema} {title : String}
    (hp : item.Presents source kind names shared) (h : arraySchema item title = .ok schema) :
    ∃ s inner, item.document = s.document shared ∧ item.Unwraps names s inner ∧
      item.root.HasShape source (source.Live kind) names inner ∧
      schema = .ofArray item inner shared title := by
  obtain ⟨s, hs, hd⟩ := hp.shape
  obtain ⟨inner, hu, hi, hitem⟩ := itemDocument_eq hs hd
  unfold arraySchema at h
  rw [hitem] at h
  exact ⟨s, inner, hd, hu, hi, Schema.eq_of_checked h⟩

/-! ## Built schemas -/

/-- What a schema shares are the finished definitions of a build, also when it wraps another. -/
theorem Schema.Built.presents_finished {source : Source} {kind : Kind} {schema : Schema}
    (h : schema.Built source kind) :
    ∃ names, ∃ d : Shared, schema.Presents source kind names d.finished := by
  induction h with
  | «class» h =>
    obtain ⟨after, h⟩ := yields_of_run h
    obtain ⟨c, d, rfl, opens, rfl⟩ := buildClass_eq_ok h
    exact ⟨_, _, opens.presents _⟩
  | type hk h =>
    obtain ⟨kind, hk', ofKind⟩ := buildType_eq_ok h
    obtain rfl := Except.ok.inj (hk.symm.trans hk')
    exact ofKind.presents
  | array _ h ih =>
    obtain ⟨names, d, presents⟩ := ih
    obtain ⟨s, inner, -, -, hi, rfl⟩ := arraySchema_eq_ok presents h
    exact ⟨names, d, presents.ofArray hi _⟩

/-- **A schema that was built presents its kind**, whether it is that of a class, of a bare type, or
of an array around either. -/
theorem Schema.Built.presents {source : Source} {kind : Kind} {schema : Schema}
    (h : schema.Built source kind) :
    ∃ names shared, schema.Presents source kind names shared := by
  obtain ⟨names, d, presents⟩ := h.presents_finished
  exact ⟨names, d.finished, presents⟩

/-- The root of the schema of a class is the class. -/
theorem buildClass_root {source : Source} {className title : String} {schema : Schema}
    (h : (buildClass source className title).run.1 = .ok schema) :
    schema.root = .object className ∧ schema.wrapped = false := by
  obtain ⟨after, h⟩ := yields_of_run h
  obtain ⟨c, d, rfl, opens, rfl⟩ := buildClass_eq_ok h
  exact ⟨rfl, rfl⟩

/-- The root of the schema of a bare type is the kind of the type, wrapped unless it is an object. -/
theorem buildType_root {source : Source} {info : PropertyInfo} {schema : Schema}
    (h : (buildType source info).run.1 = .ok schema) :
    ∃ kind, resolve source.hasClass info = .ok kind ∧ schema.root = kind ∧
      schema.wrapped = kind.isWrapped := by
  obtain ⟨kind, hk, ofKind⟩ := buildType_eq_ok h
  refine ⟨kind, hk, ?_⟩
  cases ofKind with
  | «class» h => exact ⟨rfl, rfl⟩
  | dictionary title => exact ⟨rfl, rfl⟩
  | wrapped hwrap hw h => exact ⟨rfl, hwrap.symm⟩

/-! ## Tables -/

/-- A class of a table is an entry of it. -/
theorem Table.mem_of_class? {t : Table} {name : String} {c : TableClass} (h : t.class? name = .ok c) :
    (name, c) ∈ t.classes := by
  unfold class? at h
  split at h
  · rename_i found hfound
    cases h
    exact Json.mem_of_lookup hfound
  · cases h

/-- The members of an enumeration in a table are declared in an entry of it. -/
theorem Table.members_eq_ok {t : Table} {owner name : String} {members : List (String × EnumValue)}
    (h : t.source.members owner name = .ok members) :
    ∃ c declared, (owner, c) ∈ t.classes ∧ (name, declared) ∈ c.enums ∧
      members = declared.map fun (n, v) => (n, .int v) := by
  obtain ⟨c, hc, hm⟩ := bind_eq_ok.mp h
  cases hlookup : Json.lookup name c.enums with
  | none =>
    rw [hlookup] at hm
    cases hm
  | some declared =>
    rw [hlookup] at hm
    cases hm
    exact ⟨c, declared, mem_of_class? hc, Json.mem_of_lookup hlookup, rfl⟩

/-- People have friends, who are people. -/
def people : Table where
  classes := [("Person",
    { properties := [
        { name := "name", type := .string },
        { name := "mood", type := .int, className := "Person.Mood", usage := .classIsEnum },
        { name := "friends", type := .array, hint := .arrayType, hintText := "Person" }]
      enums := [("Mood", [("Glad", 0), ("Sad", 1)])] })]

/-- The class of people. -/
def person : ClassDescriptor where
  name := "Person"
  properties := [
    { name := "name", kind := .string },
    { name := "mood", kind := .enum "Person" "Mood" false },
    { name := "friends", kind := .array (.object "Person") none }]

/-- The example person is described as such. -/
theorem describeClass_person : describeClass people.source "Person" = .ok person := by rfl

/-- The example enumeration has its members. -/
theorem members_mood :
    people.source.members "Person" "Mood" = .ok [("Glad", .int 0), ("Sad", .int 1)] := by rfl

/-- The example person has a schema. -/
theorem exists_schema_person : ∃ schema, (buildClass people.source "Person" "").run.1 = .ok schema := by
  have ok : (buildClass people.source "Person" "").run.1.isOk = true := by cbv
  cases hb : (buildClass people.source "Person" "").run.1 with
  | ok schema => exact ⟨schema, rfl⟩
  | error e =>
    rw [hb] at ok
    cases ok

end ReflectedSchema
