import ReflectedSchema.Proofs.Building.Built
import ReflectedSchema.Proofs.Checking.Agreement
import ReflectedSchema.Proofs.Meaning.Conformance

/-!
# Validity is conformance

What a check finds is what the shape at the root of the schema finds, and a shape of a kind finds
nothing exactly in the values that conform to the kind.  The induction for this goes down the value and
not the schema, whose references lead around in cycles.
-/

namespace ReflectedSchema

/-! ## When nothing is found -/

/-- Nothing is found exactly if the condition fails. -/
theorem Finding.when_eq_nil {condition : Bool} {v : Violation} :
    Finding.when condition v = [] ↔ condition = false := by
  cases condition <;> simp [Finding.when]

namespace Glossary

/-- Nothing is found of a type exactly if the value is of it. -/
theorem typed_eq_nil {v : Json} {type : String} : typed v type = [] ↔ v.isOfType type = true := by
  rw [typed, Finding.when_eq_nil, Bool.not_eq_false']

/-- Nothing is found of a length exactly if the array has it. -/
theorem sized_eq_nil {items : List Json} {length : Option Int} :
    sized (.arr items) length = [] ↔ HasLength length items := by
  cases length with
  | none => exact ⟨fun _ _ hn => (nomatch hn), fun _ => rfl⟩
  | some n =>
    simp only [sized, List.append_eq_nil_iff, Finding.when_eq_nil, decide_eq_false_iff_not]
    refine ⟨fun ⟨hl, hg⟩ m hm => ?_, fun h => ?_⟩
    · cases hm
      omega
    · have := h n rfl
      omega

/-- Nothing is found in items exactly if nothing is found in any of them. -/
theorem itemsFrom_eq_nil {s : Shape} {index : Nat} {children : List (Shape → List Finding)} :
    itemsFrom s index children = [] ↔ ∀ child ∈ children, child s = [] := by
  induction children generalizing index with
  | nil => simp [itemsFrom]
  | cons child rest ih =>
    rw [itemsFrom, List.append_eq_nil_iff, List.map_eq_nil_iff, ih, List.forall_mem_cons]

/-- Nothing is found in a list exactly when nothing is found in its items. -/
theorem typed_inItems_eq_nil {v : Json} {found : Json → Shape → List Finding} {s : Shape} :
    typed v "array" ++ inItems (v.inside found) s = [] ↔
      ∃ items, v = .arr items ∧ ∀ item ∈ items, found item s = [] := by
  rw [List.append_eq_nil_iff, typed_eq_nil]
  cases v with
  | arr items => simp [Json.isOfType, inItems, Json.inside, itemsFrom_eq_nil]
  | _ => simp [Json.isOfType]

/-- Nothing is found in an array exactly when its length is right and nothing is found in its items. -/
theorem array_eq_nil {v : Json} {found : Json → Shape → List Finding} {s : Shape}
    {length : Option Int} :
    typed v "array" ++ inItems (v.inside found) s ++ sized v length = [] ↔
      ∃ items, v = .arr items ∧ HasLength length items ∧ ∀ item ∈ items, found item s = [] := by
  rw [List.append_eq_nil_iff, typed_inItems_eq_nil]
  constructor
  · rintro ⟨⟨items, rfl, hi⟩, hs⟩
    exact ⟨items, rfl, sized_eq_nil.mp hs, hi⟩
  · rintro ⟨items, rfl, hl, hi⟩
    exact ⟨⟨items, rfl, hi⟩, sized_eq_nil.mpr hl⟩

/-- Nothing is found in a property exactly if it is absent, or nothing is found in its value. -/
theorem inProperty_eq_nil {fields : List (String × Json)} {found : Json → Shape → List Finding}
    {p : NodeProperty} :
    inProperty (fields.map fun (name, value) => (name, found value)) p = [] ↔
      ∀ value, Json.lookup p.name fields = some value → found value (.node p.node) = [] := by
  rw [inProperty, Json.lookup_map]
  cases Json.lookup p.name fields <;> simp

/-- Nothing is found in an object when it has exactly the declared names, and nothing is found under
them. -/
theorem inDefinition_object_eq_nil {g : Glossary} {v : Json} {found : Json → Shape → List Finding}
    {properties : List NodeProperty} :
    g.inDefinition v (v.inside found) (.object properties) = [] ↔
      ∃ fields, v = .obj fields ∧ HasKeys (properties.map (·.name)) fields ∧
        ∀ p ∈ properties, ∀ value, Json.lookup p.name fields = some value →
          found value (.node p.node) = [] := by
  rw [inDefinition, List.append_eq_nil_iff, typed_eq_nil]
  cases v with
  | obj fields =>
    simp only [Json.isOfType, decide_true, true_and, Json.obj.injEq, exists_eq_left', Json.inside,
      inProperties, List.append_eq_nil_iff, List.flatMap_eq_nil_iff, List.map_eq_nil_iff,
      List.filter_eq_nil_iff, inProperty_eq_nil, Finding.absent_map, Finding.absent_eq_nil_iff,
      List.mem_map]
    constructor
    · rintro ⟨⟨hfound, present⟩, hextra⟩
      refine ⟨fun name => ⟨fun hs => ?_, fun hn => present name (List.mem_map.mp hn)⟩, hfound⟩
      obtain ⟨value, hl⟩ := Option.isSome_iff_exists.mp hs
      simpa using hextra _ ⟨_, Json.mem_of_lookup hl, rfl⟩
    · rintro ⟨keys, hfound⟩
      refine ⟨⟨hfound, fun name hn => (keys name).mpr (List.mem_map.mpr hn)⟩, ?_⟩
      · rintro _ ⟨⟨name, value⟩, hm, rfl⟩
        have declared := (keys name).mp ?_
        · simpa using declared
        · rw [Option.isSome_iff_ne_none, ne_eq, Json.lookup_eq_none_iff, not_not]
          exact List.mem_map.mpr ⟨_, hm, rfl⟩
  | _ => simp [Json.isOfType]

/-- Nothing is found for members exactly if the value is one of them. -/
theorem inDefinition_enumeration_eq_nil {g : Glossary} {v : Json} {found : Json → Shape → List Finding}
    {members : List String} :
    g.inDefinition v (v.inside found) (.enumeration members) = [] ↔
      ∃ text ∈ members, v = .str text := by
  rw [inDefinition, List.append_eq_nil_iff, typed_eq_nil, member, Finding.when_eq_nil]
  cases v with
  | str text => simp [Json.isOfType, Json.str?]
  | _ => simp [Json.isOfType, Json.str?]

/-- A scalar finds nothing in the values of its type inside its range. -/
theorem scalar_eq_nil {v : Json} (type : ScalarType) {range : Option (Int × Int)} :
    typed v type.text ++ bounded v range = [] ↔ v.isOfType type.text = true ∧
      ∀ least most, range = some (least, most) →
        v.lessThan least = false ∧ v.greaterThan most = false := by
  rw [List.append_eq_nil_iff, typed_eq_nil]
  refine and_congr_right fun _ => ?_
  cases range with
  | none => exact ⟨fun _ _ _ h => (nomatch h), fun _ => rfl⟩
  | some r =>
    obtain ⟨least, most⟩ := r
    simp only [bounded, List.append_eq_nil_iff, Finding.when_eq_nil]
    refine ⟨fun h _ _ hr => ?_, fun h => h least most rfl⟩
    cases hr
    exact h

end Glossary

/-! ## The glossary of a schema -/

/-- Names that read the same in a reference, as identifiers do. -/
structure Source.PlainNames (source : Source) : Prop where
  classes : ∀ name ∈ source.classNames, IsPlain name
  enums : ∀ owner name members, source.members owner name = .ok members → IsPlain name

/-- The names of a table are plain if those in it are. -/
theorem Table.plainNames {t : Table} (classes : ∀ name ∈ t.source.classNames, IsPlain name)
    (enums : ∀ c ∈ t.classes, ∀ e ∈ c.2.enums, IsPlain e.1) : t.source.PlainNames where
  classes := classes
  enums owner name members h := by
    obtain ⟨c, declared, hc, he, -⟩ := t.members_eq_ok h
    exact enums _ hc _ he

/-- The names of people, their classes and enumerations are plain. -/
theorem plainNames_people : people.source.PlainNames :=
  Table.plainNames (by decide) (by decide)

/-- The node of a kind references what the kind mentions. -/
theorem Kind.exists_of_target? {names : String → Option String} {kind : Kind} {t : String}
    (h : (kind.node names).target? = some t) :
    ∃ e ∈ kind.mentions, e.key? names = some t ∨ e.key? names = none := by
  induction kind with
  | struct tag => exact ⟨_, List.mem_singleton.mpr rfl, .inl h⟩
  | object className => exact ⟨_, List.mem_singleton.mpr rfl, .inl h⟩
  | enum owner name flags =>
    refine ⟨_, List.mem_singleton.mpr rfl, ?_⟩
    have target : some ((names (enumPath owner name)).getD (enumPath owner name)) = some t := by
      cases flags <;> exact h
    show names (enumPath owner name) = some t ∨ names (enumPath owner name) = none
    cases hn : names (enumPath owner name) with
    | none => exact .inr rfl
    | some n =>
      rw [hn] at target
      exact .inl target
  | array element length ih => exact ih h
  | packed tag =>
    cases tag with
    | vector2 | vector3 | color | vector4 => exact ⟨_, List.mem_singleton.mpr rfl, .inl h⟩
    | _ => cases h
  | _ => cases h

namespace Source.Shares

variable {source : Source} {described live : Entity → Prop} {names : String → Option String}
  {shared : List (String × Definition)} {classes : List ClassDescriptor} {enums : List EnumDescriptor}

/-- The shared definitions by their names. -/
def glossary (shared : List (String × Definition)) (enumNameOf : List String → String) : Glossary :=
  ⟨fun name => Json.lookup name shared, enumNameOf⟩

/-- The definition of a live entity is found under its key. -/
theorem lookup (h : source.Shares described live names shared classes enums) {e : Entity} (he : live e) :
    ∃ name definition, e.key? names = some name ∧ Json.lookup name shared = some definition ∧
      source.DefinitionOf names e definition := by
  obtain ⟨name, definition, hk, hm, hd⟩ := h.defined he
  exact ⟨name, definition, hk, (Json.lookup_eq_some_iff h.distinct).mpr hm, hd⟩

/-- A node whose kind mentions only what is live has its references resolved. -/
theorem resolves_node (h : source.Shares described live names shared classes enums) {kind : Kind}
    (hl : ∀ e ∈ kind.mentions, live e) (enumNameOf : List String → String) :
    (glossary shared enumNameOf).Resolves (.node (kind.node names)) := by
  intro t ht
  obtain ⟨e, he, hk⟩ := Kind.exists_of_target? (Option.mem_toList.mp ht)
  obtain ⟨name, definition, hn, hd, -⟩ := h.lookup (hl e he)
  rcases hk with hk | hk
  · obtain rfl := Option.some.inj (hk.symm.trans hn)
    exact Option.isSome_iff_exists.mpr ⟨definition, hd⟩
  · cases hk.symm.trans hn

/-- An object whose properties mention only what is live has its references resolved. -/
theorem resolves_object (h : source.Shares described live names shared classes enums) {α : Type}
    {xs : List α} (property : α → NodeProperty) (kindOf : α → Kind)
    (hp : ∀ x ∈ xs, (property x).node = (kindOf x).node names)
    (hl : ∀ x ∈ xs, ∀ e ∈ (kindOf x).mentions, live e) (enumNameOf : List String → String) :
    (glossary shared enumNameOf).Resolves (.definition (.object (xs.map property))) := by
  intro t ht
  obtain ⟨p, hm, ht⟩ := List.mem_filterMap.mp ht
  obtain ⟨x, hx, rfl⟩ := List.mem_map.mp hm
  rw [hp x hx] at ht
  exact h.resolves_node (hl x hx) enumNameOf t (Option.mem_toList.mpr ht)

/-- The definition of a live entity has its references resolved. -/
theorem resolves_definition (h : source.Shares described live names shared classes enums)
    (closed : ∀ {e other}, live e → source.Mentions e other → live other) {e : Entity} (he : live e)
    {definition : Definition} (hd : source.DefinitionOf names e definition)
    (enumNameOf : List String → String) :
    (glossary shared enumNameOf).Resolves (.definition definition) := by
  cases hd with
  | «class» hc =>
    exact h.resolves_object _ PropertyDescriptor.kind (fun p _ => rfl)
      (fun p hp e hm => closed he (.property hc hp hm)) enumNameOf
  | enum => exact fun t ht => absurd ht List.not_mem_nil
  | struct tag =>
    rw [tag.definition_eq names]
    exact h.resolves_object _ Prod.snd (fun _ _ => rfl)
      (fun component hc e hm => closed he (.component hc hm)) enumNameOf

/-- The key of a live entity is plain. -/
theorem plain_key (h : source.Shares described live names shared classes enums)
    (plain : source.PlainNames) {e : Entity} (he : live e) {name : String}
    (hk : e.key? names = some name) {definition : Definition}
    (hd : source.DefinitionOf names e definition) : IsPlain name := by
  cases hd with
  | «class» hc =>
    cases hk
    exact plain.classes _ (List.contains_iff_mem.mp (describeClass_eq_ok hc).1)
  | struct tag =>
    cases hk
    cases tag <;> decide
  | enum =>
    obtain ⟨e, hm, hpath⟩ := h.enumPaths.mp he
    obtain ⟨described, key, hkey, hname⟩ := h.enumDescribed e hm
    have plainName : IsPlain e.name := plain.enums _ _ _ described.members
    have plainOwner : IsPlain e.owner := plain.classes _ (List.contains_iff_mem.mp described.known)
    rw [hpath] at hkey
    obtain rfl := Option.some.inj ((show names _ = some name from hk).symm.trans hkey)
    -- The name that was chosen is that of the enumeration, or its path where names clash.
    rcases hname with rfl | rfl
    · exact plainName
    · exact plainOwner.enumPath plainName

end Source.Shares

/-- What a live entity mentions is live. -/
theorem Source.Live.mentions {source : Source} {kind : Kind} {e other : Entity}
    (h : source.Live kind e) (hm : source.Mentions e other) : source.Live kind other := by
  have reaches : source.Reaches kind e → source.Reaches kind other :=
    fun ⟨first, hf, hr⟩ => ⟨first, hf, hr.tail hm⟩
  cases kind with
  | object className => exact Relation.TransGen.tail h hm
  | _ => exact reaches h

namespace Schema.Presents

variable {source : Source} {kind : Kind} {names : String → Option String}
  {shared : List (String × Definition)} {schema : Schema}

/-- The glossary of a schema says what its document says. -/
theorem describes (h : schema.Presents source kind names shared) (plain : source.PlainNames) :
    (Source.Shares.glossary shared schema.checker.enumNameOf).Describes schema.checker where
  follow {name d} hd := by
    obtain ⟨s, -, hdocument⟩ := h.shape
    obtain ⟨e, he, hk, hdef⟩ := h.shares.lives (Json.mem_of_lookup hd)
    show schema.document.follow? _ = _
    rw [hdocument, Shape.document, follow?_referenceTo (h.shares.plain_key plain he hk hdef),
      Json.lookup_map, show Json.lookup name shared = some d from hd]
    rfl
  closed {name d} hd t ht := by
    obtain ⟨e, he, -, hdef⟩ := h.shares.lives (Json.mem_of_lookup hd)
    exact h.shares.resolves_definition Source.Live.mentions he hdef _ t ht
  enumNameOf _ := rfl

end Schema.Presents

/-! ## The main result -/

section

variable {source : Source} {described live : Entity → Prop} {names : String → Option String}
  {shared : List (String × Definition)} {classes : List ClassDescriptor} {enums : List EnumDescriptor}
  {enumNameOf : List String → String} {v : Json}

/-- Nothing is found in a value for any shape of a kind exactly when it conforms to the kind. -/
def Json.Decided (source : Source) (live : Entity → Prop) (names : String → Option String)
    (g : Glossary) (v : Json) : Prop :=
  ∀ {kind : Kind} {s : Shape}, kind.HasShape source live names s →
    (v.findings g s = [] ↔ source.Conforms kind v)

/-- Nothing is found in an object exactly when it conforms, if that is so of its parts. -/
theorem object_decided {g : Glossary} {α : Type} {xs : List α} (property : α → NodeProperty)
    (kindOf : α → Kind) (hp : ∀ x ∈ xs, (property x).node = (kindOf x).node names)
    (hw : ∀ x ∈ xs, (kindOf x).WellFormed source.hasClass)
    (hl : ∀ x ∈ xs, ∀ e ∈ (kindOf x).mentions, live e)
    (parts : ∀ w ∈ v.parts, w.Decided source live names g) :
    g.inDefinition v (v.inside (·.findings g)) (.object (xs.map property)) = [] ↔
      ∃ fields, v = .obj fields ∧ HasKeys (xs.map fun x => (property x).name) fields ∧
        ∀ x ∈ xs, ∀ value, Json.lookup (property x).name fields = some value →
          source.Conforms (kindOf x) value := by
  rw [Glossary.inDefinition_object_eq_nil, List.map_map]
  refine exists_congr fun fields => and_congr_right fun hv => and_congr_right fun _ => ?_
  rw [List.forall_mem_map]
  refine forall₂_congr fun x hx => forall₂_congr fun value hlookup => ?_
  subst hv
  rw [hp x hx]
  exact parts value (Json.mem_parts_of_lookup hlookup) (.node (hw x hx) (hl x hx))

/-- The definition of a class decides conformance to it. -/
theorem class_decided {g : Glossary} {c : ClassDescriptor} (hc : describeClass source c.name = .ok c)
    (hl : ∀ p ∈ c.properties, ∀ e ∈ p.kind.mentions, live e)
    (parts : ∀ w ∈ v.parts, w.Decided source live names g) :
    g.inDefinition v (v.inside (·.findings g)) (c.definition names) = [] ↔
      source.Conforms (.object c.name) v := by
  rw [Source.conforms_object_iff hc]
  exact object_decided _ PropertyDescriptor.kind (fun _ _ => rfl) (wellFormed_of_describeClass hc) hl parts

/-- The definition of a struct decides conformance to it. -/
theorem struct_decided {g : Glossary} {tag : StructTag}
    (hl : ∀ component ∈ tag.layout, ∀ e ∈ component.2.mentions, live e)
    (parts : ∀ w ∈ v.parts, w.Decided source live names g) :
    g.inDefinition v (v.inside (·.findings g)) tag.definition = [] ↔
      source.Conforms (.struct tag) v := by
  rw [Source.conforms_struct_iff, tag.definition_eq names]
  exact object_decided _ Prod.snd (fun _ _ => rfl) (fun _ => StructTag.wellFormed_layout _) hl parts

/-- An integer inside a range. -/
theorem scalar_integer_decided {range : Option (Int × Int)} :
    Glossary.typed v "integer" ++ Glossary.bounded v range = [] ↔ source.Conforms .integer v ∧
      ∀ least most, range = some (least, most) → ∀ n, v.integer? = some n → least ≤ n ∧ n ≤ most := by
  refine (Glossary.scalar_eq_nil .integer).trans ?_
  rw [Source.conforms_integer_iff]
  refine and_congr_right fun hv => forall₃_congr fun least most _ => ?_
  obtain ⟨n, hn⟩ : ∃ n, v.integer? = some n := by
    cases source.conforms_integer_iff.mpr hv with
    | integer h => exact ⟨_, h⟩
  rw [Json.lessThan_of_integer? hn, Json.greaterThan_of_integer? hn, decide_eq_false_iff_not,
    decide_eq_false_iff_not]
  refine ⟨fun h m hm => ?_, fun h => ?_⟩
  · obtain rfl := Option.some.inj (hn.symm.trans hm)
    omega
  · have := h n hn
    omega

/-- A scalar without a range decides its type. -/
theorem scalar_decided (type : ScalarType) :
    Glossary.typed v type.text ++ Glossary.bounded v none = [] ↔ v.isOfType type.text = true := by
  rw [Glossary.scalar_eq_nil]
  exact and_iff_left fun _ _ h => nomatch h

/-- An item of a packed array. -/
theorem packed_item_decided {g : Glossary} {tag : PackedTag} {w : Json}
    (hl : ∀ e ∈ (Kind.packed tag).mentions, live e) (hw : w.Decided source live names g) :
    w.findings g (.node tag.itemNode) = [] ↔ source.Conforms tag.element w ∧ tag.InRange w := by
  have integer : tag.element = .integer → tag.itemNode = .scalar .integer tag.range →
      (w.findings g (.node tag.itemNode) = [] ↔ source.Conforms tag.element w ∧ tag.InRange w) := by
    intro he hn
    rw [hn, he, Json.findings_eq_inShape]
    exact scalar_integer_decided
  have other : tag.range = none → tag.itemNode = tag.element.node names →
      tag.element.WellFormed source.hasClass →
      (w.findings g (.node tag.itemNode) = [] ↔ source.Conforms tag.element w ∧ tag.InRange w) := by
    intro hr hn hk
    rw [hn, hw (.node hk (Kind.mentions_packed tag ▸ hl))]
    refine (and_iff_left fun least most hrange => ?_).symm
    cases hr.symm.trans hrange
  cases tag with
  | byte | int32 | int64 => exact integer rfl rfl
  | _ => exact other rfl rfl trivial

/-- The definition of an enumeration decides which texts are its members. -/
theorem enum_decided {g : Glossary} {owner name : String} {members : List (String × EnumValue)}
    (hm : source.members owner name = .ok members) :
    g.inDefinition v (v.inside (·.findings g)) (.enumeration (members.map (·.1))) = [] ↔
      source.Conforms (.enum owner name false) v := by
  rw [Glossary.inDefinition_enumeration_eq_nil, Source.conforms_enum_iff hm]
  exact Iff.rfl

/-- A reference finds what the definition behind it finds. -/
theorem findings_ref {g : Glossary} {name : String} {definition : Definition}
    (h : g.definition? name = some definition) (w : Json) :
    w.findings g (.node (.ref name)) = g.inDefinition w (w.inside (·.findings g)) definition := by
  rw [Json.findings_eq_inShape, Glossary.inShape, Glossary.inNode]
  simp only [h]

/-- The definition of a live enumeration lists its members. -/
theorem Source.Shares.enum_lookup (h : source.Shares described live names shared classes enums)
    {owner name : String} {flags : Bool} (hw : (Kind.enum owner name flags).WellFormed source.hasClass)
    (hl : live (.enum (enumPath owner name))) :
    ∃ key members, names (enumPath owner name) = some key ∧
      Json.lookup key shared = some (.enumeration (members.map (·.1))) ∧
      source.members owner name = .ok members := by
  obtain ⟨key, definition, hk, hlookup, hd⟩ := h.lookup hl
  generalize hpath : Entity.enum (enumPath owner name) = e at hd
  cases hd with
  | enum hm ho hn =>
    obtain ⟨rfl, rfl⟩ := enumPath_injective hw.2.2.2.1 hw.2.2.2.2 ho hn (Entity.enum.inj hpath)
    exact ⟨key, _, hk, hlookup, hm⟩
  | _ => cases hpath

/-- An array of anything decides its length. -/
theorem anyArray_decided {length : Option Int} :
    Glossary.typed v "array" ++ Glossary.sized v length = [] ↔ source.Conforms (.anyArray length) v := by
  rw [Source.conforms_anyArray_iff, List.append_eq_nil_iff, Glossary.typed_eq_nil]
  cases v with
  | arr items => simp [Json.isOfType, Glossary.sized_eq_nil]
  | _ => simp [Json.isOfType]

/-- The node of an enumeration references its members; that of its flags is a list of such references. -/
theorem enum_node_decided (h : source.Shares described live names shared classes enums)
    {owner name : String} {flags : Bool} (hw : (Kind.enum owner name flags).WellFormed source.hasClass)
    (hl : live (.enum (enumPath owner name))) :
    v.findings (Source.Shares.glossary shared enumNameOf)
        (.node ((Kind.enum owner name flags).node names)) = [] ↔
      source.Conforms (.enum owner name flags) v := by
  obtain ⟨key, members, hk, hlookup, hm⟩ := h.enum_lookup hw hl
  have reference : ∀ w : Json,
      w.findings (Source.Shares.glossary shared enumNameOf) (.node (.ref key)) = [] ↔
        source.Conforms (.enum owner name false) w := by
    intro w
    rw [findings_ref hlookup]
    exact enum_decided hm
  rw [Kind.node, hk, Option.getD_some]
  cases flags with
  | false => exact reference v
  | true =>
    rw [if_pos rfl, Json.findings_eq_inShape, Source.conforms_enum_iff hm, if_pos rfl]
    refine Glossary.array_eq_nil.trans (exists_congr fun items => and_congr_right fun _ => ?_)
    rw [and_iff_right (HasLength.none items)]
    exact forall₂_congr fun item _ => (reference item).trans (Source.conforms_enum_iff hm)

/-- **A node decides its kind**, if the parts of the value are decided. -/
theorem node_decided (h : source.Shares described live names shared classes enums)
    (closed : ∀ {e other}, live e → source.Mentions e other → live other) {kind : Kind}
    (hw : kind.WellFormed source.hasClass) (hl : ∀ e ∈ kind.mentions, live e)
    (parts : ∀ w ∈ v.parts, w.Decided source live names (Source.Shares.glossary shared enumNameOf)) :
    v.findings (Source.Shares.glossary shared enumNameOf) (.node (kind.node names)) = [] ↔
      source.Conforms kind v := by
  cases kind with
  | boolean =>
    rw [Json.findings_eq_inShape]
    exact (scalar_decided .boolean).trans Source.conforms_boolean_iff.symm
  | integer =>
    rw [Json.findings_eq_inShape]
    exact scalar_integer_decided.trans (and_iff_left fun _ _ hr => nomatch hr)
  | number =>
    rw [Json.findings_eq_inShape]
    exact (scalar_decided .number).trans Source.conforms_number_iff.symm
  | string =>
    rw [Json.findings_eq_inShape]
    exact (scalar_decided .string).trans Source.conforms_string_iff.symm
  | dictionary =>
    rw [Json.findings_eq_inShape]
    exact Glossary.typed_eq_nil.trans Source.conforms_dictionary_iff.symm
  | anyArray length =>
    rw [Json.findings_eq_inShape]
    exact anyArray_decided
  | array element length =>
    have known : element.WellFormed source.hasClass := hw
    have lives : ∀ e ∈ element.mentions, live e := hl
    rw [Json.findings_eq_inShape, Source.conforms_array_iff]
    refine Glossary.array_eq_nil.trans (exists_congr fun items => and_congr_right fun hv => ?_)
    subst hv
    exact and_congr_right fun _ => forall₂_congr fun item hm => parts item hm (.node known lives)
  | packed tag =>
    rw [Json.findings_eq_inShape, Source.conforms_packed_iff]
    refine Glossary.array_eq_nil.trans (exists_congr fun items => and_congr_right fun hv => ?_)
    subst hv
    rw [and_iff_right (HasLength.none items)]
    exact forall₂_congr fun item hm => packed_item_decided hl (parts item hm)
  -- What stands behind a reference is checked against the same value, so it has the same parts.
  | struct tag =>
    obtain ⟨key, definition, hk, hlookup, hd⟩ := h.lookup (hl _ (List.mem_singleton.mpr rfl))
    cases hk
    cases hd
    rw [Kind.node, findings_ref hlookup]
    exact struct_decided (fun component hc e he =>
      closed (hl _ (List.mem_singleton.mpr rfl)) (.component hc he)) parts
  | object className =>
    obtain ⟨key, definition, hk, hlookup, hd⟩ := h.lookup (hl _ (List.mem_singleton.mpr rfl))
    cases hk
    cases hd with
    | «class» hc =>
      rw [Kind.node, findings_ref hlookup]
      exact class_decided hc (fun p hp e he =>
        closed (hl _ (List.mem_singleton.mpr rfl)) (.property hc hp he)) parts
  | enum owner name flags => exact enum_node_decided h hw (hl _ (List.mem_singleton.mpr rfl))

/-- **Every shape of a kind decides it.** -/
theorem shape_decided (h : source.Shares described live names shared classes enums)
    (closed : ∀ {e other}, live e → source.Mentions e other → live other) (v : Json) :
    v.Decided source live names (Source.Shares.glossary shared enumNameOf) := by
  refine Json.inductionOnParts (P := (·.Decided source live names _)) v ?_
  intro v parts kind s hs
  cases hs with
  | node hw hl => exact node_decided h closed hw hl parts
  | inline hc hl =>
    rw [Json.findings_eq_inShape]
    exact class_decided hc hl parts
  | @items element s hs =>
    rw [Json.findings_eq_inShape, Source.conforms_array_iff]
    refine Glossary.typed_inItems_eq_nil.trans (exists_congr fun items => and_congr_right fun hv => ?_)
    subst hv
    rw [and_iff_right (HasLength.none items)]
    exact forall₂_congr fun item hm => parts item hm hs

end

/-- Sorting drops no finding. -/
theorem Finding.mergeSort_eq_nil {found : List Finding} : found.mergeSort before = [] ↔ found = [] := by
  rw [← List.length_eq_zero_iff, List.length_mergeSort, List.length_eq_zero_iff]

/-- A check is without findings when the value has none. -/
theorem Checker.findings_eq_nil_iff {c : Checker} {v : Json} {found : List Finding}
    (h : c.raw v = .ok found) : c.findings v = .ok [] ↔ found = [] := by
  rw [findings, h]
  show Except.ok ((Finding.distinct found).mergeSort Finding.before) = Except.ok [] ↔ _
  rw [Except.ok.injEq, Finding.mergeSort_eq_nil, Finding.distinct]
  cases found with
  | nil => exact Iff.rfl
  | cons f rest => simp [distinctFrom]

/-- Every value counts for something. -/
theorem Json.size_pos (v : Json) : 0 < v.size := by
  cases v <;> simp [size]

/-- The references of a shape of a kind are resolved. -/
theorem Kind.HasShape.resolves {source : Source} {described live : Entity → Prop}
    {names : String → Option String} {shared : List (String × Definition)}
    {classes : List ClassDescriptor} {enums : List EnumDescriptor} {kind : Kind} {s : Shape}
    (hs : kind.HasShape source live names s)
    (h : source.Shares described live names shared classes enums) (enumNameOf : List String → String) :
    (Source.Shares.glossary shared enumNameOf).Resolves s := by
  induction hs with
  | node hw hl => exact h.resolves_node hl enumNameOf
  | inline hc hl => exact h.resolves_object _ PropertyDescriptor.kind (fun _ _ => rfl) hl enumNameOf
  | items _ ih => exact ih

namespace Schema.Presents

variable {source : Source} {kind : Kind} {names : String → Option String}
  {shared : List (String × Definition)} {schema : Schema}

/-- The references of the shape at the root are resolved. -/
theorem resolves_root (h : schema.Presents source kind names shared) {s : Shape}
    (hs : schema.HasShape source (source.Live kind) names s) (enumNameOf : List String → String) :
    (Source.Shares.glossary shared enumNameOf).Resolves s := by
  cases hs with
  | plain _ hs => exact hs.resolves h.shares enumNameOf
  | wrapped _ _ hl =>
    let property : Kind → NodeProperty := fun root => ⟨"value", root.node names, none⟩
    exact h.shares.resolves_object property id (fun _ _ => rfl) (List.forall_mem_singleton.mpr hl)
      enumNameOf

/-- A check finds what is found for the shape at the root, if references lead to definitions. -/
theorem raw_of_shape (h : schema.Presents source kind names shared)
    (hg : (Source.Shares.glossary shared schema.checker.enumNameOf).Describes schema.checker)
    {s : Shape} (hs : schema.HasShape source (source.Live kind) names s)
    (hd : schema.document = s.document shared) (v : Json) : schema.checker.raw v =
      .ok (v.findings (Source.Shares.glossary shared schema.checker.enumNameOf) s) := by
  have renders : s.Renders schema.checker.document := by
    show s.Renders schema.document
    rw [hd]
    exact .assemble s _
  exact Json.check_eq_findings hg (Json.size_pos _) v (h.resolves_root hs _) renders

/-- A check ends in a list, which is empty when nothing is found for the shape at the root. -/
theorem findings_of_shape (h : schema.Presents source kind names shared)
    (hg : (Source.Shares.glossary shared schema.checker.enumNameOf).Describes schema.checker)
    {s : Shape} (hs : schema.HasShape source (source.Live kind) names s)
    (hd : schema.document = s.document shared) (v : Json) :
    ∃ found, schema.checker.findings v = .ok found ∧
      (found = [] ↔ v.findings (Source.Shares.glossary shared schema.checker.enumNameOf) s = []) := by
  have raw := h.raw_of_shape hg hs hd v
  obtain ⟨found, ends⟩ : ∃ found, schema.checker.findings v = .ok found := by
    rw [Checker.findings, raw]
    exact ⟨_, rfl⟩
  refine ⟨found, ends, ?_⟩
  rw [← Checker.findings_eq_nil_iff raw, ends, Except.ok.injEq]

/-- **A check decides what conforms to the root of a schema**, if references lead to definitions. -/
theorem decides (h : schema.Presents source kind names shared)
    (hg : (Source.Shares.glossary shared schema.checker.enumNameOf).Describes schema.checker)
    (v : Json) : ∃ found, schema.checker.findings v = .ok found ∧
      (found = [] ↔ source.ConformsAtRoot schema.root schema.wrapped v) := by
  obtain ⟨s, root, hd⟩ := h.shape
  obtain ⟨found, hf, hn⟩ := h.findings_of_shape hg root hd v
  refine ⟨found, hf, hn.trans ?_⟩
  cases root with
  | plain hw hs =>
    rw [Source.ConformsAtRoot, hw, if_neg (by decide)]
    exact shape_decided h.shares Source.Live.mentions v hs
  | wrapped hw hk hl =>
    -- The wrapper is an object with the bare kind as its only property.
    let property : Kind → NodeProperty := fun root => ⟨"value", root.node names, none⟩
    have known : ∀ root ∈ [schema.root], root.WellFormed source.hasClass :=
      List.forall_mem_singleton.mpr hk
    have live : ∀ root ∈ [schema.root], ∀ e ∈ root.mentions, source.Live kind e :=
      List.forall_mem_singleton.mpr hl
    rw [Source.ConformsAtRoot, hw, if_pos rfl, Json.findings_eq_inShape]
    refine (object_decided property id (fun _ _ => rfl) known live
      fun w _ => shape_decided h.shares Source.Live.mentions w).trans ?_
    refine exists_congr fun fields => and_congr_right fun _ => and_congr_right fun _ => ?_
    exact List.forall_mem_singleton

/-- Where names are plain, a check decides what conforms to the root of a schema. -/
theorem findings_decide (h : schema.Presents source kind names shared) (plain : source.PlainNames)
    (v : Json) : ∃ found, schema.checker.findings v = .ok found ∧
      (found = [] ↔ source.ConformsAtRoot schema.root schema.wrapped v) :=
  h.decides (h.describes plain) v

/-- A schema accepts what conforms to its root. -/
theorem accepts_iff (h : schema.Presents source kind names shared) (plain : source.PlainNames)
    (v : Json) : schema.accepts v ↔ source.ConformsAtRoot schema.root schema.wrapped v := by
  obtain ⟨found, hf, hn⟩ := h.findings_decide plain v
  rw [← hn, Schema.accepts, hf, Except.ok.injEq]

end Schema.Presents

/-- **The meaning of a schema.**  When the names of a source are plain, a check against the schema of a
class or of a bare type ends for every value, and it finds nothing exactly when the value conforms to
the class or to the kind of the type. -/
theorem check_decides_conformance {source : Source} (plain : source.PlainNames) :
    (∀ {className title : String} {schema : Schema},
      (buildClass source className title).run.1 = .ok schema → ∀ v, ∃ found,
        schema.checker.findings v = .ok found ∧
          (found = [] ↔ source.Conforms (.object className) v)) ∧
    ∀ {info : PropertyInfo} {schema : Schema}, (buildType source info).run.1 = .ok schema →
      ∃ kind, resolve source.hasClass info = .ok kind ∧ ∀ v, ∃ found,
        schema.checker.findings v = .ok found ∧
          (found = [] ↔ source.ConformsAtRoot kind kind.isWrapped v) := by
  constructor
  · intro className title schema h v
    obtain ⟨names, shared, presents⟩ := (Schema.Built.class h).presents
    obtain ⟨hroot, hw⟩ := buildClass_root h
    obtain ⟨found, hf, hn⟩ := presents.findings_decide plain v
    rw [hroot, hw] at hn
    exact ⟨found, hf, hn⟩
  · intro info schema h
    obtain ⟨kind, hk, hroot, hw⟩ := buildType_root h
    obtain ⟨names, shared, presents⟩ := (Schema.Built.type hk h).presents
    refine ⟨kind, hk, fun v => ?_⟩
    obtain ⟨found, hf, hn⟩ := presents.findings_decide plain v
    rw [hroot, hw] at hn
    exact ⟨found, hf, hn⟩

/-- A person without friends. -/
def ada : Json :=
  .obj [("name", .str "Ada"), ("mood", .str "Glad"), ("friends", .arr [])]

/-- The example person conforms to her class. -/
theorem conforms_ada : people.source.Conforms (.object "Person") ada := by
  refine .object (c := person) describeClass_person (.self _) fun p hp value hv => ?_
  simp only [person, List.mem_cons, List.not_mem_nil, or_false] at hp
  rcases hp with rfl | rfl | rfl
  · cases hv
    exact .string "Ada"
  · cases hv
    exact .enum members_mood (by decide)
  · cases hv
    exact .array (.none _) fun item hi => absurd hi List.not_mem_nil

/-- A check accepts a person, and not that there is none. -/
theorem check_decides_conformance_person :
    ∃ schema, (buildClass people.source "Person" "").run.1 = .ok schema ∧
      schema.checker.findings ada = .ok [] ∧ schema.checker.findings .null ≠ .ok [] := by
  obtain ⟨schema, h⟩ := exists_schema_person
  have decides := (check_decides_conformance plainNames_people).1 h
  obtain ⟨found, hf, hn⟩ := decides ada
  refine ⟨schema, h, ?_, fun accepted => ?_⟩
  · rw [hf, hn.mpr conforms_ada]
  · obtain ⟨found, hf, hn⟩ := decides .null
    rw [hf, Except.ok.injEq] at accepted
    obtain ⟨_, null, -⟩ :=
      (Source.conforms_object_iff (c := person) describeClass_person).mp (hn.mp accepted)
    cases null

end ReflectedSchema
