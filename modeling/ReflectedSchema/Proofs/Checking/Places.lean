import ReflectedSchema.Proofs.Arrays.Elementwise
import ReflectedSchema.Proofs.Decoding.Effects

/-!
# Findings and their places

A check goes down a document and decoding goes down a kind, but both go through the same places of a
value.  `Schema.own` says what is found at a place itself, by its kind: what is found inside is left
to the places inside.  `Schema.Built.mem_raw_iff` puts the two together: where names are plain, a check
against a schema that was built finds exactly what is to be found at the places that the root leads
down to, and at the wrapper if there is one.

The induction is on the value, as in the proof that a check decides what conforms.
-/

namespace ReflectedSchema

/-! ## What is listed -/

section Distinct

variable {α β : Type} [DecidableEq α] {seen : List α} {keyOf : β → α} {entries : List β} {b : β}

/-- What is left without repetitions was there, and its key was not seen before. -/
theorem mem_of_mem_distinctFrom (h : b ∈ distinctFrom seen (entries.map fun b => (keyOf b, b))) :
    b ∈ entries ∧ keyOf b ∉ seen := by
  induction entries generalizing seen with
  | nil => cases h
  | cons first rest ih =>
    rw [List.map_cons, distinctFrom] at h
    by_cases hk : keyOf first ∈ seen
    · rw [if_pos hk] at h
      exact (ih h).imp_left (List.mem_cons_of_mem _)
    · rw [if_neg hk] at h
      rcases List.mem_cons.mp h with rfl | h
      · exact ⟨List.mem_cons_self, hk⟩
      · exact (ih h).imp (List.mem_cons_of_mem _) (mt (List.mem_cons_of_mem _))

/-- What has a new key is there, or something of the same key before it. -/
theorem exists_mem_distinctFrom (h : b ∈ entries) (hk : keyOf b ∉ seen) :
    ∃ first ∈ distinctFrom seen (entries.map fun b => (keyOf b, b)), keyOf first = keyOf b := by
  induction entries generalizing seen with
  | nil => cases h
  | cons first rest ih =>
    rw [List.map_cons, distinctFrom]
    by_cases known : keyOf first ∈ seen
    · rw [if_pos known]
      rcases List.mem_cons.mp h with rfl | h
      · exact absurd known hk
      · exact ih h hk
    · rw [if_neg known]
      by_cases same : keyOf first = keyOf b
      · exact ⟨first, List.mem_cons_self, same⟩
      · have later : b ∈ rest := (List.mem_cons.mp h).resolve_left fun here => same (here ▸ rfl)
        obtain ⟨other, ho, hkey⟩ := ih later (List.not_mem_cons_of_ne_of_not_mem (Ne.symm same) hk)
        exact ⟨other, List.mem_cons_of_mem _ ho, hkey⟩

/-- No key is left twice. -/
theorem nodup_distinctFrom (seen : List α) (keyOf : β → α) (entries : List β) :
    ((distinctFrom seen (entries.map fun b => (keyOf b, b))).map keyOf).Nodup := by
  induction entries generalizing seen with
  | nil => exact .nil
  | cons first rest ih =>
    rw [List.map_cons, distinctFrom]
    by_cases known : keyOf first ∈ seen
    · rw [if_pos known]
      exact ih seen
    · rw [if_neg known, List.map_cons, List.nodup_cons]
      refine ⟨fun again => ?_, ih _⟩
      obtain ⟨other, ho, same⟩ := List.mem_map.mp again
      exact (mem_of_mem_distinctFrom ho).2 (same ▸ List.mem_cons_self)

end Distinct

namespace Finding

variable {found : List Finding} {f : Finding}

/-- What is listed was found. -/
theorem mem_of_mem_listed (h : f ∈ listed found) : f ∈ found :=
  (mem_of_mem_distinctFrom (List.mem_mergeSort.mp h)).1

/-- Whatever is found is listed, or something that says the same. -/
theorem exists_mem_listed (h : f ∈ found) : ∃ g ∈ listed found, g.key = f.key := by
  obtain ⟨g, hg, same⟩ : ∃ g ∈ distinct found, g.key = f.key :=
    exists_mem_distinctFrom h List.not_mem_nil
  exact ⟨g, List.mem_mergeSort.mpr hg, same⟩

/-- No two findings of a list say the same. -/
theorem nodup_listed (found : List Finding) : ((listed found).map key).Nodup :=
  ((List.mergeSort_perm _ _).map key).nodup_iff.mpr (nodup_distinctFrom [] key found)

/-- A list of findings is in order. -/
theorem pairwise_listed (found : List Finding) :
    (listed found).Pairwise fun f g => f.before g = true :=
  List.pairwise_mergeSort before_trans before_total _

end Finding

/-! ## Places, step by step -/

/-- The places of the items of an array are their indexes. -/
theorem Place.mem_items_iff {element : Kind} {location : Location} {items : List Json} {index : Nat}
    {place : Place} : place ∈ Place.items element location index items ↔
      ∃ i item, items[i]? = some item ∧ place = ⟨element, item, location ++ [.index (index + i)]⟩ := by
  induction items generalizing index with
  | nil => simp [Place.items]
  | cons item rest ih =>
    rw [Place.items, List.mem_cons, ih]
    constructor
    · rintro (rfl | ⟨i, next, hi, rfl⟩)
      · exact ⟨0, item, rfl, rfl⟩
      · exact ⟨i + 1, next, hi, by rw [Nat.add_right_comm, Nat.add_assoc]⟩
    · rintro ⟨_ | i, next, hi, rfl⟩
      · cases hi
        exact .inl rfl
      · exact .inr ⟨i, next, hi, by rw [Nat.add_right_comm, Nat.add_assoc]⟩

/-- The places of the fields of an object are those that are declared and there. -/
theorem Place.mem_fields_iff {location : Location} {entries : List (String × Json)}
    {declared : List (String × Kind)} {place : Place} :
    place ∈ Place.fields location entries declared ↔ ∃ d ∈ declared, ∃ value,
      Json.lookup d.1 entries = some value ∧ place = ⟨d.2, value, location ++ [.key d.1]⟩ := by
  simp only [Place.fields, List.mem_filterMap, Option.map_eq_some_iff, eq_comm (a := place)]

/-! ## What is found at a place -/

namespace Finding

/-- The same violation, seen from further out by a location. -/
def beneath (location : Location) (f : Finding) : Finding :=
  { f with location := location ++ f.location }

/-- Beneath the root, a finding stays where it is. -/
theorem beneath_nil (f : Finding) : f.beneath [] = f := rfl

/-- A step further out may be taken at the location above. -/
theorem beneath_under (location : Location) (step : Step) (f : Finding) :
    (f.under step).beneath location = f.beneath (location ++ [step]) := by
  simp only [beneath, under, List.append_assoc, List.singleton_append]

/-- What is found in the items of a value, if it is an array. -/
def inEach (found : Json → List Finding) : Json → List Finding
  | .arr items => inItems (items.map found)
  | _ => []

/-- What is found in items is found in one of them, under its index. -/
theorem mem_inEach {found : Json → List Finding} {v : Json} {f : Finding} :
    f ∈ inEach found v ↔ ∃ items, v = .arr items ∧ ∃ i item, items[i]? = some item ∧
      ∃ g ∈ found item, f = g.under (.index i) := by
  cases v with
  | arr items =>
    simp only [inEach, inItems, List.mem_map, List.mem_flatMap, Json.arr.injEq, exists_eq_left',
      Prod.exists, List.mk_mem_zipIdx_iff_getElem?, List.getElem?_map, Option.map_eq_some_iff]
    constructor
    · rintro ⟨_, i, ⟨item, hi, rfl⟩, g, hg, rfl⟩
      exact ⟨i, item, hi, g, hg, rfl⟩
    · rintro ⟨i, item, hi, g, hg, rfl⟩
      exact ⟨_, i, ⟨item, hi, rfl⟩, g, hg, rfl⟩
  | _ => simp [inEach]

/-- So it is from further out. -/
theorem mem_map_inEach {found : Json → List Finding} {v : Json} {location : Location} {f : Finding} :
    f ∈ (inEach found v).map (beneath location) ↔ ∃ items, v = .arr items ∧ ∃ i item,
      items[i]? = some item ∧ f ∈ (found item).map (beneath (location ++ [.index i])) := by
  simp only [List.mem_map, mem_inEach]
  constructor
  · rintro ⟨_, ⟨items, hv, i, item, hi, g, hg, rfl⟩, rfl⟩
    exact ⟨items, hv, i, item, hi, g, hg, (beneath_under ..).symm⟩
  · rintro ⟨items, hv, i, item, hi, g, hg, rfl⟩
    exact ⟨_, ⟨items, hv, i, item, hi, g, hg, rfl⟩, beneath_under ..⟩

/-- The fields that an object lacks, then those that it should not have. -/
def keyed (names : List String) : Json → List Finding
  | .obj fields =>
    ((names.filter fun name => (Json.lookup name fields).isNone).map
        fun name => ⟨[.key name], .missing name⟩) ++
      (fields.filter fun field => field.1 ∉ names).map fun field => ⟨[.key field.1], .unexpected field.1⟩
  | _ => []

/-- Absent names are found, each once or more often. -/
theorem mem_keyed_iff {names : List String} {fields : List (String × Json)} {f : Finding} :
    f ∈ keyed names (.obj fields) ↔ f ∈ absent names fields ∨
      f ∈ (fields.filter fun field => field.1 ∉ names).map
        fun field => ⟨[.key field.1], .unexpected field.1⟩ := by
  rw [keyed, List.mem_append, mem_absent_iff]
  refine or_congr_left ?_
  simp only [List.mem_map, List.mem_filter, Option.isNone_iff_eq_none, and_assoc, @eq_comm _ f]

end Finding

namespace Schema

/-- What is found in a value where the name of a member is expected. -/
def atMember (schema : Schema) (owner name : String) (v : Json) : List Finding :=
  match schema.enum? (enumPath owner name) with
  | some e =>
    Glossary.typed v "string" ++ Finding.when (!(e.memberNames.any fun m => v.str? = some m))
      (.unknownMember (schema.checker.enumNameOf e.memberNames) v e.memberNames)
  | none => []

/-- What is found at a value of a kind itself.  The items of packed arrays and of sets of flags are no
places where decoding looks for more, so what is found there belongs to the array. -/
def own (schema : Schema) (v : Json) : Kind → List Finding
  | .boolean => Glossary.typed v "boolean"
  | .integer => Glossary.typed v "integer"
  | .number => Glossary.typed v "number"
  | .string => Glossary.typed v "string"
  | .dictionary => Glossary.typed v "object"
  | .anyArray length | .array _ length => Glossary.typed v "array" ++ Glossary.sized v length
  | .packed tag =>
    Glossary.typed v "array" ++ Finding.inEach (fun item => Glossary.bounded item tag.range) v
  | .enum owner name false => schema.atMember owner name v
  | .enum owner name true =>
    Glossary.typed v "array" ++ Finding.inEach (schema.atMember owner name) v
  | .struct tag => Glossary.typed v "object" ++ Finding.keyed (tag.layout.map (·.1)) v
  | .object className =>
    match schema.class? className with
    | some c => Glossary.typed v "object" ++ Finding.keyed c.propertyNames v
    | none => []

/-- What is found at a place itself. -/
def foundAt (schema : Schema) (place : Place) : List Finding :=
  (schema.own place.value place.kind).map (Finding.beneath place.location)

/-- What is found at some place that another leads down to. -/
def Finds (schema : Schema) (place : Place) (f : Finding) : Prop :=
  ∃ inner, schema.Holds place inner ∧ f ∈ schema.foundAt inner

variable {schema : Schema} {place : Place} {f : Finding}

/-- Something is found at the place itself or inside. -/
theorem finds_iff : schema.Finds place f ↔
    f ∈ schema.foundAt place ∨ ∃ inner ∈ schema.inner place, schema.Finds inner f := by
  constructor
  · rintro ⟨last, holds, hf⟩
    rcases Relation.ReflTransGen.cases_head holds with rfl | ⟨inner, hi, holds⟩
    · exact .inl hf
    · exact .inr ⟨inner, hi, last, holds, hf⟩
  · rintro (hf | ⟨inner, hi, last, holds, hf⟩)
    · exact ⟨place, .refl, hf⟩
    · exact ⟨last, .head hi holds, hf⟩

/-- At a place without places inside there is only what is found there. -/
theorem finds_of_leaf (leaf : schema.inner place = []) :
    schema.Finds place f ↔ f ∈ schema.foundAt place := by
  rw [finds_iff, leaf]
  simp

/-- Inside an array, there is what is found in its items. -/
theorem finds_in_items {element : Kind} {location : Location} {items : List Json} :
    (∃ inner ∈ Place.items element location 0 items, schema.Finds inner f) ↔
      ∃ i item, items[i]? = some item ∧ schema.Finds ⟨element, item, location ++ [.index i]⟩ f := by
  simp only [Place.mem_items_iff, Nat.zero_add]
  constructor
  · rintro ⟨_, ⟨i, item, hi, rfl⟩, hf⟩
    exact ⟨i, item, hi, hf⟩
  · rintro ⟨i, item, hi, hf⟩
    exact ⟨_, ⟨i, item, hi, rfl⟩, hf⟩

/-- Inside an object, there is what is found in its declared fields. -/
theorem finds_in_fields {location : Location} {entries : List (String × Json)}
    {declared : List (String × Kind)} :
    (∃ inner ∈ Place.fields location entries declared, schema.Finds inner f) ↔ ∃ d ∈ declared, ∃ value,
      Json.lookup d.1 entries = some value ∧ schema.Finds ⟨d.2, value, location ++ [.key d.1]⟩ f := by
  simp only [Place.mem_fields_iff]
  constructor
  · rintro ⟨_, ⟨d, hd, value, hv, rfl⟩, hf⟩
    exact ⟨d, hd, value, hv, hf⟩
  · rintro ⟨d, hd, value, hv, hf⟩
    exact ⟨_, ⟨d, hd, value, hv, rfl⟩, hf⟩

end Schema

/-! ## Findings by their sort -/

/-- A violation of a type, a length or a range. -/
def Violation.isOfForm : Violation → Bool
  | .wrongType .. | .tooShort .. | .tooLong .. | .tooSmall .. | .tooLarge .. => true
  | _ => false

namespace Finding

variable {f : Finding} {v : Json}

/-- What is found under a condition is found because it holds. -/
theorem eq_of_mem_when {condition : Bool} {violation : Violation} (h : f ∈ when condition violation) :
    condition = true ∧ f = ⟨[], violation⟩ := by
  cases condition with
  | false => cases h
  | true => exact ⟨rfl, List.mem_singleton.mp h⟩

/-- A finding of a type is one of form. -/
theorem isOfForm_of_mem_typed {type : String} (h : f ∈ Glossary.typed v type) :
    f.violation.isOfForm = true := by
  obtain ⟨-, rfl⟩ := eq_of_mem_when h
  rfl

/-- A finding of a length is one of form. -/
theorem isOfForm_of_mem_sized {length : Option Int} (h : f ∈ Glossary.sized v length) :
    f.violation.isOfForm = true := by
  unfold Glossary.sized at h
  split at h
  · rcases List.mem_append.mp h with h | h <;> obtain ⟨-, rfl⟩ := eq_of_mem_when h <;> rfl
  · cases h

/-- A finding of a range is one of form. -/
theorem isOfForm_of_mem_bounded {range : Option (Int × Int)} (h : f ∈ Glossary.bounded v range) :
    f.violation.isOfForm = true := by
  unfold Glossary.bounded at h
  split at h
  · rcases List.mem_append.mp h with h | h <;> obtain ⟨-, rfl⟩ := eq_of_mem_when h <;> rfl
  · cases h

end Finding

namespace Schema

variable {schema : Schema} {v : Json} {kind : Kind} {f : Finding}

/-- The keys that a kind declares, if it is one of objects with declared keys. -/
def declaredKeys (schema : Schema) : Kind → Option (List String)
  | .struct tag => some (tag.layout.map (·.1))
  | .object className => (schema.class? className).map (·.propertyNames)
  | _ => none

/-- What is found where a kind expects members: at the value, or at the items in a set of flags. -/
def atMembers (schema : Schema) (v : Json) : Kind → List Finding
  | .enum owner name false => schema.atMember owner name v
  | .enum owner name true => Finding.inEach (schema.atMember owner name) v
  | _ => []

/-- But for types, lengths and ranges, what is found at a value of a kind is about the keys that the kind
declares or the members that it expects. -/
theorem mem_own_iff (hf : f.violation.isOfForm = false) : f ∈ schema.own v kind ↔
    (∃ keys, schema.declaredKeys kind = some keys ∧ f ∈ Finding.keyed keys v) ∨
      f ∈ schema.atMembers v kind := by
  have ofForm {found : List Finding} (h : ∀ f ∈ found, f.violation.isOfForm = true) : f ∉ found :=
    fun hm => Bool.false_ne_true (hf ▸ h f hm)
  have typed (type : String) : f ∉ Glossary.typed v type :=
    ofForm fun _ => Finding.isOfForm_of_mem_typed
  cases kind with
  | boolean | integer | number | string | dictionary => simp [own, declaredKeys, atMembers, typed]
  | anyArray length | array element length =>
    simp [own, declaredKeys, atMembers, typed, ofForm fun _ => Finding.isOfForm_of_mem_sized]
  | packed tag =>
    have items : f ∉ Finding.inEach (fun item => Glossary.bounded item tag.range) v := by
      refine ofForm fun f h => ?_
      obtain ⟨_, -, i, _, -, g, hg, rfl⟩ := Finding.mem_inEach.mp h
      exact (Finding.isOfForm_of_mem_bounded hg : g.violation.isOfForm = true)
    simp [own, declaredKeys, atMembers, typed, items]
  | enum owner name flags => cases flags <;> simp [own, declaredKeys, atMembers, typed]
  | struct tag => simp [own, declaredKeys, atMembers, typed]
  | object className =>
    cases hc : schema.class? className <;> simp [own, declaredKeys, atMembers, typed, hc]

end Schema

/-! ## What a shape finds -/

/-- Without a length, none is found to be wrong. -/
theorem Glossary.sized_none (v : Json) : sized v none = [] := by
  cases v <;> rfl

/-- What is found in the items of an array for a shape. -/
theorem Glossary.inItems_inside (found : Json → Shape → List Finding) (v : Json) (s : Shape) :
    inItems (v.inside found) s = Finding.inEach (fun item => found item s) v := by
  cases v with
  | arr items =>
    show itemsFrom s 0 (items.map found) = _
    rw [itemsFrom_eq_flatMap, List.map_map]
    rfl
  | _ => rfl

/-- What is found in an object for a property is found in its value, if it is there. -/
theorem Glossary.mem_inProperty {found : Json → Shape → List Finding} {fields : List (String × Json)}
    {p : NodeProperty} {location : Location} {f : Finding} :
    f ∈ (inProperty (fields.map fun e => (e.1, found e.2)) p).map (Finding.beneath location) ↔
      ∃ value, Json.lookup p.name fields = some value ∧
        f ∈ (found value (.node p.node)).map (Finding.beneath (location ++ [.key p.name])) := by
  rw [inProperty, Json.lookup_map]
  cases Json.lookup p.name fields with
  | none => simp
  | some value => simp [List.map_map, Function.comp_def, Finding.beneath_under]

/-- What is found in an object for its properties is found for one of them, or concerns its keys. -/
theorem Glossary.mem_inProperties_obj {found : Json → Shape → List Finding} {fields : List (String × Json)}
    {properties : List NodeProperty} {f : Finding} :
    f ∈ inProperties ((Json.obj fields).inside found) properties ↔
      f ∈ properties.flatMap (inProperty (fields.map fun e => (e.1, found e.2))) ∨
        f ∈ Finding.keyed (properties.map (·.name)) (.obj fields) := by
  simp only [Json.inside, inProperties, Finding.mem_keyed_iff, Finding.absent_map, List.filter_map,
    List.map_map, List.mem_append, or_assoc]
  rfl

/-- What is found in an object for its properties: at itself, or in one that is declared and there. -/
theorem Glossary.mem_inProperties {found : Json → Shape → List Finding} {v : Json}
    {properties : List NodeProperty} {location : Location} {f : Finding} :
    f ∈ (inProperties (v.inside found) properties).map (Finding.beneath location) ↔
      f ∈ (Finding.keyed (properties.map (·.name)) v).map (Finding.beneath location) ∨
        ∃ fields, v = .obj fields ∧ ∃ p ∈ properties, ∃ value, Json.lookup p.name fields = some value ∧
          f ∈ (found value (.node p.node)).map (Finding.beneath (location ++ [.key p.name])) := by
  cases v with
  | obj fields =>
    have apart : f ∈ (inProperties ((Json.obj fields).inside found) properties).map
          (Finding.beneath location) ↔
        f ∈ (Finding.keyed (properties.map (·.name)) (.obj fields)).map (Finding.beneath location) ∨
          f ∈ (properties.flatMap (inProperty (fields.map fun e => (e.1, found e.2)))).map
            (Finding.beneath location) := by
      simp only [List.mem_map, mem_inProperties_obj, or_and_right, exists_or, or_comm]
    rw [apart, List.map_flatMap, List.mem_flatMap]
    simp only [mem_inProperty, Json.obj.injEq, exists_eq_left']
  | _ => simp [Json.inside, inProperties, Finding.keyed]

section

variable {source : Source} {described live : Entity → Prop} {names : String → Option String}
  {shared : List (String × Definition)} {classes : List ClassDescriptor} {enums : List EnumDescriptor}
  {schema : Schema} {g : Glossary} {v : Json} {location : Location} {f : Finding}

/-- For any shape of a described kind, what is found in a value is what is found at its places. -/
def Json.Located (source : Source) (described live : Entity → Prop) (names : String → Option String)
    (schema : Schema) (g : Glossary) (v : Json) : Prop :=
  ∀ {kind : Kind} {s : Shape}, kind.HasShape source live names s → (∀ e ∈ kind.mentions, described e) →
    ∀ location f, f ∈ (v.findings g s).map (Finding.beneath location) ↔
      schema.Finds ⟨kind, v, location⟩ f

/-- In an object, what is found is found at its own fields or at the places of its properties. -/
theorem object_located (location : Location) {α : Type} {xs : List α} (property : α → NodeProperty)
    (kindOf : α → Kind)
    (hp : ∀ x ∈ xs, (property x).node = (kindOf x).node names)
    (hw : ∀ x ∈ xs, (kindOf x).WellFormed source.hasClass)
    (hl : ∀ x ∈ xs, ∀ e ∈ (kindOf x).mentions, live e)
    (hd : ∀ x ∈ xs, ∀ e ∈ (kindOf x).mentions, described e)
    (parts : ∀ w ∈ v.parts, w.Located source described live names schema g) :
    f ∈ (g.inDefinition v (v.inside (·.findings g)) (.object (xs.map property))).map
        (Finding.beneath location) ↔
      f ∈ (Glossary.typed v "object" ++ Finding.keyed (xs.map fun x => (property x).name) v).map
          (Finding.beneath location) ∨
        ∃ fields, v = .obj fields ∧ ∃ inner ∈ Place.fields location fields
          (xs.map fun x => ((property x).name, kindOf x)), schema.Finds inner f := by
  rw [Glossary.inDefinition, List.map_append, List.mem_append, Glossary.mem_inProperties,
    List.map_append, List.mem_append, or_assoc, List.map_map]
  refine or_congr_right (or_congr_right (exists_congr fun fields => and_congr_right fun hv => ?_))
  subst hv
  simp only [Schema.finds_in_fields, List.mem_map (l := xs), exists_exists_and_eq_and]
  refine exists_congr fun x => and_congr_right fun hx => exists_congr fun value =>
    and_congr_right fun hlookup => ?_
  rw [hp x hx]
  exact parts value (Json.mem_parts_of_lookup hlookup) (.node (hw x hx) (hl x hx)) (hd x hx) _ f

/-- A value of an enumeration is looked for among its members. -/
theorem findings_member {owner name : String} {e : EnumDescriptor}
    (he : schema.enum? (enumPath owner name) = some e) {key : String}
    (hk : Json.lookup key shared = some (.enumeration e.memberNames)) (w : Json) :
    w.findings (Source.Shares.glossary shared schema.checker.enumNameOf) (.node (.ref key)) =
      schema.atMember owner name w := by
  rw [findings_ref hk, Schema.atMember, he]
  rfl

/-- In an item of a packed array, what is found is found at its place or is that it is out of range. -/
theorem packed_item_located {tag : PackedTag} {w : Json}
    (hl : ∀ e ∈ (Kind.packed tag).mentions, live e) (hd : ∀ e ∈ (Kind.packed tag).mentions, described e)
    (hw : w.Located source described live names schema g) :
    f ∈ (w.findings g (.node tag.itemNode)).map (Finding.beneath location) ↔
      schema.Finds ⟨tag.element, w, location⟩ f ∨
        f ∈ (Glossary.bounded w tag.range).map (Finding.beneath location) := by
  have integer : tag.element = .integer → tag.itemNode = .scalar .integer tag.range →
      (f ∈ (w.findings g (.node tag.itemNode)).map (Finding.beneath location) ↔
        schema.Finds ⟨tag.element, w, location⟩ f ∨
          f ∈ (Glossary.bounded w tag.range).map (Finding.beneath location)) := by
    intro he hn
    rw [hn, he, Json.findings_eq_inShape, Schema.finds_of_leaf rfl]
    exact List.map_append ▸ List.mem_append
  have other : tag.range = none → tag.itemNode = tag.element.node names →
      tag.element.WellFormed source.hasClass →
      (f ∈ (w.findings g (.node tag.itemNode)).map (Finding.beneath location) ↔
        schema.Finds ⟨tag.element, w, location⟩ f ∨
          f ∈ (Glossary.bounded w tag.range).map (Finding.beneath location)) := by
    intro hr hn hk
    rw [hn, hr, hw (.node hk (Kind.mentions_packed tag ▸ hl)) (Kind.mentions_packed tag ▸ hd)]
    exact (or_iff_left List.not_mem_nil).symm
  cases tag with
  | byte | int32 | int64 => exact integer rfl rfl
  | _ => exact other rfl rfl trivial

/-- At a place without places inside, a node finds what is found at the place itself. -/
theorem leaf_located {kind : Kind} {n : Node} (leaf : schema.inner ⟨kind, v, location⟩ = [])
    (own : g.inNode v (v.inside (·.findings g)) n = schema.own v kind) :
    f ∈ (v.findings g (.node n)).map (Finding.beneath location) ↔ schema.Finds ⟨kind, v, location⟩ f := by
  rw [Schema.finds_of_leaf leaf, Json.findings_eq_inShape, Glossary.inShape, own]
  exact Iff.rfl

/-- In an array, what is found is found at itself or in one of its items. -/
theorem array_located {element : Kind} {length : Option Int} {front back : List Finding} {s : Shape}
    (own : schema.own v (.array element length) = front ++ back)
    (parts : ∀ items, v = .arr items → ∀ item ∈ items, ∀ location,
      f ∈ (item.findings g s).map (Finding.beneath location) ↔ schema.Finds ⟨element, item, location⟩ f) :
    f ∈ (front ++ Glossary.inItems (v.inside (·.findings g)) s ++ back).map (Finding.beneath location) ↔
      schema.Finds ⟨.array element length, v, location⟩ f := by
  rw [Schema.finds_iff, Schema.foundAt, own, Glossary.inItems_inside, List.map_append, List.map_append,
    List.map_append, List.mem_append, List.mem_append, List.mem_append, or_right_comm,
    Finding.mem_map_inEach]
  refine or_congr_right ?_
  cases v with
  | arr items =>
    rw [show schema.inner ⟨.array element length, .arr items, location⟩ =
      Place.items element location 0 items from rfl, Schema.finds_in_items]
    simp only [Json.arr.injEq, exists_eq_left']
    exact exists_congr fun i => exists_congr fun item => and_congr_right fun hi =>
      parts items rfl item (List.mem_of_getElem? hi) _
  | _ => simp [Schema.inner]

/-- In a packed array, items may also be out of range. -/
theorem packed_located {tag : PackedTag}
    (hl : ∀ e ∈ (Kind.packed tag).mentions, live e) (hd : ∀ e ∈ (Kind.packed tag).mentions, described e)
    (parts : ∀ w ∈ v.parts, w.Located source described live names schema g) :
    f ∈ (v.findings g (.node ((Kind.packed tag).node names))).map (Finding.beneath location) ↔
      schema.Finds ⟨.packed tag, v, location⟩ f := by
  rw [Schema.finds_iff, Json.findings_eq_inShape]
  show f ∈ (Glossary.typed v "array" ++ Glossary.inItems (v.inside (·.findings g)) (.node tag.itemNode) ++
    Glossary.sized v none).map (Finding.beneath location) ↔ f ∈ (Glossary.typed v "array" ++
      Finding.inEach (fun item => Glossary.bounded item tag.range) v).map (Finding.beneath location) ∨ _
  rw [Glossary.sized_none, List.append_nil, Glossary.inItems_inside, List.map_append, List.map_append,
    List.mem_append, List.mem_append, Finding.mem_map_inEach, Finding.mem_map_inEach, or_assoc]
  refine or_congr_right ?_
  cases v with
  | arr items =>
    rw [show schema.inner ⟨.packed tag, .arr items, location⟩ =
      Place.items tag.element location 0 items from rfl, Schema.finds_in_items]
    simp only [Json.arr.injEq, exists_eq_left', ← exists_or, ← and_or_left]
    refine exists_congr fun i => exists_congr fun item => and_congr_right fun hi => ?_
    rw [packed_item_located hl hd (parts item (List.mem_of_getElem? hi)), or_comm]
  | _ => simp [Schema.inner]

/-- In an enumeration, what is found is found at the value, or in each item of a set of flags. -/
theorem enum_located (h : source.Shares described live names shared classes enums)
    (complete : schema.Complete source described) (within : ∀ {e}, live e → described e)
    {owner name : String} {flags : Bool} (hw : (Kind.enum owner name flags).WellFormed source.hasClass)
    (hl : live (.enum (enumPath owner name))) :
    f ∈ (v.findings (Source.Shares.glossary shared schema.checker.enumNameOf)
        (.node ((Kind.enum owner name flags).node names))).map (Finding.beneath location) ↔
      schema.Finds ⟨.enum owner name flags, v, location⟩ f := by
  obtain ⟨key, members, hk, hlookup, hm⟩ := h.enum_lookup hw hl
  obtain ⟨e, he, hme, -⟩ := complete.enums hw (within hl)
  obtain rfl := Except.ok.inj (hm.symm.trans hme)
  rw [Kind.node, hk, Option.getD_some]
  cases flags with
  | false =>
    rw [if_neg (by decide), Schema.finds_of_leaf rfl, findings_member he hlookup]
    exact Iff.rfl
  | true =>
    rw [if_pos rfl]
    refine leaf_located rfl ?_
    rw [Glossary.inNode, Glossary.inItems_inside, Glossary.sized_none, List.append_nil, Schema.own]
    exact congrArg (_ ++ Finding.inEach · v) (funext (findings_member he hlookup))

/-- In an object, what is found is found at itself or in one of its declared fields. -/
theorem finds_object {kind : Kind} {declared : List (String × Kind)}
    (inner : ∀ fields, schema.inner ⟨kind, .obj fields, location⟩ = Place.fields location fields declared)
    (leaf : (∀ fields, v ≠ .obj fields) → schema.inner ⟨kind, v, location⟩ = []) :
    schema.Finds ⟨kind, v, location⟩ f ↔ f ∈ (schema.own v kind).map (Finding.beneath location) ∨
      ∃ fields, v = .obj fields ∧ ∃ inner ∈ Place.fields location fields declared,
        schema.Finds inner f := by
  rw [Schema.finds_iff]
  refine or_congr_right ?_
  by_cases hv : ∃ fields, v = .obj fields
  · obtain ⟨fields, rfl⟩ := hv
    rw [inner]
    simp only [Json.obj.injEq, exists_eq_left']
  · rw [leaf (not_exists.mp hv)]
    simp only [not_exists.mp hv, false_and, exists_false, List.not_mem_nil]

/-- What the definition of a struct finds is found at the place of the struct and below. -/
theorem struct_located {tag : StructTag}
    (hl : ∀ component ∈ tag.layout, ∀ e ∈ component.2.mentions, live e)
    (within : ∀ {e}, live e → described e)
    (parts : ∀ w ∈ v.parts, w.Located source described live names schema g) :
    f ∈ (g.inDefinition v (v.inside (·.findings g)) tag.definition).map (Finding.beneath location) ↔
      schema.Finds ⟨.struct tag, v, location⟩ f := by
  rw [tag.definition_eq names, object_located _ _ Prod.snd (fun _ _ => rfl)
    (fun _ => StructTag.wellFormed_layout _) hl (fun c hc e he => within (hl c hc e he)) parts]
  have inner : ∀ fields, schema.inner ⟨.struct tag, .obj fields, location⟩ =
      Place.fields location fields (tag.layout.map id) := fun _ => by
    rw [List.map_id]
    rfl
  refine (finds_object inner fun other => ?_).symm
  cases v with
  | obj fields => exact absurd rfl (other fields)
  | _ => rfl

/-- What the definition of a class finds is found at the place of the object and below. -/
theorem class_located {c : ClassDescriptor} (hc : describeClass source c.name = .ok c)
    (known : schema.class? c.name = some c)
    (hl : ∀ p ∈ c.properties, ∀ e ∈ p.kind.mentions, live e) (within : ∀ {e}, live e → described e)
    (parts : ∀ w ∈ v.parts, w.Located source described live names schema g) :
    f ∈ (g.inDefinition v (v.inside (·.findings g)) (c.definition names)).map (Finding.beneath location) ↔
      schema.Finds ⟨.object c.name, v, location⟩ f := by
  rw [ClassDescriptor.definition, object_located _ _ PropertyDescriptor.kind (fun _ _ => rfl)
    (wellFormed_of_describeClass hc) hl (fun p hp e he => within (hl p hp e he)) parts]
  have inner : ∀ fields, schema.inner ⟨.object c.name, .obj fields, location⟩ =
      Place.fields location fields c.declared := fun _ => by simp only [Schema.inner, known]
  have own : schema.own v (.object c.name) =
      Glossary.typed v "object" ++ Finding.keyed c.propertyNames v := by simp only [Schema.own, known]
  refine Iff.symm ((finds_object inner fun other => ?_).trans (own ▸ Iff.rfl))
  cases v with
  | obj fields => exact absurd rfl (other fields)
  | _ => rfl

/-- **A node locates what it finds**, if the parts of the value do. -/
theorem node_located (h : source.Shares described live names shared classes enums)
    (complete : schema.Complete source described) (within : ∀ {e}, live e → described e)
    (closed : ∀ {e other}, live e → source.Mentions e other → live other) {kind : Kind}
    (hw : kind.WellFormed source.hasClass) (hl : ∀ e ∈ kind.mentions, live e)
    (parts : ∀ w ∈ v.parts, w.Located source described live names schema
      (Source.Shares.glossary shared schema.checker.enumNameOf)) :
    f ∈ (v.findings (Source.Shares.glossary shared schema.checker.enumNameOf)
        (.node (kind.node names))).map (Finding.beneath location) ↔
      schema.Finds ⟨kind, v, location⟩ f := by
  cases kind with
  | boolean | integer | number | string => exact leaf_located rfl (List.append_nil _)
  | dictionary | anyArray length => exact leaf_located rfl rfl
  | array element length =>
    have known : element.WellFormed source.hasClass := hw
    have lives : ∀ e ∈ element.mentions, live e := hl
    rw [Json.findings_eq_inShape]
    refine array_located rfl fun items hv item hm location => ?_
    subst hv
    exact parts item hm (.node known lives) (fun e he => within (lives e he)) location f
  | packed tag => exact packed_located hl (fun e he => within (hl e he)) parts
  | enum owner name flags => exact enum_located h complete within hw (hl _ (List.mem_singleton.mpr rfl))
  -- What stands behind a reference is checked against the same value, so it has the same parts.
  | struct tag =>
    obtain ⟨key, definition, hk, hlookup, hd⟩ := h.lookup (hl _ (List.mem_singleton.mpr rfl))
    cases hk
    cases hd
    rw [Kind.node, findings_ref hlookup]
    exact struct_located (fun component hc e he =>
      closed (hl _ (List.mem_singleton.mpr rfl)) (.component hc he)) within parts
  | object className =>
    obtain ⟨key, definition, hk, hlookup, hd⟩ := h.lookup (hl _ (List.mem_singleton.mpr rfl))
    obtain ⟨c, known, describes⟩ := complete.classes (within (hl _ (List.mem_singleton.mpr rfl)))
    cases hk
    cases hd with
    | «class» hc =>
      obtain rfl := Except.ok.inj (describes.symm.trans hc)
      rw [Kind.node, findings_ref hlookup]
      exact class_located hc known (fun p hp e he =>
        closed (hl _ (List.mem_singleton.mpr rfl)) (.property hc hp he)) within parts

/-- **Every shape of a described kind locates what it finds.** -/
theorem shape_located (h : source.Shares described live names shared classes enums)
    (complete : schema.Complete source described) (within : ∀ {e}, live e → described e)
    (closed : ∀ {e other}, live e → source.Mentions e other → live other) (v : Json) :
    v.Located source described live names schema
      (Source.Shares.glossary shared schema.checker.enumNameOf) := by
  refine Json.inductionOnParts (P := (·.Located source described live names schema _)) v ?_
  intro v parts kind s hs hd location f
  cases hs with
  | node hw hl => exact node_located h complete within closed hw hl parts
  | inline hc hl =>
    obtain ⟨c, known, describes⟩ := complete.classes (hd _ (List.mem_singleton.mpr rfl))
    obtain rfl := Except.ok.inj (describes.symm.trans hc)
    rw [Json.findings_eq_inShape]
    exact class_located hc known hl within parts
  | @items element s hs =>
    rw [Json.findings_eq_inShape, Glossary.inShape, ← List.append_nil (_ ++ _)]
    refine array_located (by rw [Schema.own, Glossary.sized_none]) fun items hv item hm location => ?_
    subst hv
    exact parts item hm hs hd location f

end

/-! ## The main result -/

namespace Schema

/-- What is found at the wrapper of a bare kind. -/
def atWrapper (schema : Schema) (v : Json) : List Finding :=
  if schema.wrapped then Glossary.typed v "object" ++ Finding.keyed ["value"] v else []

variable {source : Source} {kind : Kind} {schema : Schema}

/-- At the wrapper, only a missing or a surplus name is found but for its form. -/
theorem mem_atWrapper_iff {v : Json} {f : Finding} (hf : f.violation.isOfForm = false) :
    f ∈ schema.atWrapper v ↔ schema.wrapped = true ∧ f ∈ Finding.keyed ["value"] v := by
  have typed : f ∉ Glossary.typed v "object" := fun h =>
    Bool.false_ne_true (hf ▸ Finding.isOfForm_of_mem_typed h)
  cases hw : schema.wrapped <;> simp [atWrapper, hw, typed]

/-- For the shape at the root, what is found is found at the wrapper or at the places below it. -/
theorem Presents.mem_findings_iff {names : String → Option String}
    {shared : List (String × Definition)} (h : schema.Presents source kind names shared) {s : Shape}
    (hs : schema.HasShape source (source.Live kind) names s) (v : Json) (f : Finding) :
    f ∈ v.findings (Source.Shares.glossary shared schema.checker.enumNameOf) s ↔
      f ∈ schema.atWrapper v ∨ ∃ root ∈ schema.roots v, schema.Finds root f := by
  have located : ∀ w : Json, w.Located source (source.Reaches kind) (source.Live kind) names schema
      (Source.Shares.glossary shared schema.checker.enumNameOf) :=
    shape_located h.shares h.complete Source.Live.reaches Source.Live.mentions
  have mentions : ∀ e ∈ schema.root.mentions, source.Reaches kind e :=
    fun e he => source.reaches_self (h.mentions ▸ he)
  have here : ∀ found : List Finding, found.map (Finding.beneath []) = found := fun found =>
    (List.map_congr_left fun f _ => f.beneath_nil).trans (List.map_id found)
  cases hs with
  | plain hw hs =>
    rw [atWrapper, roots, hw, if_neg (by decide), if_neg (by decide), ← here (v.findings _ s),
      located v hs mentions]
    simp
  | wrapped hw hk hl =>
    -- The wrapper is an object with the bare kind as its only property.
    let property : Kind → NodeProperty := fun root => ⟨"value", root.node names, none⟩
    have known : ∀ root ∈ [schema.root], root.WellFormed source.hasClass :=
      List.forall_mem_singleton.mpr hk
    have object := object_located [] property id (fun _ _ => rfl) known (List.forall_mem_singleton.mpr hl)
      (List.forall_mem_singleton.mpr mentions) (f := f) fun w (_ : w ∈ v.parts) => located w
    rw [Json.findings_eq_inShape, atWrapper, if_pos hw, roots, if_pos hw, ← here (Glossary.inShape ..),
      ← here (_ ++ _)]
    refine object.trans (or_congr_right ?_)
    cases v with
    | obj fields => simp [finds_in_fields, Json.field?, property]
    | _ => simp [Json.field?]

/-- **Findings have places.**  Where names are plain, a check against a schema that was built ends, and
it finds what is to be found at the wrapper and at the places that the root leads down to. -/
theorem Built.mem_raw_iff (h : schema.Built source kind) (plain : source.PlainNames) (v : Json) :
    ∃ found, schema.checker.raw v = .ok found ∧ ∀ f, f ∈ found ↔
      f ∈ schema.atWrapper v ∨ ∃ root ∈ schema.roots v, schema.Finds root f := by
  obtain ⟨names, shared, presents⟩ := h.presents
  obtain ⟨s, hs, hd⟩ := presents.shape
  exact ⟨_, presents.raw_of_shape (presents.describes plain) hs hd v, presents.mem_findings_iff hs v⟩

end Schema

end ReflectedSchema
