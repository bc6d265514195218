import ReflectedSchema.Proofs.Kinds.DecisionTable
import ReflectedSchema.Proofs.Registries.Names

/-!
# Types of properties

A registry tells the type of a property by a tag, a class name and usage bits, and the type of the items of a
list by one word.  Types without metadata fall into five sorts, in the order in which a registry asks: plain
types, lists with a type of items, classes that go by a name, enumerations, and types that it does not know.
For each sort there is one lemma about the kind of a property of the type, and one about the word for it.
-/

namespace ReflectedSchema

/-! ## Words -/

/-- A text names an enumeration of a known class: the name of the class, a dot, and the name of the
enumeration. -/
def IsEnumPath (known : String → Bool) (path owner name : String) : Prop :=
  (Text.split '.' path.toList).map String.ofList = [owner, name] ∧ owner ≠ "" ∧ name ≠ "" ∧
    known owner = true

variable {known : String → Bool} {word path owner name : String} {flags : Bool} {kind : Kind}

/-- Cutting a path at its dots finds the same owner and name as putting it together. -/
theorem isEnumPath_iff : IsEnumPath known path owner name ↔ NamesEnum known path owner name := by
  constructor
  · rintro ⟨parts, ho, hn, hk⟩
    obtain ⟨path_eq, hod, hnd⟩ := split_eq_iff.mp parts
    exact ⟨path_eq, ⟨ho, hod⟩, ⟨hn, hnd⟩, hk⟩
  · rintro ⟨path_eq, ⟨ho, hod⟩, ⟨hn, hnd⟩, hk⟩
    exact ⟨split_eq_iff.mpr ⟨path_eq, hod, hnd⟩, ho, hn, hk⟩

/-- The kind of an array whose items are told by a word. -/
def itemsKind? (known : String → Bool) (word : String) : Option Kind :=
  (resolve known { type := .array, hint := .arrayType, hintText := word }).toOption

/-- The empty word tells nothing of the items. -/
theorem itemsKind?_eq (known : String → Bool) (word : String) : itemsKind? known word =
    if word = "" then some (.anyArray none)
    else (resolveElement known word).toOption.map (.array · none) := by
  unfold itemsKind? resolve
  by_cases empty : word = ""
  · subst empty
    rfl
  · rw [if_neg empty]
    cases resolveElement known word <;> simp [empty, Except.map, Except.toOption]

/-- A path of an enumeration is resolved to it. -/
theorem resolveEnum_of_isEnumPath (h : IsEnumPath known path owner name) (flags : Bool) :
    (resolveEnum known path flags).toOption = some (.enum owner name flags) := by
  rw [resolveEnum_eq_ok_iff.mpr ⟨owner, name, isEnumPath_iff.mp h, rfl⟩]
  rfl

/-- What is resolved as an enumeration has its path. -/
theorem exists_of_resolveEnum (h : (resolveEnum known path flags).toOption = some kind) :
    ∃ owner name, IsEnumPath known path owner name ∧ kind = .enum owner name flags := by
  cases resolved : resolveEnum known path flags with
  | error u =>
    rw [resolved] at h
    cases h
  | ok kind' =>
    rw [resolved] at h
    cases h
    obtain ⟨owner, name, names, rfl⟩ := resolveEnum_eq_ok_iff.mp resolved
    exact ⟨owner, name, isEnumPath_iff.mpr names, rfl⟩

/-- Anything else is not resolved as one. -/
theorem resolveEnum_of_not_isEnumPath (h : ¬ ∃ owner name, IsEnumPath known path owner name)
    (flags : Bool) : (resolveEnum known path flags).toOption = none := by
  rw [Option.eq_none_iff_forall_ne_some]
  intro kind resolved
  obtain ⟨owner, name, named, -⟩ := exists_of_resolveEnum resolved
  exact h ⟨owner, name, named⟩

/-- An array has items of a kind exactly if there is a word and it is read as the kind. -/
theorem itemsKind?_eq_map_iff {kind? : Option Kind} : itemsKind? known word = kind?.map (.array · none) ↔
    word ≠ "" ∧ (resolveElement known word).toOption = kind? := by
  rw [itemsKind?_eq]
  by_cases empty : word = ""
  · rw [if_pos empty]
    cases kind? <;> simp [empty]
  · rw [if_neg empty]
    cases (resolveElement known word).toOption <;> cases kind? <;> simp [empty]

/-- No text without a dot names an enumeration. -/
theorem resolveEnum_of_not_mem (h : '.' ∉ path.toList) : (resolveEnum known path flags).toOption = none := by
  unfold resolveEnum
  rw [Text.split_of_not_mem h]
  rfl

/-- A primitive word is resolved first. -/
theorem resolveElement_primitive (h : primitiveHint? word = some kind) :
    resolveElement known word = .ok kind := by
  unfold resolveElement
  rw [h]

/-- The name of a class is resolved next. -/
theorem resolveElement_class (primitive : primitiveHint? word = none) (h : known word = true) :
    resolveElement known word = .ok (.object word) := by
  unfold resolveElement
  rw [primitive]
  exact if_pos h

/-- Last, a word is resolved as the path of an enumeration without flags. -/
theorem resolveElement_enum (primitive : primitiveHint? word = none) (h : known word = false) :
    (resolveElement known word).toOption = (resolveEnum known word false).toOption := by
  unfold resolveElement
  rw [primitive, h]
  by_cases dot : '.' ∈ word.toList
  · rw [if_neg Bool.false_ne_true, if_pos (List.contains_iff_mem.mpr dot)]
  · rw [if_neg Bool.false_ne_true, if_neg fun found => dot (List.contains_iff_mem.mp found),
      resolveEnum_of_not_mem dot]
    rfl

/-- A word is read as a primitive word, then as the name of a class, and last as the path of an enumeration. -/
theorem resolveElement_cases (h : (resolveElement known word).toOption = some kind) :
    primitiveHint? word = some kind ∨ kind = .object word ∨
      known word = false ∧ ∃ owner name, IsEnumPath known word owner name ∧ kind = .enum owner name false := by
  cases primitive : primitiveHint? word with
  | some kind' =>
    rw [resolveElement_primitive primitive] at h
    exact .inl h
  | none =>
    cases class? : known word with
    | true =>
      rw [resolveElement_class primitive class?] at h
      exact .inr (.inl (Option.some.inj h).symm)
    | false =>
      rw [resolveElement_enum primitive class?] at h
      exact .inr (.inr ⟨rfl, exists_of_resolveEnum h⟩)

/-- The primitive words name no class and no enumeration. -/
theorem primitiveHint?_isPlain (h : primitiveHint? word = some kind) :
    (∀ className, kind ≠ .object className) ∧ ∀ owner name flags, kind ≠ .enum owner name flags := by
  cases Kind.isBuiltIn_of_mem_named (primitiveHint?_eq_some_iff.mp h)
  all_goals exact ⟨fun _ => nofun, fun _ _ _ => nofun⟩

namespace Annotated

/-- The type of the items of a list type that has one, in either spelling. -/
def Form.item? : Form → Option Form
  | .generic "list" (item :: _) | .alias "List" (item :: _) => some item
  | _ => none

namespace Registry

/-- The kind of a property with a type. -/
def kind? (r : Registry) (type : Form) : Option Kind :=
  (resolve r.source.hasClass (r.propertyInfo "" type)).toOption

/-- The sort of a type without metadata. -/
inductive Sorted (r : Registry) (type : Form) : Prop
  | plain (tag : TypeTag) (h : scalar? type = some tag)
  | list (item : Form) (h : type.item? = some item)
  | class (name : String) (h : r.className? type = some name)
  | enum (flags : Bool) (path : String) (unnamed : r.className? type = none)
      (h : r.enumType? type = some (flags, path))
  | unknown (plain : scalar? type = none) (list : type.item? = none)
      (unnamed : r.className? type = none) (enum : r.enumType? type = none)

/-- Every type has a sort, in the order in which they are asked for. -/
theorem sorted (r : Registry) (type : Form) : r.Sorted type := by
  cases hs : scalar? type with
  | some tag => exact .plain tag hs
  | none =>
    cases hl : type.item? with
    | some item => exact .list item hl
    | none =>
      cases hc : r.className? type with
      | some name => exact .class name hc
      | none =>
        cases he : r.enumType? type with
        | some e => exact .enum e.1 e.2 hc he
        | none => exact .unknown hs hl hc he

variable {r : Registry} {type item : Form} {tag : TypeTag} {name className path : String} {flags : Bool}

/-! ## Sorts are apart -/

/-- A list type is no plain type. -/
theorem scalar?_of_item? (h : type.item? = some item) : scalar? type = none := by
  unfold Form.item? at h
  split at h
  · rfl
  · rfl
  · cases h

/-- A type with the name of a class is the declaration that is registered so. -/
theorem exists_declared_of_className? (h : r.className? type = some name) :
    ∃ number, type = .atom (.declared number) ∧ r.name? number = some name := by
  unfold className? at h
  split at h
  · exact ⟨_, rfl, h⟩
  · cases h

/-- A registered class is no plain type. -/
theorem scalar?_of_className? (h : r.className? type = some name) : scalar? type = none := by
  obtain ⟨number, rfl, -⟩ := exists_declared_of_className? h
  rfl

/-- Nor is it a list type. -/
theorem item?_of_className? (h : r.className? type = some name) : type.item? = none := by
  obtain ⟨number, rfl, -⟩ := exists_declared_of_className? h
  rfl

/-- An enumeration is a base of enumerations or declared in the program. -/
theorem exists_atom_of_enumType? (h : r.enumType? type = some (flags, path)) :
    (∃ base, type = .atom (.enumBase base)) ∨ ∃ number, type = .atom (.declared number) := by
  unfold enumType? at h
  split at h
  · exact .inl ⟨_, rfl⟩
  · exact .inl ⟨_, rfl⟩
  · exact .inr ⟨_, rfl⟩
  · cases h

/-- An enumeration is no plain type. -/
theorem scalar?_of_enumType? (h : r.enumType? type = some (flags, path)) : scalar? type = none := by
  obtain ⟨base, rfl⟩ | ⟨number, rfl⟩ := exists_atom_of_enumType? h <;> rfl

/-- Nor is it a list type. -/
theorem item?_of_enumType? (h : r.enumType? type = some (flags, path)) : type.item? = none := by
  obtain ⟨base, rfl⟩ | ⟨number, rfl⟩ := exists_atom_of_enumType? h <;> rfl

/-! ## Properties -/

/-- A property of a plain type has its tag. -/
theorem propertyInfo_plain (h : scalar? type.withoutMetadata.1 = some tag) :
    r.propertyInfo name type = { name, type := tag, description := type.withoutMetadata.2 } := by
  unfold propertyInfo
  dsimp only
  rw [h]

/-- A property of a list type is an array with a word for the items. -/
theorem propertyInfo_list (h : type.withoutMetadata.1.item? = some item) : r.propertyInfo name type =
    { name, type := .array, hint := .arrayType, hintText := r.elementHint item,
      description := type.withoutMetadata.2 } := by
  unfold propertyInfo
  dsimp only
  generalize type.withoutMetadata.1 = bare at h
  unfold Form.item? at h
  split at h <;> cases h <;> rfl

/-- Any other property is told by the class or the enumeration of its type. -/
theorem propertyInfo_of_not_plain (plain : scalar? type.withoutMetadata.1 = none)
    (list : type.withoutMetadata.1.item? = none) : r.propertyInfo name type =
      match r.className? type.withoutMetadata.1, r.enumType? type.withoutMetadata.1 with
      | some className, _ => { name, type := .object, className, description := type.withoutMetadata.2 }
      | none, some (flags, path) => {
          name, type := .int, className := path, description := type.withoutMetadata.2
          usage := if flags then .classIsBitfield else .classIsEnum }
      | none, none => {
          name, type := .nil, className := type.withoutMetadata.1.typeName r.program
          description := type.withoutMetadata.2 } := by
  unfold propertyInfo
  dsimp only
  generalize type.withoutMetadata.1 = bare at *
  split
  next isPlain => cases plain.symm.trans isPlain
  next => cases list
  next => cases list
  next => rfl

/-! ## Words for items -/

/-- A list inside a list is told by the word for arrays. -/
theorem elementHint_list (h : type.withoutMetadata.1.item? = some item) : r.elementHint type = "Array" := by
  unfold elementHint
  dsimp only
  generalize type.withoutMetadata.1 = bare at h
  unfold Form.item? at h
  split at h <;> cases h <;> rfl

/-- The word for a type that is neither plain nor a list is the name of the class, the path of the
enumeration, or the short name of the type. -/
theorem elementHint_of_not_plain (plain : scalar? type.withoutMetadata.1 = none)
    (list : type.withoutMetadata.1.item? = none) : r.elementHint type =
      match r.className? type.withoutMetadata.1, r.enumType? type.withoutMetadata.1 with
      | some name, _ => name
      | none, some (_, path) => path
      | none, none => type.withoutMetadata.1.typeName r.program := by
  unfold elementHint
  dsimp only
  generalize type.withoutMetadata.1 = bare at *
  rw [plain]
  -- Without a tag, no word of a plain type is left.
  split <;> try contradiction
  next =>
    cases ‹List Form› with
    | nil => cases plain
    | cons item more => cases list
  next =>
    cases ‹List Form› with
    | nil => cases plain
    | cons item more => cases list
  next => rfl

/-- The word for a plain type names its kind. -/
theorem elementHint_plain (h : scalar? type.withoutMetadata.1 = some tag) (known : String → Bool) :
    ∃ kind, resolve known { type := tag } = .ok kind ∧ r.elementHint type ≠ "" ∧
      primitiveHint? (r.elementHint type) = some kind := by
  unfold elementHint
  dsimp only
  generalize type.withoutMetadata.1 = bare at *
  rw [h]
  unfold scalar? at h
  split at h <;> cases h
  all_goals dsimp only
  case h_15.refl tag => cases tag <;> exact ⟨_, rfl, by decide, by decide⟩
  all_goals exact ⟨_, rfl, by decide, by decide⟩

/-- The word for a class is its name. -/
theorem elementHint_class (h : r.className? type.withoutMetadata.1 = some className) :
    r.elementHint type = className := by
  rw [elementHint_of_not_plain (scalar?_of_className? h) (item?_of_className? h), h]

/-- The word for an enumeration is its path. -/
theorem elementHint_enum (unnamed : r.className? type.withoutMetadata.1 = none)
    (h : r.enumType? type.withoutMetadata.1 = some (flags, path)) : r.elementHint type = path := by
  rw [elementHint_of_not_plain (scalar?_of_enumType? h) (item?_of_enumType? h), unnamed, h]

/-- The word for a type that a registry does not know is its short name. -/
theorem elementHint_unknown (plain : scalar? type.withoutMetadata.1 = none)
    (list : type.withoutMetadata.1.item? = none) (unnamed : r.className? type.withoutMetadata.1 = none)
    (enum : r.enumType? type.withoutMetadata.1 = none) :
    r.elementHint type = type.withoutMetadata.1.typeName r.program := by
  rw [elementHint_of_not_plain plain list, unnamed, enum]

/-! ## Kinds -/

/-- A plain type has the kind of its tag. -/
theorem kind?_plain (h : scalar? type.withoutMetadata.1 = some tag) :
    r.kind? type = (resolve r.source.hasClass { type := tag }).toOption := by
  rw [kind?, propertyInfo_plain h]
  cases tag <;> rfl

/-- A list type has the kind that the word for its items tells. -/
theorem kind?_list (h : type.withoutMetadata.1.item? = some item) :
    r.kind? type = itemsKind? r.source.hasClass (r.elementHint item) := by
  rw [kind?, propertyInfo_list h]
  rfl

/-- A registered class has its own kind, if its name can be found. -/
theorem kind?_class (h : r.className? type.withoutMetadata.1 = some className) :
    r.kind? type =
      if className ≠ "" ∧ r.source.hasClass className then some (.object className) else none := by
  rw [kind?, propertyInfo_of_not_plain (scalar?_of_className? h) (item?_of_className? h), h]
  unfold resolve resolveObject
  dsimp only
  by_cases empty : className = ""
  · subst empty
    rfl
  · by_cases known : r.source.hasClass className = true <;> simp [empty, known, Except.toOption]

/-- An enumeration has the kind that its path is resolved to. -/
theorem kind?_enum (unnamed : r.className? type.withoutMetadata.1 = none)
    (h : r.enumType? type.withoutMetadata.1 = some (flags, path)) :
    r.kind? type = (resolveEnum r.source.hasClass path flags).toOption := by
  have marked : (if flags then Usage.classIsBitfield else .classIsEnum).hasEnum ||
      (if flags then Usage.classIsBitfield else .classIsEnum).hasBitfield := by cases flags <;> rfl
  have bitfield : (if flags then Usage.classIsBitfield else .classIsEnum).hasBitfield = flags := by
    cases flags <;> rfl
  rw [kind?, propertyInfo_of_not_plain (scalar?_of_enumType? h) (item?_of_enumType? h), unnamed, h]
  unfold resolve
  dsimp only
  rw [if_pos marked, bitfield]

/-- Any other type has no kind. -/
theorem kind?_unknown (plain : scalar? type.withoutMetadata.1 = none)
    (list : type.withoutMetadata.1.item? = none) (unnamed : r.className? type.withoutMetadata.1 = none)
    (enum : r.enumType? type.withoutMetadata.1 = none) : r.kind? type = none := by
  rw [kind?, propertyInfo_of_not_plain plain list, unnamed, enum]
  rfl

/-- Apart from its name, a property is told by its type alone. -/
theorem propertyInfo_eq (r : Registry) (name : String) (type : Form) :
    r.propertyInfo name type = { r.propertyInfo "" type with name } := by
  unfold propertyInfo
  dsimp only
  generalize type.withoutMetadata.1 = bare
  split
  · rfl
  · rfl
  · rfl
  · split <;> rfl

/-- The name of a property does not matter to its kind. -/
theorem resolve_propertyInfo (r : Registry) (name : String) (type : Form) :
    (resolve r.source.hasClass (r.propertyInfo name type)).toOption = r.kind? type := by
  rw [kind?, propertyInfo_eq]
  rfl

/-! ## Registered classes -/

/-- A source has the classes that are registered. -/
theorem hasClass_iff {r : Registry} {name : String} :
    r.source.hasClass name = true ↔ ∃ number, r.class? name = .ok number := by
  have listed : r.source.hasClass name = true ↔ name ∈ r.classes.map (·.1) := List.contains_iff_mem
  have absent := Json.lookup_eq_none_iff name r.classes
  rw [listed, class?]
  cases found : Json.lookup name r.classes with
  | none =>
    refine iff_of_false (absent.mp found) ?_
    rintro ⟨_, h⟩
    cases h
  | some number =>
    refine iff_of_true (not_not.mp fun missing => ?_) ⟨number, rfl⟩
    rw [absent.mpr missing] at found
    cases found

/-- What is listed for a class are its annotations, each with its name and by its type. -/
theorem properties_eq_ok {r : Registry} {name : String} {infos : List PropertyInfo}
    (h : r.properties name = .ok infos) : ∃ number types, r.class? name = .ok number ∧
      r.annotatedProperties number = .ok types ∧
      infos = types.map fun (property, type) => r.propertyInfo property type := by
  unfold properties at h
  cases known : r.class? name with
  | error e =>
    rw [known] at h
    cases h
  | ok number =>
    rw [known] at h
    cases annotated : r.annotatedProperties number with
    | error e =>
      simp only [bind, Except.bind, annotated] at h
      cases h
    | ok types =>
      simp only [bind, Except.bind, annotated] at h
      cases h
      exact ⟨number, types, rfl, annotated, rfl⟩

end Registry

/-- **A class that goes by a name is the class with the name**, after any run of registrations. -/
theorem Program.class?_of_name? {p : Program} {run : List Registration} {number : Nat} {name : String}
    (h : (p.registry run).name? number = some name) : (p.registry run).class? name = .ok number := by
  have records := p.registry_records run
  obtain ⟨given, keeps⟩ := (records.names number name).mp h
  rw [Registry.class?, records.classes, History.holder?_of_lastName? given keeps]

end Annotated

end ReflectedSchema
