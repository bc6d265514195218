import ReflectedSchema.Proofs.Registries.Types

/-!
# Types of items

A property with a type and a property with a list of the type are told in different ways.  The type of a
property is told by a tag, a class name and usage bits, and that of the items by one word, which is read as a
primitive word before it is read as the name of a class, and only then as the path of an enumeration.  Words
mean less: they do not tell that an enumeration is a set of flags, the items of lists of lists are not told
at all, and the short name of a type that is not known may be the name of something else.

`items_resolve_as_bare_iff` says for every type whether items of it resolve as it does: they do unless its
word is misread.
-/

namespace ReflectedSchema.Annotated.Registry

/-- A word is read before it is looked at as the path of an enumeration: it is empty, a primitive word or the
name of a class. -/
def IsTaken (r : Registry) (word : String) : Prop :=
  word = "" ∨ (primitiveHint? word).isSome ∨ r.source.hasClass word = true

/-- The word for a type of items, which is without metadata, does not mean the type. -/
def Misread (r : Registry) (type : Form) : Prop :=
  match scalar? type, type.item?, r.className? type, r.enumType? type with
  | some _, _, _, _ => False
  | none, some item, _, _ => r.elementHint item ≠ ""
  | none, none, some name, _ => name = "" ∨ (primitiveHint? name).isSome
  | none, none, none, some (flags, path) =>
    r.IsTaken path ∨ flags = true ∧ ∃ owner name, IsEnumPath r.source.hasClass path owner name
  | none, none, none, none =>
    let word := type.typeName r.program
    r.IsTaken word ∨ ∃ owner name, IsEnumPath r.source.hasClass word owner name

variable {r : Registry} {type item : Form} {tag : TypeTag} {name path word : String} {flags : Bool}

/-- A word that is read before it is looked at as a path is no enumeration. -/
theorem resolveElement_taken (taken : r.IsTaken word) (told : word ≠ "") :
    ∃ kind, resolveElement r.source.hasClass word = .ok kind ∧
      ∀ owner name flags, kind ≠ .enum owner name flags := by
  cases primitive : primitiveHint? word with
  | some kind => exact ⟨kind, resolveElement_primitive primitive, (primitiveHint?_isPlain primitive).2⟩
  | none =>
    obtain empty | given | known := taken
    · exact absurd empty told
    · rw [primitive] at given
      cases given
    · exact ⟨.object word, resolveElement_class primitive known, fun _ _ _ => nofun⟩

/-- Any other word is looked at as the path of an enumeration without flags. -/
theorem resolveElement_of_not_taken (free : ¬ r.IsTaken word) :
    word ≠ "" ∧ (resolveElement r.source.hasClass word).toOption =
      (resolveEnum r.source.hasClass word false).toOption := by
  obtain ⟨told, free⟩ := not_or.mp free
  obtain ⟨primitive, unknown⟩ := not_or.mp free
  exact ⟨told, resolveElement_enum (Option.not_isSome_iff_eq_none.mp primitive)
    (Bool.eq_false_iff.mpr unknown)⟩

/-- Items of a plain type are told by a primitive word for it. -/
theorem items_of_plain (h : scalar? type.withoutMetadata.1 = some tag) :
    itemsKind? r.source.hasClass (r.elementHint type) = (r.kind? type).map (.array · none) := by
  obtain ⟨kind, resolved, told, named⟩ := elementHint_plain h r.source.hasClass
  rw [itemsKind?_eq_map_iff, kind?_plain h, resolved, resolveElement_primitive named]
  exact ⟨told, rfl⟩

/-- Items of a list type are told only if nothing is told of its own items. -/
theorem items_of_list_iff (h : type.withoutMetadata.1.item? = some item) :
    itemsKind? r.source.hasClass (r.elementHint type) = (r.kind? type).map (.array · none) ↔
      r.elementHint item = "" := by
  have array : primitiveHint? "Array" = some (.anyArray none) := rfl
  rw [itemsKind?_eq_map_iff, kind?_list h, elementHint_list h, resolveElement_primitive array,
    itemsKind?_eq]
  by_cases empty : r.elementHint item = ""
  · simp [empty, Except.toOption]
  · cases resolveElement r.source.hasClass (r.elementHint item) <;> simp [empty, Except.toOption]

/-- Items of a registered class are told by its name, unless that is empty or a primitive word. -/
theorem items_of_class_iff (h : r.className? type.withoutMetadata.1 = some name)
    (known : r.source.hasClass name = true) :
    itemsKind? r.source.hasClass (r.elementHint type) = (r.kind? type).map (.array · none) ↔
      ¬ (name = "" ∨ (primitiveHint? name).isSome) := by
  rw [itemsKind?_eq_map_iff, kind?_class h, elementHint_class h, not_or]
  refine and_congr_right fun told => ?_
  rw [if_pos ⟨told, known⟩]
  cases primitive : primitiveHint? name with
  | none => simp [resolveElement_class primitive known, Except.toOption]
  | some kind =>
    have plain := (primitiveHint?_isPlain primitive).1 name
    simp [resolveElement_primitive primitive, Except.toOption, plain]

/-- Items of an enumeration are told by its path, unless that is taken for something else, or flags are
lost. -/
theorem items_of_enum_iff (unnamed : r.className? type.withoutMetadata.1 = none)
    (h : r.enumType? type.withoutMetadata.1 = some (flags, path)) :
    itemsKind? r.source.hasClass (r.elementHint type) = (r.kind? type).map (.array · none) ↔
      ¬ (r.IsTaken path ∨ flags = true ∧ ∃ owner name, IsEnumPath r.source.hasClass path owner name) := by
  rw [itemsKind?_eq_map_iff, kind?_enum unnamed h, elementHint_enum unnamed h]
  by_cases named : ∃ owner name, IsEnumPath r.source.hasClass path owner name
  · obtain ⟨owner, name, isPath⟩ := named
    rw [resolveEnum_of_isEnumPath isPath]
    by_cases taken : r.IsTaken path
    · refine iff_of_false (fun ⟨told, read⟩ => ?_) fun free => free (.inl taken)
      obtain ⟨kind, resolved, other⟩ := resolveElement_taken taken told
      rw [resolved] at read
      exact other owner name flags (Option.some.inj read)
    · obtain ⟨told, read⟩ := resolveElement_of_not_taken taken
      rw [read, resolveEnum_of_isEnumPath isPath]
      have some_path : ∃ owner name, IsEnumPath r.source.hasClass path owner name := ⟨owner, name, isPath⟩
      cases flags <;> simp [told, taken, some_path]
  · rw [resolveEnum_of_not_isEnumPath named]
    by_cases taken : r.IsTaken path
    · refine iff_of_false (fun ⟨told, read⟩ => ?_) fun free => free (.inl taken)
      obtain ⟨kind, resolved, -⟩ := resolveElement_taken taken told
      rw [resolved] at read
      cases read
    · obtain ⟨told, read⟩ := resolveElement_of_not_taken taken
      rw [read, resolveEnum_of_not_isEnumPath named]
      simp [told, taken, named]

/-- Items of any other type have no kind, unless the short name of the type is taken for something else. -/
theorem items_of_unknown_iff (plain : scalar? type.withoutMetadata.1 = none)
    (list : type.withoutMetadata.1.item? = none) (unnamed : r.className? type.withoutMetadata.1 = none)
    (enum : r.enumType? type.withoutMetadata.1 = none) :
    itemsKind? r.source.hasClass (r.elementHint type) = (r.kind? type).map (.array · none) ↔
      ¬ (r.IsTaken (type.withoutMetadata.1.typeName r.program) ∨ ∃ owner name,
        IsEnumPath r.source.hasClass (type.withoutMetadata.1.typeName r.program) owner name) := by
  rw [itemsKind?_eq_map_iff, kind?_unknown plain list unnamed enum,
    elementHint_unknown plain list unnamed enum]
  generalize type.withoutMetadata.1.typeName r.program = word
  by_cases taken : r.IsTaken word
  · refine iff_of_false (fun ⟨told, read⟩ => ?_) fun free => free (.inl taken)
    obtain ⟨kind, resolved, -⟩ := resolveElement_taken taken told
    rw [resolved] at read
    cases read
  · obtain ⟨told, read⟩ := resolveElement_of_not_taken taken
    rw [read]
    by_cases named : ∃ owner name, IsEnumPath r.source.hasClass word owner name
    · obtain ⟨owner, name, isPath⟩ := named
      rw [resolveEnum_of_isEnumPath isPath]
      exact iff_of_false (fun h => nomatch h.2) fun free => free (.inr ⟨owner, name, isPath⟩)
    · rw [resolveEnum_of_not_isEnumPath named]
      exact iff_of_true ⟨told, rfl⟩ (not_or.mpr ⟨taken, named⟩)

/-! ## The main result -/

/-- **Items resolve as what they are**, unless the word for them is misread.  After any run of registrations
and for every type, a list of the type, in either spelling, resolves exactly if the type does, and then to an
array of its kind, or else the word for the type does not mean the type. -/
theorem items_resolve_as_bare_iff (p : Program) (run : List Registration) (type : Form) :
    (p.registry run).kind? (.alias "List" [type]) = (p.registry run).kind? (.generic "list" [type]) ∧
      ((p.registry run).kind? (.generic "list" [type]) =
          ((p.registry run).kind? type).map (.array · none) ↔
        ¬ (p.registry run).Misread type.withoutMetadata.1) := by
  refine ⟨rfl, ?_⟩
  generalize registry : p.registry run = r
  have items : r.kind? (.generic "list" [type]) = itemsKind? r.source.hasClass (r.elementHint type) :=
    kind?_list rfl
  rw [items]
  unfold Misread
  rcases r.sorted type.withoutMetadata.1 with
    ⟨tag, h⟩ | ⟨item, h⟩ | ⟨name, h⟩ | ⟨flags, path, unnamed, h⟩ | ⟨plain, list, unnamed, enum⟩
  · rw [h]
    exact iff_of_true (items_of_plain h) not_false
  · rw [items_of_list_iff h, scalar?_of_item? h, h]
    exact not_not.symm
  · obtain ⟨number, -, named⟩ := exists_declared_of_className? h
    have known : r.source.hasClass name = true := by
      subst registry
      exact hasClass_iff.mpr ⟨number, Program.class?_of_name? named⟩
    rw [items_of_class_iff h known, scalar?_of_className? h, item?_of_className? h, h]
  · rw [items_of_enum_iff unnamed h, scalar?_of_enumType? h, item?_of_enumType? h, unnamed, h]
  · rw [items_of_unknown_iff plain list unnamed enum, plain, list, unnamed, enum]

/-- Employees with the permissions that they have and all that they ever had. -/
def office : Program :=
  .ofItems "office" "structs" [
    .class "Employee" [] [
      .enum "Permission" .flags [("READ", 1), ("WRITE", 2)],
      .property "permissions" (.name "Permission" []),
      .property "history" (.apply (.name "list" []) [.name "Permission" []])]]

/-- Sets of flags are single members of an enumeration when they are items. -/
theorem flags_are_lost_in_lists : ∃ infos,
    (office.registry [⟨1, none⟩]).properties "Employee" = .ok infos ∧
      infos.map (fun info => (resolve (office.registry [⟨1, none⟩]).source.hasClass info).toOption) =
        [some (.enum "Employee" "Permission" true),
          some (.array (.enum "Employee" "Permission" false) none)] :=
  ⟨_, rfl, rfl⟩

end ReflectedSchema.Annotated.Registry
