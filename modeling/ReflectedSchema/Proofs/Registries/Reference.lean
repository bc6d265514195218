import ReflectedSchema.Proofs.Programs.Mentions
import ReflectedSchema.Proofs.Registries.Types

/-!
# What the names in kinds stand for

A kind references a class by a name, and an enumeration by the name of a class and that of an attribute.  A
registry writes the name by which a class goes, and for an enumeration the name by which the class around it
goes, which it finds by its module and its qualified name.  Such names lead back to the class or the
enumeration of the annotation, by the maps of the registry and the attributes of classes.

Where a class goes by no name, another is borrowed: the qualified name of the class around an enumeration, and
for the items of lists the path of an enumeration or the short name of a type.  A borrowed name may belong to
something else.  `resolved_names_lead_back` says that nothing but a borrowed name leads astray.
-/

namespace ReflectedSchema.Annotated

/-- A result that is there is the result. -/
theorem ok_of_toOption {ε α : Type} {x : Except ε α} {a : α} (h : x.toOption = some a) : x = .ok a := by
  cases x with
  | error e => cases h
  | ok b => exact congrArg Except.ok (Option.some.inj h)

/-! ## Qualified names -/

/-- The qualified name of the class around a declaration, empty for outermost ones. -/
def Declared.outer (d : Declared) : String :=
  String.ofList (d.qualifiedName.toList.take (d.qualifiedName.length - d.name.length - 1))

/-- What is declared inside a class is told by the qualified name in front of its own. -/
theorem Declared.outer_eq {d : Declared} {owner : String} (h : d.qualifiedName = owner ++ "." ++ d.name) :
    d.outer = owner := by
  have length : d.qualifiedName.length - d.name.length - 1 = owner.length := by
    rw [h, String.length_append, String.length_append]
    show owner.length + 1 + d.name.length - d.name.length - 1 = owner.length
    omega
  rw [outer, length, h, String.toList_append, String.toList_append, List.append_assoc,
    ← String.length_toList, List.take_left, String.ofList_toList]

/-- What is declared outside of classes has nothing in front of its name. -/
theorem Declared.outer_eq_empty {d : Declared} (h : d.qualifiedName = d.name) : d.outer = "" := by
  rw [outer, h, Nat.sub_self]
  rfl

/-- Declarations are known by their modules and qualified names if these are distinct. -/
theorem Program.number_eq {p : Program} (distinct : (p.types.map (·.place)).Nodup)
    {number other : Nat} {d e : Declared} (hd : p.type? number = some d) (he : p.type? other = some e)
    (same : d.place = e.place) : number = other := by
  have places {k : Nat} {c : Declared} (known : p.type? k = some c) :
      (p.types.map (·.place))[k]? = some c.place := by
    rw [List.getElem?_map, show p.types[k]? = some c from known]
    rfl
  obtain ⟨inside, -⟩ := List.getElem?_eq_some_iff.mp (places hd)
  exact (List.getElem?_inj inside distinct).mp ((places hd).trans (same ▸ (places he).symm))

/-- The members that are listed for an enumeration of integers or of flags. -/
def Program.listing? (p : Program) (number : Nat) : Option (List (String × EnumValue)) :=
  match p.type? number with
  | some { name, body := .enum .int members, .. } =>
    some ((Registry.listedMembers .int members).map fun (n, v) => (n, .member name n v))
  | some { name, body := .enum .flags members, .. } =>
    some ((Registry.listedMembers .flags members).map fun (n, v) => (n, .flags name v))
  | _ => none

namespace Registry

/-- No class stands twice among the names, whatever a registration takes away or gives. -/
theorem nodup_names_perform {r : Registry} (h : (r.names.map (·.1)).Nodup) (x : Registration) :
    ((r.perform x).names.map (·.1)).Nodup := by
  unfold perform register
  extract_lets own wanted registered
  split_ifs
  · exact h
  · refine Json.nodup_keys_set _ _ ?_
    split
    · split_ifs
      · exact h
      · exact h.sublist (List.filter_sublist.map _)
    · exact h

end Registry

/-- No class has two last names. -/
theorem Program.nodup_names (p : Program) (run : List Registration) :
    ((p.registry run).names.map (·.1)).Nodup := by
  induction run using List.reverseRecOn with
  | nil => exact List.nodup_nil
  | append_singleton run x ih =>
    rw [registry_concat]
    exact Registry.nodup_names_perform ih x

namespace Registry

variable {r : Registry} {type : Form} {kind : Kind} {number : Nat} {d : Declared}
  {owner name path word : String} {flags : Bool}

/-- What is listed under a name is the enumeration that the class has as the attribute. -/
theorem members_eq_ok {listing : List (String × EnumValue)} {class' : Nat} (known : r.class? owner = .ok class')
    (entered : r.program.attribute? class' name = some (.type number))
    (listed : r.program.listing? number = some listing) : r.members owner name = .ok listing := by
  unfold Program.listing? at listed
  unfold members
  rw [known]
  simp only [bind, Except.bind, entered]
  split at listed
  · rename_i found
    rw [found]
    exact congrArg Except.ok (Option.some.inj listed)
  · rename_i found
    rw [found]
    exact congrArg Except.ok (Option.some.inj listed)
  · cases listed

/-! ## Names that lead back -/

/-- The names in a kind lead back to a type: the class of the name is the type, or the enumeration of the
names is, and it has the members of the type. -/
def Denotes (r : Registry) (type : Form) : Kind → Prop
  | .object name => ∃ number, type = .atom (.declared number) ∧ r.class? name = .ok number
  | .enum owner name _ => ∃ number class' listing, type = .atom (.declared number) ∧
      r.class? owner = .ok class' ∧ r.program.attribute? class' name = some (.type number) ∧
      r.program.listing? number = some listing ∧ r.members owner name = .ok listing
  | _ => True

/-- The class around a declaration goes by a name. -/
def OwnerNamed (r : Registry) (d : Declared) : Prop :=
  d.outer ≠ "" ∧ ∃ class' name, r.name? class' = some name ∧
    (r.program.type? class').map (·.place) = some (d.module, d.outer)

/-- The class around an enumeration goes by no name, and its qualified name is borrowed. -/
inductive OwnerBorrowed (r : Registry) (type : Form) : Kind → Prop
  | enum {number : Nat} {d : Declared} {owner name : String} {flags : Bool}
      (declared : type = .atom (.declared number)) (known : r.program.type? number = some d)
      (unnamed : ¬ r.OwnerNamed d) (path : IsEnumPath r.source.hasClass (r.enumPath d) owner name) :
      OwnerBorrowed r type (.enum owner name flags)

/-- The word for a type of items is borrowed. -/
inductive WordBorrowed (r : Registry) (type : Form) : Kind → Prop
  | owner {kind : Kind} (h : r.OwnerBorrowed type kind) : WordBorrowed r type kind
  /-- The path of an enumeration is the name of a class. -/
  | path {flags : Bool} {path : String} (unnamed : r.className? type = none)
      (enum : r.enumType? type = some (flags, path)) : WordBorrowed r type (.object path)
  /-- The short name of a type that is not known is the name of a class. -/
  | shortName (unnamed : r.className? type = none) (unknown : r.enumType? type = none) :
      WordBorrowed r type (.object (type.typeName r.program))
  /-- The short name of a type that is not known is the path of an enumeration. -/
  | shortPath {owner name : String} (unnamed : r.className? type = none)
      (unknown : r.enumType? type = none)
      (path : IsEnumPath r.source.hasClass (type.typeName r.program) owner name) :
      WordBorrowed r type (.enum owner name false)

/-! ## Paths of enumerations -/

/-- A path of two names that are joined by a dot has no other names. -/
theorem isEnumPath_joined {known : String → Bool} {front last : String}
    (h : IsEnumPath known (ReflectedSchema.enumPath front last) owner name) : owner = front ∧ name = last := by
  obtain ⟨parts, -⟩ := h
  have joined : (ReflectedSchema.enumPath front last).toList = front.toList ++ '.' :: last.toList := by
    simp [ReflectedSchema.enumPath]
  have dots := Text.length_split '.' (ReflectedSchema.enumPath front last).toList
  rw [← List.length_map (f := String.ofList), parts, joined, List.count_append, List.count_cons_self] at dots
  have inFront : '.' ∉ front.toList := List.count_eq_zero.mp (by simp at dots; omega)
  have inLast : '.' ∉ last.toList := List.count_eq_zero.mp (by simp at dots; omega)
  rw [joined, Text.split_append_cons inFront, Text.split_of_not_mem inLast] at parts
  simpa using parts.symm

/-- The path of an enumeration whose class goes by a name begins with a name by which a class of its module and
with its qualified name goes. -/
theorem enumPath_of_ownerNamed (nodup : (r.names.map (·.1)).Nodup) (named : r.OwnerNamed d) :
    ∃ class' front, r.name? class' = some front ∧
      (r.program.type? class').map (·.place) = some (d.module, d.outer) ∧
      r.enumPath d = ReflectedSchema.enumPath front d.name := by
  obtain ⟨nested, class', front, goes, around⟩ := named
  have path : r.enumPath d = if d.outer.isEmpty then d.name else
      ReflectedSchema.enumPath (((r.names.find? fun entry =>
        (r.program.type? entry.1).map (·.place) = some (d.module, d.outer)).map (·.2)).getD d.outer) d.name := rfl
  have inside : d.outer.isEmpty = false := by simpa using nested
  rw [path, if_neg (by rw [inside]; exact Bool.false_ne_true)]
  cases first : r.names.find? fun entry =>
      (r.program.type? entry.1).map (·.place) = some (d.module, d.outer) with
  | none =>
    have missed := List.find?_eq_none.mp first (class', front) (Json.mem_of_lookup goes)
    exact absurd (decide_eq_true around) missed
  | some found =>
    obtain ⟨other, name⟩ := found
    have called := List.find?_some first
    exact ⟨other, name, (Json.lookup_eq_some_iff nodup).mpr (List.mem_of_find?_eq_some first),
      by simpa using called, rfl⟩

/-- **The path of an enumeration leads back to it** if the class around it goes by a name, in programs whose
modules declare no qualified name twice, if an annotation can mention it. -/
theorem denotes_of_ownerNamed {p : Program} {run : List Registration} (sound : p.Sound)
    (distinct : (p.types.map (·.place)).Nodup) (mentioned : p.Named number)
    (known : p.type? number = some d) {listing : List (String × EnumValue)}
    (listed : p.listing? number = some listing) (named : (p.registry run).OwnerNamed d)
    (path : IsEnumPath (p.registry run).source.hasClass ((p.registry run).enumPath d) owner name) :
    (p.registry run).Denotes (.atom (.declared number)) (.enum owner name flags) := by
  have same := p.program_registry run
  obtain ⟨class', front, goes, around, joined⟩ := enumPath_of_ownerNamed (p.nodup_names run) named
  rw [joined] at path
  obtain ⟨rfl, rfl⟩ := isEnumPath_joined path
  rw [same] at around
  obtain ⟨c, hc, called⟩ := Option.map_eq_some_iff.mp around
  obtain ⟨module, name, entered⟩ | ⟨class'', body, name, own, entered⟩ := mentioned
  · -- An outermost declaration has no class around it, from whatever module it was taken.
    obtain ⟨_, _, d', known', rfl, qualified, -⟩ := sound.globals module name number entered
    cases known.symm.trans known'
    exact absurd (Declared.outer_eq_empty (qualified.trans (String.empty_append ..))) named.1
  · obtain ⟨e, he, hb⟩ := Program.classBody?_eq_some_iff.mp own
    obtain ⟨d', known', rfl, qualified, module⟩ := (sound.bodies class'' e body he hb).types name number entered
    cases known.symm.trans known'
    have around : c.place = e.place := called.trans (Prod.ext module (Declared.outer_eq qualified))
    obtain rfl : class' = class'' := Program.number_eq distinct hc he around
    have holds := Program.class?_of_name? goes
    have attribute' := sound.attribute?_own own entered
    rw [← same] at attribute' listed
    exact ⟨number, class', listing, rfl, holds, attribute', listed, members_eq_ok holds attribute' listed⟩

/-- An enumeration with a path of two names is declared in the program. -/
theorem exists_declared_of_isEnumPath {known : String → Bool} (h : r.enumType? type = some (flags, path))
    (isPath : IsEnumPath known path owner name) : ∃ number d listing,
      type = .atom (.declared number) ∧ r.program.type? number = some d ∧
        r.program.listing? number = some listing ∧ path = r.enumPath d := by
  have noDots {word : String} (single : (Text.split '.' word.toList).map String.ofList = [word]) :
      ¬ IsEnumPath known word owner name := by
    rintro ⟨parts, -⟩
    rw [single] at parts
    cases parts
  unfold enumType? at h
  split at h
  · cases h
    exact absurd isPath (noDots rfl)
  · cases h
    exact absurd isPath (noDots rfl)
  · rename_i number
    split at h
    · rename_i d known
      unfold Program.listing?
      obtain ⟨called, qualified, module, body, linearization⟩ := d
      split at h
      · rename_i members hb
        obtain rfl : body = .enum .flags members := hb
        cases h
        exact ⟨number, _, _, rfl, known, by rw [known], rfl⟩
      · rename_i members hb
        obtain rfl : body = .enum .int members := hb
        cases h
        exact ⟨number, _, _, rfl, known, by rw [known], rfl⟩
      · cases h
    · cases h
  · cases h

/-- The type of the items of a list mentions no more than the list. -/
theorem within_item {P : Nat → Prop} {item : Form} (list : type.item? = some item) (h : type.Within P) :
    item.Within P := by
  unfold Form.item? at list
  split at list
  · cases list
    exact fun number hn => h number (Form.mem_mentionsAll.mpr ⟨item, List.mem_cons_self, hn⟩)
  · cases list
    exact fun number hn => h number (Form.mem_mentionsAll.mpr ⟨item, List.mem_cons_self, hn⟩)
  · cases list

section Reached

variable {p : Program} {run : List Registration}

/-- An enumeration that is resolved is led back to, or the class around it goes by no name. -/
theorem denotes_enum (sound : p.Sound) (distinct : (p.types.map (·.place)).Nodup)
    (within : type.Within p.Named) (h : (p.registry run).enumType? type = some (flags, path))
    (isPath : IsEnumPath (p.registry run).source.hasClass path owner name) (kindFlags : Bool) :
    (p.registry run).Denotes type (.enum owner name kindFlags) ∨
      (p.registry run).OwnerBorrowed type (.enum owner name kindFlags) := by
  obtain ⟨number, d, listing, rfl, known, listed, rfl⟩ := exists_declared_of_isEnumPath h isPath
  by_cases named : (p.registry run).OwnerNamed d
  · rw [p.program_registry run] at known listed
    exact .inl (denotes_of_ownerNamed sound distinct (within number (List.mem_singleton_self _)) known listed
      named isPath)
  · exact .inr (.enum rfl known named isPath)

/-- Kinds that are neither classes nor enumerations lead nowhere. -/
theorem denotes_of_isPlain (object : ∀ className, kind ≠ .object className)
    (enum : ∀ owner name flags, kind ≠ .enum owner name flags) : r.Denotes type kind := by
  cases kind with
  | object className => exact absurd rfl (object className)
  | enum owner name flags => exact absurd rfl (enum owner name flags)
  | _ => trivial

/-- The kind of a type denotes it, unless the owner of an enumeration is borrowed. -/
theorem denotes_bare (sound : p.Sound) (distinct : (p.types.map (·.place)).Nodup)
    (within : type.withoutMetadata.1.Within p.Named) (h : (p.registry run).kind? type = some kind) :
    (p.registry run).Denotes type.withoutMetadata.1 kind ∨
      (p.registry run).OwnerBorrowed type.withoutMetadata.1 kind := by
  rcases (p.registry run).sorted type.withoutMetadata.1 with
    ⟨tag, hs⟩ | ⟨item, hs⟩ | ⟨className, hs⟩ | ⟨flags, path, unnamed, hs⟩ | ⟨plain, list, unnamed, enum⟩
  · obtain ⟨kind', resolved, -, primitive⟩ := elementHint_plain (r := p.registry run) hs
      (p.registry run).source.hasClass
    rw [kind?_plain hs, resolved] at h
    cases h
    obtain ⟨object, enum⟩ := primitiveHint?_isPlain primitive
    exact .inl (denotes_of_isPlain object enum)
  · rw [kind?_list hs, itemsKind?_eq] at h
    split_ifs at h
    · cases h
      exact .inl trivial
    · obtain ⟨element, -, rfl⟩ := Option.map_eq_some_iff.mp h
      exact .inl trivial
  · rw [kind?_class hs] at h
    split_ifs at h
    cases h
    obtain ⟨number, declared, named⟩ := exists_declared_of_className? hs
    exact .inl ⟨number, declared, Program.class?_of_name? named⟩
  · rw [kind?_enum unnamed hs] at h
    obtain ⟨owner, name, isPath, rfl⟩ := exists_of_resolveEnum h
    exact denotes_enum sound distinct within hs isPath flags
  · rw [kind?_unknown plain list unnamed enum] at h
    cases h

/-- The kind of an item denotes its type, unless the word for it is borrowed. -/
theorem denotes_item (sound : p.Sound) (distinct : (p.types.map (·.place)).Nodup)
    (within : type.withoutMetadata.1.Within p.Named)
    (h : itemsKind? (p.registry run).source.hasClass ((p.registry run).elementHint type) =
      some (.array kind none)) :
    (p.registry run).Denotes type.withoutMetadata.1 kind ∨
      (p.registry run).WordBorrowed type.withoutMetadata.1 kind := by
  have told : itemsKind? (p.registry run).source.hasClass ((p.registry run).elementHint type) =
    (some kind).map (.array · none) := h
  have resolved := (itemsKind?_eq_map_iff.mp told).2
  cases primitive : primitiveHint? ((p.registry run).elementHint type) with
  | some kind' =>
    rw [resolveElement_primitive primitive] at resolved
    cases resolved
    obtain ⟨object, enum⟩ := primitiveHint?_isPlain primitive
    exact .inl (denotes_of_isPlain object enum)
  | none =>
    have read := (resolveElement_cases resolved).resolve_left (by rw [primitive]; nofun)
    rcases (p.registry run).sorted type.withoutMetadata.1 with
      ⟨tag, hs⟩ | ⟨item, hs⟩ | ⟨className, hs⟩ | ⟨flags, path, unnamed, hs⟩ | ⟨plain, list, unnamed, enum⟩
    · obtain ⟨kind', -, -, given⟩ := elementHint_plain hs (p.registry run).source.hasClass
      cases primitive.symm.trans given
    · rw [elementHint_list hs] at primitive
      cases primitive
    · obtain ⟨number, declared, named⟩ := exists_declared_of_className? hs
      have holds := Program.class?_of_name? named
      rw [elementHint_class hs] at read
      obtain rfl | ⟨unheld, -⟩ := read
      · exact .inl ⟨number, declared, holds⟩
      · rw [hasClass_iff.mpr ⟨number, holds⟩] at unheld
        cases unheld
    · rw [elementHint_enum unnamed hs] at read
      obtain rfl | ⟨-, owner, name, isPath, rfl⟩ := read
      · exact .inr (.path unnamed hs)
      · exact (denotes_enum sound distinct within hs isPath false).imp_right .owner
    · rw [elementHint_unknown plain list unnamed enum] at read
      obtain rfl | ⟨-, owner, name, isPath, rfl⟩ := read
      · exact .inr (.shortName unnamed enum)
      · exact .inr (.shortPath unnamed enum isPath)

end Reached

/-! ## The main result -/

/-- **Names in kinds lead back to what is annotated**, or they are borrowed.  In a program of several modules,
none of which declares a qualified name twice, after any run of registrations and for every property that is
listed for a class and resolves to a kind: the class or the enumeration that the kind names, for itself or for the
items of an array, is the one of the annotation, or that one goes by no name and the name that it has instead is
borrowed. -/
theorem resolved_names_lead_back {p : Program} {structModule : String} {statements : List (String × Statement)}
    (made : p = .ofStatements structModule statements)
    (distinct : (p.types.map (·.place)).Nodup) (run : List Registration)
    {className : String} {infos : List PropertyInfo}
    (listed : (p.registry run).properties className = .ok infos) {info : PropertyInfo}
    (entry : info ∈ infos) {kind : Kind}
    (resolved : resolve (p.registry run).source.hasClass info = .ok kind) :
    ∃ number types type, (p.registry run).class? className = .ok number ∧
      (p.registry run).annotatedProperties number = .ok types ∧ (info.name, type) ∈ types ∧
      ((p.registry run).Denotes type.withoutMetadata.1 kind ∨
        (p.registry run).OwnerBorrowed type.withoutMetadata.1 kind) ∧
      ∀ item element, type.withoutMetadata.1.item? = some item → kind = .array element none →
        (p.registry run).Denotes item.withoutMetadata.1 element ∨
          (p.registry run).WordBorrowed item.withoutMetadata.1 element := by
  have sound : p.Sound := made ▸ Program.ofStatements_sound structModule statements
  obtain ⟨number, types, known, annotated, rfl⟩ := properties_eq_ok listed
  obtain ⟨⟨property, type⟩, typed, rfl⟩ := List.mem_map.mp entry
  have within := annotatedProperties_within annotated (property, type) typed
  rw [p.program_registry run] at within
  have given : (p.registry run).kind? type = some kind := by
    rw [← resolve_propertyInfo _ property, resolved]
    rfl
  refine ⟨number, types, type, known, annotated, ?_, ?_, ?_⟩
  · show (((p.registry run).propertyInfo property type).name, type) ∈ types
    rw [propertyInfo_eq]
    exact typed
  · exact denotes_bare sound distinct within.withoutMetadata given
  · rintro item element list rfl
    rw [kind?_list list] at given
    exact denotes_item sound distinct (within_item list within.withoutMetadata).withoutMetadata given

/-- Pets and dogs, which come in kinds each, and owners, who like a kind of pets. -/
def household : Program :=
  .ofItems "home" "structs" [
    .class "Pet" [] [.enum "Kind" .int [("CAT", 1)]],
    .class "Dog" [] [.enum "Kind" .int [("HOUND", 7)]],
    .class "Owner" [] [.property "likes" (.name "Pet" ["Kind"])]]

/-- The kind of pets, as it is listed for owners. -/
def likes : PropertyInfo :=
  { name := "likes", type := .int, className := "Pet.Kind", usage := .classIsEnum }

/-- The kind of pets leads back to it, or its name is borrowed, when pets go by their own name. -/
theorem resolved_names_lead_back_pet : ∃ number types type,
    (household.registry [⟨1, none⟩, ⟨4, none⟩]).class? "Owner" = .ok number ∧
      (household.registry [⟨1, none⟩, ⟨4, none⟩]).annotatedProperties number = .ok types ∧
      (likes.name, type) ∈ types ∧
      ((household.registry [⟨1, none⟩, ⟨4, none⟩]).Denotes type.withoutMetadata.1 (.enum "Pet" "Kind" false) ∨
        (household.registry [⟨1, none⟩, ⟨4, none⟩]).OwnerBorrowed type.withoutMetadata.1
          (.enum "Pet" "Kind" false)) := by
  have told : ((household.registry [⟨1, none⟩, ⟨4, none⟩]).properties "Owner").toOption = some [likes] := by
    decide +kernel
  have resolved : (resolve (household.registry [⟨1, none⟩, ⟨4, none⟩]).source.hasClass likes).toOption =
      some (.enum "Pet" "Kind" false) := by decide +kernel
  obtain ⟨number, types, type, known, annotated, typed, back, -⟩ :=
    resolved_names_lead_back rfl (by decide +kernel) _ (ok_of_toOption told) List.mem_cons_self
      (ok_of_toOption resolved)
  exact ⟨number, types, type, known, annotated, typed, back⟩

/-- When dogs go by the name of pets, which are not registered, the kind of pets leads to the kind of
dogs. -/
theorem pets_taken_for_dogs :
    household.find? "home" ["Pet", "Kind"] = some 0 ∧
      household.listing? 0 = some [("CAT", .member "Kind" "CAT" 1)] ∧
      (household.registry [⟨3, some "Pet"⟩, ⟨4, none⟩]).name? 1 = none ∧
      ((household.registry [⟨3, some "Pet"⟩, ⟨4, none⟩]).properties "Owner").toOption = some [likes] ∧
      (resolve (household.registry [⟨3, some "Pet"⟩, ⟨4, none⟩]).source.hasClass likes).toOption =
        some (.enum "Pet" "Kind" false) ∧
      ((household.registry [⟨3, some "Pet"⟩, ⟨4, none⟩]).members "Pet" "Kind").toOption =
        some [("HOUND", .member "Kind" "HOUND" 7)] := by
  decide +kernel

end Registry

end ReflectedSchema.Annotated
