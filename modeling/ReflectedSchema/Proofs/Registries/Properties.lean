import ReflectedSchema.Proofs.Building.Distinct
import ReflectedSchema.Proofs.Programs.Inheritance
import ReflectedSchema.Proofs.Registries.Escapes
import ReflectedSchema.Proofs.Registries.Reference

/-!
# Properties under inheritance

The properties of a class are told from its linearisation alone: which names they have, in which order they
are listed, and which annotation describes each of them (`Registry.ListsInherited`).  The names are those of the
classes that a walk does not pass over; the annotation is the most derived one of the whole linearisation, of
whatever module, and a class that is marked has none.  Since no name is listed twice, the documents of classes
never require a field twice, and the final check of a built document never refuses one.
-/

namespace ReflectedSchema

/-! ## Required fields of documents -/

/-- A value stands inside another one, or is it. -/
inductive Json.Inside (v : Json) : Json → Prop
  | refl : Inside v v
  | item {item : Json} {items : List Json} (h : item ∈ items) (inside : Inside v item) : Inside v (.arr items)
  | field {f : String × Json} {fields : List (String × Json)} (h : f ∈ fields) (inside : Inside v f.2) :
      Inside v (.obj fields)

/-- No object inside a document requires a field twice. -/
def Json.RequiresOnce (document : Json) : Prop :=
  ∀ fields names, Inside (.obj fields) document → lookup "required" fields = some (.arr names) →
    (names.filterMap str?).Nodup

/-- An item requires no field twice if the array does not. -/
theorem Json.clean_of_item {items : List Json} (clean : (Json.arr items).hasRepeatedRequired = false)
    {item : Json} (h : item ∈ items) : item.hasRepeatedRequired = false := by
  rw [hasRepeatedRequired] at clean
  induction items with
  | nil => cases h
  | cons first rest ih =>
    rw [hasRepeatedRequiredItems, Bool.or_eq_false_iff] at clean
    rcases List.mem_cons.mp h with rfl | h
    · exact clean.1
    · exact ih clean.2 h

/-- Where no repetition is found, no object inside requires a field twice. -/
theorem Json.requiresOnce_of_clean {document : Json} (clean : document.hasRepeatedRequired = false) :
    document.RequiresOnce := by
  intro fields names inside required
  induction inside with
  | refl =>
    rw [hasRepeatedRequired, Bool.or_eq_false_iff, requiresTwice, required] at clean
    exact hasRepeated_eq_false_iff.mp clean.1
  | item h _ ih => exact ih (clean_of_item clean h)
  | field h _ ih => exact ih (clean_of_mem clean h)

namespace Annotated.Registry

variable {r : Registry} {number : Nat} {className : String}

/-! ## Listed properties -/

/-- What is listed for a class with inherited annotations.  Each public name that is met on the walk is listed
once, unless the type that the class gives it marks an annotation of the class itself; this type describes it;
and it stands where the walk from the farthest ancestor down meets it first. -/
structure ListsInherited (r : Registry) (number : Nat) (infos : List PropertyInfo) : Prop where
  distinct : (infos.map (·.name)).Nodup
  listed : ∀ name, name ∈ infos.map (·.name) ↔ ¬ IsPrivate name ∧ r.program.Walks number name ∧
    ∃ type, r.program.GivesType number name type ∧ type.isClassWide = false
  described : ∀ info ∈ infos, ∃ type, r.program.GivesType number info.name type ∧
    info = r.propertyInfo info.name type
  ordered : (infos.map (·.name)).Pairwise fun first second =>
    (r.program.walk number).idxOf first < (r.program.walk number).idxOf second

/-- The names of properties are those of their annotations. -/
theorem names_properties (r : Registry) (types : List (String × Form)) :
    (types.map fun (property, type) => r.propertyInfo property type).map (·.name) = types.map (·.1) := by
  rw [List.map_map]
  exact List.map_congr_left fun annotation _ =>
    congrArg PropertyInfo.name (propertyInfo_eq r annotation.1 annotation.2)

/-- Whatever a walk has listed is what the class inherits. -/
theorem listsInherited (once : r.program.AnnotatesOnce) {all listed : List (String × Form)}
    (collected : r.program.annotations number = .ok all)
    (walked : Reflected all (r.program.walk number) listed) :
    r.ListsInherited number (listed.map fun (property, type) => r.propertyInfo property type) where
  distinct := by
    rw [names_properties]
    exact walked.nodup
  listed name := by
    have given {type : Form} (met : r.program.Walks number name) :
        r.program.GivesType number name type ↔ type = typeIn all name :=
      let ⟨_, listed, _, named⟩ := met
      Program.givesType_iff once collected listed named
    rw [names_properties, walked.names, Program.mem_walk_iff]
    constructor
    · rintro ⟨met, isPublic, notWide⟩
      exact ⟨isPublic, met, _, (given met).mpr rfl, notWide⟩
    · rintro ⟨isPublic, met, type, gives, notWide⟩
      exact ⟨met, isPublic, (given met).mp gives ▸ notWide⟩
  described := by
    intro info h
    obtain ⟨⟨property, type⟩, entered, rfl⟩ := List.mem_map.mp h
    have met := ((walked.names property).mp (List.mem_map_of_mem entered)).1
    obtain ⟨_, listed, _, named⟩ := Program.mem_walk_iff.mp met
    have gives := (Program.givesType_iff once collected listed named).mpr (walked.typed _ entered)
    have called : (r.propertyInfo property type).name = property := by rw [propertyInfo_eq]
    exact ⟨type, called.symm ▸ gives, by rw [called]⟩
  ordered := by
    rw [names_properties]
    exact walked.order

/-- A class whose annotations all have a value lists what it inherits. -/
theorem exists_properties (once : r.program.AnnotatesOnce) (known : r.class? className = .ok number)
    (resolve : ∀ a ∈ r.program.written number, ∃ type, a.scope.typeOf a.type = .ok type) :
    ∃ infos, r.properties className = .ok infos ∧ r.ListsInherited number infos := by
  obtain ⟨all, collected⟩ := (exists_collected []).mpr resolve
  rw [← Program.annotations_eq] at collected
  have annotated : r.annotatedProperties number = .ok ((r.program.walk number).foldl (reflect all) []) := by
    unfold annotatedProperties
    dsimp only
    rw [collected]
  refine ⟨_, ?_, listsInherited once collected (reflected all _)⟩
  rw [properties, known]
  simp only [bind, Except.bind, annotated]
  rfl

/-- No build of a class over a registry is refused for a document that requires a field twice. -/
theorem generate_ne_invalidSchema (r : Registry) (library : Library) (className : String) :
    (library.generate r.source className).1.result ≠ .error (.fault .invalidSchema) := by
  intro h
  rw [Library.generate_result] at h
  have faults : r.source.FaultsWith (.object className) .invalidSchema :=
    (Build.buildClass_bounded r.listsOnce
      (Source.bounds_faultsWith r.members_ne_fault _) className).of_run h _ rfl
  cases faults with
  | listing _ unlisted =>
    obtain ⟨_, t, -, -, missing⟩ := properties_eq_fault_iff.mp unlisted
    cases t <;> cases missing

/-- **Annotated properties under inheritance.**  For every program of several modules, whatever the bases of its
classes and the names that they are registered under, a class whose annotations all have a value, its own and the
inherited ones, lists exactly what it inherits.  No schema is refused for a field that is required twice, and no
document of a schema that was built over the registry requires one twice. -/
theorem properties_are_inherited (structModule : String) (statements : List (String × Statement))
    (classes : List (String × Nat)) (names : List (Nat × String)) :
    let r : Registry := ⟨.ofStatements structModule statements, classes, names⟩
    (∀ className number, r.class? className = .ok number →
      (∀ a ∈ r.program.written number, ∃ type, a.scope.typeOf a.type = .ok type) →
        ∃ infos, r.properties className = .ok infos ∧ r.ListsInherited number infos) ∧
    (∀ (library : Library) className,
      (library.generate r.source className).1.result ≠ .error (.fault .invalidSchema)) ∧
    ∀ (kind : Kind) (schema : Schema), schema.Built r.source kind → schema.document.RequiresOnce := by
  intro r
  have once : r.program.AnnotatesOnce := Program.ofStatements_once structModule statements
  exact ⟨fun _ _ known resolve => exists_properties once known resolve, r.generate_ne_invalidSchema,
    fun _ _ built => Json.requiresOnce_of_clean built.clean⟩

/-- A diamond of parts over two modules: the right one turns the price of a part into an annotation of instances
and its stock into one of the class, the left one gives the code another type, and the tip of the diamond takes
them from the module of parts. -/
def diamond : List (String × Statement) := [
  ("parts", .item (.class "Part" [] [
    .property "code" (.name "int" []),
    .property "_seen" (.name "bool" []),
    .property "price" (.apply (.name "ClassVar" []) [.name "float" []]),
    .property "stock" (.name "int" [])])),
  ("parts", .item (.class "Left" ["Part"] [.property "code" (.name "str" [])])),
  ("parts", .item (.class "Right" ["Part"] [
    .property "stock" (.name "ClassVar" []),
    .property "code" (.name "bytes" []),
    .property "price" (.name "float" [])])),
  ("store", .take "parts" "Left" "Left"),
  ("store", .take "parts" "Right" "Right"),
  ("store", .item (.class "Whole" ["Left", "Right"] [.property "size" (.name "int" [])]))]

/-- What the tip of the diamond lists. -/
def wholeProperties : List PropertyInfo :=
  [{ name := "code", type := .string }, { name := "price", type := .float }, { name := "size", type := .int }]

/-- The tip of the diamond has the code of the left part in the place where the common ancestor has it, then the
price of the right part, and its own size last. -/
theorem properties_are_inherited_diamond :
    let r : Registry := ⟨.ofStatements "structs" diamond, [("Whole", 3)], [(3, "Whole")]⟩
    ∃ infos, r.properties "Whole" = .ok infos ∧ r.ListsInherited 3 infos ∧ infos = wholeProperties ∧
      ∃ (kind : Kind) (schema : Schema), schema.Built r.source kind ∧ schema.document.RequiresOnce := by
  intro r
  obtain ⟨listed, -, required⟩ :=
    properties_are_inherited "structs" diamond [("Whole", 3)] [(3, "Whole")]
  have resolves : (r.program.annotations 3).toOption.isSome = true := by decide +kernel
  obtain ⟨all, found⟩ := Option.isSome_iff_exists.mp resolves
  have collected := ok_of_toOption found
  rw [Program.annotations_eq] at collected
  obtain ⟨infos, told, inherited⟩ := listed "Whole" 3 rfl ((exists_collected []).mp ⟨all, collected⟩)
  have known : (r.properties "Whole").toOption = some wholeProperties := by decide +kernel
  refine ⟨infos, told, inherited, Except.ok.inj (told.symm.trans (ok_of_toOption known)), ?_⟩
  have built : (buildClass r.source "Whole" "").run.1.toOption.isSome = true := by decide +kernel
  obtain ⟨schema, built⟩ := Option.isSome_iff_exists.mp built
  have whole : Schema.Built r.source (.object "Whole") schema := .class (ok_of_toOption built)
  exact ⟨_, schema, whole, required _ schema whole⟩

/-- What a class would list if only the classes counted that a walk does not pass over: the public names whose
first annotation among these is none of the class itself. -/
def ListsWalked (r : Registry) (number : Nat) (infos : List PropertyInfo) : Prop :=
  ∀ name, name ∈ infos.map (·.name) ↔ ¬ IsPrivate name ∧ ∃ a type,
    r.program.AnnotatesFirst ((r.program.ancestors number).filter fun ancestor =>
      !skippedModules.contains (r.program.moduleOf ancestor)) name a ∧
      a.scope.typeOf a.type = .ok type ∧ type.isClassWide = false

/-- The stock of a part becomes an annotation of the class in the module of abstract classes, from which a box is
derived. -/
def depot : Registry :=
  ⟨.ofStatements "structs" [
    ("depot", .item (.class "Part" [] [.property "stock" (.name "int" [])])),
    ("abc", .take "depot" "Part" "Part"),
    ("abc", .item (.class "Shelf" ["Part"] [.property "stock" (.name "ClassVar" [])])),
    ("depot", .take "abc" "Shelf" "Shelf"),
    ("depot", .item (.class "Box" ["Shelf"] [.property "size" (.name "int" [])]))],
    [("Box", 2)], [(2, "Box")]⟩

/-- A person whose annotations are marked as no types. -/
def unchecked : Registry :=
  ⟨.ofItems "people" "structs" [
    .class "Person" [] [
      .readOnly "__no_type_check__",
      .property "count" (.apply (.name "ClassVar" []) [.name "int" []]),
      .property "name" (.name "str" [])]],
    [("Person", 0)], [(0, "Person")]⟩

/-- **The classes on a walk do not tell what is listed.**  A box has no stock, although the nearest annotation of
it that the walk meets is one of instances; and an unchecked person has a count, although that is an annotation of
the class. -/
theorem walked_annotations_do_not_suffice :
    (∃ infos, depot.properties "Box" = .ok infos ∧ infos.map (·.name) = ["size"] ∧
      ¬ depot.ListsWalked 2 infos) ∧
    ∃ infos, unchecked.properties "Person" = .ok infos ∧ infos.map (·.name) = ["count", "name"] ∧
      ¬ unchecked.ListsWalked 0 infos := by
  constructor
  · have told : (depot.properties "Box").toOption =
        some [{ name := "size", type := .int }] := by decide +kernel
    refine ⟨_, ok_of_toOption told, rfl, fun walked => ?_⟩
    have missing := (walked "stock").mpr ⟨by decide, ⟨_, "stock", .name "int" []⟩, .atom (.builtin "int"),
      ⟨[.declared 2], .declared 0, [], by decide +kernel, by decide +kernel, List.mem_cons_self, rfl⟩, rfl, rfl⟩
    simp at missing
  · have told : (unchecked.properties "Person").toOption =
        some [{ name := "count", type := .nil, className := "None" },
          { name := "name", type := .nil, className := "None" }] := by decide +kernel
    refine ⟨_, ok_of_toOption told, rfl, fun walked => ?_⟩
    obtain ⟨-, a, type, first, value, notWide⟩ := (walked "count").mp List.mem_cons_self
    obtain ⟨nearer, ancestor, farther, line, -, written, named⟩ := first
    have alone : (unchecked.program.ancestors 0).filter (fun ancestor =>
        !skippedModules.contains (unchecked.program.moduleOf ancestor)) = [.declared 0] := by decide +kernel
    rw [alone] at line
    obtain ⟨rfl, same⟩ | ⟨_, -, none⟩ := List.cons_eq_append_iff.mp line
    · obtain ⟨rfl, rfl⟩ := List.cons.inj same
      -- The person annotates the count as one of the class.
      rcases List.mem_cons.mp written with rfl | other
      · cases Except.ok.inj value
        cases notWide
      · cases List.mem_singleton.mp other
        exact absurd named (by decide)
    · cases List.append_ne_nil_of_right_ne_nil _ (List.cons_ne_nil _ _) none.symm

end Annotated.Registry

end ReflectedSchema
