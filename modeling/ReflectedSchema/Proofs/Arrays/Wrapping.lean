import ReflectedSchema.Proofs.References.Resolution

/-!
# Arrays are built

An array takes over the definitions of the schema of its items and the shape of the items, so there is
nothing in its document that could not be built: no field is required twice, every reference leads where
it did before, and the schema presents the same kind.
-/

namespace ReflectedSchema

/-! ## No field is required twice -/

/-- A schema that passes the last check requires no field twice. -/
theorem Schema.clean_of_checked {schema result : Schema} (h : schema.checked = .ok result) :
    result.document.hasRepeatedRequired = false := by
  unfold Schema.checked at h
  split at h
  · cases h
  · rename_i clean
    cases h
    exact Bool.eq_false_iff.mpr clean

namespace Build

/-- Whatever a build ends in, its document requires no field twice. -/
def EndsClean (build : Build Schema) : Prop :=
  ∀ d schema after, Yields build d schema after → schema.document.hasRepeatedRequired = false

/-- A sequence ends with a clean schema if all that may follow its first step does. -/
theorem EndsClean.bind {α : Type} {step : Build α} {next : α → Build Schema}
    (h : ∀ a, EndsClean (next a)) : EndsClean (step >>= next) := by
  intro d schema after hy
  obtain ⟨a, between, -, hn⟩ := Yields.of_bind hy
  exact h a between schema after hn

/-- Only a clean schema is let through. -/
theorem EndsClean.checked (schema : Schema) : EndsClean (ExceptT.mk (pure schema.checked)) :=
  fun _ _ _ hy => Schema.clean_of_checked (Yields.of_mk hy).1

/-- The build of a class ends with a clean schema. -/
theorem buildClass_endsClean (source : Source) (className title : String) :
    EndsClean (buildClass source className title) := by
  unfold buildClass
  refine .bind fun _ => .bind fun root => .bind fun d => ?_
  dsimp only
  split
  · exact .bind fun _ => .bind fun _ => .bind fun _ => .checked _
  · exact .bind fun _ => .bind fun _ => .bind fun _ => .checked _

/-- So does the build of a kind. -/
theorem buildKind_endsClean (source : Source) (kind : Kind) (title : String) :
    EndsClean (buildKind source kind title) := by
  unfold buildKind
  split
  · exact buildClass_endsClean _ _ _
  · exact .checked _
  · exact .bind fun _ => .bind fun _ => .checked _

/-- So does the build of a bare type. -/
theorem buildType_endsClean (source : Source) (info : PropertyInfo) :
    EndsClean (buildType source info) := by
  unfold buildType
  split
  · exact fun _ _ _ hy => absurd hy Yields.not_throw
  · exact buildKind_endsClean _ _ _

end Build

/-- **The document of a schema that was built requires no field twice.** -/
theorem Schema.Built.clean {source : Source} {kind : Kind} {schema : Schema}
    (h : schema.Built source kind) : schema.document.hasRepeatedRequired = false := by
  cases h with
  | «class» h =>
    obtain ⟨after, h⟩ := Build.yields_of_run h
    exact Build.buildClass_endsClean _ _ _ _ _ _ h
  | type hk h =>
    obtain ⟨after, h⟩ := Build.yields_of_run h
    exact Build.buildType_endsClean _ _ _ _ _ h
  | array hi h =>
    obtain ⟨⟨shared, items⟩, -, h⟩ := bind_eq_ok.mp h
    exact Schema.clean_of_checked h

/-- A document requires a field twice exactly if a shared definition or the root does. -/
theorem hasRepeatedRequired_assemble (definitions root : List (String × Json)) :
    (assemble definitions root).hasRepeatedRequired =
      ((Json.obj definitions).hasRepeatedRequired || (Json.obj root).hasRepeatedRequired) := by
  have here : requiresTwice (("$schema", .str dialect) :: ("$defs", .obj definitions) :: root) =
      requiresTwice root := by
    simp [requiresTwice, Json.lookup]
  simp only [assemble, Json.hasRepeatedRequired, Json.hasRepeatedRequiredFields, here, Bool.false_or]
  ac_rfl

/-- The shape of a value requires no field twice if the shape at the root does not. -/
theorem Schema.Unwraps.clean {names : String → Option String} {schema : Schema} {s inner : Shape}
    (h : schema.Unwraps names s inner) (clean : (Json.obj s.fields).hasRepeatedRequired = false) :
    (Json.obj inner.fields).hasRepeatedRequired = false := by
  cases h with
  | plain => exact clean
  | wrapped =>
    simp only [Shape.fields, Kind.wrapper, Definition.fields, List.map_cons, List.map_nil,
      NodeProperty.toJson_of_none, Json.hasRepeatedRequired, Json.hasRepeatedRequiredFields,
      Bool.or_eq_false_iff] at clean ⊢
    obtain ⟨-, -, ⟨-, node, -⟩, -⟩ := clean
    exact node

/-! ## Wrapping succeeds -/

/-- A schema whose document requires no field twice passes the last check. -/
theorem Schema.checked_eq_ok {schema : Schema} (h : schema.document.hasRepeatedRequired = false) :
    schema.checked = .ok schema := by
  rw [checked, h, if_neg (by decide)]

/-- **Wrapping a schema that was built succeeds**, and what it gives is laid out around the shape of the
items. -/
theorem Schema.Built.arraySchema_eq {source : Source} {kind : Kind} {names : String → Option String}
    {shared : List (String × Definition)} {item : Schema} (h : item.Built source kind)
    (hp : item.Presents source kind names shared) (title : String) :
    ∃ s inner, item.HasShape source (source.Live kind) names s ∧ item.document = s.document shared ∧
      item.Unwraps names s inner ∧ item.root.HasShape source (source.Live kind) names inner ∧
      arraySchema item title = .ok (.ofArray item inner shared title) := by
  obtain ⟨s, hs, hd⟩ := hp.shape
  obtain ⟨inner, hu, hi, hitem⟩ := itemDocument_eq hs hd
  refine ⟨s, inner, hs, hd, hu, hi, ?_⟩
  have whole := h.clean
  rw [hd, Shape.document, hasRepeatedRequired_assemble, Bool.or_eq_false_iff] at whole
  obtain ⟨definitions, root⟩ := whole
  have array : (Json.obj (Shape.items inner).fields).hasRepeatedRequired = false := by
    have here : requiresTwice (Shape.items inner).fields = false := by
      simp [requiresTwice, Shape.fields, Json.lookup]
    rw [Json.hasRepeatedRequired, here, Shape.fields]
    simp only [Json.hasRepeatedRequiredFields, hu.clean root]
    rfl
  have clean : (Schema.ofArray item inner shared title).document.hasRepeatedRequired = false := by
    rw [Schema.ofArray, Shape.document, hasRepeatedRequired_assemble, definitions, array]
    rfl
  unfold arraySchema
  rw [hitem]
  exact Schema.checked_eq_ok clean

/-- References lead where they did: an array takes over the definitions, and it refers to nothing new. -/
theorem Schema.Resolvable.ofArray {names : String → Option String} {shared : List (String × Definition)}
    {item : Schema} {s inner : Shape} (h : item.Resolvable) (hd : item.document = s.document shared)
    (hu : item.Unwraps names s inner) (title : String) :
    (Schema.ofArray item inner shared title).Resolvable := by
  intro reference hr
  have held : reference ∈ item.document.references := by
    rw [hd, s.references_document, ← hu.targets_eq]
    rwa [Schema.ofArray, (Shape.items inner).references_document] at hr
  obtain ⟨e, he, rfl, hf⟩ := h reference held
  have definitions : (Schema.ofArray item inner shared title).definitions = item.definitions := by
    rw [Schema.definitions, Schema.definitions, hd]
    rfl
  refine ⟨e, definitions ▸ he, rfl, ?_⟩
  rw [hd, Shape.document, follow?_assemble] at hf
  rw [Schema.ofArray, Shape.document, follow?_assemble, hf]

end ReflectedSchema
