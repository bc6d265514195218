import ReflectedSchema.Proofs.Documents.Legible
import ReflectedSchema.ResponseFormat

/-!
# Texts and documents do not drift apart

A compiled schema keeps the document that is read from its own text, the chat provider is sent the text of an
envelope around it, and values are checked against it.  All of these are the document that was assembled: the
document of every schema that was built is legible (`Schema.Built.legible`), and so is its envelope, two levels
deeper.
-/

namespace ReflectedSchema

open Json

/-- A schema as it is kept: with the document that its text is read as. -/
def Schema.reread (schema : Schema) (levels : Nat) : Except ReadError Schema :=
  (Json.read levels schema.text.toList).map fun document => { schema with document }

/-- An envelope is as legible as the document inside it. -/
theorem ResponseFormat.legible_envelope {levels : Nat} {document : Json} (h : document.LegibleWithin levels)
    (name : Option String) : (envelope document name).LegibleWithin (levels + 2) := by
  have called : ((name.map Json.str).getD .null).LegibleWithin levels := by
    cases name with
    | none => exact ⟨.null, Nat.zero_le _⟩
    | some name => exact .str name
  have inner : (Json.obj [("name", (name.map Json.str).getD .null), ("schema", document),
      ("strict", .bool true)]).LegibleWithin (levels + 1) :=
    .obj (by simp) (List.forall_mem_cons.mpr ⟨called, List.forall_mem_cons.mpr ⟨h,
      List.forall_mem_singleton.mpr (.bool true)⟩⟩)
  exact .obj (by simp) (List.forall_mem_cons.mpr ⟨.str _, List.forall_mem_singleton.mpr inner⟩)

/-- An envelope is two levels deeper than the document. -/
theorem ResponseFormat.depth_envelope (document : Json) (name : Option String) :
    (envelope document name).depth = document.depth + 2 := by
  cases name <;> simp [envelope, depth, depthOfFields]

/-- **The text of a schema and its document never drift apart.**  Reading the text of a schema that was built
gives back exactly the schema, and reading the text of its envelope, in every layout, exactly the envelope.
However many levels the reader goes, only what nests deeper is refused, and no document nests deeper than seven
levels and the arrays around its kind. -/
theorem Schema.Built.text_is_document {source : Source} {kind : Kind} {schema : Schema}
    (h : schema.Built source kind) (name : Option String) :
    schema.document.depth ≤ 7 + schema.root.arrays ∧ ∀ levels,
      schema.reread levels = (if schema.document.depth ≤ levels then .ok schema else .error .tooDeep) ∧
      ∀ layout, Json.read levels ((ResponseFormat.envelope schema.document name).text layout).toList =
        if schema.document.depth + 2 ≤ levels then .ok (ResponseFormat.envelope schema.document name)
        else .error .tooDeep := by
  have document := h.legible
  have envelope := ResponseFormat.legible_envelope document name
  refine ⟨document.shallow, fun levels => ⟨?_, fun layout => ?_⟩⟩
  · rw [Schema.reread, Schema.text, document.legible.read_text]
    split_ifs <;> rfl
  · rw [envelope.legible.read_text, ResponseFormat.depth_envelope]

/-- The schema of people, seven levels deep at most, is read back from its text by a reader that goes nine levels,
and so is what is sent. -/
theorem Schema.Built.text_is_document_people :
    ∃ schema : Schema, schema.Built people.source (.object "Person") ∧ schema.document.depth ≤ 7 ∧
      schema.reread 9 = .ok schema ∧
      ∀ layout, Json.read 9 ((ResponseFormat.envelope schema.document (some "people")).text layout).toList =
        .ok (ResponseFormat.envelope schema.document (some "people")) := by
  obtain ⟨schema, built⟩ := exists_schema_person
  obtain ⟨shallow, within⟩ := Schema.Built.text_is_document (.class built) (some "people")
  obtain ⟨reread, sent⟩ := within 9
  rw [(buildClass_root built).1] at shallow
  have within : schema.document.depth + 2 ≤ 9 := Nat.add_le_add_right shallow 2
  rw [if_pos (Nat.le_of_add_right_le within)] at reread
  refine ⟨schema, .class built, shallow, reread, fun layout => ?_⟩
  rw [sent layout, if_pos within]

end ReflectedSchema
