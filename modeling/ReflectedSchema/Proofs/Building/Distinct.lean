import ReflectedSchema.Proofs.Building.Failing

/-!
# Built schemas name properties apart

A document that requires no field twice lists no property twice, and every class that a schema describes
has its definition in the document: among the shared ones if it is live, otherwise at the root.  So no
class of a schema that was built has two properties of one name.
-/

namespace ReflectedSchema

/-- No class has two properties of one name. -/
def Schema.Distinct (schema : Schema) : Prop :=
  ∀ c ∈ schema.classes, c.propertyNames.Nodup

/-- What is inside an object requires no field twice if the object does not. -/
theorem Json.clean_of_mem {fields : List (String × Json)}
    (clean : (Json.obj fields).hasRepeatedRequired = false) {f : String × Json} (hf : f ∈ fields) :
    f.2.hasRepeatedRequired = false := by
  rw [hasRepeatedRequired, Bool.or_eq_false_iff] at clean
  have inner := clean.2
  clear clean
  induction fields with
  | nil => cases hf
  | cons first rest ih =>
    rw [hasRepeatedRequiredFields, Bool.or_eq_false_iff] at inner
    rcases List.mem_cons.mp hf with rfl | hf
    · exact inner.1
    · exact ih hf inner.2

/-- A definition that requires no property twice lists none twice. -/
theorem Definition.distinct_of_clean {definition : Definition}
    (clean : (Json.obj definition.fields).hasRepeatedRequired = false) : definition.Distinct := by
  cases definition with
  | enumeration members => trivial
  | object properties =>
    rw [Json.hasRepeatedRequired, Bool.or_eq_false_iff] at clean
    have once : hasRepeated ((properties.map fun p => Json.str p.name).filterMap Json.str?) = false :=
      clean.1
    have names : (properties.map fun p => Json.str p.name).filterMap Json.str? =
        properties.map (·.name) := by
      rw [List.filterMap_map]
      exact congrFun List.filterMap_eq_map properties
    rwa [names, hasRepeated_eq_false_iff] at once

/-- The definition of a class lists the properties of the class. -/
theorem ClassDescriptor.distinct_of_definition {c : ClassDescriptor} {names : String → Option String}
    (h : (c.definition names).Distinct) : c.propertyNames.Nodup := by
  rw [definition, Definition.Distinct, List.map_map] at h
  exact h

/-- A class that a kind with a shape mentions is live, or the shape holds its definition. -/
theorem Kind.HasShape.live_or_held {source : Source} {live : Entity → Prop}
    {names : String → Option String} {kind : Kind} {s : Shape}
    (h : kind.HasShape source live names s) {e : Entity} (hm : e ∈ kind.mentions)
    (clean : (Json.obj s.fields).hasRepeatedRequired = false) :
    live e ∨ ∃ c, e = .class c.name ∧ describeClass source c.name = .ok c ∧
      (c.definition names).Distinct ∧ ∀ p ∈ c.properties, ∀ e ∈ p.kind.mentions, live e := by
  induction h with
  | node _ hl => exact .inl (hl _ hm)
  | inline hc hl =>
    exact .inr ⟨_, List.mem_singleton.mp hm, hc, Definition.distinct_of_clean clean, hl⟩
  | @items kind s _ ih =>
    have inner : ("items", Json.obj s.fields) ∈ (Shape.items s).fields :=
      List.mem_cons_of_mem _ List.mem_cons_self
    exact ih hm (Json.clean_of_mem clean inner)

/-- What a live entity leads to is live. -/
theorem Source.Live.of_reflTransGen {source : Source} {kind : Kind} {e other : Entity}
    (h : source.Live kind e) (hr : Relation.ReflTransGen source.Mentions e other) :
    source.Live kind other := by
  induction hr with
  | refl => exact h
  | tail _ hm ih => exact ih.mentions hm

/-- **A schema that was built names the properties of each class apart.** -/
theorem Schema.Built.distinct {source : Source} {kind : Kind} {schema : Schema}
    (h : schema.Built source kind) : schema.Distinct := by
  obtain ⟨names, shared, presents⟩ := h.presents
  intro c hc
  have described := presents.shares.classDescribed c hc
  obtain ⟨first, hf, hr⟩ := presents.shares.classNames.mpr ⟨c, hc, rfl⟩
  have whole := h.clean
  obtain ⟨s, hs, hd⟩ := presents.shape
  rw [hd, Shape.document, hasRepeatedRequired_assemble, Bool.or_eq_false_iff] at whole
  obtain ⟨definitions, root⟩ := whole
  have of_live {e : Entity} (live : source.Live kind e)
      (hr : Relation.ReflTransGen source.Mentions e (.class c.name)) : c.propertyNames.Nodup := by
    obtain ⟨name, definition, -, hm, hdef⟩ := presents.shares.defined (live.of_reflTransGen hr)
    obtain rfl := hdef.unique (.class described)
    exact ClassDescriptor.distinct_of_definition
      (Definition.distinct_of_clean (Json.clean_of_mem definitions (List.mem_map_of_mem hm)))
  cases hs with
  | wrapped _ _ hl => exact of_live (hl first (presents.mentions ▸ hf)) hr
  | plain _ hs =>
    rcases hs.live_or_held (presents.mentions ▸ hf) root with live | ⟨held, rfl, hheld, distinct, hl⟩
    · exact of_live live hr
    rcases hr.cases_head with same | ⟨e, hm, hr⟩
    · obtain rfl : c = held := Except.ok.inj (described.symm.trans (Entity.class.inj same ▸ hheld))
      exact ClassDescriptor.distinct_of_definition distinct
    · cases hm with
      | property hc' hp he =>
        obtain rfl := Except.ok.inj (hheld.symm.trans hc')
        exact of_live (hl _ hp e he) hr

end ReflectedSchema
