import ReflectedSchema.Proofs.Hosts.Tabulated
import ReflectedSchema.Proofs.Meaning.Validity

/-!
# Checking and decoding agree

The two ways through a value go by different data: a check interprets the keywords of the document, and
decoding goes by the kind of the root and the descriptors.  Both are known by conformance, so they
accept the same values, but for what decoding ignores on purpose: surplus components of value structs,
and surplus properties of a wrapper.
-/

namespace ReflectedSchema

open HostM

/-- **Checking and decoding agree** on every schema that was built over a source with plain names, for a
host whose calls succeed: decoding an accepted value raises nothing but that an integer is too large for
a double, and a value that decoding ends in a result for, and that has nothing surplus, is accepted. -/
theorem decode_agrees_with_check {σ : Type} {source : Source} (plain : source.PlainNames) {kind : Kind}
    {schema : Schema} (h : schema.Built source kind) {host : Host σ} (hh : host.Succeeds source)
    (v : Json) :
    (schema.accepts v → ∀ s s' e, (ExceptT.run (schema.decode host v)).run s = (.error e, s') →
      e = .fault .floatOverflow) ∧
    ∀ s s' result, (ExceptT.run (schema.decode host v)).run s = (.ok result, s') →
      schema.NoSurplus source v → schema.accepts v := by
  obtain ⟨names, shared, presents⟩ := h.presents
  obtain ⟨isObject, raises⟩ := hh
  have ends := presents.decode_ends raises (fun _ _ _ => id) v
  constructor
  · intro accepted s s' e hr
    have conforms := (presents.accepts_iff plain v).mp accepted
    cases ends.raised hr with
    | overflow => rfl
    | host failed => exact failed.elim
    | misfit hf => exact absurd conforms hf
  · intro s s' result hr surplus
    exact (presents.accepts_iff plain v).mpr (ends.result hr surplus)

/-- A person is accepted, and decoding it raises nothing but an overflow. -/
theorem decode_agrees_with_check_person :
    ∃ schema, (buildClass people.source "Person" "").run.1 = .ok schema ∧ schema.accepts ada ∧
      ∀ e, (ExceptT.run (schema.decode people.host ada)).run () = (.error e, ()) →
        e = .fault .floatOverflow := by
  obtain ⟨schema, h⟩ := exists_schema_person
  obtain ⟨names, shared, presents⟩ := (Schema.Built.class h).presents
  obtain ⟨root, wrapped⟩ := buildClass_root h
  have accepted : schema.accepts ada := by
    rw [presents.accepts_iff plainNames_people, root, wrapped]
    exact conforms_ada
  have agrees := decode_agrees_with_check plainNames_people (.class h) keeps_people.succeeds ada
  exact ⟨schema, h, accepted, fun e he => agrees.1 accepted () () e he⟩

end ReflectedSchema
