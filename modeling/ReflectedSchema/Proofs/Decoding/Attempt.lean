import ReflectedSchema.Proofs.Arrays.Elementwise

/-!
# Attempts to instantiate

Instantiating a payload is an attempt, which reads, checks and decodes, and a report of how it ended.  The
host takes part in an attempt only if the payload is read as a value that passes the checks.  Any other
payload is refused alike, whatever the host.  The report differs from the end of the attempt in one point: calls
that nest too deep are reported as a violation (`Raised.settled`).
-/

namespace ReflectedSchema

/-- Telling an error in another way makes no result of it. -/
theorem toOption_mapError {ε ε' α : Type} (f : ε → ε') (x : Except ε α) :
    (x.mapError f).toOption = x.toOption := by
  cases x <;> rfl

/-- A change of errors makes no result. -/
theorem mapError_eq_ok {ε ε' α : Type} {f : ε → ε'} {x : Except ε α} {a : α} :
    x.mapError f = .ok a ↔ x = .ok a := by
  cases x <;> simp [Except.mapError]

namespace Schema

variable {σ : Type} {schema : Schema} {limits : Limits} {payload : Payload} {v : Json}

/-- A payload is read as a value that passes the checks, within the limits. -/
def Admits (schema : Schema) (limits : Limits) (payload : Payload) (v : Json) : Prop :=
  payload.read limits.nesting = .ok v ∧ v.depth ≤ limits.depth ∧ schema.accepts v

/-- What is reported has the result of the attempt. -/
theorem result_report (records : List LogRecord) (result : Except Raised HostValue) :
    (schema.report records result).result = result := by
  rcases result with (f | f) | value <;> rfl

/-- Instantiating makes the attempt and reports how it ended. -/
theorem run_instantiate (schema : Schema) (limits : Limits) (host : Host σ) (payload : Payload) (s : σ) :
    (schema.instantiate limits host payload).run s =
      (schema.report (schema.attempt limits host payload).2
        (((ExceptT.run (schema.attempt limits host payload).1).run s).1.mapError Raised.settled),
        ((ExceptT.run (schema.attempt limits host payload).1).run s).2) :=
  rfl

/-- What is admitted is decoded. -/
theorem attempt_of_admits (h : schema.Admits limits payload v) (host : Host σ) :
    schema.attempt limits host payload = (schema.decode host v, []) := by
  obtain ⟨read, depth, accepted⟩ := h
  rw [attempt, read]
  exact decodeChecked_of_accepts accepted depth host

/-- Instantiating what is admitted ends as its decoding does. -/
theorem instantiate_of_admits (h : schema.Admits limits payload v) (host : Host σ) (s : σ) :
    ((schema.instantiate limits host payload).run s).1.result =
      ((ExceptT.run (schema.decode host v)).run s).1.mapError Raised.settled := by
  rw [run_instantiate, result_report, attempt_of_admits h]

/-- What is not admitted is refused alike, whatever the host. -/
theorem attempt_of_refused (h : ∀ v, ¬ schema.Admits limits payload v) : ∃ e records,
    ∀ (σ : Type) (host : Host σ), schema.attempt limits host payload = (throw e, records) := by
  unfold attempt
  cases read : payload.read limits.nesting with
  | error e => exact ⟨e, [], fun _ _ => rfl⟩
  | ok v =>
    unfold decodeChecked
    by_cases depth : limits.depth < v.depth
    · exact ⟨_, _, fun _ _ => if_pos depth⟩
    · simp only [if_neg depth]
      cases found : schema.checker.findings v with
      | error fault => exact ⟨_, _, fun _ _ => rfl⟩
      | ok findings =>
        cases findings with
        | nil => exact absurd ⟨read, not_lt.mp depth, found⟩ (h v)
        | cons first rest => exact ⟨_, _, fun _ _ => rfl⟩

end Schema

end ReflectedSchema
