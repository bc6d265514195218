import Mathlib
import ReflectedSchema.Schema.Build

/-!
# Steps of a build that succeed

What a successful step does to the definitions, operation by operation.  A sequence of steps succeeds
when each of them does, each from the definitions that the one before it left; the records and the
questions of a build play no part.
-/

namespace ReflectedSchema

/-- The definitions of a schema under construction, with their owners. -/
abbrev Shared := Definitions Entity Definition

namespace Build

variable {α β : Type}

/-- A step during which a property is noted ends as it does without, but for the note. -/
theorem run_within (owner property : String) (step : Build α) (b : Building) :
    (ExceptT.run (within owner property step)).run b =
      (((ExceptT.run step).run b).1.mapError (·.annotate owner property),
        ((ExceptT.run step).run b).2) := by
  simp only [within, tryCatch, tryCatchThe, MonadExceptOf.tryCatch, ExceptT.tryCatch, ExceptT.run_mk,
    StateT.run_bind]
  rw [ExceptT.run]
  rcases StateT.run step b with ⟨e | a, after⟩ <;> rfl

section

variable {step : Build α} {next : α → Build β} {owner property : String} {a : α} {e : Raised}
  {b m : Building}

/-- A step that succeeds does so while a property is noted. -/
theorem run_within_of_ok (h : (ExceptT.run step).run b = (.ok a, m)) :
    (ExceptT.run (within owner property step)).run b = (.ok a, m) := by
  rw [run_within, h]
  rfl

/-- An error inside a frame is annotated with it. -/
theorem run_within_of_error (h : (ExceptT.run step).run b = (.error e, m)) :
    (ExceptT.run (within owner property step)).run b = (.error (e.annotate owner property), m) := by
  rw [run_within, h]
  rfl

/-- A sequence goes on from where its first step got. -/
theorem run_bind_of_ok (h : (ExceptT.run step).run b = (.ok a, m)) :
    (ExceptT.run (step >>= next)).run b = (ExceptT.run (next a)).run m := by
  rw [ExceptT.run_bind, StateT.run_bind, h]
  rfl

/-- An error ends a sequence. -/
theorem run_bind_of_error (h : (ExceptT.run step).run b = (.error e, m)) :
    (ExceptT.run (step >>= next)).run b = (.error e, m) := by
  rw [ExceptT.run_bind, StateT.run_bind, h]
  rfl

end

/-- A step succeeds with a result and takes some definitions to others. -/
def Yields (step : Build α) (d : Shared) (a : α) (after : Shared) : Prop :=
  ∃ b b' : Building, b.definitions = d ∧ b'.definitions = after ∧
    (ExceptT.run step).run b = (.ok a, b')

namespace Yields

variable {d after : Shared}

/-- A step that does nothing yields its result. -/
theorem of_pure {a result : α} (h : Yields (pure a) d result after) : result = a ∧ after = d := by
  obtain ⟨b, b', rfl, rfl, h⟩ := h
  cases h
  exact ⟨rfl, rfl⟩

/-- Both steps of a sequence succeed. -/
theorem of_bind {step : Build α} {next : α → Build β} {result : β}
    (h : Yields (step >>= next) d result after) :
    ∃ a between, Yields step d a between ∧ Yields (next a) between result after := by
  obtain ⟨b, b', rfl, rfl, h⟩ := h
  rcases hs : (ExceptT.run step).run b with ⟨_ | a, middle⟩
  · rw [run_bind_of_error hs] at h
    cases h
  · rw [run_bind_of_ok hs] at h
    exact ⟨a, middle.definitions, ⟨b, middle, rfl, rfl, hs⟩, middle, b', rfl, rfl, h⟩

/-- A step that raises something yields nothing. -/
theorem not_throw {e : Raised} {result : α} : ¬ Yields (throw e) d result after := by
  rintro ⟨b, b', rfl, rfl, h⟩
  cases h

/-- A result that is already there. -/
theorem of_mk {e : Except Raised α} {result : α} (h : Yields (ExceptT.mk (pure e)) d result after) :
    e = .ok result ∧ after = d := by
  obtain ⟨b, b', rfl, rfl, h⟩ := h
  cases h
  exact ⟨rfl, rfl⟩

/-- Changing the definitions yields just that change. -/
theorem of_define {f : Shared → Shared} {result : Unit} (h : Yields (define f) d result after) :
    after = f d := by
  obtain ⟨b, b', rfl, rfl, h⟩ := h
  cases h
  rfl

/-- Looking at the definitions yields them. -/
theorem of_definitions {result : Shared} (h : Yields definitions d result after) :
    result = d ∧ after = d := by
  obtain ⟨b, b', rfl, rfl, h⟩ := h
  cases h
  exact ⟨rfl, rfl⟩

/-- A step that goes by the definitions so far. -/
theorem after_definitions {next : Shared → Build β} {result : β}
    (h : Yields (definitions >>= next) d result after) : Yields (next d) d result after := by
  obtain ⟨held, between, hd, hn⟩ := of_bind h
  obtain ⟨rfl, rfl⟩ := of_definitions hd
  exact hn

/-- Logging changes no definition. -/
theorem of_log {r : LogRecord} {result : Unit} (h : Yields (log r) d result after) : after = d := by
  obtain ⟨b, b', rfl, rfl, h⟩ := h
  cases h
  rfl

/-- Asking changes no definition. -/
theorem of_ask {q : Query} {result : Unit} (h : Yields (ask q) d result after) : after = d := by
  obtain ⟨b, b', rfl, rfl, h⟩ := h
  cases h
  rfl

/-- A name that was reserved was free. -/
theorem of_reserve {name : String} {owner : Entity} {result : Unit}
    (h : Yields (reserve name owner) d result after) : d.reserve? name owner = some after := by
  unfold reserve at h
  replace h := after_definitions h
  split at h
  · rename_i reserved hr
    rw [hr, of_define (f := fun _ => reserved) h]
  · exact absurd h not_throw

/-- Referring yields a reference to the name, which is noted. -/
theorem of_refer {name : String} {result : Node} (h : Yields (refer name) d result after) :
    result = .ref name ∧ after = d.refer name := by
  unfold refer at h
  obtain ⟨_, _, hd, hn⟩ := of_bind h
  obtain ⟨rfl, rfl⟩ := of_pure hn
  exact ⟨rfl, of_define (f := (·.refer name)) hd⟩

/-- Noting a property changes nothing about a success. -/
theorem of_within {owner property : String} {step : Build α} {result : α}
    (h : Yields (within owner property step) d result after) : Yields step d result after := by
  obtain ⟨b, b', rfl, rfl, h⟩ := h
  refine ⟨b, b', rfl, rfl, ?_⟩
  rw [run_within] at h
  rcases hs : (ExceptT.run step).run b with ⟨e | a, middle⟩
  · rw [hs] at h
    cases h
  · rw [hs] at h
    exact h

end Yields

/-- A build from the beginning that succeeds. -/
theorem yields_of_run {step : Build α} {a : α} (h : step.run.1 = .ok a) :
    ∃ after, Yields step .empty a after :=
  ⟨_, {}, _, rfl, rfl, Prod.ext h rfl⟩

end Build

end ReflectedSchema
