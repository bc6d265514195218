import ReflectedSchema.Decode
import ReflectedSchema.Limits
import ReflectedSchema.Payload
import ReflectedSchema.Schema.Build

/-!
# The schema library

A library keeps the schemas of classes under their names, in the order in which the names first came
in.  Generating the schema of a class stores it, in place if the name is present; removing and clearing
take schemas out, and no other operation changes the library.

Every operation reports what it did as log records, whether it succeeds or fails.
-/

namespace ReflectedSchema

/-- The result of an operation and what it logged. -/
structure Outcome (α : Type) where
  result : Except Raised α
  records : List LogRecord := []

namespace Outcome

variable {α : Type}

/-- The outcome of a build, with an error record if it failed. -/
def ofBuild (build : Build α) (failed : Failure → LogRecord) : Outcome α :=
  match build.run with
  | (.error (.failure f), records) => ⟨.error (.failure f), records ++ [failed f]⟩
  | (result, records) => ⟨result, records⟩

/-- The outcome of a build ends as the build does. -/
theorem ofBuild_result (build : Build α) (failed : Failure → LogRecord) :
    (ofBuild build failed).result = build.run.1 := by
  unfold ofBuild
  split
  · rename_i h
    rw [h]
  · rename_i result records _ h
    rw [h]

end Outcome

/-- The generated schemas, by class name. -/
structure Library where
  schemas : List (String × Schema) := []
  deriving Inhabited

namespace Library

/-- The record of a failed generation. -/
def generationFailed (className : String) (f : Failure) : LogRecord :=
  ⟨.error, .library,
    "Failed to generate schema for class '" ++ className ++ "': " ++ f.describe⟩

/-- The record of a generated schema. -/
def generated (className : String) (replaced : Bool) : LogRecord :=
  ⟨.info, .library,
    if replaced then "Regenerated schema for class '" ++ className ++ "'; replacing previous schema"
    else "Generated schema for class '" ++ className ++ "'"⟩

/-- The record of a failed instantiation. -/
def instantiationFailed (name : String) (f : Failure) : LogRecord :=
  ⟨.error, .library, "Failed to instantiate '" ++ name ++ "': " ++ f.describe⟩

/-- The stored schema of a class. -/
def get? (library : Library) (className : String) : Option Schema :=
  Json.lookup className library.schemas

/-- The names of the stored schemas, in order. -/
def names (library : Library) : List String :=
  library.schemas.map (·.1)

/-- Generate the schema of a class and store it. -/
def generate (library : Library) (source : Source) (className : String) : Outcome Schema × Library :=
  let built := Outcome.ofBuild (buildClass source className className) (generationFailed className)
  match built.result with
  | .error _ => (built, library)
  | .ok schema =>
    ({ built with
        records := built.records ++ [generated className (library.get? className).isSome] },
      { library with schemas := Json.set className schema library.schemas })

/-- Generate the schema of a bare type, which belongs to a property without a name; it is not stored. -/
def generateType (source : Source) (type : TypeTag) (className : String := "") (hint : Hint := .none)
    (hintText : String := "") (usage : Usage := .none) : Outcome Schema :=
  .ofBuild (buildType source { name := "", type, className, hint, hintText, usage }) fun f =>
    ⟨.error, .library, "Failed to generate schema for type " ++ type.name ++ " '" ++
      (if className.isEmpty then hintText else className) ++ "': " ++ f.describe⟩

/-- Wrap a schema as that of an array. -/
def arrayOf (item : Schema) (name : String) : Outcome Schema :=
  ⟨arraySchema item name, []⟩

/-- Wrap the stored schema of a class as that of an array. -/
def arrayOfClass (library : Library) (className name : String) : Outcome Schema :=
  match library.get? className with
  | some item => arrayOf item name
  | none =>
    let f : Failure := { cause := .schemaNotFound className }
    ⟨.error (.failure f), [⟨.error, .library,
      "Failed to build array schema '" ++ name ++ "': " ++ f.describe⟩]⟩

/-- Remove the schema of a class; whether there was one. -/
def remove (library : Library) (className : String) : Outcome Bool × Library :=
  let removed := (library.get? className).isSome
  (⟨.ok removed,
    if removed then [⟨.info, .library, "Removed schema for class '" ++ className ++ "'"⟩] else []⟩,
    { library with schemas := Json.erase className library.schemas })

/-- Remove all schemas. -/
def clear (_ : Library) : Outcome Unit × Library :=
  (⟨.ok (), [⟨.info, .library, "Cleared all schemas"⟩]⟩, {})

/-- Nothing is found after clearing. -/
@[simp] theorem get?_clear (library : Library) (className : String) :
    library.clear.2.get? className = none := rfl

/-- Removing a class takes its schema out and no other. -/
theorem get?_remove (library : Library) (className other : String) :
    (library.remove className).2.get? other =
      if other = className then none else library.get? other :=
  Json.lookup_erase className other library.schemas

/-- A generated schema is found under its class, and no other is touched. -/
theorem get?_generate {library : Library} {source : Source} {className : String} {schema : Schema}
    (h : (library.generate source className).1.result = .ok schema) (other : String) :
    (library.generate source className).2.get? other =
      if other = className then some schema else library.get? other := by
  rw [generate] at h ⊢
  split at h
  · rename_i e he
    rw [he] at h
    cases h
  · rename_i built hb
    rw [hb] at h
    cases h
    exact Json.lookup_set className other schema library.schemas

/-- A generation that fails leaves the library as it was. -/
theorem generate_of_error {library : Library} {source : Source} {className : String} {e : Raised}
    (h : (library.generate source className).1.result = .error e) :
    (library.generate source className).2 = library := by
  rw [generate] at h ⊢
  split at h
  · rfl
  · rename_i built hb
    rw [hb] at h
    cases h

end Library

namespace Schema

/-- Check a value, which may nest to a depth, and decode it.  The records are those of the check. -/
def decodeChecked {σ : Type} (schema : Schema) (depth : Nat) (host : Host σ) (value : Json) :
    HostM σ HostValue × List LogRecord :=
  if depth < value.depth then (throw (.violation [] .tooDeep), [])
  else
    match schema.checker.findings value with
    | .error fault => (throw (.fault fault), [])
    | .ok [] => (schema.decode host value, [])
    | .ok (first :: rest) =>
      (throw (.failure first.toFailure), Checker.records (first :: rest))

/-- Read a payload, check its value against a schema, and decode it.  The records are those of the check. -/
def attempt {σ : Type} (schema : Schema) (limits : Limits) (host : Host σ) (payload : Payload) :
    HostM σ HostValue × List LogRecord :=
  match payload.read limits.nesting with
  | .ok value => schema.decodeChecked limits.depth host value
  | .error e => (throw e, [])

/-- What is reported of an attempt that ended. -/
def report (schema : Schema) (records : List LogRecord) : Except Raised HostValue → Outcome HostValue
  | .ok value => ⟨.ok value, records ++ [⟨.debug, .library, "Instantiated '" ++ schema.name ++ "'"⟩]⟩
  | .error (.failure f) => ⟨.error (.failure f), records ++ [Library.instantiationFailed schema.name f]⟩
  | .error (.fault e) => ⟨.error (.fault e), records⟩

/-- Attempt to make a value of a payload.  Calls that nest too deep, of the check or of the host, are reported as a
violation. -/
def instantiate {σ : Type} (schema : Schema) (limits : Limits) (host : Host σ) (payload : Payload) :
    StateM σ (Outcome HostValue) := do
  let (call, records) := schema.attempt limits host payload
  return schema.report records ((← ExceptT.run call).mapError Raised.settled)

end Schema

namespace Library

/-- Instantiate the class of a stored schema. -/
def instantiate {σ : Type} (library : Library) (limits : Limits) (host : Host σ) (className : String)
    (payload : Payload) : StateM σ (Outcome HostValue) :=
  match library.get? className with
  | some schema => schema.instantiate limits host payload
  | none =>
    let f : Failure := { cause := .schemaNotFound className }
    return ⟨.error (.failure f), [instantiationFailed className f]⟩

end Library

end ReflectedSchema
