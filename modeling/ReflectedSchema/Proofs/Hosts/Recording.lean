import ReflectedSchema.Proofs.Decoding.Ensures

/-!
# Hosts that record what they are asked for

`Host.recorded` is a host with a record: it answers as the host does, and its state has beside the state
of the host the calls that were made, in their order, with their answers.  `HostM.Records` compares what
is done with a host and what is done with its recording.  The two end alike, and what was recorded in
between, together with the result, is described by a predicate.  There is one rule for each way to put
calls together.
-/

namespace ReflectedSchema

/-- A call to a host. -/
inductive Call where
  | construct (className : String)
  | setProperty (object : HostValue) (property : String) (value : HostValue)
  | constructStruct (type : TypeTag) (components : List (String × HostValue))
  | constructPacked (type : TypeTag) (items : List HostValue)

/-- A call that was made, and its answer. -/
structure Event where
  call : Call
  answer : Except Raised HostValue

namespace HostM

variable {σ α β : Type}

/-- Make a call, and record it behind those that were made before. -/
def recording (call : Call) (made : HostM σ HostValue) : HostM (σ × List Event) HostValue :=
  ExceptT.mk fun (s, events) =>
    let (answer, after) := (ExceptT.run made).run s
    (answer, (after, events ++ [⟨call, answer⟩]))

end HostM

/-- The host that also records the calls. -/
def Host.recorded {σ : Type} (host : Host σ) : Host (σ × List Event) where
  construct className := .recording (.construct className) (host.construct className)
  setProperty object property value :=
    .recording (.setProperty object property value) (host.setProperty object property value)
  constructStruct type components :=
    .recording (.constructStruct type components) (host.constructStruct type components)
  constructPacked type items :=
    .recording (.constructPacked type items) (host.constructPacked type items)

/-- Calls in their order, each with the location of the value that it was made for. -/
abbrev Trace := List (Location × Event)

namespace HostM

variable {σ α β : Type}

/-- Whatever is done with a host is done with its recording: it ends alike, and the calls that are
recorded in between can be located such that they and the result, if there is one, are as described. -/
def Records (T : Trace → Option α → Prop) (plain : HostM σ α)
    (recorded : HostM (σ × List Event) α) : Prop :=
  ∀ s events, ∃ trace : Trace,
    (ExceptT.run recorded).run (s, events) = (((ExceptT.run plain).run s).1,
      (((ExceptT.run plain).run s).2, events ++ trace.map (·.2))) ∧
    T trace ((ExceptT.run plain).run s).1.toOption

namespace Records

variable {T T' : Trace → Option α → Prop} {U : Trace → Option β → Prop} {plain : HostM σ α}
  {recorded : HostM (σ × List Event) α}

/-- A result is recorded without calls. -/
theorem of_pure {a : α} (h : T [] (some a)) : Records (σ := σ) T (pure a) (pure a) := by
  intro s events
  refine ⟨[], ?_, h⟩
  rw [List.map_nil, List.append_nil]
  rfl

/-- An error is recorded without calls. -/
theorem of_throw {e : Raised} (h : T [] none) : Records (σ := σ) T (throw e) (throw e) := by
  intro s events
  refine ⟨[], ?_, h⟩
  rw [List.map_nil, List.append_nil]
  rfl

/-- A call is recorded with its answer, whatever that is. -/
theorem of_recording {T : Trace → Option HostValue → Prop} {call : Call} {made : HostM σ HostValue}
    (location : Location) (h : ∀ answer, T [(location, ⟨call, answer⟩)] answer.toOption) :
    Records T made (recording call made) :=
  fun s _ => ⟨[(location, ⟨call, ((ExceptT.run made).run s).1⟩)], rfl, h _⟩

/-- What is said of a record may be weakened. -/
theorem mono (h : Records T plain recorded) (ht : ∀ trace out, T trace out → T' trace out) :
    Records T' plain recorded := by
  intro s events
  obtain ⟨trace, run, holds⟩ := h s events
  exact ⟨trace, run, ht _ _ holds⟩

/-- What is recorded of two calls is what is recorded of the first, and then, if that has a result, what
is recorded of the second. -/
theorem bind {next : α → HostM σ β} {next' : α → HostM (σ × List Event) β}
    (h : Records T plain recorded) (stop : ∀ first, T first none → U first none)
    (hn : ∀ first a, T first (some a) →
      Records (fun second out => U (first ++ second) out) (next a) (next' a)) :
    Records U (plain >>= next) (recorded >>= next') := by
  intro s events
  obtain ⟨first, run, holds⟩ := h s events
  rw [ExceptT.run_bind, StateT.run_bind, ExceptT.run_bind, StateT.run_bind, run]
  rcases hr : (ExceptT.run plain).run s with ⟨e | a, after⟩ <;> rw [hr] at holds
  · exact ⟨first, rfl, stop first holds⟩
  · obtain ⟨second, run, holds⟩ := hn first a holds after (events ++ first.map (·.2))
    refine ⟨first ++ second, ?_, holds⟩
    rw [List.map_append, ← List.append_assoc]
    exact run

/-- What is recorded of a call goes with what the call ensures of its result. -/
theorem ensuring {P : α → Prop} {Q : Raised → Prop} (h : Records T plain recorded)
    (he : Ensures P Q plain) : Records (fun trace out => T trace out ∧ ∀ a, out = some a → P a) plain
      recorded := by
  intro s events
  obtain ⟨trace, run, holds⟩ := h s events
  refine ⟨trace, run, holds, fun a ha => ?_⟩
  rcases hr : (ExceptT.run plain).run s with ⟨e | result, after⟩ <;> rw [hr] at ha <;> cases ha
  exact he.result hr

/-- Noting a property changes what is raised, and nothing that is recorded. -/
theorem within {owner property : String} (h : Records T plain recorded) :
    Records T (within owner property plain) (within owner property recorded) := by
  intro s events
  obtain ⟨trace, run, holds⟩ := h s events
  rw [run_within, run_within, run]
  rcases hr : (ExceptT.run plain).run s with ⟨e | a, after⟩ <;> rw [hr] at holds
  · exact ⟨trace, rfl, holds⟩
  · exact ⟨trace, rfl, holds⟩

end Records

end HostM

end ReflectedSchema
