import ReflectedSchema.Annotated.Instance
import ReflectedSchema.Proofs.Building.Failing
import ReflectedSchema.Proofs.Decoding.Ensures

/-!
# What hosts raise

A failure that a host raises is its own: it arises outside the properties that decoding handles.
`Host.RaisesBare` says that it carries no properties then, which is so for tabulated hosts and for the
objects of annotated classes; `Source.RaisesBare` says the same of what their sources raise.
-/

namespace ReflectedSchema

open HostM

/-! ## Calls and what they raise -/

/-- A call can raise something, in some state of the host. -/
def HostM.MayRaise {σ α : Type} (call : HostM σ α) (e : Raised) : Prop :=
  ∃ s after, (ExceptT.run call).run s = (.error e, after)

/-- A call ensures what holds of all that it may raise. -/
theorem HostM.Ensures.of_call {σ α : Type} {Q : Raised → Prop} {call : HostM σ α}
    (h : ∀ e, call.MayRaise e → Q e) : Ensures (fun _ => True) Q call := by
  intro s
  split
  · trivial
  · rename_i e he
    exact h e ⟨s, _, Prod.ext he rfl⟩

/-- What is raised carries no properties. -/
def Raised.Bare (e : Raised) : Prop :=
  ∀ f, e = .failure f → f.context = []

/-- A failure that was just raised has no properties noted. -/
theorem Raised.Bare.ofCause (cause : Cause) : (Raised.ofCause cause).Bare := by
  rintro _ ⟨⟩
  rfl

/-- A fault has none. -/
theorem Raised.Bare.fault (x : Fault) : (Raised.fault x).Bare :=
  fun _ h => nomatch h

/-- What a host raises carries no properties. -/
structure Host.RaisesBare {σ : Type} (host : Host σ) : Prop where
  construct : ∀ className e, (host.construct className).MayRaise e → e.Bare
  setProperty : ∀ object property value e,
    (host.setProperty object property value).MayRaise e → e.Bare
  constructStruct : ∀ type components e, (host.constructStruct type components).MayRaise e → e.Bare
  constructPacked : ∀ type items e, (host.constructPacked type items).MayRaise e → e.Bare

/-- What a source raises carries no properties. -/
structure Source.RaisesBare (source : Source) : Prop where
  properties : ∀ className e, source.properties className = .error e → e.Bare
  members : ∀ owner name e, source.members owner name = .error e → e.Bare

/-- What a result that needs no state raises is its error. -/
theorem HostM.eq_of_mayRaise {σ α : Type} {result : Except Raised α} {e : Raised}
    (h : (HostM.ofExcept (σ := σ) result).MayRaise e) : result = .error e := by
  obtain ⟨s, after, h⟩ := h
  exact congrArg Prod.fst h

/-- A struct that cannot be made of its components is refused without properties noted. -/
theorem HostValue.ofComponents_bare {type : TypeTag} {components : List (String × HostValue)}
    {e : Raised} (h : ofComponents type components = .error e) : e.Bare := by
  unfold ofComponents at h
  split at h
  · split at h
    · cases h
      exact .fault _
    · cases h
  · cases h
    exact .ofCause _

/-! ## Records of tabulated hosts -/

namespace Table

/-- A class that a table does not have is unknown, with nothing noted. -/
theorem class?_bare {t : Table} {name : String} {e : Raised} (h : t.class? name = .error e) :
    e.Bare := by
  unfold class? at h
  split at h
  · cases h
  · cases h
    exact .ofCause _

/-- The host of a table raises nothing with properties noted. -/
theorem raisesBare (t : Table) : t.host.RaisesBare where
  construct className e refused := by
    rcases bind_eq_error.mp (HostM.eq_of_mayRaise refused) with absent | ⟨c, -, h⟩
    · exact class?_bare absent
    · split at h
      · cases h
        exact .ofCause _
      · cases h
  setProperty object property value e refused := by
    have h := HostM.eq_of_mayRaise refused
    cases object with
    | record className properties =>
      rcases bind_eq_error.mp h with absent | ⟨c, -, h⟩
      · exact class?_bare absent
      · dsimp only at h
        split at h
        · cases h
          exact .ofCause _
        · split at h
          · cases h
            exact .ofCause _
          · cases h
    | _ =>
      cases h
      exact .ofCause _
  constructStruct _ _ _ refused := HostValue.ofComponents_bare (HostM.eq_of_mayRaise refused)
  constructPacked _ _ _ refused := by
    obtain ⟨_, _, h⟩ := refused
    cases h

/-- Nor does its source. -/
theorem source_raisesBare (t : Table) : t.source.RaisesBare where
  properties className e h := by
    rcases bind_eq_error.mp h with absent | ⟨c, -, h⟩
    · exact class?_bare absent
    · cases h
  members owner name e h := by
    rcases bind_eq_error.mp h with absent | ⟨c, -, h⟩
    · exact class?_bare absent
    · split at h
      · cases h
      · cases h
        exact .ofCause _

end Table

/-! ## Instances of registered classes -/

namespace Annotated.Registry

/-- A class that is not registered is unknown, with nothing noted. -/
theorem class?_bare {r : Registry} {name : String} {e : Raised} (h : r.class? name = .error e) :
    e.Bare := by
  unfold class? at h
  split at h
  · cases h
  · cases h
    exact .ofCause _

/-- Annotations without a value are unsupported, with nothing noted. -/
theorem annotatedProperties_bare {r : Registry} {number : Nat} {e : Raised}
    (h : r.annotatedProperties number = .error e) : e.Bare := by
  unfold annotatedProperties at h
  dsimp only at h
  split at h
  · cases h
  · cases h
    exact .ofCause _
  · cases h
    exact .ofCause _
  · cases h
    exact .fault _
  · cases h
    exact .fault _

/-- Items that are no bytes are refused with nothing noted. -/
theorem toBytes_bare {items : List HostValue} {e : Raised} (h : HostValue.toBytes items = .error e) :
    e.Bare := by
  induction items generalizing e with
  | nil => cases h
  | cons item rest ih =>
    simp only [HostValue.toBytes] at h
    split at h
    · cases h
      exact .fault _
    · split at h
      · split at h
        · cases h
        · rename_i later
          cases h
          exact ih later
      · cases h
        exact .fault _

/-- The host of a registry raises nothing with properties noted. -/
theorem raisesBare (r : Registry) : r.host.RaisesBare where
  construct className e refused := by
    rcases bind_eq_error.mp (HostM.eq_of_mayRaise refused) with absent | ⟨number, -, h⟩
    · exact class?_bare absent
    · split at h
      · cases h
      · split at h
        · cases h
          exact .ofCause _
        · cases h
          exact .fault _
  setProperty object property value e refused := by
    have h := HostM.eq_of_mayRaise refused
    unfold setProperty at h
    split at h
    · split at h
      · cases h
        exact .ofCause _
      · rcases bind_eq_error.mp h with unread | ⟨declared, -, h⟩
        · exact annotatedProperties_bare unread
        · dsimp only at h
          split at h
          · cases h
            exact .ofCause _
          · split at h
            · cases h
            · split at h
              · cases h
                exact .ofCause _
              · cases h
                exact .fault _
    · cases h
      exact .ofCause _
  constructStruct _ _ _ refused := HostValue.ofComponents_bare (HostM.eq_of_mayRaise refused)
  constructPacked type items e refused := by
    have h := HostM.eq_of_mayRaise refused
    unfold constructPacked at h
    split at h
    · cases made : HostValue.toBytes items with
      | ok content =>
        rw [made] at h
        cases h
      | error first =>
        rw [made] at h
        cases h
        exact toBytes_bare made
    · cases h

/-- Nor does its source. -/
theorem source_raisesBare (r : Registry) : r.source.RaisesBare where
  properties className e h := by
    rcases bind_eq_error.mp h with absent | ⟨number, -, h⟩
    · exact class?_bare absent
    · rcases bind_eq_error.mp h with unread | ⟨types, -, h⟩
      · exact annotatedProperties_bare unread
      · cases h
  members owner name e h := by
    rcases bind_eq_error.mp h with absent | ⟨number, -, h⟩
    · exact class?_bare absent
    · split at h
      · split at h
        · split at h
          · cases h
          · cases h
          · cases h
            exact .ofCause _
        · cases h
          exact .ofCause _
      · cases h
        exact .ofCause _

end Annotated.Registry

end ReflectedSchema
