import Mathlib
import ReflectedSchema.Annotated.Instance

/-!
# Names of registered classes

A registry keeps the class of each name and, beside it, the name of each class.  Registering is the only
thing that writes to the two maps, so what they hold is told by the history of the names that were
granted: a name belongs to the class that it was given to last, and a class goes by the name that it was
given last, unless it lost a name since.

A name that is given to another class is not only taken from the class that held it: that class then goes
by no name at all, even if it still holds another one.  `registry_maps_agree` says when this is so, and
that instances of such a class, and of no other that is registered, refuse all their properties.
-/

namespace ReflectedSchema

/-- A class is unknown to the host. -/
def Raised.IsUnknownClass (e : Raised) : Prop :=
  ∃ name stated, e = .ofCause (.unknownClass name stated)

namespace Annotated

/-! ## Histories of names -/

/-- Classes and the names that were given to them, the oldest first. -/
abbrev History := List (Nat × String)

namespace History

/-- The class that a name was given to last. -/
def holder? (h : History) (name : String) : Option Nat :=
  (h.reverse.find? (·.2 = name)).map (·.1)

/-- The name that a class was given last. -/
def lastName? (h : History) (number : Nat) : Option String :=
  (h.reverse.find? (·.1 = number)).map (·.2)

/-- A class lost a name: a name that it held was given to another class, and it was given none since. -/
def Loses (h : History) (number : Nat) : Prop :=
  ∃ before other name after, h = before ++ (other, name) :: after ∧ other ≠ number ∧
    holder? before name = some number ∧ ∀ g ∈ after, g.1 ≠ number

variable {h : History} {number other : Nat} {name wanted : String}

/-- A name is held by the class that it was given to last. -/
theorem holder?_concat : holder? (h ++ [(number, name)]) wanted =
    if name = wanted then some number else holder? h wanted := by
  simp only [holder?, List.reverse_append, List.reverse_singleton, List.singleton_append,
    List.find?_cons]
  by_cases same : name = wanted <;> simp [same]

/-- A class goes by the name that was given to it last. -/
theorem lastName?_concat : lastName? (h ++ [(other, name)]) number =
    if other = number then some name else lastName? h number := by
  simp only [lastName?, List.reverse_append, List.reverse_singleton, List.singleton_append,
    List.find?_cons]
  by_cases same : other = number <;> simp [same]

/-- Giving a name to another class makes the holder of the name lose it, and undoes no loss. -/
theorem loses_concat : Loses (h ++ [(other, name)]) number ↔
    other ≠ number ∧ (holder? h name = some number ∨ Loses h number) := by
  constructor
  · rintro ⟨before, taker, taken, after, split, hne, held, later⟩
    -- The loss is the last entry, or it stands in the history before.
    rcases List.eq_nil_or_concat' after with rfl | ⟨after, last, rfl⟩
    · obtain ⟨rfl, same⟩ := List.append_inj' split rfl
      obtain ⟨rfl, rfl⟩ := Prod.mk.inj (List.singleton_inj.mp same)
      exact ⟨hne, .inl held⟩
    · rw [← List.cons_append, ← List.append_assoc] at split
      obtain ⟨rfl, same⟩ := List.append_inj' split rfl
      obtain rfl := List.singleton_inj.mp same
      refine ⟨later (other, name) (by simp), .inr ⟨before, taker, taken, after, rfl, hne, held, fun g hg => ?_⟩⟩
      exact later g (List.mem_append_left _ hg)
  · rintro ⟨hne, held | ⟨before, taker, taken, after, rfl, hne', held, later⟩⟩
    · exact ⟨h, other, name, [], rfl, hne, held, fun g hg => absurd hg List.not_mem_nil⟩
    · refine ⟨before, taker, taken, after ++ [(other, name)], by simp, hne', held, fun g hg => ?_⟩
      rcases List.mem_append.mp hg with hg | hg
      · exact later g hg
      · rwa [List.mem_singleton.mp hg]

/-- A class that lost no name still holds the name that it was given last. -/
theorem holder?_of_lastName? (hl : lastName? h number = some name) (keeps : ¬ Loses h number) :
    holder? h name = some number := by
  induction h using List.reverseRecOn with
  | nil => cases hl
  | append_singleton h g ih =>
    obtain ⟨other, given⟩ := g
    rw [lastName?_concat] at hl
    rw [loses_concat] at keeps
    rw [holder?_concat]
    by_cases same : other = number
    · rw [if_pos same] at hl
      rw [if_pos (Option.some.inj hl), same]
    · rw [if_neg same] at hl
      obtain ⟨unheld, keeps⟩ := not_or.mp fun lost => keeps ⟨same, lost⟩
      have held := ih hl keeps
      rw [if_neg fun given_name : given = name => unheld (given_name ▸ held), held]

/-- A class that holds a name was given one. -/
theorem exists_lastName? (hh : holder? h name = some number) :
    ∃ last, lastName? h number = some last := by
  induction h using List.reverseRecOn with
  | nil => cases hh
  | append_singleton h g ih =>
    obtain ⟨other, given⟩ := g
    rw [holder?_concat] at hh
    rw [lastName?_concat]
    by_cases same : other = number
    · exact ⟨given, if_pos same⟩
    · rw [if_neg same]
      by_cases hg : given = name
      · rw [if_pos hg] at hh
        exact absurd (Option.some.inj hh) same
      · rw [if_neg hg] at hh
        exact ih hh

end History

/-! ## Runs of registrations -/

/-- A class that is to be registered, under its own name if it is given none. -/
structure Registration where
  number : Nat
  name : Option String := none

/-- The name that a registration asks for. -/
def Program.nameFor (p : Program) (x : Registration) : String :=
  match x.name with
  | none | some "" => ((p.type? x.number).map (·.name)).getD ""
  | some name => name

/-- The names that a run of registrations grants; the names of value structs are refused. -/
def Program.granted (p : Program) (run : List Registration) : History :=
  (run.map fun x => (x.number, p.nameFor x)).filter fun g => !StructTag.names.contains g.2

/-- A registry after a registration, which changes nothing if it is refused. -/
def Registry.perform (r : Registry) (x : Registration) : Registry :=
  match r.register x.number x.name with
  | .ok (next, _) => next
  | .error _ => r

/-- The registry of a program after a run of registrations. -/
def Program.registry (p : Program) (run : List Registration) : Registry :=
  run.foldl Registry.perform { program := p }

namespace Registry

variable {r : Registry} {x : Registration} {h : History}

/-- A registration is refused if it asks for the name of a value struct. -/
theorem perform_of_reserved (reserved : r.program.nameFor x ∈ StructTag.names) : r.perform x = r := by
  have refused : r.register x.number x.name = .error (.reservedName (r.program.nameFor x)) :=
    if_pos (List.contains_iff_mem.mpr reserved)
  rw [perform, refused]

/-- Any other registration gives the name to the class and the class the name, and another class that held
the name goes by none. -/
theorem perform_of_free (free : r.program.nameFor x ∉ StructTag.names) :
    (r.perform x).program = r.program ∧
      (r.perform x).classes = Json.set (r.program.nameFor x) x.number r.classes ∧
      ∀ number, (r.perform x).name? number =
        if number = x.number then some (r.program.nameFor x)
        else if Json.lookup (r.program.nameFor x) r.classes = some number then none
        else r.name? number := by
  have granted : ¬ (StructTag.names.contains (r.program.nameFor x) = true) :=
    fun reserved => free (List.contains_iff_mem.mp reserved)
  unfold perform register name?
  extract_lets own wanted registered
  have same : wanted = r.program.nameFor x := rfl
  clear_value wanted
  subst same
  rw [if_neg granted]
  cases Json.lookup (r.program.nameFor x) r.classes with
  | none => simp [Json.lookup_set]
  | some previous =>
    by_cases hp : previous = x.number
    · simp only [if_pos hp, Json.lookup_set, true_and, Option.some.injEq]
      intro number
      by_cases hn : number = x.number
      · rw [if_pos hn, if_pos hn]
      · have other : previous ≠ number := fun held => hn (held ▸ hp)
        rw [if_neg hn, if_neg hn, if_neg other]
    · simp only [if_neg hp, Json.lookup_set, Json.lookup_erase, true_and, Option.some.injEq]
      intro number
      simp only [eq_comm (a := number) (b := previous)]

/-- A registry records a history of names: a name belongs to the class that it was given to last, and a
class goes by the name that it was given last unless it lost one since. -/
structure Records (r : Registry) (h : History) : Prop where
  classes : ∀ name, Json.lookup name r.classes = h.holder? name
  names : ∀ number name,
    r.name? number = some name ↔ h.lastName? number = some name ∧ ¬ h.Loses number

/-- Before any registration there is nothing to record. -/
theorem Records.empty (p : Program) : Records { program := p } [] where
  classes _ := rfl
  names _ _ := iff_of_false (fun h => nomatch h) fun h => nomatch h.1

/-- **What a registration adds to the history is recorded.** -/
theorem Records.perform (records : r.Records h) (free : r.program.nameFor x ∉ StructTag.names) :
    (r.perform x).Records (h ++ [(x.number, r.program.nameFor x)]) := by
  obtain ⟨-, classes, names⟩ := perform_of_free free
  constructor
  · intro name
    rw [classes, Json.lookup_set, History.holder?_concat, records.classes]
    simp only [eq_comm]
  · intro number name
    rw [names, History.lastName?_concat, History.loses_concat, records.classes]
    by_cases same : number = x.number
    · simp [same]
    · rw [if_neg same, if_neg (Ne.symm same)]
      by_cases held : h.holder? (r.program.nameFor x) = some number
      · simp [held, Ne.symm same]
      · rw [if_neg held, records.names]
        simp [held, Ne.symm same]

end Registry

/-- Registering leaves the program alone. -/
theorem Registry.program_perform (r : Registry) (x : Registration) : (r.perform x).program = r.program := by
  by_cases free : r.program.nameFor x ∈ StructTag.names
  · rw [perform_of_reserved free]
  · exact (perform_of_free free).1

/-- A run with one more registration performs it last. -/
theorem Program.registry_concat (p : Program) (run : List Registration) (x : Registration) :
    p.registry (run ++ [x]) = (p.registry run).perform x := by
  rw [registry, List.foldl_append]
  rfl

/-- Registering leaves the program as it is. -/
theorem Program.program_registry (p : Program) (run : List Registration) :
    (p.registry run).program = p := by
  induction run using List.reverseRecOn with
  | nil => rfl
  | append_singleton run x ih => rw [registry_concat, Registry.program_perform, ih]

/-- **A registry records the names that were granted**, whatever was registered in whatever order. -/
theorem Program.registry_records (p : Program) (run : List Registration) :
    (p.registry run).Records (p.granted run) := by
  induction run using List.reverseRecOn with
  | nil => exact .empty p
  | append_singleton run x ih =>
    have same := p.program_registry run
    rw [registry_concat, granted, List.map_append, List.filter_append, ← granted]
    by_cases free : p.nameFor x ∈ StructTag.names
    · rw [Registry.perform_of_reserved (same.symm ▸ free)]
      simpa [free] using ih
    · have recorded := ih.perform (same.symm ▸ free)
      rw [same] at recorded
      simpa [free] using recorded

/-! ## Instances of registered classes -/

/-- A new instance is of its class and has no attributes. -/
theorem Program.newInstance_eq_ok {p : Program} {number : Nat} {object : HostValue}
    (h : p.newInstance number = .ok object) :
    ∃ c, object = .instance c [] ∧ c.number = number := by
  unfold newInstance at h
  split at h
  · cases h
  · split at h
    · exact ⟨_, (Except.ok.inj h).symm, rfl⟩
    · dsimp only at h
      split at h
      · cases h
      · cases h
      · exact ⟨_, (Except.ok.inj h).symm, rfl⟩
  · cases h

namespace Registry

variable {r : Registry}

/-- What is constructed is a new instance of the class with the name. -/
theorem construct_new {name : String} {object : HostValue} (h : r.construct name = .ok object) :
    ∃ c, object = .instance c [] ∧ r.class? name = .ok c.number := by
  unfold construct at h
  cases hc : r.class? name with
  | error e =>
    rw [hc] at h
    cases h
  | ok number =>
    rw [hc] at h
    cases made : r.program.newInstance number with
    | error thrown =>
      simp only [bind, Except.bind, made] at h
      split at h <;> cases h
    | ok new =>
      simp only [bind, Except.bind, made] at h
      cases h
      obtain ⟨c, rfl, rfl⟩ := Program.newInstance_eq_ok made
      exact ⟨c, rfl, rfl⟩

/-- What is constructed is an instance of the class that the name stands for. -/
theorem construct_eq_ok {name : String} {object : HostValue} (h : r.construct name = .ok object) :
    ∃ c attributes, object = .instance c attributes ∧ r.class? name = .ok c.number :=
  let ⟨c, new, known⟩ := construct_new h
  ⟨c, [], new, known⟩

/-- The annotations of a class are never refused for want of a class. -/
theorem annotatedProperties_eq_error {number : Nat} {e : Raised}
    (h : r.annotatedProperties number = .error e) : ¬ e.IsUnknownClass := by
  rintro ⟨name, stated, rfl⟩
  unfold annotatedProperties at h
  dsimp only at h
  split at h <;> cases h

/-- **An instance refuses its properties for want of a class** exactly if its class goes by no name. -/
theorem setProperty_isUnknownClass_iff (c : ClassId) (attributes : List (String × HostValue))
    (property : String) (value : HostValue) :
    (∃ e, r.setProperty (.instance c attributes) property value = .error e ∧ e.IsUnknownClass) ↔
      r.name? c.number = none := by
  unfold setProperty
  dsimp only
  cases r.name? c.number with
  | none => exact iff_of_true ⟨_, rfl, _, _, rfl⟩ rfl
  | some name =>
    refine iff_of_false ?_ (by simp)
    rintro ⟨e, refused, unknown⟩
    cases hd : r.annotatedProperties c.number with
    | error e' =>
      rw [hd] at refused
      cases refused
      exact annotatedProperties_eq_error hd unknown
    | ok declared =>
      simp only [hd, bind, Except.bind] at refused
      split at refused
      · cases refused
        obtain ⟨_, _, other⟩ := unknown
        cases other
      · split at refused
        · cases refused
        · split at refused <;> cases refused <;> obtain ⟨_, _, other⟩ := unknown <;> cases other

end Registry

/-! ## The main result -/

/-- **The two maps of a registry**, after any run of registrations.  The class of each name that a class
goes by is that class.  A class with a name goes by no name exactly if it lost one: another name that it
held was given to another class after it was registered for the last time.  An object that is constructed
then refuses every property for want of its class, and otherwise it refuses none for that. -/
theorem registry_maps_agree (p : Program) (run : List Registration) :
    (∀ number name, (p.registry run).name? number = some name →
      (p.registry run).class? name = .ok number) ∧
    (∀ name number, (p.registry run).class? name = .ok number →
      ((p.registry run).name? number = none ↔ (p.granted run).Loses number)) ∧
    ∀ name object, (p.registry run).construct name = .ok object →
      ∃ number, (p.registry run).class? name = .ok number ∧ ∀ property value,
        (∃ e, (p.registry run).setProperty object property value = .error e ∧ e.IsUnknownClass) ↔
          (p.granted run).Loses number := by
  have records := p.registry_records run
  have holds {name : String} {number : Nat} : (p.registry run).class? name = .ok number ↔
      (p.granted run).holder? name = some number := by
    rw [← records.classes, Registry.class?]
    cases Json.lookup name (p.registry run).classes <;> simp
  have named {name : String} {number : Nat} (h : (p.registry run).class? name = .ok number) :
      (p.registry run).name? number = none ↔ (p.granted run).Loses number := by
    obtain ⟨last, given⟩ := History.exists_lastName? (holds.mp h)
    rw [Option.eq_none_iff_forall_ne_some]
    refine ⟨fun unnamed => ?_, fun loses name kept => ((records.names number name).mp kept).2 loses⟩
    by_contra keeps
    exact unnamed last ((records.names number last).mpr ⟨given, keeps⟩)
  refine ⟨fun number name h => ?_, fun name number h => named h, fun name object made => ?_⟩
  · obtain ⟨given, keeps⟩ := (records.names number name).mp h
    exact holds.mpr (History.holder?_of_lastName? given keeps)
  · obtain ⟨c, attributes, rfl, known⟩ := Registry.construct_eq_ok made
    refine ⟨c.number, known, fun property value => ?_⟩
    rw [Registry.setProperty_isUnknownClass_iff, named known]

/-- Notes and memos. -/
def stationery : Program :=
  .ofItems "office" "structs" [
    .class "Note" [] [.property "text" (.name "str" [])],
    .class "Memo" [] [.property "text" (.name "str" [])]]

/-- A note is known under two names, of which memos take the second. -/
def renamings : List Registration := [⟨0, none⟩, ⟨0, some "Entry"⟩, ⟨1, some "Entry"⟩]

/-- A note that lost a name keeps the other, under which it is constructed, and yet it goes by none: its
text cannot be set. -/
theorem note_goes_by_no_name :
    (stationery.registry renamings).class? "Note" = .ok 0 ∧
      (stationery.registry renamings).name? 0 = none ∧
      ∃ note, (stationery.registry renamings).construct "Note" = .ok note ∧
        (stationery.registry renamings).setProperty note "text" (.data (.str "hello")) =
          .error (.ofCause (.unknownClass "Note" none)) := by
  refine ⟨by rfl, by rfl, _, by rfl, by rfl⟩

end Annotated

end ReflectedSchema
