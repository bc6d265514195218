import ReflectedSchema.Proofs.Hosts.Recording
import ReflectedSchema.Proofs.Hosts.Tabulated
import ReflectedSchema.Proofs.Json.Order

/-!
# Hosts that do not see the order of keys

Two runs are compared, from states of the host that are related: `HostM.Alike` says that they end alike,
in results that are related or in errors of the same class, context and path, and in related states.
There is one rule for each way to put calls together.

A host is blind to the order of keys when it answers alike to calls that are the same but for the order
of keys inside plain data.  Then so does its recording, and tabulated hosts are blind.
-/

namespace ReflectedSchema

/-! ## Values and errors -/

/-- Host values that are the same but for the order of keys inside plain data. -/
inductive HostValue.Reordered : HostValue → HostValue → Prop
  | refl (value : HostValue) : Reordered value value
  | data {v w : Json} (h : v.Reordered w) : Reordered (.data v) (.data w)
  | list {xs ys : List HostValue} (h : List.Forall₂ Reordered xs ys) : Reordered (.list xs) (.list ys)
  | tuple {xs ys : List HostValue} (h : List.Forall₂ Reordered xs ys) : Reordered (.tuple xs) (.tuple ys)
  | struct (tag : StructTag) {xs ys : List (String × HostValue)} (names : xs.map (·.1) = ys.map (·.1))
      (values : List.Forall₂ Reordered (xs.map (·.2)) (ys.map (·.2))) :
      Reordered (.struct tag xs) (.struct tag ys)
  | instance (of : ClassId) {xs ys : List (String × HostValue)} (names : xs.map (·.1) = ys.map (·.1))
      (values : List.Forall₂ Reordered (xs.map (·.2)) (ys.map (·.2))) :
      Reordered (.instance of xs) (.instance of ys)
  | record (className : String) {xs ys : List (String × HostValue)}
      (names : xs.map (·.1) = ys.map (·.1))
      (values : List.Forall₂ Reordered (xs.map (·.2)) (ys.map (·.2))) :
      Reordered (.record className xs) (.record className ys)

namespace HostValue

/-- Named values that are the same but for the order of keys inside plain data: the names are, in the same
order. -/
def SameFields : List (String × HostValue) → List (String × HostValue) → Prop :=
  List.Forall₂ fun x y => x.1 = y.1 ∧ x.2.Reordered y.2

namespace SameFields

variable {xs ys : List (String × HostValue)}

/-- The names are the same, in the same order. -/
theorem names (h : SameFields xs ys) : xs.map (·.1) = ys.map (·.1) := by
  induction h with
  | nil => rfl
  | cons first _ ih => rw [List.map_cons, List.map_cons, first.1, ih]

/-- The values are the same one by one, but for the order of keys inside them. -/
theorem values (h : SameFields xs ys) : List.Forall₂ Reordered (xs.map (·.2)) (ys.map (·.2)) := by
  induction h with
  | nil => exact .nil
  | cons first _ ih => exact .cons first.2 ih

/-- The same names are found, with values that are the same. -/
theorem lookup (h : SameFields xs ys) (name : String) :
    Option.Rel Reordered (Json.lookup name xs) (Json.lookup name ys) := by
  induction h with
  | nil => exact .none
  | @cons x y _ _ first _ ih =>
    obtain ⟨key, value⟩ := x
    obtain ⟨other, value'⟩ := y
    obtain ⟨rfl, same⟩ : key = other ∧ value.Reordered value' := first
    by_cases hk : key = name
    · rw [Json.lookup, Json.lookup, if_pos hk, if_pos hk]
      exact .some same
    · rw [Json.lookup, Json.lookup, if_neg hk, if_neg hk]
      exact ih

/-- What is looked for by its name is found under the same name. -/
theorem find? (h : SameFields xs ys) (p : String → Bool) :
    Option.Rel (fun x y => x.1 = y.1) (xs.find? fun x => p x.1) (ys.find? fun y => p y.1) := by
  induction h with
  | nil => exact .none
  | @cons x y _ _ first _ ih =>
    rw [List.find?_cons, List.find?_cons, ← first.1]
    cases p x.1 with
    | true => exact .some first.1
    | false => exact ih

end SameFields

variable {a b : HostValue}

/-- An integer has no keys to reorder. -/
theorem Reordered.int?_eq (h : a.Reordered b) : a.int? = b.int? := by
  cases h with
  | data h => cases h <;> rfl
  | _ => rfl

/-- A list that is frozen is frozen with the same items. -/
theorem Reordered.frozen (h : a.Reordered b) : a.frozen.Reordered b.frozen := by
  cases h with
  | refl => exact .refl _
  | list h => exact .tuple h
  | data h =>
    cases h with
    | arr length each =>
      refine .tuple (List.forall₂_map_left_iff.mpr (List.forall₂_map_right_iff.mpr ?_))
      exact (Json.Reordered.arr length each).items.imp fun _ _ => .data
    | obj distinct keys each => exact .data (.obj distinct keys each)
    | _ => exact .refl _
  | tuple h => exact .tuple h
  | struct tag names values => exact .struct tag names values
  | «instance» of names values => exact .instance of names values
  | record className names values => exact .record className names values

end HostValue

/-- The pointer that a cause carries. -/
def Cause.path? : Cause → Option String
  | .violation path _ => some path
  | _ => none

/-- Errors of the same class, context and path.  Their wordings may differ. -/
inductive Raised.Alike : Raised → Raised → Prop
  | failure {f g : Failure} (code : f.cause.code = g.cause.code) (context : f.context = g.context)
      (path : f.cause.path? = g.cause.path?) : Alike (.failure f) (.failure g)
  | fault (f : Fault) : Alike (.fault f) (.fault f)
  | raised (sort : ExceptionClass) (text other : String) :
    Alike (.fault (.raised sort text)) (.fault (.raised sort other))

/-- Two ends of runs: related results, or errors that are alike. -/
inductive EndAlike {α β : Type} (P : α → β → Prop) : Except Raised α → Except Raised β → Prop
  | ok {a : α} {b : β} (h : P a b) : EndAlike P (.ok a) (.ok b)
  | error {e f : Raised} (h : e.Alike f) : EndAlike P (.error e) (.error f)

namespace Raised.Alike

/-- What is raised is like itself. -/
theorem refl (e : Raised) : e.Alike e := by
  cases e with
  | failure f => exact .failure rfl rfl rfl
  | fault f => exact .fault f

/-- What is raised alike is annotated alike. -/
theorem annotate {e f : Raised} (h : e.Alike f) (owner property : String) :
    (e.annotate owner property).Alike (f.annotate owner property) := by
  cases h with
  | failure code context path =>
    exact .failure code (by rw [Failure.annotate, Failure.annotate, context]) path
  | fault f => exact .fault f
  | raised sort text other => exact .raised sort text other

/-- Violations at the same place are alike if both or neither concern a member of an enumeration. -/
theorem violation {v w : Violation} (location : Location) (h : v.isUnknownMember = w.isUnknownMember) :
    (Raised.violation location v).Alike (Raised.violation location w) := by
  refine .failure ?_ rfl rfl
  show (if v.isUnknownMember then _ else _) = (if w.isUnknownMember then _ else _)
  rw [h]

/-- Alike errors are reported alike where calls that nest too deep count as a violation. -/
theorem settled {e f : Raised} (h : e.Alike f) : e.settled.Alike f.settled := by
  cases h with
  | failure code context path => exact .failure code context path
  | fault f => exact .refl _
  | raised sort text other =>
    cases deep : sort.isA "RecursionError" with
    | true =>
      rw [settled_of_recursion (f := .raised sort text) deep, settled_of_recursion (f := .raised sort other) deep]
      exact .refl _
    | false =>
      rw [settled_of_not_recursion (f := .raised sort text) deep,
        settled_of_not_recursion (f := .raised sort other) deep]
      exact .raised sort text other

end Raised.Alike

/-- An ending is like itself. -/
theorem EndAlike.refl {α : Type} {P : α → α → Prop} (h : ∀ a, P a a) (e : Except Raised α) :
    EndAlike P e e := by
  cases e with
  | ok a => exact .ok (h a)
  | error e => exact .error (.refl e)

/-- Ends that are alike are reported alike. -/
theorem EndAlike.settled {α β : Type} {P : α → β → Prop} {e : Except Raised α} {f : Except Raised β}
    (h : EndAlike P e f) : EndAlike P (e.mapError Raised.settled) (f.mapError Raised.settled) := by
  cases h with
  | ok h => exact .ok h
  | error h => exact .error h.settled

/-- Sequences end alike if their first steps do, and what follows on results that are related. -/
theorem EndAlike.bind {α β γ δ : Type} {P : α → β → Prop} {Q : γ → δ → Prop} {e : Except Raised α}
    {f : Except Raised β} {next : α → Except Raised γ} {next' : β → Except Raised δ} (h : EndAlike P e f)
    (hn : ∀ a b, P a b → EndAlike Q (next a) (next' b)) : EndAlike Q (e >>= next) (f >>= next') := by
  cases h with
  | ok h => exact hn _ _ h
  | error h => exact .error h

/-! ## Two runs -/

namespace HostM

variable {σ α β γ δ : Type} {R : σ → σ → Prop} {P : α → β → Prop} {Q : γ → δ → Prop}

/-- From related states, two calls end alike and in related states. -/
def Alike (R : σ → σ → Prop) (P : α → β → Prop) (call : HostM σ α) (other : HostM σ β) : Prop :=
  ∀ s t, R s t →
    EndAlike P ((ExceptT.run call).run s).1 ((ExceptT.run other).run t).1 ∧
    R ((ExceptT.run call).run s).2 ((ExceptT.run other).run t).2

namespace Alike

variable {call : HostM σ α} {other : HostM σ β}

/-- Calls that do nothing but end run alike if they end alike. -/
theorem of_ends {e : Except Raised α} {f : Except Raised β} (h : EndAlike P e f) :
    Alike R P (ofExcept e) (ofExcept f) :=
  fun _ _ hr => ⟨h, hr⟩

/-- Results that are related. -/
theorem of_pure {a : α} {b : β} (h : P a b) : Alike R P (pure a) (pure b) :=
  of_ends (.ok h)

/-- Errors that are alike. -/
theorem of_throw {e f : Raised} (h : e.Alike f) : Alike R P (throw e) (throw f) :=
  of_ends (.error h)

/-- Sequences run alike if their first calls do, and what follows on results that are related. -/
theorem bind {next : α → HostM σ γ} {next' : β → HostM σ δ} (h : Alike R P call other)
    (hn : ∀ a b, P a b → Alike R Q (next a) (next' b)) :
    Alike R Q (call >>= next) (other >>= next') := by
  intro s t hr
  obtain ⟨ends, after⟩ := h s t hr
  rw [ExceptT.run_bind, StateT.run_bind, ExceptT.run_bind, StateT.run_bind]
  rcases hc : (ExceptT.run call).run s with ⟨e, s'⟩
  rcases ho : (ExceptT.run other).run t with ⟨f, t'⟩
  rw [hc, ho] at ends after
  cases ends with
  | ok h => exact hn _ _ h s' t' after
  | error h => exact ⟨.error h, after⟩

/-- Noting a property keeps calls alike. -/
theorem within {owner property : String} (h : Alike R P call other) :
    Alike R P (within owner property call) (HostM.within owner property other) := by
  intro s t hr
  obtain ⟨ends, after⟩ := h s t hr
  rw [run_within, run_within]
  rcases hc : (ExceptT.run call).run s with ⟨e, s'⟩
  rcases ho : (ExceptT.run other).run t with ⟨f, t'⟩
  rw [hc, ho] at ends after
  cases ends with
  | ok h => exact ⟨.ok h, after⟩
  | error h => exact ⟨.error (h.annotate owner property), after⟩

end Alike

end HostM

/-! ## Blind hosts -/

/-- Make a call. -/
def Host.make {σ : Type} (host : Host σ) : Call → HostM σ HostValue
  | .construct className => host.construct className
  | .setProperty object property value => host.setProperty object property value
  | .constructStruct type components => host.constructStruct type components
  | .constructPacked type items => host.constructPacked type items

/-- Calls that are the same but for the order of keys inside plain data. -/
inductive Call.Alike : Call → Call → Prop
  | construct (className : String) : Alike (.construct className) (.construct className)
  | setProperty {object object' value value' : HostValue} (property : String)
      (ho : object.Reordered object') (hv : value.Reordered value') :
      Alike (.setProperty object property value) (.setProperty object' property value')
  | constructStruct (type : TypeTag) {xs ys : List (String × HostValue)}
      (h : HostValue.SameFields xs ys) : Alike (.constructStruct type xs) (.constructStruct type ys)
  | constructPacked (type : TypeTag) {xs ys : List HostValue}
      (h : List.Forall₂ HostValue.Reordered xs ys) :
      Alike (.constructPacked type xs) (.constructPacked type ys)

/-- Calls that are the same but for the order of keys, with answers that are alike. -/
structure Event.Alike (e f : Event) : Prop where
  call : e.call.Alike f.call
  answer : EndAlike HostValue.Reordered e.answer f.answer

/-- A host is blind to the order of keys: from related states it answers alike to calls that are the same
but for the order of keys, and its states stay related. -/
def Host.OrderBlind {σ : Type} (host : Host σ) (R : σ → σ → Prop) : Prop :=
  ∀ call other, Call.Alike call other →
    HostM.Alike R HostValue.Reordered (host.make call) (host.make other)

/-- The recording of a blind host is blind, and what it records is alike. -/
theorem Host.OrderBlind.recorded {σ : Type} {host : Host σ} {R : σ → σ → Prop} (h : host.OrderBlind R) :
    host.recorded.OrderBlind fun s t => R s.1 t.1 ∧ List.Forall₂ Event.Alike s.2 t.2 := by
  have make (call : Call) : host.recorded.make call = .recording call (host.make call) := by
    cases call <;> rfl
  rintro call other same ⟨s, events⟩ ⟨t, events'⟩ ⟨hr, before⟩
  obtain ⟨ends, after⟩ := h call other same s t hr
  rw [make, make]
  exact ⟨ends, after, List.rel_append before (.cons ⟨same, ends⟩ .nil)⟩

/-! ## Tabulated hosts -/

/-- Value structs of the same components are the same. -/
theorem HostValue.SameFields.ofComponents {xs ys : List (String × HostValue)} (h : SameFields xs ys)
    (type : TypeTag) :
    EndAlike Reordered (HostValue.ofComponents type xs) (HostValue.ofComponents type ys) := by
  cases type with
  | struct tag =>
    have unknown : Option.Rel (fun x y => x.1 = y.1)
        (xs.find? fun e => (Json.lookup e.1 tag.layout).isNone)
        (ys.find? fun e => (Json.lookup e.1 tag.layout).isNone) :=
      h.find? fun name => (Json.lookup name tag.layout).isNone
    rw [HostValue.ofComponents, HostValue.ofComponents]
    generalize xs.find? (fun e => (Json.lookup e.1 tag.layout).isNone) = x,
      ys.find? (fun e => (Json.lookup e.1 tag.layout).isNone) = y at unknown
    cases unknown with
    | @some x y same =>
      obtain ⟨name, value⟩ := x
      obtain ⟨other, value'⟩ := y
      obtain rfl : name = other := same
      exact .error (.refl _)
    | none =>
      refine .ok (.struct tag (by rw [List.map_map, List.map_map]; rfl) ?_)
      rw [List.map_map, List.map_map, List.forall₂_map_left_iff, List.forall₂_map_right_iff,
        List.forall₂_same]
      rintro ⟨name, kind⟩ _
      dsimp only [Function.comp_apply]
      have given := h.lookup name
      generalize Json.lookup name xs = x, Json.lookup name ys = y at given ⊢
      cases given with
      | some same => exact same.frozen
      | none => exact .refl _
  | _ => exact .error (.refl _)

namespace Table

variable {t : Table}

/-- A record takes a property or refuses it, whatever is in it. -/
theorem setProperty_record_alike {name property : String} {xs ys : List (String × HostValue)}
    {value value' : HostValue} (names : xs.map (·.1) = ys.map (·.1))
    (values : List.Forall₂ HostValue.Reordered (xs.map (·.2)) (ys.map (·.2)))
    (hv : value.Reordered value') :
    EndAlike HostValue.Reordered (t.setProperty (.record name xs) property value)
      (t.setProperty (.record name ys) property value') := by
  refine EndAlike.bind (EndAlike.refl (fun _ => rfl) (t.class? name)) ?_
  rintro c _ rfl
  dsimp only
  split
  · exact .error (.refl _)
  · split
    · exact .error (.refl _)
    · refine .ok (.record name ?_ ?_)
      · rw [List.map_append, List.map_append, names]
        rfl
      · rw [List.map_append, List.map_append]
        exact List.rel_append values (.cons hv .nil)

/-- **Tabulated hosts are blind to the order of keys.** -/
theorem orderBlind (t : Table) : t.host.OrderBlind (· = ·) := by
  intro call other same
  cases same with
  | construct className => exact .of_ends (.refl .refl _)
  | @setProperty object object' value value' property ho hv =>
    refine .of_ends ?_
    cases ho with
    | refl object =>
      cases object with
      | record name properties =>
        exact setProperty_record_alike rfl (List.forall₂_same.mpr fun x _ => .refl x) hv
      | _ => exact .error (.refl _)
    | record name names values => exact setProperty_record_alike names values hv
    | _ => exact .error (.failure rfl rfl rfl)
  | constructStruct type h => exact .of_ends (h.ofComponents type)
  | constructPacked type h => exact .of_pure (.list h)

end Table

end ReflectedSchema
