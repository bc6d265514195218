import ReflectedSchema.Proofs.Building.Graph

/-!
# Proper kinds

What a resolved kind looks like, inside and out: its classes and the owners of its enumerations are known,
the path of an enumeration leads back to its owner and its name, value structs and packed arrays have what
they are made of, lengths are fixed only inside value structs, and at most two arrays stand in each other.
`kinds_are_decided_by_rows` says so of every property that has a kind by the decision table.
-/

namespace ReflectedSchema

/-! ## What is inside a kind -/

namespace Kind

/-- The kinds directly inside a kind: that of the items of an array, or those of the components of a
value struct. -/
def parts : Kind → List Kind
  | .struct tag => tag.layout.map (·.2)
  | kind => kind.element?.toList

/-- A kind is inside another at any depth, or the same. -/
def Holds : Kind → Kind → Prop :=
  Relation.ReflTransGen fun whole part => part ∈ whole.parts

/-- The same without going into value structs. -/
def HoldsOpenly : Kind → Kind → Prop :=
  Relation.ReflTransGen fun whole item => whole.element? = some item

/-- Whether the values of a kind are arrays. -/
def isArray : Kind → Bool
  | .anyArray _ | .array .. | .packed _ => true
  | _ => false

/-- A way into a kind leads through a number of arrays. -/
inductive Nests : Kind → Nat → Prop
  | here (kind : Kind) : Nests kind kind.isArray.toNat
  | inside {whole part : Kind} {n : Nat} (h : part ∈ whole.parts) (hp : Nests part n) :
      Nests whole (whole.isArray.toNat + n)

/-- What a kind that a property resolves to looks like, inside and out. -/
structure Proper (known : String → Bool) (kind : Kind) : Prop where
  /-- Every class is known. -/
  objects : ∀ className, kind.Holds (.object className) → known className = true
  /-- The owner of every enumeration is known, and the path leads back to owner and name. -/
  enums : ∀ owner name flags, kind.Holds (.enum owner name flags) →
    known owner = true ∧ IsUndotted owner ∧ IsUndotted name ∧
      Text.split '.' (enumPath owner name).toList = [owner.toList, name.toList]
  /-- Every value struct has components. -/
  structs : ∀ tag, kind.Holds (.struct tag) → tag.layout ≠ []
  /-- Every packed array has a kind of items, which are no arrays. -/
  packed : ∀ tag, kind.Holds (.packed tag) →
    ∃ item, (Kind.packed tag).element? = some item ∧ item.isArray = false
  /-- Outside value structs, no array has a fixed length. -/
  lengths : ∀ item, kind.HoldsOpenly item → item.length? = none
  /-- At most two arrays stand in each other, those inside value structs included. -/
  nesting : ∀ n, kind.Nests n → n ≤ 2

variable {known : String → Bool} {kind part item : Kind}

/-- What is inside a well-formed kind is well-formed. -/
theorem WellFormed.of_mem_parts (h : kind.WellFormed known) (hp : part ∈ kind.parts) :
    part.WellFormed known := by
  cases kind with
  | struct tag =>
    obtain ⟨component, hc, rfl⟩ := List.mem_map.mp hp
    exact tag.wellFormed_layout known hc
  | array element length =>
    obtain rfl := List.mem_singleton.mp hp
    exact h
  | packed tag =>
    obtain rfl := List.mem_singleton.mp hp
    cases tag <;> trivial
  | _ => cases hp

/-- Whatever is inside a well-formed kind is well-formed. -/
theorem WellFormed.holds (h : kind.WellFormed known) (hp : kind.Holds part) : part.WellFormed known := by
  induction hp with
  | refl => exact h
  | tail _ hp ih => exact ih.of_mem_parts hp

/-- How many arrays stand in each other inside a kind. -/
def nesting : Kind → Nat
  | .struct .basis | .struct .projection | .struct .transform3d => 1
  | .anyArray _ | .packed _ => 1
  | .array element _ => element.nesting + 1
  | _ => 0

/-- An array nests one level more than its items. -/
theorem nesting_part (h : part ∈ kind.parts) : kind.isArray.toNat + part.nesting ≤ kind.nesting := by
  cases kind with
  | struct tag =>
    have all : ∀ tag : StructTag, ∀ part ∈ (Kind.struct tag).parts,
        part.nesting ≤ (Kind.struct tag).nesting := by
      intro tag
      cases tag <;> decide
    simpa [isArray] using all tag part h
  | array element length =>
    obtain rfl := List.mem_singleton.mp h
    simp [isArray, nesting, Nat.add_comm]
  | packed tag =>
    obtain rfl := List.mem_singleton.mp h
    cases tag <;> decide
  | _ => cases h

/-- A kind nests at least as much as what is inside it. -/
theorem Nests.le {n : Nat} (h : kind.Nests n) : n ≤ kind.nesting := by
  induction h with
  | here kind =>
    cases kind with
    | struct tag => exact Nat.zero_le _
    | _ => simp [isArray, nesting]
  | inside h _ ih => exact (Nat.add_le_add_left ih _).trans (nesting_part h)

/-- Whether no array has a fixed length, value structs left aside. -/
def isUnmeasured : Kind → Bool
  | .anyArray length => length.isNone
  | .array element length => length.isNone && element.isUnmeasured
  | _ => true

/-- Where no length is measured, there is none. -/
theorem length?_of_isUnmeasured (h : kind.isUnmeasured = true) : kind.length? = none := by
  cases kind with
  | anyArray length => exact Option.isNone_iff_eq_none.mp h
  | array element length => exact Option.isNone_iff_eq_none.mp (Bool.and_eq_true_iff.mp h).1
  | _ => rfl

/-- The items of arrays without lengths have none. -/
theorem isUnmeasured_of_holdsOpenly (h : kind.isUnmeasured = true) (hi : kind.HoldsOpenly item) :
    item.isUnmeasured = true := by
  induction hi with
  | refl => exact h
  | @tail whole item _ hi ih =>
    cases whole with
    | array element length =>
      obtain rfl := Option.some.inj hi
      exact (Bool.and_eq_true_iff.mp ih).2
    | packed tag =>
      obtain rfl := Option.some.inj hi
      cases tag <;> rfl
    | _ => cases hi

/-- Items are no arrays of arrays. -/
theorem OfItem.bounds (h : kind.OfItem known) : kind.nesting ≤ 1 ∧ kind.isUnmeasured = true := by
  cases h with
  | builtIn h =>
    cases h with
    | struct tag => cases tag <;> decide
    | _ => exact ⟨by simp [nesting], rfl⟩
  | _ => exact ⟨Nat.zero_le 1, rfl⟩

/-- Around items there is at most one array. -/
theorem OfProperty.bounds (h : kind.OfProperty known) :
    kind.nesting ≤ 2 ∧ kind.isUnmeasured = true := by
  cases h with
  | single h => exact h.bounds.imp_left (Nat.le_succ_of_le ·)
  | array h => exact h.bounds.imp_left Nat.succ_le_succ

/-- **A kind that a property resolves to is proper.** -/
theorem proper_of_resolve {info : PropertyInfo} (h : resolve known info = .ok kind) :
    kind.Proper known := by
  have wellFormed := resolve_wellFormed h
  obtain ⟨nesting, unmeasured⟩ := (resolve_ofProperty h).bounds
  refine ⟨fun className hp => wellFormed.holds hp, fun owner name flags hp => ?enums, fun tag _ => ?structs,
    fun tag _ => ⟨_, rfl, ?packed⟩,
    fun item hi => length?_of_isUnmeasured (isUnmeasured_of_holdsOpenly unmeasured hi),
    fun n hn => hn.le.trans nesting⟩
  case enums =>
    obtain ⟨hk, ho, hn, hod, hnd⟩ := wellFormed.holds hp
    exact ⟨hk, ⟨ho, hod⟩, ⟨hn, hnd⟩, split_enumPath hod hnd⟩
  case structs => cases tag <;> simp [StructTag.layout]
  case packed => cases tag <;> rfl

end Kind

/-! ## What resolving promises -/

/-- What resolving promises of a property, where `known` tells the names of classes. -/
structure ResolvesByTable (known : String → Bool) (info : PropertyInfo) : Prop where
  /-- The property is unsupported, or it has a proper kind. -/
  ends : (∃ u, resolve known info = .error u) ∨
    ∃ kind, resolve known info = .ok kind ∧ kind.Proper known
  /-- It has a kind exactly where the first row that covers it gives that kind. -/
  decided : ∀ kind, resolve known info = .ok kind ↔ Decides (propertyRows known) info kind
  /-- Distinct enumerations have distinct paths, also in the kinds of two properties. -/
  apart : ∀ other kind kind' owner name flags owner' name' flags',
    resolve known info = .ok kind → kind.Holds (.enum owner name flags) →
    resolve known other = .ok kind' → kind'.Holds (.enum owner' name' flags') →
    enumPath owner name = enumPath owner' name' → owner = owner' ∧ name = name'

/-- **Properties resolve to proper kinds, row by row**: whatever the tag, the class name, the hint and the
usage bits of a property are, and whichever classes are known. -/
theorem kinds_are_decided_by_rows (known : String → Bool) (info : PropertyInfo) :
    ResolvesByTable known info := by
  refine ⟨?ends, fun kind => resolve_eq_ok_iff, ?apart⟩
  case ends =>
    cases h : resolve known info with
    | error u => exact .inl ⟨u, rfl⟩
    | ok kind => exact .inr ⟨kind, rfl, Kind.proper_of_resolve h⟩
  case apart =>
    intro other kind kind' owner name flags owner' name' flags' h hp h' hp' path
    obtain ⟨-, ho, hn, -⟩ := (Kind.proper_of_resolve h).enums _ _ _ hp
    obtain ⟨-, ho', hn', -⟩ := (Kind.proper_of_resolve h').enums _ _ _ hp'
    exact enumPath_injective ho.2 hn.2 ho'.2 hn'.2 path

/-- Items named by a path are of an enumeration, but a class of that name comes first. -/
example :
    let words : PropertyInfo := { type := .array, hint := .arrayType, hintText := "Pet.Kind" }
    resolve (· = "Pet") words = .ok (.array (.enum "Pet" "Kind" false) none) ∧
      resolve (· ∈ ["Pet", "Pet.Kind"]) words = .ok (.array (.object "Pet.Kind") none) := by
  decide

end ReflectedSchema
